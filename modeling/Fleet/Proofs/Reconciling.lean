import Fleet.Proofs.Commuting
import Fleet.Proofs.Network

/-!
# How a replica comes to agree with the server

A client changes its replica before the server hears of it, and the server changes its tree before
the client hears of that. So while frames are on their way the two trees differ, and what is known
is how they will come together (`Station.Reconciles`). One of three things holds:

* the client has *asked* for the whole tree, and nothing else matters;
* the server has *answered*, and the frames behind the answer lead from the tree in it to the tree
  of the server, if to any;
* the client is *following*: where the frames on their way to the client lead its replica, the
  frames on their way to the server lead the tree of the server.

When no frame is on its way the third is the only one left, and it says that the trees are equal.

Frames that are on their way in opposite directions are applied in different orders at the two ends.
So it is assumed that they commute, and that a client which expects the whole tree has no events of
its own on their way that the tree may lack (`Station.Orderly`). There is one lemma here for each
thing that may happen to a station: each is about one client and the tree of the server, whatever
the other clients do.
-/

namespace Fleet

/-! ### Events in frames -/

theorem eventsIn_append (frames more : List String) :
    eventsIn (frames ++ more) = eventsIn frames ++ eventsIn more := List.filterMap_append

theorem eventsIn_cons_of_some {frame : String} {e : Event} (h : eventIn? frame = some e)
    (rest : List String) : eventsIn (frame :: rest) = e :: eventsIn rest :=
  List.filterMap_cons_some h

theorem eventsIn_cons_of_none {frame : String} (h : eventIn? frame = none) (rest : List String) :
    eventsIn (frame :: rest) = eventsIn rest := List.filterMap_cons_none h

theorem mem_eventsIn_cons {e : Event} {rest : List String} (frame : String)
    (h : e ∈ eventsIn rest) : e ∈ eventsIn (frame :: rest) := by
  rw [← List.singleton_append, eventsIn_append]
  exact List.mem_append_right _ h

theorem eventsIn_eq_nil {frames : List String} (h : ∀ frame ∈ frames, eventIn? frame = none) :
    eventsIn frames = [] := List.filterMap_eq_nil_iff.mpr h

theorem eventsIn_encode {events : List Event} (h : ∀ e ∈ events, e.Arrives) :
    eventsIn (events.map fun e => (Message.ofEvent e).encode) = events := by
  induction events with
  | nil => rfl
  | cons e rest ih =>
    rw [List.map_cons, eventsIn_cons_of_some (h e List.mem_cons_self),
      ih fun e' he' => h e' (List.mem_cons_of_mem _ he')]

theorem eventIn?_requestInit : eventIn? Message.requestInit.encode = none :=
  eventIn?_of_decode asks_requestInit

theorem eventIn?_ping : eventIn? Message.ping.encode = none := eventIn?_of_decode decode_ping

theorem eventIn?_pong : eventIn? Message.pong.encode = none := eventIn?_of_decode decode_pong

namespace Sync

namespace Station

/-! ### What is assumed of the frames on their way -/

/-- **The client expects the whole tree**: it has asked, or the answer is on its way. -/
def Awaits (st : Station) : Prop :=
  (∃ frame ∈ st.up, Asks frame) ∨ ∃ frame ∈ st.down, treeIn? frame ≠ none

/-- **The client asks again behind every event** of its own that is on its way. -/
def AsksBehind (st : Station) : Prop :=
  ∀ before frame behind, st.up = before ++ frame :: behind → eventIn? frame ≠ none →
    ∃ later ∈ behind, Asks later

/-- **The frames on their way do not contradict each other**, those included that the session still
has to forward. -/
structure Orderly (st : Station) (pending : List String) : Prop where
  /-- Events on their way in opposite directions commute. -/
  crossing : ∀ e ∈ eventsIn st.up, ∀ f ∈ eventsIn (st.down ++ pending), e.Commutes f
  /-- A client that expects the whole tree has no events behind its last request. -/
  awaiting : st.Awaits → st.AsksBehind

instance (st : Station) : Decidable st.Awaits :=
  inferInstanceAs (Decidable ((∃ frame ∈ st.up, Asks frame) ∨ ∃ frame ∈ st.down, _))

/-- **Frames with independent patches are orderly** where nobody expects the whole tree. -/
theorem orderly_of_independent {st : Station} {pending : List String}
    (hcrossing : ∀ e ∈ eventsIn st.up, ∀ f ∈ eventsIn (st.down ++ pending),
      e.patch.Independent f.patch) (hawaits : ¬ st.Awaits) : st.Orderly pending :=
  ⟨fun e he f hf => (hcrossing e he f hf).commutes, fun h => absurd h hawaits⟩

/-- **A client that says nothing of its own** has nothing to contradict. -/
theorem orderly_of_silent {st : Station} (hsilent : eventsIn st.up = []) (pending : List String) :
    st.Orderly pending := by
  refine ⟨fun e he => ?_, fun _ before frame behind hup hevent => ?_⟩
  · rw [hsilent] at he
    exact absurd he List.not_mem_nil
  · have hframe : frame ∈ st.up := hup ▸ List.mem_append_right _ List.mem_cons_self
    exact absurd (List.filterMap_eq_nil_iff.mp hsilent frame hframe) hevent

/-! ### What is known -/

/-- **How the replica will come to agree** with the tree of the server. -/
inductive Reconciles (st : Station) (t : Tree) (pending : List String) : Prop where
  | asked (hasks : ∃ frame ∈ st.up, Asks frame)
  | answered {before behind : List String} {frame : String} {r : Tree}
      (hdown : st.down = before ++ frame :: behind) (hframe : treeIn? frame = some r.snapshot)
      (hbehind : ∀ f ∈ behind, treeIn? f = none) (hr : r.WellFormed) (hbounds : r.bounds = t.bounds)
      (hleads : ∀ u, r.Leads (eventsIn (behind ++ pending)) u → u = t)
  | following (hdown : ∀ f ∈ st.down, treeIn? f = none)
      (hleads : ∀ u, st.client.replica.Leads (eventsIn (st.down ++ pending)) u →
        t.Leads (eventsIn st.up) u)

/-- **What is known of a station** at any time: its replica, its frames, and how they fit the tree
of the server. -/
structure Sound (st : Station) (t : Tree) (pending : List String) : Prop where
  replica : st.client.replica.WellFormed
  bounds : st.client.replica.bounds = t.bounds
  /-- The events of the client arrive again when they are relayed. -/
  arriving : ∀ e ∈ eventsIn st.up, e.Arrives
  dated : ∀ e ∈ eventsIn st.up ++ eventsIn (st.down ++ pending), e.patch.Dated
  /-- The session forwards no whole trees. -/
  events : ∀ frame ∈ pending, treeIn? frame = none
  /-- What is pending has led to the tree of the server. -/
  origin : ∃ r : Tree, r.WellFormed ∧ r.Leads (eventsIn pending) t
  reconciles : st.Reconciles t pending

variable {st : Station} {t t' : Tree} {pending : List String}

/-- The tree of the server is what its own log leads to, also if the log is applied once more. -/
theorem Sound.leads_pending (h : st.Sound t pending) {u : Tree}
    (hu : t.Leads (eventsIn pending) u) : u = t := by
  obtain ⟨r, hr, hleads⟩ := h.origin
  refine hleads.again hr (fun e he => h.dated e ?_) hu
  rw [eventsIn_append]
  exact List.mem_append_right _ (List.mem_append_right _ he)

theorem Orderly.eventsIn_up (h : st.Orderly pending) (hawaits : st.Awaits)
    (hasks : ¬ ∃ frame ∈ st.up, Asks frame) : eventsIn st.up = [] := by
  refine eventsIn_eq_nil fun frame hframe => Option.not_isSome_iff_eq_none.mp fun hevent => hasks ?_
  obtain ⟨before, behind, hup⟩ := List.append_of_mem hframe
  obtain ⟨later, hlater, hask⟩ :=
    h.awaiting hawaits before frame behind hup (Option.isSome_iff_ne_none.mp hevent)
  exact ⟨later, hup ▸ List.mem_append_right _ (List.mem_cons_of_mem _ hlater), hask⟩

/-! ### Events of others -/

/-- **The server hears of events of others**, or its owner gives a command: their frames are pending
for the client. -/
theorem Sound.hear_others (h : st.Sound t pending) (ht : t.WellFormed) {events : List Event}
    (hdated : ∀ e ∈ events, e.patch.Dated) (harrive : ∀ e ∈ events, e.Arrives)
    (hleads : t.Leads events t')
    (horderly : st.Orderly (pending ++ events.map fun e => (Message.ofEvent e).encode)) :
    st.Sound t' (pending ++ events.map fun e => (Message.ofEvent e).encode) := by
  have hevents := eventsIn_encode harrive
  have hbounds := hleads.bounds ht
  have hall : eventsIn (st.down ++ (pending ++ events.map fun e => (Message.ofEvent e).encode)) =
      eventsIn (st.down ++ pending) ++ events := by
    rw [← List.append_assoc, eventsIn_append, hevents]
  refine ⟨h.replica, h.bounds.trans hbounds.symm, h.arriving, ?_, ?_, ?_, ?_⟩
  · intro e he
    rw [hall, ← List.append_assoc, List.mem_append] at he
    exact he.elim (h.dated e) (hdated e)
  · intro frame hframe
    rcases List.mem_append.mp hframe with hframe | hframe
    · exact h.events frame hframe
    · obtain ⟨e, he, rfl⟩ := List.mem_map.mp hframe
      exact (not_asks_of_eventIn? (harrive e he)).2
  · obtain ⟨r, hr, hpending⟩ := h.origin
    refine ⟨r, hr, ?_⟩
    rw [eventsIn_append, hevents]
    exact hpending.append hleads
  · cases h.reconciles with
    | asked hasks => exact .asked hasks
    | @answered before behind frame r hdown hframe hbehind hr hrbounds hanswer =>
      refine .answered hdown hframe hbehind hr (hrbounds.trans hbounds.symm) fun u hu => ?_
      -- up to the new events everything leads to the tree before them, and so they lead to `t'`
      rw [← List.append_assoc, eventsIn_append, hevents] at hu
      obtain ⟨v, hv, hu⟩ := hu.split
      rw [hanswer v hv] at hu
      exact hu.unique ht hdated hleads
    | following hdown hfollow =>
      refine .following hdown fun u hu => ?_
      rw [hall] at hu
      obtain ⟨v, hv, hu⟩ := hu.split
      -- the events of the client are on their way past those that the server has heard of
      have hcommutes : ∀ e ∈ eventsIn st.up, ∀ f ∈ events, e.Commutes f := fun e he f hf =>
        horderly.crossing e he f (by rw [hall]; exact List.mem_append_right _ hf)
      have hswapped := ((hfollow v hv).append hu).swap hcommutes ht
      obtain ⟨w, hw, hu⟩ := hswapped.split
      rw [← hw.unique ht hdated hleads]
      exact hu

/-! ### Frames of the client at the server -/

/-- **The server takes an event of the client**, which its session does not forward. -/
theorem Sound.serve_event (h : st.Sound t pending) (ht : t.WellFormed)
    (horderly : st.Orderly pending) {frame : String} {rest : List String}
    (hup : st.up = frame :: rest) {e : Event} (hevent : eventIn? frame = some e) {now : Time}
    (happly : t.apply now e.manner e.patch = .ok t') :
    Sound { st with up := rest } t' pending := by
  have hevents : eventsIn st.up = e :: eventsIn rest := by
    rw [hup, eventsIn_cons_of_some hevent]
  have hdated : e.patch.Dated := h.dated e (by rw [hevents]; exact List.mem_cons_self)
  have hstep : t.Leads [e] t' := .step now happly (.done t')
  have hbounds := hstep.bounds ht
  refine ⟨h.replica, h.bounds.trans hbounds.symm, fun e' he' => h.arriving e' ?_,
    fun e' he' => h.dated e' ?_, h.events, ?_, ?_⟩
  · rw [hevents]
    exact List.mem_cons_of_mem _ he'
  · rw [hevents, List.cons_append]
    exact List.mem_cons_of_mem _ he'
  -- the event comes before what is pending as well as after it
  · obtain ⟨r, hr, hpending⟩ := h.origin
    have hcommutes : ∀ f ∈ eventsIn pending, ∀ e' ∈ [e], f.Commutes e' := by
      intro f hf e' he'
      rw [List.mem_singleton.mp he']
      refine (horderly.crossing e (by rw [hevents]; exact List.mem_cons_self) f ?_).symm
      rw [eventsIn_append]
      exact List.mem_append_right _ hf
    obtain ⟨r', hr', hpending⟩ := ((hpending.append hstep).swap hcommutes hr).split
    exact ⟨r', hr'.wellFormed hr, hpending⟩
  · have hfirst : ∀ f ∈ st.up, Asks f → f ∈ rest := by
      intro f hf hask
      rw [hup, List.mem_cons] at hf
      refine hf.resolve_left fun heq => (not_asks_of_eventIn? hevent).1 ?_
      exact heq ▸ hask
    cases h.reconciles with
    | asked hasks =>
      obtain ⟨f, hf, hask⟩ := hasks
      exact .asked ⟨f, hfirst f hf hask, hask⟩
    | answered hdown hframe hbehind hr hrbounds hanswer =>
      -- an event that is not in the answer is followed by another request
      have hawaits : st.Awaits := .inr ⟨_, by
        rw [hdown]
        exact List.mem_append_right _ List.mem_cons_self, by simp [hframe]⟩
      obtain ⟨later, hlater, hask⟩ :=
        horderly.awaiting hawaits [] frame rest hup (by simp [hevent])
      exact .asked ⟨later, hlater, hask⟩
    | following hdown hfollow =>
      refine .following hdown fun u hu => ?_
      have hleads := hfollow u hu
      rw [hevents] at hleads
      obtain ⟨v, hv, hleads⟩ : ∃ v, t.Leads [e] v ∧ v.Leads (eventsIn rest) u := hleads.split
      have hsingle : ∀ e' ∈ [e], e'.patch.Dated := by simpa using hdated
      rw [← hv.unique ht hsingle hstep]
      exact hleads

/-- **The server refuses or ignores a frame of the client.** -/
theorem Sound.serve_idle (h : st.Sound t pending) (ht : t.WellFormed) {frame : String}
    {rest : List String} (hup : st.up = frame :: rest) (hasks : ¬ Asks frame) {now : Time}
    (hrefused : ∀ e, eventIn? frame = some e → ∀ u, t.apply now e.manner e.patch ≠ .ok u)
    {answers : List String} (hanswers : ∀ a ∈ answers, eventIn? a = none ∧ treeIn? a = none) :
    Sound { st with up := rest, down := st.down ++ answers } t pending := by
  have hnone : eventsIn answers = [] := eventsIn_eq_nil fun a ha => (hanswers a ha).1
  have hrest : ∀ e ∈ eventsIn rest, e ∈ eventsIn st.up := fun e he =>
    hup ▸ mem_eventsIn_cons frame he
  have hdown : eventsIn (st.down ++ answers ++ pending) = eventsIn (st.down ++ pending) := calc
    _ = eventsIn st.down ++ eventsIn answers ++ eventsIn pending := by
      rw [eventsIn_append, eventsIn_append]
    _ = eventsIn st.down ++ eventsIn pending := by rw [hnone, List.append_nil]
    _ = eventsIn (st.down ++ pending) := (eventsIn_append _ _).symm
  refine ⟨h.replica, h.bounds, fun e he => h.arriving e (hrest e he), fun e he => ?_, h.events,
    h.origin, ?_⟩
  · rw [hdown, List.mem_append] at he
    exact h.dated e (List.mem_append.mpr (he.imp_left (hrest e)))
  · cases h.reconciles with
    | asked hasked =>
      obtain ⟨f, hf, hask⟩ := hasked
      rw [hup, List.mem_cons] at hf
      exact .asked ⟨f, hf.resolve_left fun heq => hasks (heq ▸ hask), hask⟩
    -- what the server adds behind its answer tells of nothing
    | @answered before behind answer r hsplit hframe hbehind hr hrbounds hanswer =>
      have hsplit' : st.down ++ answers = before ++ answer :: (behind ++ answers) := by
        rw [hsplit, List.append_assoc, List.cons_append]
      refine .answered hsplit' hframe (fun f hf => ?_) hr hrbounds fun u hu => hanswer u ?_
      · exact (List.mem_append.mp hf).elim (hbehind f) fun hf => (hanswers f hf).2
      · rw [eventsIn_append, eventsIn_append, hnone, List.append_nil, ← eventsIn_append] at hu
        exact hu
    | following htrees hfollow =>
      refine .following (fun f hf => ?_) fun u hu => ?_
      · exact (List.mem_append.mp hf).elim (htrees f) fun hf => (hanswers f hf).2
      · rw [hdown] at hu
        have hleads := hfollow u hu
        cases hevent : eventIn? frame with
        | none =>
          rw [hup, eventsIn_cons_of_none hevent] at hleads
          exact hleads
        -- a refused event would not have been refused at another clock
        | some e =>
          have hdated : e.patch.Dated := h.dated e (by
            rw [hup, eventsIn_cons_of_some hevent]
            exact List.mem_cons_self)
          rw [hup, eventsIn_cons_of_some hevent] at hleads
          cases hleads with
          | step now' happly hleads =>
            have htakes := (Tree.takes_of_apply ht happly).withClock hdated now
            exact absurd ((Tree.apply_eq_ok_iff ht).mpr htakes) (hrefused e hevent _)

/-- **The server sends the whole tree.** Whatever was known before does not matter any more. -/
theorem Sound.send_tree (h : st.Sound t pending) (ht : t.WellFormed) {up : List String}
    (hup : ∀ e ∈ eventsIn up, e ∈ eventsIn st.up) (harrives : (Message.ofTree t).Arrives) :
    Sound { st with up, down := st.down ++ [(Message.ofTree t).encode] } t pending := by
  have htree : treeIn? (Message.ofTree t).encode = some t.snapshot := treeIn?_of_decode harrives
  have hnone : eventIn? (Message.ofTree t).encode = none := eventIn?_of_decode harrives
  have hdown : eventsIn (st.down ++ [(Message.ofTree t).encode] ++ pending) =
      eventsIn (st.down ++ pending) := by
    rw [List.append_assoc, List.singleton_append, eventsIn_append, eventsIn_cons_of_none hnone,
      ← eventsIn_append]
  refine ⟨h.replica, h.bounds, fun e he => h.arriving e (hup e he), fun e he => ?_, h.events,
    h.origin, ?_⟩
  · rw [hdown, List.mem_append] at he
    exact h.dated e (List.mem_append.mpr (he.imp_left (hup e)))
  -- what is pending is in the answer already, and to apply it again does nothing
  · refine .answered rfl htree (fun f hf => absurd hf List.not_mem_nil) ht rfl fun u hu => ?_
    exact h.leads_pending hu

/-- **The server answers a request** of the client with the whole tree. -/
theorem Sound.serve_request (h : st.Sound t pending) (ht : t.WellFormed) {frame : String}
    {rest : List String} (hup : st.up = frame :: rest) (hasks : Asks frame)
    (harrives : (Message.ofTree t).Arrives) :
    Sound { st with up := rest, down := st.down ++ [(Message.ofTree t).encode] } t pending := by
  have hup' : eventsIn st.up = eventsIn rest := by
    rw [hup, eventsIn_cons_of_none (eventIn?_of_decode hasks)]
  exact h.send_tree ht (fun e he => hup' ▸ he) harrives

/-! ### Frames for the client -/

/-- **The session forwards** the first of what is pending. -/
theorem Sound.forward {frames : List String} (h : st.Sound t (frames ++ pending)) :
    Sound { st with down := st.down ++ frames } t pending := by
  have hdown : eventsIn (st.down ++ frames ++ pending) =
      eventsIn (st.down ++ (frames ++ pending)) := by
    rw [List.append_assoc]
  have hframes : ∀ f ∈ frames, treeIn? f = none := fun f hf =>
    h.events f (List.mem_append_left _ hf)
  refine ⟨h.replica, h.bounds, h.arriving, fun e he => h.dated e (by rw [← hdown]; exact he),
    fun f hf => h.events f (List.mem_append_right _ hf), ?_, ?_⟩
  -- what is pending starts from the tree that the forwarded frames lead to
  · obtain ⟨r, hr, hpending⟩ := h.origin
    rw [eventsIn_append] at hpending
    obtain ⟨r', hr', hpending⟩ := hpending.split
    exact ⟨r', hr'.wellFormed hr, hpending⟩
  · cases h.reconciles with
    | asked hasks => exact .asked hasks
    -- the forwarded frames follow the answer, and hold no other one
    | @answered before behind answer r hsplit hframe hbehind hr hrbounds hanswer =>
      have hsplit' : st.down ++ frames = before ++ answer :: (behind ++ frames) := by
        rw [hsplit, List.append_assoc, List.cons_append]
      refine .answered hsplit' hframe (fun f hf => ?_) hr hrbounds fun u hu => hanswer u ?_
      · exact (List.mem_append.mp hf).elim (hbehind f) (hframes f)
      · rw [← List.append_assoc]
        exact hu
    | following htrees hfollow =>
      refine .following (fun f hf => ?_) fun u hu => hfollow u ?_
      · exact (List.mem_append.mp hf).elim (htrees f) (hframes f)
      · rw [← hdown]
        exact hu

/-- **A client that has asked** for the whole tree does not depend on the frames on their way to it,
nor the tree of the server on those on their way from it. -/
theorem Sound.asking (h : st.Sound t pending) {up down : List String}
    (hasks : ∃ frame ∈ up, Asks frame) (hup : ∀ e ∈ eventsIn up, e ∈ eventsIn st.up)
    (hdown : ∀ e ∈ eventsIn down, e ∈ eventsIn st.down) :
    Sound { st with up, down } t pending := by
  refine ⟨h.replica, h.bounds, fun e he => h.arriving e (hup e he), fun e he => h.dated e ?_,
    h.events, h.origin, .asked hasks⟩
  simp only [eventsIn_append, List.mem_append] at he ⊢
  exact he.imp (hup e) (Or.imp_left (hdown e))

/-- **A client that has asked** for the whole tree does not miss what its session loses. -/
theorem Sound.lose {lost : List String} (h : st.Sound t (lost ++ pending))
    (hasks : ∃ frame ∈ st.up, Asks frame) : st.Sound t pending := by
  refine ⟨h.replica, h.bounds, h.arriving, fun e he => h.dated e ?_,
    fun f hf => h.events f (List.mem_append_right _ hf), ?_, .asked hasks⟩
  · simp only [eventsIn_append, List.mem_append] at he ⊢
    exact he.imp_right (Or.imp_right .inr)
  -- what is left of the log starts where the lost part of it has led to
  · obtain ⟨r, hr, hpending⟩ := h.origin
    rw [eventsIn_append] at hpending
    obtain ⟨r', hlost, hpending⟩ := hpending.split
    exact ⟨r', hlost.wellFormed hr, hpending⟩

/-- **The client asks** for the whole tree, perhaps because of a frame that did not fit. Whatever
was known before does not matter any more. -/
theorem Sound.ask (h : st.Sound t pending) {rest : List String}
    (hrest : ∀ e ∈ eventsIn rest, e ∈ eventsIn st.down) :
    Sound { st with up := st.up ++ [Message.requestInit.encode], down := rest } t pending := by
  have hup : eventsIn (st.up ++ [Message.requestInit.encode]) = eventsIn st.up := by
    rw [eventsIn_append, eventsIn_cons_of_none eventIn?_requestInit]
    exact List.append_nil _
  have hasks : ∃ frame ∈ st.up ++ [Message.requestInit.encode], Asks frame :=
    ⟨_, List.mem_append_right _ List.mem_cons_self, asks_requestInit⟩
  exact h.asking hasks (fun e he => hup ▸ he) hrest

/-- **The client says something** that is of no interest to the server. -/
theorem Sound.say (h : st.Sound t pending) {frames : List String}
    (hframes : ∀ frame ∈ frames, eventIn? frame = none) :
    Sound { st with up := st.up ++ frames } t pending := by
  have hup : eventsIn (st.up ++ frames) = eventsIn st.up := by
    rw [eventsIn_append, eventsIn_eq_nil hframes, List.append_nil]
  refine ⟨h.replica, h.bounds, fun e he => h.arriving e (hup ▸ he), fun e he => ?_, h.events,
    h.origin, ?_⟩
  · rw [hup] at he
    exact h.dated e he
  · cases h.reconciles with
    | asked hasks =>
      obtain ⟨f, hf, hask⟩ := hasks
      exact .asked ⟨f, List.mem_append_left _ hf, hask⟩
    | answered hsplit hframe hbehind hr hrbounds hanswer =>
      exact .answered hsplit hframe hbehind hr hrbounds hanswer
    | following htrees hfollow => exact .following htrees fun u hu => hup ▸ hfollow u hu

/-- **The client takes an event** that fits its replica. -/
theorem Sound.hear_event (h : st.Sound t pending) {frame : String} {rest : List String}
    (hdown : st.down = frame :: rest) {e : Event} (hevent : eventIn? frame = some e) {now : Time}
    {r : Tree} (happly : st.client.replica.apply now e.manner e.patch = .ok r) :
    Sound { st with client := { st.client with replica := r }, down := rest } t pending := by
  have hstep : st.client.replica.Leads [e] r := .step now happly (.done r)
  have hevents : eventsIn (st.down ++ pending) = e :: eventsIn (rest ++ pending) := by
    rw [hdown, List.cons_append, eventsIn_cons_of_some hevent]
  refine ⟨hstep.wellFormed h.replica, (hstep.bounds h.replica).trans h.bounds, h.arriving,
    fun e' he' => h.dated e' ?_, h.events, h.origin, ?_⟩
  · rw [hevents]
    exact List.mem_append.mpr ((List.mem_append.mp he').imp_right (List.mem_cons_of_mem _))
  · cases h.reconciles with
    | asked hasks => exact .asked hasks
    | @answered before behind answer r' hsplit hframe hbehind hr hrbounds hanswer =>
      rw [hdown] at hsplit
      cases before with
      -- the event is not the answer, so it comes before it and the answer makes up for it
      | nil =>
        cases hsplit
        rw [(not_asks_of_eventIn? hevent).2] at hframe
        cases hframe
      | cons f before =>
        cases hsplit
        exact .answered rfl hframe hbehind hr hrbounds hanswer
    | following htrees hfollow =>
      refine .following (fun f hf => htrees f (hdown ▸ List.mem_cons_of_mem _ hf)) fun u hu => ?_
      refine hfollow u ?_
      rw [hevents]
      exact .step now happly hu

/-- **The client takes the whole tree**, which may not be the last that is on its way. -/
theorem Sound.hear_tree (h : st.Sound t pending) (horderly : st.Orderly pending) {frame : String}
    {rest : List String} (hdown : st.down = frame :: rest) {s : Snapshot}
    (hframe : treeIn? frame = some s) {r : Tree}
    (hrestore : st.client.replica.restore s = .ok r) :
    Sound { st with client := { st.client with replica := r }, down := rest } t pending := by
  have hnone : eventIn? frame = none := by
    cases hevent : eventIn? frame with
    | none => rfl
    | some e =>
      rw [(not_asks_of_eventIn? hevent).2] at hframe
      cases hframe
  have hevents : eventsIn (st.down ++ pending) = eventsIn (rest ++ pending) := by
    rw [hdown, List.cons_append, eventsIn_cons_of_none hnone]
  refine ⟨Tree.wellFormed_restore hrestore, (Tree.bounds_restore hrestore).trans h.bounds,
    h.arriving, fun e he => h.dated e (by rw [hevents]; exact he), h.events, h.origin, ?_⟩
  cases h.reconciles with
  | asked hasks => exact .asked hasks
  | @answered before behind answer r' hsplit hanswers hbehind hr hrbounds hanswer =>
    rw [hdown] at hsplit
    cases before with
    -- an earlier answer, after which the last one is still to come
    | cons f before =>
      cases hsplit
      exact .answered rfl hanswers hbehind hr hrbounds hanswer
    | nil =>
      cases hsplit
      -- the replica is the tree in the answer, to which the client has nothing to add
      by_cases hasks : ∃ frame ∈ st.up, Asks frame
      · exact .asked hasks
      have hup : eventsIn st.up = [] :=
        horderly.eventsIn_up (.inr ⟨frame, hdown ▸ List.mem_cons_self, by simp [hframe]⟩) hasks
      have hreplica : r = r' := by
        rw [hframe] at hanswers
        cases hanswers
        rw [Tree.restore_snapshot hr] at hrestore
        cases hrestore
        rw [h.bounds, ← hrbounds]
      refine .following hbehind fun u hu => ?_
      rw [hreplica] at hu
      rw [hanswer u hu, hup]
      exact .done t
  | following htrees hfollow =>
    have htree := htrees frame (hdown ▸ List.mem_cons_self)
    rw [hframe] at htree
    cases htree

/-- **The client takes a frame that tells it nothing**, and may answer with another one. -/
theorem Sound.hear_idle (h : st.Sound t pending) {frame : String} {rest : List String}
    (hdown : st.down = frame :: rest) (hevent : eventIn? frame = none)
    (hrefused : ∀ s, treeIn? frame = some s → ∀ r, st.client.replica.restore s ≠ .ok r)
    {answers : List String} (hanswers : ∀ a ∈ answers, eventIn? a = none) :
    Sound { st with up := st.up ++ answers, down := rest } t pending := by
  have hevents : eventsIn (st.down ++ pending) = eventsIn (rest ++ pending) := by
    rw [hdown, List.cons_append, eventsIn_cons_of_none hevent]
  have hheard : Sound { st with down := rest } t pending := by
    refine ⟨h.replica, h.bounds, h.arriving, fun e he => h.dated e (by rw [hevents]; exact he),
      h.events, h.origin, ?_⟩
    cases h.reconciles with
    | asked hasks => exact .asked hasks
    | @answered before behind answer r hsplit hframe hbehind hr hrbounds hanswer =>
      rw [hdown] at hsplit
      cases before with
      -- a whole tree is never refused
      | nil =>
        cases hsplit
        exact absurd (Tree.restore_snapshot hr _) (hrefused _ hframe _)
      | cons f before =>
        cases hsplit
        exact .answered rfl hframe hbehind hr hrbounds hanswer
    | following htrees hfollow =>
      refine .following (fun f hf => htrees f (hdown ▸ List.mem_cons_of_mem _ hf)) fun u hu => ?_
      rw [← hevents] at hu
      exact hfollow u hu
  exact hheard.say hanswers

/-! ### The owner of the client -/

/-- **The owner of the client gives a command**, whose events follow what is on its way. -/
theorem Sound.edit (h : st.Sound t pending) {events : List Event} {r : Tree}
    (hleads : st.client.replica.Leads events r) (hdated : ∀ e ∈ events, e.patch.Dated)
    (harrive : ∀ e ∈ events, e.Arrives) {st' : Station}
    (hclient : st'.client.replica = r) (hdown : st'.down = st.down)
    (hup : st'.up = st.up ++ events.map fun e => (Message.ofEvent e).encode)
    (horderly : st'.Orderly pending) : st'.Sound t pending := by
  have hevents : eventsIn st'.up = eventsIn st.up ++ events := by
    rw [hup, eventsIn_append, eventsIn_encode harrive]
  refine ⟨hclient ▸ hleads.wellFormed h.replica,
    hclient ▸ (hleads.bounds h.replica).trans h.bounds, fun e he => ?_, fun e he => ?_, h.events,
    h.origin, ?_⟩
  · rw [hevents] at he
    exact (List.mem_append.mp he).elim (h.arriving e) (harrive e)
  · rw [hevents, hdown] at he
    rcases List.mem_append.mp he with he | he
    · exact (List.mem_append.mp he).elim (fun he => h.dated e (List.mem_append_left _ he))
        (hdated e)
    · exact h.dated e (List.mem_append_right _ he)
  · cases h.reconciles with
    | asked hasks =>
      obtain ⟨f, hf, hask⟩ := hasks
      exact .asked ⟨f, hup ▸ List.mem_append_left _ hf, hask⟩
    | answered hsplit hframe hbehind hr hrbounds hanswer =>
      exact .answered (hdown.trans hsplit) hframe hbehind hr hrbounds hanswer
    | following htrees hfollow =>
      refine .following (hdown ▸ htrees) fun u hu => ?_
      rw [hdown, hclient] at hu
      -- what is on its way to the client is on its way past what the client does now
      have hcommutes : ∀ e ∈ events, ∀ f ∈ eventsIn (st.down ++ pending), e.Commutes f := by
        intro e he f hf
        refine horderly.crossing e ?_ f (hdown ▸ hf)
        rw [hevents]
        exact List.mem_append_right _ he
      obtain ⟨v, hv, hu⟩ := ((hleads.append hu).swap hcommutes h.replica).split
      rw [hevents]
      exact (hfollow v hv).append hu

/-! ### The end -/

/-- **When no frame is on its way**, the replica is the tree of the server. -/
theorem Sound.eq_of_quiet (h : st.Sound t []) (hup : st.up = []) (hdown : st.down = []) :
    st.client.replica = t := by
  cases h.reconciles with
  | asked hasks =>
    obtain ⟨frame, hframe, -⟩ := hasks
    rw [hup] at hframe
    cases hframe
  | answered hsplit hframe hbehind hr hrbounds hanswer =>
    rw [hdown] at hsplit
    exact absurd hsplit.symm (by simp)
  | following htrees hfollow =>
    -- nothing is on its way in either direction, so nothing leads from the one to the other
    have hleads := hfollow st.client.replica
    rw [hdown, hup] at hleads
    have hend := hleads (.done _)
    cases hend
    rfl

/-- **At the start**, no frame is on its way and the replica is the tree of the server. -/
theorem sound_of_quiet (ht : t.WellFormed) (hup : st.up = []) (hdown : st.down = [])
    (hreplica : st.client.replica = t) : st.Sound t [] := by
  refine ⟨hreplica ▸ ht, congrArg _ hreplica, ?_, ?_, fun f hf => absurd hf List.not_mem_nil,
    ⟨t, ht, .done t⟩, .following ?_ fun u hu => ?_⟩
  · rw [hup]
    exact fun e he => absurd he List.not_mem_nil
  · rw [hup, hdown]
    exact fun e he => absurd he List.not_mem_nil
  · rw [hdown]
    exact fun f hf => absurd hf List.not_mem_nil
  · rw [hdown, hreplica] at hu
    rw [hup]
    exact hu

end Station

end Sync

end Fleet
