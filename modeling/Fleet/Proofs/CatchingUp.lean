import Fleet.Proofs.Reader

/-!
# Catching up

A client that makes no changes of its own always catches up with the server: once it has got the
whole tree, and nothing is on its way any more, it has the tree of the server (`Reader.caught_up`).

Meanwhile it may be behind the server or ahead of it. A request is answered at once, so the whole
tree overtakes the events that its session has not forwarded yet, and these come a second time after
it. A session that falls behind loses frames, and forwards the whole tree in their place with frames
behind it that the tree already contains. And an event that does not fit the replica makes the
client ask for the whole tree once more.

Nothing is known of a client that lacks frames, except that a whole tree would set it right. So the
invariant (`Reader.Sound`) has two parts. If the client asked now, all would be well; and if its
session is in time and the client has been sent a whole tree, then all is well without that.
-/

namespace Fleet.Sync

/-- The station if the client asks for the whole tree. -/
def Station.withRequest (st : Station) : Station :=
  { st with up := st.up ++ [Message.requestInit.encode] }

namespace Reader

/-- The whole tree was sent to the client, and perhaps has not come yet. -/
def Served (r : Reader) : Prop := r.Informed ∨ ∃ frame ∈ r.station.down, treeIn? frame ≠ none

/-- **What is known at any time.** -/
structure Sound (r : Reader) : Prop where
  server : r.server.Coherent
  session : ∃ x, r.server.sessions.get? r.number = some x
  live : r.station.client.Live
  tree : r.server.tree.WellFormed
  /-- The client has no events of its own. -/
  silent : eventsIn r.station.up = []
  /-- A whole tree would set the client right. -/
  asking : r.station.withRequest.Sound r.server.tree (r.server.pending r.number)
  /-- A client that was sent a whole tree is right, unless its session has lost frames since. -/
  following : r.server.InTime r.number → r.Served →
    r.station.Sound r.server.tree (r.server.pending r.number)

variable {r : Reader} {now : Time}

/-! ### Clients that say nothing of their own -/

/-- A client that says nothing of its own still does so if it says what is no event. -/
theorem eventsIn_append_silent {frames more : List String} (hsilent : eventsIn frames = [])
    (hmore : ∀ frame ∈ more, eventIn? frame = none) : eventsIn (frames ++ more) = [] := by
  rw [eventsIn_append, hsilent, eventsIn_eq_nil hmore]
  rfl

theorem subset_of_silent {frames more : List String} (hsilent : eventsIn frames = []) :
    ∀ e ∈ eventsIn frames, e ∈ eventsIn more := by
  rw [hsilent]
  exact List.forall_mem_nil _

theorem silent_withRequest {st : Station} (hsilent : eventsIn st.up = []) :
    eventsIn st.withRequest.up = [] :=
  eventsIn_append_silent hsilent (by simpa using eventIn?_requestInit)

theorem asks_withRequest (st : Station) : ∃ frame ∈ st.withRequest.up, Asks frame :=
  ⟨_, List.mem_append_right _ List.mem_cons_self, asks_requestInit⟩

/-! ### The invariant at the start and at the end -/

theorem Started.sound (h : r.Started) : r.Sound := by
  obtain ⟨hserver, hintime, hpending, hlive, htree, hreplica, hbounds, hsilent, hdown, htaken⟩ := h
  obtain ⟨x, hx, -⟩ := hintime
  have hup := silent_withRequest hsilent
  refine ⟨hserver, ⟨x, hx⟩, hlive, htree, hsilent, ?_, fun _ hserved => ?_⟩
  · rw [hpending]
    refine ⟨hreplica, hbounds, hup ▸ List.forall_mem_nil _, ?_, List.forall_mem_nil _,
      ⟨_, htree, .done _⟩, .asked (asks_withRequest _)⟩
    rw [hup]
    show ∀ e ∈ [] ++ eventsIn (r.station.down ++ []), _
    rw [hdown]
    exact List.forall_mem_nil _
  -- nothing was sent, in particular no whole tree
  · unfold Served Informed at hserved
    rw [hdown, htaken] at hserved
    rcases hserved with ⟨f, hf, -⟩ | ⟨f, hf, -⟩
    · exact absurd hf List.not_mem_nil
    · exact absurd hf List.not_mem_nil

theorem Sound.agrees (h : r.Sound) (hquiet : r.Quiet) (hinformed : r.Informed) : r.Agrees := by
  obtain ⟨hup, hdown, hforward⟩ := hquiet
  obtain ⟨x, hx⟩ := h.session
  obtain ⟨hintime, hpending⟩ := Server.inTime_of_forward_eq_none h.server hx
    (Option.isNone_iff_eq_none.mp hforward)
  have hstation := h.following hintime (.inl hinformed)
  rw [hpending] at hstation
  exact congrArg Tree.snapshot (hstation.eq_of_quiet hup hdown)

/-- If all is well with the station itself, then so it is if the client asks. -/
theorem sound_of_station (hserver : r.server.Coherent)
    (hsession : ∃ x, r.server.sessions.get? r.number = some x) (hlive : r.station.client.Live)
    (htree : r.server.tree.WellFormed) (hsilent : eventsIn r.station.up = [])
    (hstation : r.station.Sound r.server.tree (r.server.pending r.number)) : r.Sound :=
  ⟨hserver, hsession, hlive, htree, hsilent, hstation.ask fun _ he => he, fun _ _ => hstation⟩

/-! ### The server and other sessions -/

/-- **Events that others have caused join the queue of the session**, or frames are lost. -/
theorem Sound.elsewhere (h : r.Sound) {s : Server} {events : List Event}
    {frames : List String} (hqueues : r.server.Queues s r.number frames)
    (hframes : frames = events.map fun e => (Message.ofEvent e).encode)
    (hleads : r.server.tree.Leads events s.tree) (hdated : ∀ e ∈ events, e.patch.Dated)
    (harrive : ∀ e ∈ events, e.Arrives) : Sound { r with server := s } := by
  obtain ⟨x, hx⟩ := h.session
  subst hframes
  refine ⟨hqueues.coherent, ⟨x, hqueues.session.trans hx⟩, h.live, hleads.wellFormed h.tree,
    h.silent, ?_, fun hintime hserved => ?_⟩
  · have hall := h.asking.hear_others h.tree hdated harrive hleads
      (Station.orderly_of_silent (silent_withRequest h.silent) _)
    -- whatever of these frames is lost, the whole tree that the client asks for makes up for it
    obtain ⟨lost, hlost⟩ := hqueues.suffix
    rw [← hlost] at hall
    exact hall.lose (asks_withRequest _)
  · obtain ⟨hbefore, hpending⟩ := hqueues.inTime hintime
    show Station.Sound r.station s.tree (s.pending r.number)
    rw [hpending]
    exact (h.following hbefore hserved).hear_others h.tree hdated harrive hleads
      (Station.orderly_of_silent h.silent _)

/-- **The server does something that is not told to the session.** -/
theorem Sound.spare (h : r.Sound) {s : Server} (hqueues : r.server.Queues s r.number [])
    (htree : s.tree = r.server.tree) : Sound { r with server := s } := by
  have hleads : r.server.tree.Leads [] s.tree := htree ▸ .done _
  exact h.elsewhere hqueues rfl hleads (List.forall_mem_nil _) (List.forall_mem_nil _)

theorem Sound.command (h : r.Sound) {c : Tree.Command}
    (hpermits : Network.Permits now r.server.tree c) : (r.step now (.command c)).Sound := by
  have htold : (c.run now r.server.tree).Told _ r.server.tree :=
    Tree.Command.told h.tree hpermits.1
  have htree := r.server.tree_edit (c.run now)
  obtain ⟨x, hx⟩ := h.session
  have hqueues := Server.queues_sends h.server (r.server.sends_edit (c.run now)) hx
  rw [Server.framesFor_foreign (by simp [Envelope.ofEvent])] at hqueues
  exact h.elsewhere hqueues List.map_map (htree ▸ Tree.Told.leads htold h.tree)
    (Tree.Told.dated htold) hpermits.2

theorem Sound.frame (h : r.Sound) {k : Nat} {frame : String} (hk : k ≠ r.number)
    (haccepted : ∀ e ∈ eventIn? frame,
      ∀ t ∈ (r.server.tree.apply now e.manner e.patch).toOption, e.patch.Dated ∧ e.Arrives) :
    (r.step now (.frame k frame)).Sound := by
  obtain ⟨x, hx⟩ := h.session
  show Sound { r with server := (r.server.receive now k frame).1 }
  cases hy : r.server.sessions.get? k with
  | none =>
    unfold Server.receive
    rw [hy]
    exact h
  | some y =>
    have hreceives := (Server.receives hy now frame).1
    generalize (r.server.receive now k frame).1 = s at hreceives ⊢
    generalize r.server.answer? now k frame = answer at hreceives
    cases hreceives with
    -- nothing is relayed, and the tree stays as it is
    | answered hasks htree hsends => exact h.spare (Server.queues_sends h.server hsends hx) htree
    | idle hasks hrefused htree hsends hidle =>
      exact h.spare (Server.queues_sends h.server hsends hx) htree
    -- the patch comes from another session, so the reader gets it behind all that waits for it
    | @applied e hevent happly hsends =>
      obtain ⟨hdated, harrives⟩ := haccepted e hevent _ (toOption_eq_some_iff.mpr happly)
      have hid : y.id ≠ x.id := (h.server.differ k r.number y x hy hx hk).1
      have hqueues := Server.queues_sends h.server hsends hx
      rw [Server.framesFor_foreign (by simpa [Envelope.ofPatch] using hid)] at hqueues
      have hframes : [Envelope.ofPatch y.id e.patch e.manner].map Envelope.frame =
          [e].map fun e => (Message.ofEvent e).encode := rfl
      exact h.elsewhere hqueues hframes (.step now happly (.done _)) (by simpa using hdated)
        (by simpa using harrives)

theorem Sound.relay (h : r.Sound) {k : Nat} (hk : k ≠ r.number) :
    (r.step now (.relay k)).Sound := by
  obtain ⟨x, hx⟩ := h.session
  unfold step
  dsimp only
  cases hforward : r.server.forward k with
  | none => exact h
  | some q =>
    obtain ⟨s, frames⟩ := q
    exact h.spare (Server.queues_forward h.server hforward hk.symm hx)
      (Server.moves_forward h.server hforward).2.2.1

theorem Sound.join (h : r.Sound) {id : Uuid} (address : Option Address)
    (hid : ∀ k x, r.server.sessions.get? k = some x → x.id ≠ id) :
    (r.step now (.join id address)).Sound := by
  obtain ⟨x, hx⟩ := h.session
  exact h.spare (Server.queues_openSession h.server hid now address hx) rfl

theorem Sound.leave (h : r.Sound) {k : Nat} (hk : k ≠ r.number) :
    (r.step now (.leave k)).Sound := by
  obtain ⟨x, hx⟩ := h.session
  refine h.spare (Server.queues_closeSession h.server hk.symm hx) ?_
  unfold Server.closeSession
  split <;> rfl

theorem Sound.lose (h : r.Sound) (m : Nat) : (r.step now (.lose m)).Sound := by
  obtain ⟨x, hx⟩ := h.session
  exact h.spare (Server.queues_lose h.server m hx) rfl

/-! ### The session and its client -/

/-- The client says something that is no event. -/
theorem Sound.say (h : r.Sound) {m : Message} (hm : eventIn? m.encode = none) :
    (r.say m).Sound := by
  obtain ⟨handed, hsend, hframe⟩ := Client.sendLive_of_live h.live m
  have hnone : ∀ frame ∈ [m.encode], eventIn? frame = none := by simpa using hm
  have hsilent : eventsIn { r.station with up := r.station.up ++ [m.encode] }.up = [] :=
    eventsIn_append_silent h.silent hnone
  unfold Reader.say
  rw [hsend]
  dsimp only
  rw [hframe]
  refine ⟨h.server, h.session, h.live, h.tree, hsilent, ?_, fun hintime hserved => ?_⟩
  · exact h.asking.asking (asks_withRequest _) (subset_of_silent (silent_withRequest hsilent))
      fun _ he => he
  · exact (h.following hintime hserved).say hnone

/-- **The server takes a frame of the client**, and may answer with the whole tree. -/
theorem Sound.serve (h : r.Sound) (hallows : r.Allows now .serve) : (r.step now .serve).Sound := by
  unfold step
  dsimp only
  cases hup : r.station.up with
  | nil => exact h
  | cons frame rest =>
    obtain ⟨x, hx⟩ := h.session
    obtain ⟨hreceives, hanswers⟩ := Server.receives hx now frame
    have hanswer := hallows frame (by rw [hup]; rfl)
    have hfirst : eventIn? frame = none :=
      List.filterMap_eq_nil_iff.mp h.silent frame (hup ▸ List.mem_cons_self)
    have hsilent : eventsIn rest = [] := by
      have hall := h.silent
      rwa [hup, eventsIn_cons_of_none hfirst] at hall
    show Sound { r with
      server := (r.server.receive now r.number frame).1
      station := { r.station with
        up := rest
        down := r.station.down ++ (r.server.receive now r.number frame).2 } }
    rw [hanswers]
    generalize (r.server.receive now r.number frame).1 = s at hreceives ⊢
    generalize r.server.answer? now r.number frame = answer at hreceives hanswer ⊢
    cases hreceives with
    | answered hasks htree hsends =>
      have hserver := h.spare (Server.queues_sends h.server hsends hx) htree
      refine sound_of_station hserver.server hserver.session h.live hserver.tree hsilent ?_
      have harrives := hanswer _ rfl
      rw [← htree] at harrives ⊢
      exact hserver.asking.send_tree hserver.tree (subset_of_silent hsilent) harrives
    | idle hasks hrefused htree hsends hidle =>
      have hserver := h.spare (Server.queues_sends h.server hsends hx) htree
      have hquiet : ∀ a ∈ (answer.map Message.encode).toList,
          eventIn? a = none ∧ treeIn? a = none := by
        intro a ha
        obtain ⟨m, hm, rfl⟩ := Option.map_eq_some_iff.mp (Option.mem_toList.mp ha)
        obtain ⟨hevent, hnotree, -⟩ := (hidle m hm).quiet (hanswer m hm)
        exact ⟨hevent, hnotree⟩
      have hup' : r.station.withRequest.up = frame :: (rest ++ [Message.requestInit.encode]) := by
        show r.station.up ++ [_] = _
        rw [hup, List.cons_append]
      rw [← htree] at hrefused
      have hasking := hserver.asking.serve_idle hserver.tree hup' hasks hrefused hquiet
      refine ⟨hserver.server, hserver.session, h.live, hserver.tree, hsilent, hasking,
        fun hintime hserved => ?_⟩
      -- the answer is no whole tree, so that one was there before
      refine (hserver.following hintime (hserved.imp_right ?_)).serve_idle hserver.tree hup hasks
        hrefused hquiet
      rintro ⟨f, hf, hframe⟩
      refine ⟨f, (List.mem_append.mp hf).resolve_right fun hf => ?_, hframe⟩
      exact hframe (hquiet f hf).2
    -- the frame would be an event of the client, and it has none
    | applied hevent happly hsends =>
      rw [hfirst] at hevent
      cases hevent

/-- **The session forwards** a frame, or the whole tree if it has lost some. -/
theorem Sound.forward (h : r.Sound) (hallows : r.Allows now .forward) :
    (r.step now .forward).Sound := by
  obtain ⟨x, hx⟩ := h.session
  unfold step
  dsimp only
  by_cases hintime : r.server.InTime r.number
  · rcases Server.forward_spec h.server hintime with hnone |
      ⟨s, frames, hforward, hserver, htree, hsessions, hpending, -⟩
    · rw [hnone]
      exact h
    · rw [hforward]
      have hasking := h.asking
      rw [hpending, ← htree] at hasking
      refine ⟨hserver, ⟨x, hsessions ▸ hx⟩, h.live, htree ▸ h.tree, h.silent, hasking.forward,
        fun _ hserved => ?_⟩
      -- what is forwarded is no whole tree, so that one was there before
      have hbefore : r.Served := hserved.imp_right fun ⟨f, hf, hframe⟩ =>
        ⟨f, (List.mem_append.mp hf).resolve_right fun hf =>
          hframe (hasking.events f (List.mem_append_left _ hf)), hframe⟩
      have hfollowing := h.following hintime hbefore
      rw [hpending, ← htree] at hfollowing
      exact hfollowing.forward
  -- the whole tree stands before the frames that are left, whose patches it already holds
  · obtain ⟨s, hforward, hserver, htree, hsessions, hpending⟩ :=
      Server.forward_of_not_inTime h.server hx hintime
    rw [hforward]
    have htold := h.asking.send_tree h.tree (subset_of_silent h.silent) (hallows hintime)
    refine sound_of_station hserver ⟨x, hsessions ▸ hx⟩ h.live (htree ▸ h.tree) h.silent ?_
    show Station.Sound _ s.tree (s.pending r.number)
    rw [htree, hpending]
    exact htold

/-- **The client takes a frame**, and asks for the whole tree if the frame does not fit. -/
theorem Sound.hear (h : r.Sound) : (r.step now .hear).Sound := by
  unfold step
  dsimp only
  cases hdown : r.station.down with
  | nil => exact h
  | cons frame rest =>
    have hhears := Client.hears h.live now frame
    show Sound { r with
      station := {
        client := (r.station.client.receive now frame).client
        up := r.station.up ++ (r.station.client.receive now frame).frames
        down := rest }
      taken := r.taken ++ [frame] }
    generalize (r.station.client.receive now frame).client = c at hhears ⊢
    generalize (r.station.client.receive now frame).frames = frames at hhears ⊢
    -- a whole tree that the client takes now was on its way before
    have hbefore : ∀ c up,
        Served { r with station := ⟨c, up, rest⟩, taken := r.taken ++ [frame] } → r.Served := by
      rintro c up (⟨f, hf, hframe⟩ | ⟨f, hf, hframe⟩)
      · rcases List.mem_append.mp hf with hf | hf
        · exact .inl ⟨f, hf, hframe⟩
        · exact .inr ⟨f, by rw [hdown, List.mem_singleton.mp hf]; exact List.mem_cons_self, hframe⟩
      · exact .inr ⟨f, hdown ▸ List.mem_cons_of_mem _ hf, hframe⟩
    have hrest : ∀ e ∈ eventsIn rest, e ∈ eventsIn r.station.down := fun e he =>
      hdown ▸ mem_eventsIn_cons frame he
    cases hhears with
    | restored htree hrestore =>
      rw [List.append_nil]
      have hasking := h.asking.hear_tree
        (Station.orderly_of_silent (silent_withRequest h.silent) _) hdown htree hrestore
      exact ⟨h.server, h.session, h.live, h.tree, h.silent, hasking, fun hintime hserved =>
        (h.following hintime (hbefore _ _ hserved)).hear_tree
          (Station.orderly_of_silent h.silent _) hdown htree hrestore⟩
    | applied hevent happly =>
      rw [List.append_nil]
      have hasking := h.asking.hear_event hdown hevent happly
      exact ⟨h.server, h.session, h.live, h.tree, h.silent, hasking, fun hintime hserved =>
        (h.following hintime (hbefore _ _ hserved)).hear_event hdown hevent happly⟩
    -- the client asks by itself, so that nothing has to be known of its replica
    | lost hnotree =>
      refine sound_of_station h.server h.session h.live h.tree (silent_withRequest h.silent) ?_
      exact h.asking.asking (asks_withRequest _) (fun _ he => he) hrest
    | idle hevent hrefused hanswers =>
      have hquiet : ∀ a ∈ frames, eventIn? a = none := fun a ha =>
        hanswers a ha ▸ eventIn?_pong
      have hsilent : eventsIn { r.station with up := r.station.up ++ frames }.up = [] :=
        eventsIn_append_silent h.silent hquiet
      refine ⟨h.server, h.session, h.live, h.tree, hsilent, ?_, fun hintime hserved =>
        (h.following hintime (hbefore _ _ hserved)).hear_idle hdown hevent hrefused hquiet⟩
      exact h.asking.asking (asks_withRequest _) (subset_of_silent (silent_withRequest hsilent))
        hrest

/-! ### Runs -/

/-- **A step keeps what is known.** -/
theorem Sound.step (h : r.Sound) {a : Action} (hallows : r.Allows now a) :
    (r.step now a).Sound := by
  cases a with
  | command c => exact h.command hallows
  | frame k frame => exact h.frame hallows.1 hallows.2
  | relay k => exact h.relay hallows
  | join id address => exact h.join address hallows
  | leave k => exact h.leave hallows
  | lose m => exact h.lose m
  | request => exact h.say eventIn?_requestInit
  | ping => exact h.say eventIn?_ping
  | serve => exact h.serve hallows
  | forward => exact h.forward hallows
  | hear => exact h.hear

/-- **A run keeps what is known.** -/
theorem Sound.run (h : r.Sound) {actions : List (Time × Action)} (hregular : r.Regular actions) :
    (r.run actions).Sound := by
  induction actions generalizing r with
  | nil => exact h
  | cons q rest ih =>
    obtain ⟨now, a⟩ := q
    obtain ⟨hallows, hregular⟩ := hregular
    exact ih (h.step hallows) hregular

/-- **A client that only reads catches up.** In whatever order things happen after its session has
begun, once it has got the whole tree and nothing is on its way, it has the content of the tree of
the server. -/
theorem caught_up (h : r.Started) {actions : List (Time × Action)} (hregular : r.Regular actions)
    (hquiet : (r.run actions).Quiet) (hinformed : (r.run actions).Informed) :
    (r.run actions).Agrees :=
  (h.sound.run hregular).agrees hquiet hinformed

/-! ### A client that is late -/

/-- A client without anything connects to a server, which has a tree and keeps two frames. There is
a session of somebody else already. -/
def ofTree (t : Tree) : Reader :=
  connect ((Server.create { broadcastCapacity := 2 } t none).openSession 0 ⟨2⟩ none).1 0 ⟨1⟩ none
    (.create (.ofBounds .standard))

theorem started_ofTree {t : Tree} (ht : t.WellFormed) (hbounds : t.bounds = .standard) :
    (ofTree t).Started := by
  have hfirst : ((Server.create { broadcastCapacity := 2 } t none).openSession 0 ⟨2⟩
      none).1.Coherent :=
    (Server.coherent_create _ t none).openSession (fun k x hx => by cases hx) 0 none
  refine started_connect hfirst ht (fun k x hx => ?_) (Tree.Reachable.ofBounds _).wellFormed
    hbounds.symm rfl 0 none
  have hget : (SortedMap.singleton 0 ⟨⟨2⟩, 0⟩ : SortedMap Nat Session).get? k = some x := hx
  rw [SortedMap.get?_singleton] at hget
  split at hget
  · cases hget
    decide
  · cases hget

/-- A tree with an actor in the hall. -/
def hallTree : Tree :=
  ((Tree.Command.addEndpoint "h" 1 (.actor 2 "")).run 0
    ((Tree.Command.addDevice "h" "").run 0 (.ofBounds .standard)).tree).tree

theorem started_hallTree : (ofTree hallTree).Started :=
  started_ofTree (Tree.Reachable.command (.command (.ofBounds _) 0 _) 0 _).wellFormed rfl

/-- While the session loses a frame, the answer to the request overtakes the other ones. Behind it
comes a report of an actor whose device was removed, so the client asks again. -/
def lateness : List (Time × Action) := [
  (1, .command (.renameDevice "h" "hall")),
  (2, .command (.setValueAt "h" 1 .null)),
  (3, .frame 0 (Message.ofPatch (.deviceTombstone "h") .delete).encode),
  (4, .serve),
  (5, .forward), (5, .forward), (5, .forward),
  (6, .hear), (6, .hear), (6, .hear), (6, .hear),
  (7, .serve),
  (8, .hear)]

theorem caught_up_hall :
    (ofTree hallTree).Started ∧ (ofTree hallTree).Regular lateness ∧
      ((ofTree hallTree).run lateness).Quiet ∧ ((ofTree hallTree).run lateness).Informed ∧
      ((ofTree hallTree).run lateness).Agrees := by
  obtain ⟨hregular, hquiet, hinformed⟩ : (ofTree hallTree).Regular lateness ∧
      ((ofTree hallTree).run lateness).Quiet ∧ ((ofTree hallTree).run lateness).Informed := by
    decide +kernel
  exact ⟨started_hallTree, hregular, hquiet, hinformed,
    caught_up started_hallTree hregular hquiet hinformed⟩

/-- A value in so many lists, one in the other. -/
def nested : Nat → Json
  | 0 => .null
  | n + 1 => .array [nested n]

/-- When the client has got the whole tree, the owner of the server gives commands, and a frame for
each of them comes to the client. -/
def telling (commands : List Tree.Command) : List (Time × Action) :=
  [(1, .serve), (2, .hear)] ++ commands.map (fun c => (3, .command c)) ++
    commands.map (fun _ => (4, .forward)) ++ commands.map fun _ => (5, .hear)

/-- The actor is set to a value that is nested too deeply for a frame to be read. -/
def tooDeep : Tree.Command := .setValueAt "h" 1 (.ofJson (nested 122))

/-- **A frame that cannot be read is passed over**, and the client never learns what was in it. -/
theorem not_caught_up :
    (ofTree hallTree).Started ∧ (∀ e ∈ (tooDeep.run 3 hallTree).events, e.patch.Dated) ∧
      ((ofTree hallTree).run (telling [tooDeep])).Quiet ∧
      ((ofTree hallTree).run (telling [tooDeep])).Informed ∧
      ¬ ((ofTree hallTree).run (telling [tooDeep])).Agrees := by
  refine ⟨started_hallTree, ?_⟩
  decide +kernel

/-- Two views are added. -/
def twoViews (id id' : Uuid) : List Tree.Command := [.addView id "a" [], .addView id' "b" []]

/-- **A view under an identifier that is in use** is told of but not kept. -/
theorem not_caught_up_of_used_view :
    ((ofTree (.ofBounds .standard)).run (telling (twoViews ⟨3⟩ ⟨3⟩))).Quiet ∧
      ¬ ((ofTree (.ofBounds .standard)).run (telling (twoViews ⟨3⟩ ⟨3⟩))).Agrees := by
  decide +kernel

/-- A session is opened, and its client adds a device. -/
def newcomer (id : Uuid) : List (Time × Action) := [
  (1, .join id none),
  (2, .serve),
  (3, .hear),
  (4, .frame 2 (Message.ofPatch
    (.device "h" (.change { name := some "", lastUpdate := some 4 })) .update).encode),
  (5, .forward)]

/-- **A session under an identifier that is in use** is taken for the other one, which does not hear
of its patches. -/
theorem not_caught_up_of_used_session :
    ((ofTree (.ofBounds .standard)).run (newcomer ⟨1⟩)).Quiet ∧
      ¬ ((ofTree (.ofBounds .standard)).run (newcomer ⟨1⟩)).Agrees := by
  decide +kernel

end Reader

end Fleet.Sync
