import Fleet.Proofs.Reconciling

/-!
# Convergence at quiescence

A server and its clients change their trees at any time, and the frames that tell of it cross on
their way. When all frames have arrived, every client has the tree of the server
(`Network.quiescent_run`), in whatever order everything has happened.

This holds of runs in which the frames on their way between a client and the server are orderly all
the time (`Network.Orderly`). It cannot be had without: a server never sends an event back to the
client that it came from, so a client which hears of a conflicting event after its own is not told
that the server has heard of them in the other order (`Network.not_quiescent_run`).

The invariant (`Network.Sound`) is that every single station is sound. A step concerns the station
where it happens, and what the server then sends concerns all of them.
-/

namespace Fleet.Sync.Network

variable {net : Network} {now : Time} {n : Nat} {st : Station}

/-- **All frames on their way are orderly.** -/
def Orderly (net : Network) : Prop :=
  ∀ n st, net.stations.get? n = some st → st.Orderly (net.server.pending n)

/-- All patches that cross on their way are independent, and nobody expects the whole tree. -/
def Calm (net : Network) : Prop :=
  ∀ n st, net.stations.get? n = some st →
    (∀ e ∈ eventsIn st.up, ∀ f ∈ eventsIn (st.down ++ net.server.pending n),
      e.patch.Independent f.patch) ∧ ¬ st.Awaits

instance : DecidablePred Calm := fun net =>
  inferInstanceAs (Decidable (∀ n st, net.stations.get? n = some st → _))

/-- **A calm network is orderly.** -/
theorem Calm.orderly (h : net.Calm) : net.Orderly := fun n st hst =>
  Station.orderly_of_independent (h n st hst).1 (h n st hst).2

/-- **Every station is sound.** -/
structure Sound (net : Network) : Prop where
  connected : net.Connected
  tree : net.server.tree.WellFormed
  stations : ∀ n st, net.stations.get? n = some st →
    st.Sound net.server.tree (net.server.pending n)

/-! ### The invariant at the start and at the end -/

theorem Settled.sound (h : net.Settled) : net.Sound where
  connected := h.connected
  tree := h.tree
  stations n st hst := by
    obtain ⟨hup, hdown, hpending⟩ := h.quiet n st hst
    obtain ⟨hwell, hbounds, hsnapshot⟩ := h.replicas n st hst
    rw [hpending]
    exact Station.sound_of_quiet h.tree hup hdown
      (Tree.eq_of_snapshot_eq hwell h.tree hbounds hsnapshot)

theorem Sound.replica_eq (h : net.Sound) (hquiet : net.Quiet)
    (hst : net.stations.get? n = some st) : st.client.replica = net.server.tree := by
  obtain ⟨hup, hdown, hpending⟩ := hquiet n st hst
  have hstation := h.stations n st hst
  rw [hpending] at hstation
  exact hstation.eq_of_quiet hup hdown

/-! ### Steps -/

theorem get?_put (net : Network) (n m : Nat) (st : Station) :
    (net.put n st).stations.get? m = if m = n then some st else net.stations.get? m :=
  SortedMap.get?_insert

/-- **One station and the server change**, and the other stations fit the new server. -/
theorem Sound.replace (h : net.Sound) {s : Server} (hserver : s.Coherent)
    (hsessions : s.sessions = net.server.sessions) (htree : s.tree.WellFormed)
    (hst : net.stations.get? n = some st) {st' : Station} (hlive : st'.client.Live)
    (hown : st'.Sound s.tree (s.pending n))
    (hothers : ∀ m st, m ≠ n → net.stations.get? m = some st → st.Sound s.tree (s.pending m)) :
    Sound (put { net with server := s } n st') := by
  have hcases : ∀ m st₁, (put { net with server := s } n st').stations.get? m = some st₁ →
      m = n ∧ st₁ = st' ∨ m ≠ n ∧ net.stations.get? m = some st₁ := by
    intro m st₁ hst₁
    rw [get?_put] at hst₁
    split at hst₁
    · next hm => exact .inl ⟨hm, (Option.some.inj hst₁).symm⟩
    · next hm => exact .inr ⟨hm, hst₁⟩
  refine ⟨⟨hserver, fun m st₁ hst₁ => ?_, fun m st₁ hst₁ => ?_⟩, htree, fun m st₁ hst₁ => ?_⟩
  · rcases hcases m st₁ hst₁ with ⟨-, rfl⟩ | ⟨-, hst₁⟩
    · exact hlive
    · exact h.connected.live m st₁ hst₁
  · show ∃ x, s.sessions.get? m = some x
    rw [hsessions]
    rcases hcases m st₁ hst₁ with ⟨rfl, -⟩ | ⟨-, hst₁⟩
    · exact h.connected.sessions m st hst
    · exact h.connected.sessions m st₁ hst₁
  · rcases hcases m st₁ hst₁ with ⟨rfl, rfl⟩ | ⟨hm, hst₁⟩
    · exact hown
    · exact hothers m st₁ hm hst₁

/-- **One station changes**, and the server does not. -/
theorem Sound.replace_station (h : net.Sound) (hst : net.stations.get? n = some st) {st' : Station}
    (hlive : st'.client.Live) (hown : st'.Sound net.server.tree (net.server.pending n)) :
    (net.put n st').Sound :=
  h.replace h.connected.server rfl h.tree hst hlive hown fun m st₁ _ hst₁ => h.stations m st₁ hst₁

/-- **One station changes, and the server sends nothing** and keeps its tree. -/
theorem Sound.replace_silent (h : net.Sound) {s : Server} (hsends : net.server.Sends s [])
    (htree : s.tree = net.server.tree) (hst : net.stations.get? n = some st) {st' : Station}
    (hintime : (put { net with server := s } n st').InTime) (hlive : st'.client.Live)
    (hown : st'.Sound net.server.tree (net.server.pending n)) :
    Sound (put { net with server := s } n st') := by
  have hpending : ∀ m st₁ st₂, net.stations.get? m = some st₁ →
      (put { net with server := s } n st').stations.get? m = some st₂ →
        s.pending m = net.server.pending m := by
    intro m st₁ st₂ hst₁ hst₂
    obtain ⟨x, hx⟩ := h.connected.sessions m st₁ hst₁
    calc s.pending m
      _ = net.server.pending m ++ Server.framesFor x [] :=
        Server.pending_sends h.connected.server hsends hx (hintime m st₂ hst₂)
      _ = net.server.pending m := List.append_nil _
  refine h.replace (h.connected.server.sends hsends) hsends.sessions (htree ▸ h.tree) hst hlive ?_
    fun m st₁ hm hst₁ => ?_
  · rw [htree, hpending n st st' hst ((get?_put _ n n _).trans (if_pos rfl))]
    exact hown
  · rw [htree, hpending m st₁ st₁ hst₁ ((get?_put _ n m _).trans ((if_neg hm).trans hst₁))]
    exact h.stations m st₁ hst₁

/-- **The server sends events** that a station did not cause: they are pending for it. -/
theorem Sound.hear_others (h : net.Sound) {s : Server} {es : List Envelope}
    (hsends : net.server.Sends s es) (hst : net.stations.get? n = some st) {x : Session}
    (hx : net.server.sessions.get? n = some x) (hforeign : ∀ e ∈ es, e.origin ≠ some x.id)
    {events : List Event}
    (hframes : es.map Envelope.frame = events.map fun e => (Message.ofEvent e).encode)
    (hdated : ∀ e ∈ events, e.patch.Dated) (harrive : ∀ e ∈ events, e.Arrives)
    (hleads : net.server.tree.Leads events s.tree) (hintime : s.InTime n)
    (horderly : st.Orderly (s.pending n)) : st.Sound s.tree (s.pending n) := by
  have hpending : s.pending n =
      net.server.pending n ++ events.map fun e => (Message.ofEvent e).encode := calc
    s.pending n = net.server.pending n ++ Server.framesFor x es :=
      Server.pending_sends h.connected.server hsends hx hintime
    _ = net.server.pending n ++ es.map Envelope.frame := by rw [Server.framesFor_foreign hforeign]
    _ = _ := by rw [hframes]
  rw [hpending] at horderly ⊢
  exact (h.stations n st hst).hear_others h.tree hdated harrive hleads horderly

theorem Sound.command (h : net.Sound) {c : Tree.Command} (hpermits : Permits now net.server.tree c)
    (hintime : (net.step now (.command c)).InTime)
    (horderly : (net.step now (.command c)).Orderly) : (net.step now (.command c)).Sound := by
  have htold : (c.run now net.server.tree).Told _ net.server.tree :=
    Tree.Command.told h.tree hpermits.1
  have hsends := net.server.sends_edit (c.run now)
  have htree := net.server.tree_edit (c.run now)
  refine ⟨⟨h.connected.server.sends hsends, h.connected.live, fun n st hst => ?_⟩, ?_,
    fun n st hst => ?_⟩
  · obtain ⟨x, hx⟩ := h.connected.sessions n st hst
    exact ⟨x, (congrArg (·.get? n) hsends.sessions).trans hx⟩
  · show (net.server.edit (c.run now)).1.tree.WellFormed
    rw [htree]
    exact Tree.Told.wellFormed htold h.tree
  -- a command of the server is caused by no session, so all of them hear of it
  · obtain ⟨x, hx⟩ := h.connected.sessions n st hst
    exact h.hear_others hsends hst hx (by simp [Envelope.ofEvent]) List.map_map
      (Tree.Told.dated htold) hpermits.2 (htree ▸ Tree.Told.leads htold h.tree) (hintime n st hst)
      (horderly n st hst)

theorem Sound.edit (h : net.Sound) (hst : net.stations.get? n = some st) {c : Tree.Command}
    (hpermits : Permits now st.client.replica c)
    (horderly : (net.act now n st (.edit c)).Orderly) : (net.act now n st (.edit c)).Sound := by
  have hlive := h.connected.live n st hst
  have hstation := h.stations n st hst
  have htold : (c.run now st.client.replica).Told _ st.client.replica :=
    Tree.Command.told hstation.replica hpermits.1
  obtain ⟨hclient, hframes⟩ := Client.edit_of_live hlive (c.run now)
  have hown : (st.after (st.client.edit (c.run now)).1).Orderly (net.server.pending n) :=
    horderly n _ ((net.get?_put n n _).trans (if_pos rfl))
  refine h.replace_station hst ?_ ?_
  · show (st.client.edit (c.run now)).1.client.Live
    rw [hclient]
    exact hlive
  · refine hstation.edit (Tree.Told.leads htold hstation.replica) (Tree.Told.dated htold) hpermits.2
      ?_ rfl ?_ hown
    · show (st.client.edit (c.run now)).1.client.replica = _
      rw [hclient]
    · show st.up ++ (st.client.edit (c.run now)).1.frames = _
      rw [hframes]

theorem Sound.request (h : net.Sound) (hst : net.stations.get? n = some st) :
    (net.act now n st .request).Sound := by
  have hlive := h.connected.live n st hst
  obtain ⟨handed, hsend, hframe⟩ := Client.sendLive_of_live hlive .requestInit
  have hrequest : st.client.requestInit = .ok handed := hsend
  unfold act
  dsimp only
  rw [hrequest]
  dsimp only
  rw [hframe]
  exact h.replace_station hst hlive ((h.stations n st hst).ask fun e he => he)

theorem Sound.forward (h : net.Sound) (hst : net.stations.get? n = some st)
    (hintime : net.server.InTime n) : (net.act now n st .forward).Sound := by
  unfold act
  dsimp only
  rcases Server.forward_spec h.connected.server hintime with hnone |
    ⟨s, frames, hforward, hserver, htree, hsessions, hpending, hothers⟩
  · rw [hnone]
    exact h
  · rw [hforward]
    have hstation := h.stations n st hst
    rw [hpending] at hstation
    refine h.replace hserver hsessions (htree ▸ h.tree) hst (h.connected.live n st hst)
      (htree ▸ hstation.forward) fun m st₁ hm hst₁ => ?_
    rw [htree, hothers m hm]
    exact h.stations m st₁ hst₁

theorem Sound.hear (h : net.Sound) (horderly : net.Orderly) (hst : net.stations.get? n = some st) :
    (net.act now n st .hear).Sound := by
  have hlive := h.connected.live n st hst
  have hstation := h.stations n st hst
  unfold act
  dsimp only
  cases hdown : st.down with
  | nil => exact h
  | cons frame rest =>
    have hhears := Client.hears hlive now frame
    -- the station afterwards is seen as a whole, and then by what was heard
    show (net.put n {
      client := (st.client.receive now frame).client
      up := st.up ++ (st.client.receive now frame).frames
      down := rest }).Sound
    generalize (st.client.receive now frame).client = c at hhears ⊢
    generalize (st.client.receive now frame).frames = frames at hhears ⊢
    cases hhears with
    | restored htree hrestore =>
      rw [List.append_nil]
      exact h.replace_station hst hlive
        (hstation.hear_tree (horderly n st hst) hdown htree hrestore)
    | applied hevent happly =>
      rw [List.append_nil]
      exact h.replace_station hst hlive (hstation.hear_event hdown hevent happly)
    | lost hnotree =>
      exact h.replace_station hst hlive
        (hstation.ask fun e he => hdown ▸ mem_eventsIn_cons frame he)
    | idle hevent hrefused hanswers =>
      refine h.replace_station hst hlive (hstation.hear_idle hdown hevent hrefused fun a ha => ?_)
      rw [hanswers a ha]
      exact eventIn?_pong

/-- The server takes a frame of a client. -/
theorem Sound.serve (h : net.Sound) (horderly : net.Orderly) (hst : net.stations.get? n = some st)
    (hallows : ∀ frame ∈ st.up.head?, ∀ m ∈ net.server.answer? now n frame, m.Arrives)
    (hintime : (net.act now n st .serve).InTime) (hafter : (net.act now n st .serve).Orderly) :
    (net.act now n st .serve).Sound := by
  have hlive := h.connected.live n st hst
  have hstation := h.stations n st hst
  unfold act at hintime hafter ⊢
  dsimp only at hintime hafter ⊢
  cases hup : st.up with
  | nil => exact h
  | cons frame rest =>
    rw [hup] at hallows hintime hafter
    obtain ⟨x, hx⟩ := h.connected.sessions n st hst
    obtain ⟨hreceives, hanswers⟩ := Server.receives hx now frame
    have hanswer := hallows frame rfl
    dsimp only at hintime hafter ⊢
    rw [hanswers] at hintime hafter ⊢
    generalize (net.server.receive now n frame).1 = s at hreceives hintime hafter ⊢
    generalize net.server.answer? now n frame = answer at hreceives hanswer hintime hafter ⊢
    cases hreceives with
    | answered hasks htree hsends =>
      exact h.replace_silent hsends htree hst hintime hlive
        (hstation.serve_request h.tree hup hasks (hanswer _ rfl))
    | idle hasks hrefused htree hsends hidle =>
      refine h.replace_silent hsends htree hst hintime hlive
        (hstation.serve_idle h.tree hup hasks hrefused fun a ha => ?_)
      obtain ⟨m, hm, rfl⟩ := Option.map_eq_some_iff.mp (Option.mem_toList.mp ha)
      obtain ⟨hevent, hnotree, -⟩ := (hidle m hm).quiet (hanswer m hm)
      exact ⟨hevent, hnotree⟩
    | @applied e hevent happly hsends =>
      have hup' : e ∈ eventsIn st.up := by
        rw [hup, eventsIn_cons_of_some hevent]
        exact List.mem_cons_self
      have hdated : ∀ e' ∈ [e], e'.patch.Dated := by
        simpa using hstation.dated e (List.mem_append_left _ hup')
      have harrives : ∀ e' ∈ [e], e'.Arrives := by simpa using hstation.arriving e hup'
      have hleads : net.server.tree.Leads [e] s.tree := .step now happly (.done _)
      refine h.replace (h.connected.server.sends hsends) hsends.sessions (hleads.wellFormed h.tree)
        hst hlive ?_ fun m st₁ hm hst₁ => ?_
      -- the session of the client does not forward the event, and all others do
      · have hintime : s.InTime n := hintime n _ ((get?_put _ n n _).trans (if_pos rfl))
        have hown : s.pending n = net.server.pending n := calc
          _ = net.server.pending n ++ Server.framesFor x [.ofPatch x.id e.patch e.manner] :=
            Server.pending_sends h.connected.server hsends hx hintime
          _ = net.server.pending n ++ [] := by
            rw [Server.framesFor_own (by simp [Envelope.ofPatch])]
          _ = net.server.pending n := List.append_nil _
        rw [hown]
        show Station.Sound { st with up := rest, down := st.down ++ [] } _ _
        rw [List.append_nil]
        exact hstation.serve_event h.tree (horderly n st hst) hup hevent happly
      · obtain ⟨y, hy⟩ := h.connected.sessions m st₁ hst₁
        have hid := (h.connected.server.differ n m x y hx hy hm.symm).1
        have hthere := (get?_put { net with server := s } n m
          { st with up := rest, down := st.down ++ [] }).trans ((if_neg hm).trans hst₁)
        exact h.hear_others hsends hst₁ hy (by simpa [Envelope.ofPatch] using hid) rfl hdated
          harrives hleads (hintime m st₁ hthere) (hafter m st₁ hthere)

/-- **A step keeps all stations sound.** -/
theorem Sound.step (h : net.Sound) {a : Action} (hallows : net.Allows now a) (hintime : net.InTime)
    (horderly : net.Orderly) (hintime' : (net.step now a).InTime)
    (horderly' : (net.step now a).Orderly) : (net.step now a).Sound := by
  cases a with
  | command c => exact h.command hallows hintime' horderly'
  | move n m =>
    unfold Network.step at hintime' horderly' ⊢
    dsimp only at hintime' horderly' ⊢
    cases hst : net.stations.get? n with
    | none => exact h
    | some st =>
      rw [hst] at hintime' horderly'
      have hmove := hallows st hst
      cases m with
      | edit c => exact h.edit hst hmove horderly'
      | request => exact h.request hst
      | serve => exact h.serve horderly hst hmove hintime' horderly'
      | forward => exact h.forward hst (hintime n st hst)
      | hear => exact h.hear horderly hst

/-- **A run keeps all stations sound.** -/
theorem Sound.run (h : net.Sound) {actions : List (Time × Action)} (hregular : net.Regular actions)
    (horderly : net.Throughout Orderly actions) : (net.run actions).Sound := by
  induction actions generalizing net with
  | nil => exact h
  | cons q rest ih =>
    obtain ⟨now, a⟩ := q
    obtain ⟨hintime, hallows, hregular⟩ := hregular
    obtain ⟨hfirst, horderly⟩ := horderly
    have hintime' : (net.step now a).InTime := by
      cases rest with
      | nil => exact hregular
      | cons q rest => exact hregular.1
    have horderly' : (net.step now a).Orderly := by
      cases rest with
      | nil => exact horderly
      | cons q rest => exact horderly.1
    exact ih (h.step hallows hintime hfirst hintime' horderly') hregular horderly

/-- **Replicas converge at quiescence.** After an orderly run of a settled network, if no frame is
on its way, every client has the tree of the server. -/
theorem quiescent_run (h : net.Settled) {actions : List (Time × Action)}
    (hregular : net.Regular actions) (horderly : net.Throughout Orderly actions)
    (hquiet : (net.run actions).Quiet) : (net.run actions).Agrees := by
  intro n st hst
  rw [(h.sound.run hregular horderly).replica_eq hquiet hst]

/-! ### Two clients -/

/-- A tree with a hall and a lobby. -/
def hallTree : Tree :=
  ((Tree.Command.addDevice "l" "").run 0
    ((Tree.Command.addDevice "h" "").run 0 (.ofBounds .standard)).tree).tree

/-- A client with that tree, at its first connection. -/
def hallClient : Client where
  replica := hallTree
  state := .connected
  outbox := { link := some ⟨0, true⟩, queue := ⟨1, []⟩ }

/-- A server with that tree and two clients. -/
def hallNetwork : Network :=
  join (join { server := .create {} hallTree none } 0 ⟨1⟩ none hallClient) 0 ⟨2⟩ none hallClient

theorem settled_hallNetwork : hallNetwork.Settled := by
  have ht : hallTree.WellFormed :=
    (Tree.Reachable.command (.command (.ofBounds _) 0 _) 0 _).wellFormed
  have hlive : hallClient.Live := ⟨0, rfl⟩
  have hone : (join { server := .create {} hallTree none } 0 ⟨1⟩ none hallClient).Settled :=
    settled_join (settled_create {} none ht) (fun n x hx => by cases hx) hlive ht rfl rfl 0 none
  exact settled_join hone (by decide) hlive ht rfl rfl 0 none

/-- What both clients do at the same time, and how the frames of it arrive. -/
def together (c d : Tree.Command) : List (Time × Action) := [
  (1, .move 0 (.edit c)),
  (2, .move 1 (.edit d)),
  (3, .move 0 .serve),
  (3, .move 1 .serve),
  (4, .move 0 .forward),
  (4, .move 0 .forward),
  (4, .move 1 .forward),
  (5, .move 0 .hear),
  (5, .move 1 .hear)]

/-- One client removes the hall and the other one the lobby. -/
theorem quiescent_run_hall :
    hallNetwork.Settled ∧
      hallNetwork.Regular (together (.removeDevice "h") (.removeDevice "l")) ∧
      hallNetwork.Throughout Orderly (together (.removeDevice "h") (.removeDevice "l")) ∧
      (hallNetwork.run (together (.removeDevice "h") (.removeDevice "l"))).Quiet ∧
      (hallNetwork.run (together (.removeDevice "h") (.removeDevice "l"))).Agrees := by
  have hregular : hallNetwork.Regular (together (.removeDevice "h") (.removeDevice "l")) := by
    decide +kernel
  have hcalm : hallNetwork.Throughout Calm (together (.removeDevice "h") (.removeDevice "l")) := by
    decide +kernel
  have hquiet : (hallNetwork.run (together (.removeDevice "h") (.removeDevice "l"))).Quiet := by
    decide +kernel
  have horderly := hcalm.imp fun _ h => h.orderly
  exact ⟨settled_hallNetwork, hregular, horderly, hquiet,
    quiescent_run settled_hallNetwork hregular horderly hquiet⟩

/-- **Conflicting events on their way are not reconciled.** Both clients rename the hall; the server
keeps the second name, and the second client the first one, which it has heard last. -/
theorem not_quiescent_run :
    hallNetwork.Settled ∧
      hallNetwork.Regular (together (.renameDevice "h" "a") (.renameDevice "h" "b")) ∧
      (hallNetwork.run (together (.renameDevice "h" "a") (.renameDevice "h" "b"))).Quiet ∧
      ¬ (hallNetwork.run (together (.renameDevice "h" "a") (.renameDevice "h" "b"))).Agrees := by
  refine ⟨settled_hallNetwork, ?_⟩
  decide +kernel

/-- A client asks for the whole tree, and removes the hall before the answer comes. -/
def impatience : List (Time × Action) := [
  (1, .move 0 .request),
  (2, .move 0 (.edit (.removeDevice "h"))),
  (3, .move 0 .serve),
  (3, .move 0 .serve),
  (4, .move 1 .forward),
  (5, .move 0 .hear),
  (5, .move 1 .hear)]

/-- **An event behind a request is lost on the client itself**: the answer brings the hall back, and
the server has removed it. -/
theorem not_quiescent_run_of_request :
    hallNetwork.Regular impatience ∧ (hallNetwork.run impatience).Quiet ∧
      ¬ (hallNetwork.run impatience).Agrees := by
  decide +kernel

end Fleet.Sync.Network
