import Fleet.Proofs.Convergence
import Fleet.Proofs.Replay
import Fleet.Sync.Server

/-!
# The frames of a server are a redo log

Whatever the sessions of a server send and whatever its owner does, the frames that the server
sends to everybody tell the whole story of its tree. Whoever starts from a snapshot of the tree and
applies these frames in their order, at the clocks at which they were sent, ends with the tree of
the server (`Server.redo_run`).

There are two sources of frames. A patch of a session is applied and then relayed, not as it came
but as it was read; the owner's commands are told of by their events. Both are *dispatches*
(`Server.dispatches`): a message for everybody with its clock and the session that caused it, if
any. The invariant is that the replica has the very tree of the server before and after every
dispatch. It needs that all doubles stay finite, which those of patches are because they were read
(`Patch.Takes.finite`).
-/

namespace Fleet

open Patch (EndpointChange)

/-! ### Doubles in patches -/

namespace Endpoint

theorem finite_update {e : Endpoint} (he : e.Finite) {c : EndpointChange} (hc : c.Exact) :
    (e.update c).Finite := by
  refine finite_of_sensor? fun s hs => ?_
  obtain ⟨ip, eid, typeCode, description, lastValue, lastUpdate, role⟩ := e
  cases role with
  | actor => cases hs
  | infrastructure => cases hs
  | sensor s₀ =>
    cases hs
    have hmin : s₀.bounds.min.isFinite = true := he.1 _ rfl
    have hmax : s₀.bounds.max.isFinite = true := he.2 _ rfl
    -- a bound is that of the change, or the one from before
    constructor
    · show (c.minvalue.getD s₀.bounds.min).isFinite = true
      cases hgiven : c.minvalue with
      | none => exact hmin
      | some x => exact hc.minvalue x hgiven
    · show (c.maxvalue.getD s₀.bounds.max).isFinite = true
      cases hgiven : c.maxvalue with
      | none => exact hmax
      | some x => exact hc.maxvalue x hgiven

/-- **What stands at the place of an endpoint keeps a property** if endpoints that are created have
it and changes keep it. -/
theorem runAll_keeps {P : Endpoint → Prop} {C : EndpointChange → Prop} {table : BoundsTable}
    {now : Time} {ip : String} {eid : Eid}
    (hcreate : ∀ c params e, C c → c.params = some params →
      create table now ip eid params = .ok e → P e)
    (hupdate : ∀ e c, P e → C c → P (e.update c)) {acts : List (Act EndpointChange)}
    (hacts : ∀ act ∈ acts, act.Satisfies C) {a b : Option Endpoint}
    (ha : ∀ e, a = some e → P e) (h : (place table now ip eid).runAll a acts = some b) :
    ∀ e, b = some e → P e := by
  induction acts generalizing a with
  | nil =>
    cases h
    exact ha
  | cons act rest ih =>
    obtain ⟨a', ha', h⟩ := Option.bind_eq_some_iff.mp h
    refine ih (fun act hact => hacts act (List.mem_cons_of_mem _ hact)) (fun e he => ?_) h
    subst he
    cases act with
    | keep => exact ha e (Option.some.inj ha')
    | remove => cases ha'
    | change c =>
      have hc : C c := hacts _ List.mem_cons_self
      cases a with
      | some e₀ =>
        cases ha'
        exact hupdate e₀ c (ha e₀ rfl) hc
      -- an endpoint is created and then changed
      | none =>
        obtain ⟨e₀, he₀, heq⟩ := Option.map_eq_some_iff.mp ha'
        cases heq
        have hnew : ofChange table now ip eid c = .ok e := toOption_eq_some_iff.mp he₀
        unfold ofChange at hnew
        split at hnew
        · cases hnew
        · next params hparams =>
          obtain ⟨e₁, he₁, rfl⟩ := map_eq_ok_iff.mp hnew
          exact hupdate e₁ c (hcreate c params e₁ hc hparams he₁) hc

end Endpoint

namespace Patch

variable {p : Patch} {manner : Tree.Manner} {now : Time} {t u : Tree}

/-- **A patch keeps a property of all endpoints** if endpoints that are created have it and changes
keep it. -/
theorem Takes.everywhere {P : Endpoint → Prop} {C : EndpointChange → Prop}
    (h : p.Takes manner now t u)
    (hp : ∀ ip e, p.devices.get? ip = some e → e.Satisfies fun c =>
      ∀ key e', c.endpoints.get? key = some e' → e'.Satisfies C)
    (hcreate : ∀ ip eid c params e, C c → c.params = some params →
      Endpoint.create t.bounds now ip eid params = .ok e → P e)
    (hupdate : ∀ e c, P e → C c → P (e.update c)) (ht : t.Everywhere P) : u.Everywhere P := by
  intro ip d hd eid e he
  refine Endpoint.runAll_keeps (hcreate ip eid) hupdate (endpointActs_satisfy hp ip eid)
    (fun e₀ he₀ => ?_) (h.endpoints ip eid) e ?_
  · obtain ⟨d₀, hd₀, he₀⟩ := Option.bind_eq_some_iff.mp he₀
    exact ht ip d₀ hd₀ eid e₀ he₀
  · unfold Tree.endpointAt?
    rw [hd]
    exact he

/-- **A patch with finite doubles keeps a tree finite.** -/
theorem Takes.finite (h : p.Takes manner now t u) (hp : p.Writable) (ht : t.Finite) :
    u.Finite := by
  refine ⟨h.bounds ▸ ht.bounds, ?_⟩
  refine h.everywhere (C := EndpointChange.Exact) (fun ip e he => ?_)
    (fun ip eid c params e hc hparams hcreate => ?_)
    (fun _ _ he hc => Endpoint.finite_update he hc) ht.devices
  · refine (hp.devices ip e he).imp fun c hc key e' he' => ?_
    exact (hc.exact key e' he').imp fun c' hc' => hc'.toExact
  -- a new endpoint takes its bounds from its description or from the table
  · have hwritable := hc.params params hparams
    exact Endpoint.finite_of_create ht.bounds ⟨hwritable.minvalue, hwritable.maxvalue⟩ hcreate

end Patch

/-! ### Messages that carry patches -/

/-- The patch in a message as the data that it is, with its manner. -/
def Message.patch? : Message → Option (Tree.Manner × Value)
  | .update v => some (.update, v)
  | .delete v => some (.delete, v)
  | _ => none

theorem Message.patch?_ofPatch (p : Patch) (manner : Tree.Manner) :
    (Message.ofPatch p manner).patch? = some (manner, p.toValue) := by
  cases manner <;> rfl

/-- **Data are applied as a patch**: the tree after that, and the patch that was read. -/
def Tree.accept (t : Tree) (now : Time) (manner : Tree.Manner) (v : Value) :
    Except TreeError (Tree × Patch) := do
  let p ← Patch.ofValue v
  let u ← t.apply now manner p
  .ok (u, p)

theorem Tree.accept_eq_ok_iff {t u : Tree} {now : Time} {manner : Tree.Manner} {v : Value}
    {p : Patch} : t.accept now manner v = .ok (u, p) ↔
      Patch.ofValue v = .ok p ∧ t.apply now manner p = .ok u := by
  unfold accept
  rw [bind_eq_ok_iff]
  constructor
  · rintro ⟨p', hp, h⟩
    obtain ⟨u', hu, h⟩ := bind_eq_ok_iff.mp h
    cases h
    exact ⟨hp, hu⟩
  · rintro ⟨hp, hu⟩
    exact ⟨p, hp, bind_eq_ok_iff.mpr ⟨u, hu, rfl⟩⟩

namespace Sync

/-! ### What a server sends to everybody -/

/-- **A message for everybody**: its clock, and the session that caused it, if one did. -/
structure Dispatch where
  now : Time
  origin : Option Uuid
  message : Message

/-- The frame of the message, as it is handed to the sessions. -/
def Dispatch.envelope (d : Dispatch) : Envelope := ⟨d.origin, d.message.encode⟩

/-- **What happens at a server**: a message comes from a session, which is known by the identifier
that it drew, or the owner gives a command. -/
inductive Activity where
  | message (sender : Uuid) (m : Message)
  | command (c : Tree.Command)

namespace Server

variable {s : Server} {now : Time}

/-- **An activity at a server**, and what comes of it. -/
def perform (s : Server) (now : Time) : Activity → Server × Reaction
  | .message sender m =>
    let (s, reaction) := s.handle now sender m
    (s.broadcast reaction.relayed, reaction)
  | .command c =>
    ((s.edit (c.run now)).1, { relayed := (c.run now s.tree).events.map Envelope.ofEvent })

/-- **The dispatches of an activity**: an accepted patch as it was read, or the events of a
command. -/
def dispatches (s : Server) (now : Time) : Activity → List Dispatch
  | .message sender m =>
    match m.patch? with
    | none => []
    | some (manner, v) =>
      match s.tree.accept now manner v with
      | .ok (_, p) => [⟨now, some sender, .ofPatch p manner⟩]
      | .error _ => []
  | .command c => (c.run now s.tree).events.map fun e => ⟨now, none, .ofEvent e⟩

/-- **Activities one after another**, and all that is sent to everybody, with its clock. -/
def run (s : Server) : List (Time × Activity) → Server × List (Time × Envelope)
  | [] => (s, [])
  | (now, a) :: rest =>
    let (s, reaction) := s.perform now a
    let (s, log) := run s rest
    (s, reaction.relayed.map (fun e => (now, e)) ++ log)

/-- All dispatches of activities, in their order. -/
def allDispatches (s : Server) : List (Time × Activity) → List Dispatch
  | [] => []
  | (now, a) :: rest => s.dispatches now a ++ allDispatches (s.perform now a).1 rest

/-- All commands can be carried out: their doubles are finite, and an identifier that is drawn for a
view is not in use. -/
def Admissible (s : Server) : List (Time × Activity) → Prop
  | [] => True
  | (now, a) :: rest =>
    (∀ c, a = .command c → c.Finite ∧ c.Fresh s.tree) ∧ Admissible (s.perform now a).1 rest

theorem applyRemote_ok (sender : Uuid) {manner : Tree.Manner} {v : Value} {t : Tree} {p : Patch}
    (h : s.tree.accept now manner v = .ok (t, p)) :
    (s.applyRemote now sender manner v).1.tree = t ∧
      (s.applyRemote now sender manner v).2 = { relayed := [.ofPatch sender p manner] } := by
  unfold Tree.accept at h
  unfold applyRemote
  simp only [h]
  exact ⟨trivial, trivial⟩

theorem applyRemote_error (sender : Uuid) {manner : Tree.Manner} {v : Value} {e : TreeError}
    (h : s.tree.accept now manner v = .error e) :
    (s.applyRemote now sender manner v).1.tree = s.tree ∧
      (s.applyRemote now sender manner v).2 = { answer := some (.ofError e (s.wording v)) } := by
  unfold Tree.accept at h
  unfold applyRemote
  simp only [h]
  exact ⟨trivial, trivial⟩

theorem handle_of_patch? {sender : Uuid} {m : Message} {manner : Tree.Manner} {v : Value}
    (h : m.patch? = some (manner, v)) :
    s.handle now sender m = s.applyRemote now sender manner v := by
  cases m with
  | update v' => cases h; rfl
  | delete v' => cases h; rfl
  | _ => cases h

/-- A message without a patch leaves the tree alone and is not relayed. -/
theorem handle_of_patch?_none {sender : Uuid} {m : Message} (h : m.patch? = none) :
    (s.handle now sender m).1 = s ∧ (s.handle now sender m).2.relayed = [] := by
  cases m with
  | update v => cases h
  | delete v => cases h
  | _ => exact ⟨rfl, rfl⟩

/-- **The dispatches are what is sent to everybody.** -/
theorem relayed_perform (s : Server) (now : Time) (a : Activity) :
    (s.perform now a).2.relayed = (s.dispatches now a).map Dispatch.envelope := by
  cases a with
  | command c =>
    show (c.run now s.tree).events.map Envelope.ofEvent =
      ((c.run now s.tree).events.map fun e => (⟨now, none, .ofEvent e⟩ : Dispatch)).map
        Dispatch.envelope
    rw [List.map_map]
    rfl
  | message sender m =>
    show (s.handle now sender m).2.relayed = _
    cases hpatch : m.patch? with
    -- only a patch can be relayed, and only if it is accepted
    | none =>
      rw [(handle_of_patch?_none hpatch).2]
      simp only [dispatches, hpatch, List.map_nil]
    | some q =>
      obtain ⟨manner, v⟩ := q
      rw [handle_of_patch? hpatch]
      cases haccept : s.tree.accept now manner v with
      | error e =>
        rw [(applyRemote_error sender haccept).2]
        simp only [dispatches, hpatch, haccept, List.map_nil]
      | ok r =>
        obtain ⟨t, p⟩ := r
        rw [(applyRemote_ok sender haccept).2]
        simp only [dispatches, hpatch, haccept]
        rfl

end Server

/-! ### Redoing -/

/-- **A frame is redone** on a tree: it has to hold a patch, which is applied in its manner. -/
def redo (t : Tree) (now : Time) (frame : String) : Option Tree :=
  match Message.decode frame with
  | .error _ => none
  | .ok m => m.patch?.bind fun q => ((t.accept now q.1 q.2).map Prod.fst).toOption

/-- Frames are redone one after another, each at its clock. -/
def redoAll (t : Tree) : List (Time × Envelope) → Option Tree
  | [] => some t
  | (now, e) :: rest => (redo t now e.frame).bind fun t => redoAll t rest

/-- The frame of a dispatch with its clock. -/
def Dispatch.entry (d : Dispatch) : Time × Envelope := (d.now, d.envelope)

theorem redoAll_append (t : Tree) (log more : List (Time × Envelope)) :
    redoAll t (log ++ more) = (redoAll t log).bind fun t => redoAll t more := by
  induction log generalizing t with
  | nil => rfl
  | cons d rest ih =>
    obtain ⟨now, e⟩ := d
    rw [List.cons_append, redoAll, redoAll]
    cases redo t now e.frame with
    | none => rfl
    | some u => exact ih u

/-- **A frame that is read as it was written** is redone by applying its patch. -/
theorem redo_envelope {t u : Tree} {d : Dispatch} {p : Patch} {manner : Tree.Manner}
    (hwire : Message.decode d.envelope.frame = .ok d.message)
    (hmessage : d.message = .ofPatch p manner) (hp : p.Writable)
    (h : t.apply d.now manner p = .ok u) : redo t d.now d.envelope.frame = some u := by
  have haccept : t.accept d.now manner p.toValue = .ok (u, p) :=
    Tree.accept_eq_ok_iff.mpr ⟨Patch.ofValue_toValue hp, h⟩
  unfold redo
  rw [hwire]
  simp only [hmessage, Message.patch?_ofPatch, Option.bind_some, haccept]
  rfl

theorem redoAll_told {t u : Tree} {events : List Event} (h : Tree.Told Tree.Finite t events u)
    (ht : t.WellFormed) {now : Time}
    (hwire : ∀ e ∈ events, Message.decode (Message.ofEvent e).encode = .ok (.ofEvent e)) :
    redoAll t (events.map fun e => (now, Envelope.ofEvent e)) = some u := by
  induction h with
  | done t => rfl
  | @step t u v e events hstep hfinite _ ih =>
    have hfirst : redo t now (Message.ofEvent e).encode = some u :=
      redo_envelope (d := ⟨now, none, .ofEvent e⟩) (hwire e List.mem_cons_self) rfl
        (hstep.writable hfinite)
        ((Tree.apply_eq_ok_iff ht).mpr (hstep.takes_self now))
    rw [List.map_cons, redoAll]
    show (redo t now (Message.ofEvent e).encode).bind _ = some v
    rw [hfirst]
    exact ih hstep.wellFormed fun e he => hwire e (List.mem_cons_of_mem _ he)

namespace Server

variable {s : Server} {now : Time}

theorem tree_edit {α : Type} (s : Server) (f : Tree → Outcome α) :
    (s.edit f).1.tree = (f s.tree).tree := by
  show (if (f s.tree).events.isEmpty then _ else _ : Server).tree = _
  split <;> rfl

theorem group_edit {α : Type} (s : Server) (f : Tree → Outcome α) :
    (s.edit f).1.group = s.group.sendAll ((f s.tree).events.map Envelope.ofEvent) := by
  show (if (f s.tree).events.isEmpty then _ else _ : Server).group.sendAll _ = _
  split <;> rfl

theorem group_handle (s : Server) (now : Time) (sender : Uuid) (m : Message) :
    (s.handle now sender m).1.group = s.group := by
  cases hpatch : m.patch? with
  | none => rw [(handle_of_patch?_none hpatch).1]
  | some q =>
    obtain ⟨manner, v⟩ := q
    rw [handle_of_patch? hpatch]
    unfold applyRemote
    dsimp only
    split <;> rfl

/-- **An activity is redone by its frames**, and the tree stays well-formed and finite. -/
theorem redoAll_perform (ht : s.tree.WellFormed) (hfinite : s.tree.Finite) {a : Activity}
    (hadmissible : ∀ c, a = .command c → c.Finite ∧ c.Fresh s.tree)
    (hwire : ∀ d ∈ s.dispatches now a, Message.decode d.message.encode = .ok d.message) :
    (s.perform now a).1.tree.WellFormed ∧ (s.perform now a).1.tree.Finite ∧
      redoAll s.tree ((s.perform now a).2.relayed.map fun e => (now, e)) =
        some (s.perform now a).1.tree := by
  cases a with
  | command c =>
    -- the frames are those of the events, which tell of what the command did
    obtain ⟨hcommand, hfresh⟩ := hadmissible c rfl
    have htree : (s.perform now (.command c)).1.tree = (c.run now s.tree).tree :=
      s.tree_edit (c.run now)
    have htold : (c.run now s.tree).Told Tree.Finite s.tree :=
      (Tree.Command.told ht hfresh).imp fun u hu => hu ⟨hfinite, hcommand⟩
    rw [htree]
    refine ⟨htold.wellFormed ht, htold.last hfinite, ?_⟩
    show redoAll s.tree (((c.run now s.tree).events.map Envelope.ofEvent).map _) = _
    rw [List.map_map]
    refine redoAll_told htold ht fun e he => ?_
    exact hwire ⟨now, none, .ofEvent e⟩ (List.mem_map.mpr ⟨e, he, rfl⟩)
  | message sender m =>
    show (s.handle now sender m).1.tree.WellFormed ∧ (s.handle now sender m).1.tree.Finite ∧
      redoAll s.tree ((s.handle now sender m).2.relayed.map _) =
        some (s.handle now sender m).1.tree
    -- only an accepted patch is relayed; otherwise there is nothing to redo
    cases hpatch : m.patch? with
    | none =>
      obtain ⟨hserver, hrelayed⟩ : (s.handle now sender m).1 = s ∧
          (s.handle now sender m).2.relayed = [] := handle_of_patch?_none hpatch
      rw [hserver, hrelayed]
      exact ⟨ht, hfinite, rfl⟩
    | some q =>
      obtain ⟨manner, v⟩ := q
      rw [handle_of_patch? hpatch]
      cases haccept : s.tree.accept now manner v with
      | error e =>
        obtain ⟨htree, hreaction⟩ := applyRemote_error sender haccept
        rw [htree, hreaction]
        exact ⟨ht, hfinite, rfl⟩
      | ok r =>
        obtain ⟨t, p⟩ := r
        obtain ⟨htree, hreaction⟩ := applyRemote_ok sender haccept
        obtain ⟨hread, happly⟩ := Tree.accept_eq_ok_iff.mp haccept
        have htakes := Tree.takes_of_apply ht happly
        -- what is relayed is not what came but what was read, which can be read again
        have hwritable := Patch.writable_of_ofValue hread
        have hdispatch : s.dispatches now (.message sender m) =
            [⟨now, some sender, .ofPatch p manner⟩] := by
          simp only [dispatches, hpatch, haccept]
        rw [hdispatch] at hwire
        have hredo : redo s.tree now (Message.ofPatch p manner).encode = some t :=
          redo_envelope (d := ⟨now, some sender, .ofPatch p manner⟩)
            (hwire _ List.mem_cons_self) rfl hwritable happly
        rw [htree, hreaction]
        refine ⟨htakes.wellFormed, htakes.finite hwritable hfinite, ?_⟩
        show (redo s.tree now (Message.ofPatch p manner).encode).bind _ = some t
        rw [hredo]
        rfl

theorem redoAll_run (ht : s.tree.WellFormed) (hfinite : s.tree.Finite)
    {activities : List (Time × Activity)} (hadmissible : s.Admissible activities)
    (hwire : ∀ d ∈ s.allDispatches activities,
      Message.decode d.message.encode = .ok d.message) :
    redoAll s.tree (s.run activities).2 = some (s.run activities).1.tree := by
  induction activities generalizing s with
  | nil => rfl
  | cons q rest ih =>
    obtain ⟨now, a⟩ := q
    obtain ⟨hfirst, hrest⟩ := hadmissible
    obtain ⟨ht', hfinite', hredo⟩ := redoAll_perform ht hfinite hfirst fun d hd =>
      hwire d (List.mem_append_left _ hd)
    show redoAll s.tree ((s.perform now a).2.relayed.map _ ++ ((s.perform now a).1.run rest).2) = _
    rw [redoAll_append, hredo]
    exact ih ht' hfinite' hrest fun d hd => hwire d (List.mem_append_right _ hd)

/-- **What is sent to everybody** on account of the next activity, and what is answered. -/
structure Accounts (s : Server) (now : Time) : Prop where
  /-- What comes of an activity for everybody is sent to everybody, and nothing else is. -/
  sent : ∀ a, (s.perform now a).1.group = s.group.sendAll (s.perform now a).2.relayed
  /-- An accepted patch of a session is relayed once, under its sender, without an answer. -/
  accepted : ∀ sender m manner v t p, m.patch? = some (manner, v) →
    s.tree.accept now manner v = .ok (t, p) →
      (s.perform now (.message sender m)).1.tree = t ∧
        (s.perform now (.message sender m)).2 = ⟨none, [.ofPatch sender p manner]⟩
  /-- A patch of a session that is refused changes nothing and is answered with one error, in the
  words of the server if it is none. -/
  refused : ∀ sender m manner v e, m.patch? = some (manner, v) →
    s.tree.accept now manner v = .error e →
      (s.perform now (.message sender m)).1.tree = s.tree ∧
        (s.perform now (.message sender m)).2 = ⟨some (.error (e.report (s.wording v))), []⟩
  /-- Every event of a command is sent once, under nobody. -/
  told : ∀ c, (s.perform now (.command c)).2 =
    ⟨none, (c.run now s.tree).events.map fun e => ⟨none, (Message.ofEvent e).encode⟩⟩

theorem accounts (s : Server) (now : Time) : s.Accounts now where
  sent a := by
    cases a with
    | command c => exact s.group_edit (c.run now)
    | message sender m =>
      show (s.handle now sender m).1.group.sendAll _ = _
      rw [group_handle]
      rfl
  accepted sender m manner v t p hpatch haccept := by
    have happlied := applyRemote_ok sender haccept
    rw [← handle_of_patch? hpatch] at happlied
    exact happlied
  refused sender m manner v e hpatch haccept := by
    have happlied := applyRemote_error sender haccept
    rw [← handle_of_patch? hpatch] at happlied
    exact happlied
  told c := rfl

/-- **The frames of a server are a redo log of its tree**, whatever words it has for values that are
no patch. -/
theorem redo_run (config : ServerConfig) {t : Tree} (store : Option Store)
    (wording : Value → String) (ht : t.Reachable) (hfinite : t.Finite)
    {activities : List (Time × Activity)}
    (hadmissible : (create config t store wording).Admissible activities)
    (hwire : ∀ d ∈ (create config t store wording).allDispatches activities,
      Message.decode d.message.encode = .ok d.message) :
    (∃ r, Tree.ofSnapshot t.bounds t.snapshot = .ok r ∧
      ∃ u, redoAll r ((create config t store wording).run activities).2 = some u ∧
        u.snapshot = ((create config t store wording).run activities).1.tree.snapshot) ∧
    ∀ now, ((create config t store wording).run activities).1.Accounts now := by
  -- with the same table the replica is the tree itself
  refine ⟨⟨t, Tree.restore_snapshot ht.wellFormed _, _, ?_, rfl⟩, fun now => accounts _ now⟩
  exact redoAll_run ht.wellFormed hfinite hadmissible hwire

/-- A session creates a device, another one sends what is no patch, and the owner removes the
device. -/
def hallActivities : List (Time × Activity) := [
  (10, .message ⟨1⟩ (.update (Patch.toValue (.device "hall"
    (.change { name := some "", lastUpdate := some 9 }))))),
  (11, .message ⟨2⟩ (.delete .null)),
  (12, .command (.removeDevice "hall")),
  (13, .message ⟨2⟩ .requestInit)]

theorem redo_run_hall :
    ∃ r, Tree.ofSnapshot (.ofFallback ⟨0, 1⟩) (Tree.ofBounds (.ofFallback ⟨0, 1⟩)).snapshot =
        .ok r ∧
      ∃ u, redoAll r
          ((create {} (.ofBounds (.ofFallback ⟨0, 1⟩)) none).run hallActivities).2 = some u ∧
        u.snapshot = ((create {} (.ofBounds (.ofFallback ⟨0, 1⟩)) none).run
          hallActivities).1.tree.snapshot := by
  have hfinite : (Tree.ofBounds (.ofFallback ⟨0, 1⟩)).Finite := by
    refine ⟨fun eid => ⟨?_, ?_⟩, fun ip d hd => nomatch hd⟩
    · show (0 : Float).isFinite = true
      decide
    · show (1 : Float).isFinite = true
      decide
  have hadmissible : (create {} (.ofBounds (.ofFallback ⟨0, 1⟩)) none).Admissible
      hallActivities := by
    simp only [hallActivities, Admissible, reduceCtorEq, false_implies, implies_true, true_and,
      and_true]
    intro c hc
    cases hc
    exact ⟨trivial, trivial⟩
  have hwire : ∀ d ∈ (create {} (.ofBounds (.ofFallback ⟨0, 1⟩)) none).allDispatches
      hallActivities, (Message.decode d.message.encode).toOption = some d.message := by
    decide +kernel
  exact (redo_run {} none _ (.ofBounds _) hfinite hadmissible fun d hd =>
    toOption_eq_some_iff.mp (hwire d hd)).1

end Server

end Sync

end Fleet
