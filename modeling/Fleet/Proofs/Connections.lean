import Fleet.Proofs.Reconnecting

/-!
# Connections of one client

A client has one outbox and one state for all its connections, and each connection has a reader of
its own. A `Wiring` is a client with what is going on about it: a call of its owner, which may be
half done, and readers that come to their end at any time, each in two moments.

After a connection was made and before the owner calls again, the client goes on to use it unless
*some* reader comes to its end, also one of an earlier connection: a reader that ends gives up the
outbox and the state, whatever connection they belong to. `Wiring.connection_kept` says exactly what
becomes of the connection. If no reader was left when it was made, nothing but its own end can take
it away; if one was, that takes away a connection which works
(`Wiring.earlier_reader_detaches`).

The invariant is `Wiring.Uses`: either the outbox has the connection and nothing waits, or it has
none.
-/

namespace Fleet.Sync

namespace Outbox

variable {o : Outbox} {n m : Nat}

/-! ### What an outbox does with frames -/

/-- **The outbox has a connection that takes frames**, and nothing waits. -/
def Has (o : Outbox) (n : Nat) : Prop := o.link = some ⟨n, true⟩ ∧ o.queue.frames = []

/-- **The outbox has no connection**, and no more waits than there is room for. -/
def HasNone (o : Outbox) : Prop := o.link = none ∧ o.queue.frames.length ≤ o.queue.maxSize

/-- **What has become of a connection**: the outbox has it, or it has lost it. -/
def Stands (o : Outbox) (n : Nat) : Bool → Prop
  | false => o.Has n
  | true => o.HasNone

theorem has_attach (o : Outbox) (n : Nat) (last : String) : (o.attach n last).1.Has n := ⟨rfl, rfl⟩

/-- Another connection that takes no more frames does not matter. -/
theorem Has.shut (h : o.Has n) (hne : m ≠ n) : o.shut m = o := by
  obtain ⟨link, queue⟩ := o
  obtain ⟨rfl, -⟩ := h
  simp [Outbox.shut, hne.symm]

/-- **Without a connection frames wait**, as many of them as there is room for. -/
theorem HasNone.sendAll (h : o.HasNone) (frames : List String) : (o.sendAll frames).HasNone := by
  refine ⟨(sendAll_of_none h.1 frames).1, ?_⟩
  rw [sendAll_of_offline (offline_of_none h.1) h.2 frames]
  exact List.length_take_le _ _

theorem HasNone.shut (h : o.HasNone) (m : Nat) : (o.shut m).HasNone := by
  obtain ⟨link, queue⟩ := o
  obtain ⟨rfl, hroom⟩ := h
  exact ⟨rfl, hroom⟩

/-- **An outbox that gives up its connection** has none. -/
theorem Stands.detach {lost : Bool} (h : o.Stands n lost) : o.detach.Stands n true := by
  cases lost with
  | false => exact ⟨rfl, h.2 ▸ Nat.zero_le _⟩
  | true => exact ⟨rfl, h.2⟩

theorem Stands.sendAll {lost : Bool} (h : o.Stands n lost) (frames : List String) :
    (o.sendAll frames).Stands n lost := by
  cases lost with
  | false =>
    have hsame : o.sendAll frames = o := (sendAll_of_link h.1 frames).1
    rw [hsame]
    exact h
  | true => exact HasNone.sendAll h frames

theorem Stands.shut {lost : Bool} (h : o.Stands n lost) (hne : m ≠ n) :
    (o.shut m).Stands n lost := by
  cases lost with
  | false =>
    have hsame : o.shut m = o := Has.shut h hne
    rw [hsame]
    exact h
  | true => exact HasNone.shut h m

end Outbox

namespace Client

variable {c : Client}

/-- **A frame changes the replica only.** -/
theorem receive_eq (c : Client) (now : Time) (frame : String) :
    ∃ t, (c.receive now frame).client = { c with replica := t } := by
  rcases c.receive_cases now frame with ⟨t, notices, h⟩ | ⟨m, answer, notices, -, -, h⟩
  · rw [h]
    exact ⟨t, rfl⟩
  · rw [h, answer_eq]
    exact ⟨c.replica, rfl⟩

/-- **What is changed on the replica** is handed to the connection. -/
theorem edit_of_has {α : Type} {n : Nat} (h : c.outbox.Has n) (f : Tree → Outcome α) :
    (c.edit f).1.client.outbox = c.outbox ∧ (c.edit f).1.handed =
      (f c.replica).events.map fun e => ⟨n, (Message.ofEvent e).encode⟩ := by
  have hlink : { c with replica := (f c.replica).tree }.outbox.link = some ⟨n, true⟩ := h.1
  obtain ⟨hclient, hhanded⟩ := publish_of_link hlink (f c.replica).events
  have houtbox : (c.edit f).1.client.outbox = c.outbox := by
    rw [edit, hclient]
  exact ⟨houtbox, hhanded⟩

/-- **Without a connection it waits**, as much of it as there is room for. -/
theorem edit_of_hasNone {α : Type} (h : c.outbox.HasNone) (f : Tree → Outcome α) :
    (c.edit f).1.handed = [] ∧ (c.edit f).1.client.outbox.queue.frames =
      (c.outbox.queue.frames ++ (f c.replica).events.map fun e =>
        (Message.ofEvent e).encode).take c.outbox.queue.maxSize := by
  rw [handed_edit, edit_eq]
  exact ⟨(Outbox.sendAll_of_none h.1 _).2,
    congrArg OfflineQueue.frames (Outbox.sendAll_of_offline (Outbox.offline_of_none h.1) h.2 _)⟩

end Client

/-! ### Steps -/

/-- **How far the owner of a client has come** with a call. -/
inductive Stage where
  | idle
  /-- A connection is being made. -/
  | dialling
  /-- The outbox has the connection, but there is no reader yet. -/
  | attached (number : Nat)
  /-- The outbox has given up its connection, but the state does not say so yet. -/
  | detached
deriving DecidableEq

/-- **A client with what is going on about it.** -/
structure Wiring where
  client : Client
  stage : Stage := .idle
  /-- The connections whose readers have given up the outbox, but not the state yet. -/
  ending : List Nat := []

namespace Wiring

/-- **What happens.** -/
inductive Action where
  /-- The owner begins to connect. -/
  | dial
  /-- The connection could not be made. -/
  | refused
  /-- The connection is made: the outbox hands over what waits. -/
  | attach
  /-- The state says so, and the connection gets its reader. -/
  | enter
  /-- The owner begins to disconnect: the outbox gives up its connection. -/
  | detach
  /-- The state says so. -/
  | leave
  /-- A reader comes to its end: it gives up the outbox. -/
  | readerDetaches (number : Nat)
  /-- The reader gives up the state. -/
  | readerLeaves (number : Nat)
  /-- A connection takes no more frames. -/
  | writerEnds (number : Nat)
  /-- A reader takes a frame. -/
  | hear (number : Nat) (now : Time) (frame : String)
  /-- The replica is changed. -/
  | command (now : Time) (c : Tree.Command)

namespace Action

/-- The owner of the client makes a call. -/
inductive Calls : Action → Prop where
  | dial : Calls .dial
  | refused : Calls .refused
  | attach : Calls .attach
  | enter : Calls .enter
  | detach : Calls .detach
  | leave : Calls .leave

/-- **The action ends the time of a connection**: the owner calls again, or the reader or the writer
of the connection ends. -/
inductive Ends (number : Nat) : Action → Prop where
  | call {a : Action} (h : a.Calls) : Ends number a
  | detaches : Ends number (.readerDetaches number)
  | leaves : Ends number (.readerLeaves number)
  | writer : Ends number (.writerEnds number)

/-- A reader gives up the outbox. -/
def isDetaching : Action → Bool
  | .readerDetaches _ => true
  | _ => false

/-- A reader gives up the state. -/
def isLeaving : Action → Bool
  | .readerLeaves _ => true
  | _ => false

end Action

/-- **One step**, if it is possible: a call goes through its moments one after another, and only a
reader that is there can end or take a frame. -/
def step? (w : Wiring) : Action → Option Wiring
  | .dial =>
    if w.stage = .idle then some { w with client := w.client.dial, stage := .dialling } else none
  | .refused =>
    if w.stage = .dialling then some { w with client := w.client.dialFailed.1, stage := .idle }
    else none
  | .attach =>
    if w.stage = .dialling then
      let n := w.client.nextLink
      some { w with
        client := { w.client with
          outbox := (w.client.outbox.attach n Message.requestInit.encode).1
          nextLink := n + 1 }
        stage := .attached n }
    else none
  | .enter =>
    match w.stage with
    | .attached n => some { w with
        client := { w.client with state := .connected, readers := n :: w.client.readers }
        stage := .idle }
    | _ => none
  | .detach =>
    if w.stage = .idle then some { w with
      client := { w.client with outbox := w.client.outbox.detach }
      stage := .detached }
    else none
  | .leave =>
    if w.stage = .detached then some { w with
      client := { w.client with state := .disconnected }
      stage := .idle }
    else none
  | .readerDetaches n =>
    if n ∈ w.client.readers then some { w with
      client := { w.client with
        outbox := w.client.outbox.detach
        readers := w.client.readers.filter (· ≠ n) }
      ending := n :: w.ending }
    else none
  | .readerLeaves n =>
    if n ∈ w.ending then some { w with
      client := { w.client with state := .disconnected }
      ending := w.ending.erase n }
    else none
  | .writerEnds n => some { w with client := w.client.writerEnds n }
  | .hear n now frame =>
    if n ∈ w.client.readers then some { w with client := (w.client.receive now frame).client }
    else none
  | .command now c => some { w with client := (w.client.edit (c.run now)).1.client }

/-- **Steps one after another**, if all of them are possible. -/
def run? (w : Wiring) : List Action → Option Wiring
  | [] => some w
  | a :: rest => (w.step? a).bind (run? · rest)

variable {w w' : Wiring} {n : Nat}

theorem run?_append {actions more : List Action} :
    w.run? (actions ++ more) = (w.run? actions).bind (run? · more) := by
  induction actions generalizing w with
  | nil => rfl
  | cons a rest ih =>
    show (w.step? a).bind _ = ((w.step? a).bind _).bind _
    rw [Option.bind_assoc]
    exact congrArg _ (funext fun _ => ih)

/-! ### Steps in one go -/

/-- **To connect** is to dial and to establish the connection. -/
theorem run?_connect (h : w.stage = .idle) : w.run? [.dial, .attach, .enter] =
    some { w with client := w.client.dial.established.client } := by
  obtain ⟨c, stage, ending⟩ := w
  cases h
  rfl

/-- A connection that could not be made. -/
theorem run?_refused (h : w.stage = .idle) : w.run? [.dial, .refused] =
    some { w with client := w.client.dial.dialFailed.1 } := by
  obtain ⟨c, stage, ending⟩ := w
  cases h
  rfl

/-- **To disconnect** is to give up the outbox and the state. -/
theorem run?_disconnect (h : w.stage = .idle) : w.run? [.detach, .leave] =
    some { w with client := w.client.disconnect } := by
  obtain ⟨c, stage, ending⟩ := w
  cases h
  rfl

/-- **A reader that ends** does the same. -/
theorem run?_readerEnds (h : n ∈ w.client.readers) :
    w.run? [.readerDetaches n, .readerLeaves n] =
      some { w with client := (w.client.readerEnds n).client } := by
  simp [run?, step?, h, Client.readerEnds, Client.disconnect]

/-! ### While a connection is used -/

/-- **No reader of another connection** is there, nor about to end. -/
def Alone (w : Wiring) (n : Nat) : Prop := (∀ m ∈ w.client.readers, m = n) ∧ w.ending = []

/-- **What may happen to a connection while it is used**: whether some reader has given up the
outbox, and whether some reader has given up the state, is all that matters to it. -/
structure Uses (n : Nat) (w : Wiring) (detached left : Bool) (w' : Wiring) : Prop where
  stage : w'.stage = w.stage
  state : w'.client.state = if left then .disconnected else w.client.state
  outbox : ∀ lost, w.client.outbox.Stands n lost → w'.client.outbox.Stands n (detached || lost)
  alone : w.Alone n → detached = false ∧ left = false ∧ w'.Alone n

/-- Nothing happens. -/
theorem Uses.refl (n : Nat) (w : Wiring) : Uses n w false false w :=
  ⟨rfl, rfl, fun _ h => h, fun h => ⟨rfl, rfl, h⟩⟩

theorem Uses.trans {detached left detached' left' : Bool} {w'' : Wiring}
    (h : Uses n w detached left w') (h' : Uses n w' detached' left' w'') :
    Uses n w (detached || detached') (left || left') w'' where
  stage := h'.stage.trans h.stage
  state := by
    rw [h'.state, h.state]
    cases left <;> cases left' <;> rfl
  outbox lost hlost := by
    rw [Bool.or_comm detached, Bool.or_assoc]
    exact h'.outbox _ (h.outbox lost hlost)
  alone halone := by
    obtain ⟨rfl, rfl, halone⟩ := h.alone halone
    exact h'.alone halone

/-- **One step** until the time of the connection ends. -/
theorem uses_step? {a : Action} (h : w.step? a = some w') (hends : ¬ a.Ends n) :
    Uses n w a.isDetaching a.isLeaving w' := by
  cases a with
  -- a call of the owner ends the time of the connection
  | dial => exact absurd (.call .dial) hends
  | refused => exact absurd (.call .refused) hends
  | attach => exact absurd (.call .attach) hends
  | enter => exact absurd (.call .enter) hends
  | detach => exact absurd (.call .detach) hends
  | leave => exact absurd (.call .leave) hends
  -- a reader gives up whatever the outbox has; it belongs to another connection, as the time of
  -- this one would be over
  | readerDetaches m =>
    obtain ⟨hm, ⟨⟩⟩ := Option.ite_none_right_eq_some.mp h
    refine ⟨rfl, rfl, fun lost hlost => hlost.detach, fun halone => ?_⟩
    exact absurd (halone.1 m hm ▸ .detaches) hends
  | readerLeaves m =>
    obtain ⟨hm, ⟨⟩⟩ := Option.ite_none_right_eq_some.mp h
    refine ⟨rfl, rfl, fun _ hlost => hlost, fun halone => ?_⟩
    rw [halone.2] at hm
    cases hm
  -- what else happens leaves the outbox with the connection that it has
  | writerEnds m =>
    cases h
    have hne : m ≠ n := fun heq => hends (heq ▸ .writer)
    exact ⟨rfl, rfl, fun lost hlost => hlost.shut hne, fun halone => ⟨rfl, rfl, halone⟩⟩
  | hear m now frame =>
    obtain ⟨-, ⟨⟩⟩ := Option.ite_none_right_eq_some.mp h
    obtain ⟨t, ht⟩ := w.client.receive_eq now frame
    rw [ht]
    exact ⟨rfl, rfl, fun _ hlost => hlost, fun halone => ⟨rfl, rfl, halone⟩⟩
  | command now c =>
    cases h
    rw [Client.edit_eq]
    exact ⟨rfl, rfl, fun lost hlost => hlost.sendAll _, fun halone => ⟨rfl, rfl, halone⟩⟩

/-- **A whole run** until the time of the connection ends. -/
theorem uses_run? {actions : List Action} (h : w.run? actions = some w')
    (hends : ∀ a ∈ actions, ¬ a.Ends n) :
    Uses n w (actions.any Action.isDetaching) (actions.any Action.isLeaving) w' := by
  induction actions generalizing w with
  | nil =>
    cases h
    exact .refl n _
  | cons a rest ih =>
    obtain ⟨v, hv, hrest⟩ := Option.bind_eq_some_iff.mp h
    obtain ⟨ha, hends⟩ := List.forall_mem_cons.mp hends
    exact (uses_step? hv ha).trans (ih hrest hends)

/-- **What becomes of a connection** from the moment it is made until its own reader or writer ends
or the owner calls again, whatever else happens. The client is connected unless some reader, of an
earlier connection, gives up the state. What is changed on the replica is handed to the connection,
and nothing waits, unless some reader gives up the outbox; then what is changed waits, as much as
there is room for, and is handed to nobody. If there was no reader of an earlier connection when the
connection was made, neither happens. -/
theorem connection_kept {between after : List Action}
    (hrun : w.run? (.attach :: (between ++ .enter :: after)) = some w')
    (hends : ∀ a ∈ between ++ after, ¬ a.Ends w.client.nextLink) :
    (w'.client.state = if after.any Action.isLeaving then .disconnected else .connected) ∧
    ((between ++ after).any Action.isDetaching = false →
      w'.client.outbox.queue.frames = [] ∧ ∀ (now : Time) (c : Tree.Command),
        (w'.client.edit (c.run now)).1.client.outbox = w'.client.outbox ∧
        (w'.client.edit (c.run now)).1.handed = (c.run now w'.client.replica).events.map
          fun e => ⟨w.client.nextLink, (Message.ofEvent e).encode⟩) ∧
    ((between ++ after).any Action.isDetaching = true →
      ∀ (now : Time) (c : Tree.Command), (w'.client.edit (c.run now)).1.handed = [] ∧
        (w'.client.edit (c.run now)).1.client.outbox.queue.frames =
          (w'.client.outbox.queue.frames ++ (c.run now w'.client.replica).events.map
            fun e => (Message.ofEvent e).encode).take w'.client.outbox.queue.maxSize) ∧
    (w.client.readers = [] → w.ending = [] →
      (between ++ after).any Action.isDetaching = false ∧ after.any Action.isLeaving = false) := by
  have hbetween : ∀ a ∈ between, ¬ a.Ends w.client.nextLink :=
    fun a ha => hends a (List.mem_append_left _ ha)
  have hafter : ∀ a ∈ after, ¬ a.Ends w.client.nextLink :=
    fun a ha => hends a (List.mem_append_right _ ha)
  -- the outbox gets the connection, and the readers are those that there were
  obtain ⟨w₁, hattach, hrun⟩ := Option.bind_eq_some_iff.mp hrun
  obtain ⟨-, ⟨⟩⟩ := Option.ite_none_right_eq_some.mp hattach
  rw [run?_append] at hrun
  obtain ⟨w₂, hw₂, hrun⟩ := Option.bind_eq_some_iff.mp hrun
  have huses := uses_run? hw₂ hbetween
  -- the state says that there is a connection, which gets its reader
  obtain ⟨w₃, henter, hrun⟩ := Option.bind_eq_some_iff.mp hrun
  have hstage : w₂.stage = .attached w.client.nextLink := huses.stage
  simp only [step?, hstage, Option.some.injEq] at henter
  cases henter
  have huses' := uses_run? hrun hafter
  have hattached : (w.client.outbox.attach w.client.nextLink
      Message.requestInit.encode).1.Stands w.client.nextLink false := Outbox.has_attach _ _ _
  have hstands : w'.client.outbox.Stands w.client.nextLink
      ((between ++ after).any Action.isDetaching) := by
    have h := huses'.outbox _ (huses.outbox false hattached)
    rwa [Bool.or_false, Bool.or_comm, ← List.any_append] at h
  refine ⟨huses'.state, fun hkept => ?_, fun hlost => ?_, fun hreaders hending => ?_⟩
  · rw [hkept] at hstands
    exact ⟨hstands.2, fun now c => Client.edit_of_has hstands (c.run now)⟩
  · rw [hlost] at hstands
    exact fun now c => Client.edit_of_hasNone hstands (c.run now)
  · have halone : ∀ m ∈ w.client.readers, m = w.client.nextLink := by
      rw [hreaders]
      exact nofun
    obtain ⟨hdetaching, -, hreaders', hending'⟩ := huses.alone ⟨halone, hending⟩
    obtain ⟨hdetaching', hleaving', -⟩ := huses'.alone
      ⟨List.forall_mem_cons.mpr ⟨rfl, hreaders'⟩, hending'⟩
    rw [List.any_append, hdetaching, hdetaching']
    exact ⟨rfl, hleaving'⟩

/-- A client that has a connection and is making another one. -/
def redialling : Wiring where
  client := (Client.create {}).dial.established.client.dial
  stage := .dialling

/-- The writer of the earlier connection ends while the new one is made, and its reader takes a
frame. -/
theorem connection_kept_redialling : ∃ w',
    ({ client := .create {} } : Wiring).run? [.dial, .attach, .enter, .dial] = some redialling ∧
    redialling.run? [.attach, .writerEnds 0, .enter, .hear 0 7 Message.ping.encode,
      .command 8 (.addDevice "hall" "Hall")] = some w' ∧
    w'.client.readers = [1, 0] ∧ w'.client.state = .connected ∧
    w'.client.outbox.queue.frames = [] ∧
    (w'.client.edit ((Tree.Command.touchDevice "hall").run 9)).1.handed.map Handed.link = [1] := by
  obtain ⟨w', hrun⟩ : ∃ w', redialling.run? [.attach, .writerEnds 0, .enter,
      .hear 0 7 Message.ping.encode, .command 8 (.addDevice "hall" "Hall")] = some w' :=
    Option.isSome_iff_exists.mp (by decide +kernel)
  have hends : ∀ a ∈ [.writerEnds 0] ++ [.hear 0 7 Message.ping.encode,
      .command 8 (.addDevice "hall" "Hall")], ¬ Action.Ends redialling.client.nextLink a := by
    simp only [List.cons_append, List.nil_append, List.forall_mem_cons, List.not_mem_nil,
      false_implies, implies_true, and_true]
    refine ⟨?_, ?_, ?_⟩ <;> rintro (⟨⟨⟩⟩ | _)
  have hwhole : redialling.run? (.attach :: ([.writerEnds 0] ++ .enter ::
      [.hear 0 7 Message.ping.encode, .command 8 (.addDevice "hall" "Hall")])) = some w' := hrun
  obtain ⟨hstate, hkept, -, -⟩ := connection_kept hwhole hends
  obtain ⟨hqueue, hedit⟩ := hkept rfl
  have hserved : (redialling.run? [.attach, .writerEnds 0, .enter,
      .hear 0 7 Message.ping.encode, .command 8 (.addDevice "hall" "Hall")]).all (fun w =>
        decide (w.client.readers = [1, 0] ∧ ((Tree.Command.touchDevice "hall").run 9
          w.client.replica).events.length = 1)) = true := by decide +kernel
  rw [hrun] at hserved
  obtain ⟨hreaders, hevents⟩ := of_decide_eq_true hserved
  have hredial : ({ client := .create {} } : Wiring).run? ([.dial, .attach, .enter] ++ [.dial]) =
      some redialling := by
    rw [run?_append, run?_connect rfl]
    rfl
  refine ⟨w', hredial, hrun, hreaders, hstate, hqueue, ?_⟩
  rw [(hedit 9 (.touchDevice "hall")).2, List.map_map]
  obtain ⟨e, he⟩ := List.length_eq_one_iff.mp hevents
  rw [he]
  rfl

/-- **The reader of an earlier connection takes a connection away** that works. Its own reader and
its writer are there, and the owner has not called again. But the client says that it is not
connected, and what is changed on the replica is handed to nobody. -/
theorem earlier_reader_detaches : ∃ w',
    redialling.run? [.attach, .enter, .readerDetaches 0, .readerLeaves 0] = some w' ∧
    (∀ a ∈ [Action.readerDetaches 0, .readerLeaves 0], ¬ a.Ends redialling.client.nextLink) ∧
    w'.client.readers = [redialling.client.nextLink] ∧ w'.client.state = .disconnected ∧
    (w'.client.edit ((Tree.Command.addDevice "hall" "Hall").run 9)).1.handed = [] ∧
    (w'.client.edit ((Tree.Command.addDevice "hall" "Hall").run 9)).1.client.outbox.queue.size =
      1 := by
  have hends : ∀ a ∈ [Action.readerDetaches 0, .readerLeaves 0],
      ¬ a.Ends redialling.client.nextLink := by
    simp only [List.forall_mem_cons, List.not_mem_nil, false_implies, implies_true, and_true]
    refine ⟨?_, ?_⟩ <;> rintro (⟨⟨⟩⟩ | _)
  obtain ⟨w', hrun⟩ : ∃ w',
      redialling.run? [.attach, .enter, .readerDetaches 0, .readerLeaves 0] = some w' :=
    Option.isSome_iff_exists.mp (by decide +kernel)
  have hlost : (redialling.run? [.attach, .enter, .readerDetaches 0, .readerLeaves 0]).all (fun w =>
      decide (w.client.readers = [redialling.client.nextLink] ∧ w.client.state = .disconnected ∧
        (w.client.edit ((Tree.Command.addDevice "hall" "Hall").run 9)).1.handed = [] ∧
        (w.client.edit ((Tree.Command.addDevice "hall" "Hall").run 9)).1.client.outbox.queue.size =
          1)) = true := by
    decide +kernel
  rw [hrun] at hlost
  obtain ⟨hreaders, hstate, hhanded, hqueue⟩ := of_decide_eq_true hlost
  exact ⟨w', hrun, hends, hreaders, hstate, hhanded, hqueue⟩

end Wiring

end Fleet.Sync
