import Fleet.Proofs.Lagging
import Fleet.Proofs.Reconciling

/-!
# Clients that only read

A `Reader` is a server with one of its sessions, whose client makes no changes of its own. All that
the client ever says is that it wants the whole tree or a sign of life, or that it is still there.

In one step (`Reader.step`) something happens at the server, to this session or to others, or a
frame gets one step further on its way between the server and the client. The broadcast group may
give up frames at any time, not only when it has no room for them. Nothing is assumed of the order
of the steps; what is assumed of each of them is `Reader.Allows`.
-/

namespace Fleet.Sync

/-- **A client that only reads**, with its server. -/
structure Reader where
  server : Server
  /-- The number of the session of the client. -/
  number : Nat
  station : Station
  /-- The frames that the client has taken, the oldest first. -/
  taken : List String := []

namespace Reader

/-! ### Steps -/

/-- **What happens.** At the server there are other sessions, whose clients may send anything. -/
inductive Action where
  /-- The owner of the server gives a command. -/
  | command (c : Tree.Command)
  /-- Another session takes a frame. -/
  | frame (k : Nat) (frame : String)
  /-- Another session forwards a frame. -/
  | relay (k : Nat)
  /-- Another session is opened. -/
  | join (id : Uuid) (address : Option Address)
  /-- Another session is closed. -/
  | leave (k : Nat)
  /-- The broadcast group gives up so many of its oldest frames, which it does when it has no room
  for them. -/
  | lose (m : Nat)
  /-- The client asks for the whole tree. -/
  | request
  /-- The client asks for a sign of life. -/
  | ping
  /-- The server takes the next frame of the client. -/
  | serve
  /-- The session of the client forwards the next frame of the broadcast group, or the whole tree
  if it has lost frames. -/
  | forward
  /-- The client takes the next frame of the server. -/
  | hear

/-- The client hands over a message. -/
def say (r : Reader) (m : Message) : Reader :=
  match r.station.client.sendLive m with
  | .ok h => { r with station := { r.station with up := r.station.up ++ [h.frame] } }
  | .error _ => r

/-- **One step.** What is not possible changes nothing. -/
def step (r : Reader) (now : Time) : Action → Reader
  | .command c => { r with server := (r.server.edit (c.run now)).1 }
  | .frame k frame => { r with server := (r.server.receive now k frame).1 }
  | .relay k =>
    match r.server.forward k with
    | some (server, _) => { r with server }
    | none => r
  | .join id address => { r with server := (r.server.openSession now id address).1 }
  | .leave k => { r with server := r.server.closeSession k }
  | .lose m => { r with server := r.server.lose m }
  | .request => r.say .requestInit
  | .ping => r.say .ping
  | .serve =>
    match r.station.up with
    | [] => r
    | frame :: rest =>
      let (server, answers) := r.server.receive now r.number frame
      { r with server, station := { r.station with up := rest, down := r.station.down ++ answers } }
  | .forward =>
    match r.server.forward r.number with
    | some (server, frames) =>
      { r with server, station := { r.station with down := r.station.down ++ frames } }
    | none => r
  | .hear =>
    match r.station.down with
    | [] => r
    | frame :: rest =>
      { r with
        station := Station.after { r.station with down := rest }
          (r.station.client.receive now frame)
        taken := r.taken ++ [frame] }

/-- **Steps one after another**, each at its clock. -/
def run (r : Reader) : List (Time × Action) → Reader
  | [] => r
  | (now, a) :: rest => (r.step now a).run rest

/-! ### What is assumed and what is said -/

/-- **The next step is as it should be**: identifiers that are drawn are not in use, patches that
are accepted are dated, and what is sent to the client is read as it was written. -/
def Allows (r : Reader) (now : Time) : Action → Prop
  | .command c => Network.Permits now r.server.tree c
  | .frame k frame => k ≠ r.number ∧ ∀ e ∈ eventIn? frame,
    ∀ t ∈ (r.server.tree.apply now e.manner e.patch).toOption, e.patch.Dated ∧ e.Arrives
  | .relay k | .leave k => k ≠ r.number
  | .join id _ => ∀ k x, r.server.sessions.get? k = some x → x.id ≠ id
  | .serve => ∀ frame ∈ r.station.up.head?,
    ∀ m ∈ r.server.answer? now r.number frame, m.Arrives
  | .forward => ¬ r.server.InTime r.number → (Message.ofTree r.server.tree).Arrives
  | .lose _ | .request | .ping | .hear => True

instance (r : Reader) (now : Time) (a : Action) : Decidable (r.Allows now a) :=
  match a with
  | .command c => inferInstanceAs (Decidable (c.Fresh r.server.tree ∧ _))
  | .frame k frame => inferInstanceAs (Decidable (k ≠ r.number ∧ ∀ e ∈ eventIn? frame, _))
  | .relay k | .leave k => inferInstanceAs (Decidable (k ≠ r.number))
  | .join id _ =>
    inferInstanceAs (Decidable (∀ k x, r.server.sessions.get? k = some x → x.id ≠ id))
  | .serve => inferInstanceAs (Decidable (∀ frame ∈ r.station.up.head?,
      ∀ m ∈ r.server.answer? now r.number frame, m.Arrives))
  | .forward => inferInstanceAs (Decidable
      (¬ r.server.InTime r.number → (Message.ofTree r.server.tree).Arrives))
  | .lose _ | .request | .ping | .hear => inferInstanceAs (Decidable True)

/-- **The steps are as they should be**, one after another. -/
def Regular (r : Reader) : List (Time × Action) → Prop
  | [] => True
  | (now, a) :: rest => r.Allows now a ∧ (r.step now a).Regular rest

instance decidableRegular : ∀ (r : Reader) (actions : List (Time × Action)),
    Decidable (r.Regular actions)
  | _, [] => inferInstanceAs (Decidable True)
  | r, (now, a) :: rest =>
    have := decidableRegular (r.step now a) rest
    inferInstanceAs (Decidable (r.Allows now a ∧ (r.step now a).Regular rest))

/-- **Nothing is on its way**, and the session has nothing to forward. -/
def Quiet (r : Reader) : Prop :=
  r.station.up = [] ∧ r.station.down = [] ∧ (r.server.forward r.number).isNone

instance (r : Reader) : Decidable r.Quiet :=
  inferInstanceAs (Decidable (r.station.up = [] ∧ r.station.down = [] ∧ _))

/-- **The client has got the whole tree** at some time. -/
def Informed (r : Reader) : Prop := ∃ frame ∈ r.taken, treeIn? frame ≠ none

instance (r : Reader) : Decidable r.Informed :=
  inferInstanceAs (Decidable (∃ frame ∈ r.taken, _))

/-- **The client has the content of the tree of the server.** -/
def Agrees (r : Reader) : Prop := r.station.client.replica.snapshot = r.server.tree.snapshot

instance (r : Reader) : Decidable r.Agrees := inferInstanceAs (Decidable (_ = _))

/-! ### The beginning -/

/-- **The session has just begun.** Nothing was sent to the client, and it has nothing to tell. -/
structure Started (r : Reader) : Prop where
  server : r.server.Coherent
  inTime : r.server.InTime r.number
  pending : r.server.pending r.number = []
  live : r.station.client.Live
  tree : r.server.tree.WellFormed
  replica : r.station.client.replica.WellFormed
  bounds : r.station.client.replica.bounds = r.server.tree.bounds
  silent : eventsIn r.station.up = []
  down : r.station.down = []
  taken : r.taken = []

/-- A client connects to a server, which opens a session for it. -/
def connect (s : Server) (now : Time) (id : Uuid) (address : Option Address) (c : Client) :
    Reader where
  server := (s.openSession now id address).1
  number := s.nextSession
  station := { client := c.established.client, up := c.established.frames }

/-- **The session of a client has begun** when the client has connected, whatever it held before;
only its queue has to be empty, and its table of bounds that of the server. -/
theorem started_connect {s : Server} (hs : s.Coherent) (ht : s.tree.WellFormed) {id : Uuid}
    (hid : ∀ k x, s.sessions.get? k = some x → x.id ≠ id) {c : Client}
    (hc : c.replica.WellFormed) (hbounds : c.replica.bounds = s.tree.bounds)
    (hqueue : c.outbox.queue.frames = []) (now : Time) (address : Option Address) :
    (connect s now id address c).Started := by
  have hx : (s.openSession now id address).1.sessions.get? s.nextSession =
      some ⟨id, s.group.nextReceiver⟩ := SortedMap.get?_insert.trans (if_pos rfl)
  have hplace : (s.openSession now id address).1.group.receivers.get? s.group.nextReceiver =
      some s.group.position := SortedMap.get?_insert.trans (if_pos rfl)
  refine ⟨hs.openSession hid now address, ⟨_, hx, _, hplace, Nat.sub_le _ _⟩,
    (Server.pending_openSession hs now id address).1, ⟨c.nextLink, rfl⟩, ht, hc, hbounds, ?_, rfl,
    rfl⟩
  have hup : (connect s now id address c).station.up = [Message.requestInit.encode] := by
    show ((c.outbox.queue.frames ++ [Message.requestInit.encode]).map _).map Handed.frame = _
    rw [hqueue]
    rfl
  rw [hup, eventsIn_cons_of_none eventIn?_requestInit]
  rfl

end Reader

end Fleet.Sync
