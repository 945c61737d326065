import Fleet.Proofs.Frames

/-!
# A server and its clients

A network is a server with clients, each of them at a session of its own. Between a client and its
session there are two channels, one in either direction, which lose nothing and keep the order. In
one step (`Network.step`) the owner of the server or of a client does something to the tree, a
client asks for the whole tree, or a frame gets one step further: a session takes a frame from its
client, it forwards one to its client, or the client takes one.

Nothing more is assumed of the order of the steps. `Network.Regular` collects what is assumed of a
run otherwise: no session falls so far behind that it loses frames, identifiers that are drawn for
views are not in use, and frames are read as they were written. A network is *settled*
(`Network.Settled`) if no frame is on its way and all replicas hold the tree of the server;
`Network.settled_join` builds settled networks with any number of clients.
-/

namespace Fleet

/-- **The message arrives**: its frame is read as it was written. -/
def Message.Arrives (m : Message) : Prop := Message.decode m.encode = .ok m

instance (m : Message) : Decidable m.Arrives := decidable_of_iff _ toOption_eq_some_iff

instance (e : Event) : Decidable e.Arrives := inferInstanceAs (Decidable (_ = _))

instance (t : Tree) (c : Tree.Command) : Decidable (c.Fresh t) :=
  match c with
  | .addView id _ _ => inferInstanceAs (Decidable (t.view? id = none))
  | .addDevice .. | .removeDevice .. | .touchDevice .. | .renameDevice .. | .extendDevice ..
  | .reduceDevice .. | .addEndpoint .. | .removeEndpoint .. | .setValueAt .. | .setValue ..
  | .setMin .. | .setMax .. | .recordValue .. | .addViewAs .. | .removeView .. | .renameView ..
  | .setReferences .. | .reset | .merge .. => .isTrue trivial

namespace Sync

/-- **A client with the frames on their way** between it and its session, the oldest first. -/
structure Station where
  client : Client
  /-- The frames for the server. -/
  up : List String := []
  /-- The frames for the client. -/
  down : List String := []

/-- **A server with its clients**, under the numbers of their sessions. -/
structure Network where
  server : Server
  stations : SortedMap Nat Station := ∅

/-- The station after a step of its client. -/
def Station.after (st : Station) (s : Client.Step) : Station :=
  { st with client := s.client, up := st.up ++ s.frames }

namespace Network

/-! ### Steps -/

/-- **What happens at a station.** -/
inductive Move where
  /-- The owner of the client gives a command. -/
  | edit (c : Tree.Command)
  /-- The client asks for the whole tree. -/
  | request
  /-- The server takes the next frame of the client. -/
  | serve
  /-- The session forwards the next frame of the broadcast group. -/
  | forward
  /-- The client takes the next frame of the server. -/
  | hear

/-- **What happens in a network**: a command of the owner of the server, or a move at a station. -/
inductive Action where
  | command (c : Tree.Command)
  | move (n : Nat) (m : Move)

/-- The network with another station at a session. -/
def put (net : Network) (n : Nat) (st : Station) : Network :=
  { net with stations := net.stations.insert n st }

/-- **A move at a station.** What is not possible changes nothing. -/
def act (net : Network) (now : Time) (n : Nat) (st : Station) : Move → Network
  | .edit c => net.put n (st.after (st.client.edit (c.run now)).1)
  | .request =>
    match st.client.requestInit with
    | .ok h => net.put n { st with up := st.up ++ [h.frame] }
    | .error _ => net
  | .serve =>
    match st.up with
    | [] => net
    | frame :: rest =>
      let (server, answers) := net.server.receive now n frame
      put { net with server } n { st with up := rest, down := st.down ++ answers }
  | .forward =>
    match net.server.forward n with
    | some (server, frames) => put { net with server } n { st with down := st.down ++ frames }
    | none => net
  | .hear =>
    match st.down with
    | [] => net
    | frame :: rest =>
      net.put n (Station.after { st with down := rest } (st.client.receive now frame))

/-- **One step of a network.** -/
def step (net : Network) (now : Time) : Action → Network
  | .command c => { net with server := (net.server.edit (c.run now)).1 }
  | .move n m =>
    match net.stations.get? n with
    | some st => net.act now n st m
    | none => net

/-- **A run of a network**: steps one after another, each at its clock. -/
def run (net : Network) : List (Time × Action) → Network
  | [] => net
  | (now, a) :: rest => (net.step now a).run rest

/-- Something holds of a network and of all networks on the way of a run. -/
def Throughout (P : Network → Prop) (net : Network) : List (Time × Action) → Prop
  | [] => P net
  | (now, a) :: rest => P net ∧ Throughout P (net.step now a) rest

instance decidableThroughout (P : Network → Prop) [DecidablePred P] :
    ∀ (net : Network) (actions : List (Time × Action)), Decidable (Throughout P net actions)
  | net, [] => inferInstanceAs (Decidable (P net))
  | net, (now, a) :: rest =>
    have := decidableThroughout P (net.step now a) rest
    inferInstanceAs (Decidable (P net ∧ Throughout P (net.step now a) rest))

theorem Throughout.imp {P Q : Network → Prop} (himp : ∀ net, P net → Q net) {net : Network}
    {actions : List (Time × Action)} (h : Throughout P net actions) : Throughout Q net actions := by
  induction actions generalizing net with
  | nil => exact himp net h
  | cons q rest ih => exact ⟨himp net h.1, ih h.2⟩

/-! ### What is assumed of a run -/

/-- **All sessions have lost nothing.** -/
def InTime (net : Network) : Prop :=
  ∀ n st, net.stations.get? n = some st → net.server.InTime n

/-- A command draws an identifier that is not in use, and its events arrive. -/
def Permits (now : Time) (t : Tree) (c : Tree.Command) : Prop :=
  c.Fresh t ∧ ∀ e ∈ (c.run now t).events, e.Arrives

/-- **The next step is as it should be**: a command is permitted, and an answer arrives. -/
def Allows (net : Network) (now : Time) : Action → Prop
  | .command c => Permits now net.server.tree c
  | .move n m => ∀ st ∈ net.stations.get? n,
    match m with
    | .edit c => Permits now st.client.replica c
    | .serve => ∀ frame ∈ st.up.head?, ∀ m ∈ net.server.answer? now n frame, m.Arrives
    | _ => True

instance (net : Network) (now : Time) (a : Action) : Decidable (net.Allows now a) :=
  match a with
  | .command c => inferInstanceAs (Decidable (c.Fresh net.server.tree ∧ _))
  | .move n m =>
    match m with
    | .edit c => inferInstanceAs (Decidable (∀ st ∈ net.stations.get? n,
        c.Fresh st.client.replica ∧ ∀ e ∈ (c.run now st.client.replica).events, e.Arrives))
    | .serve => inferInstanceAs (Decidable (∀ st ∈ net.stations.get? n,
        ∀ frame ∈ st.up.head?, ∀ m ∈ net.server.answer? now n frame, m.Arrives))
    | .request | .forward | .hear =>
      inferInstanceAs (Decidable (∀ st ∈ net.stations.get? n, True))

/-- **The run is as it should be**, step by step, and no session loses a frame. -/
def Regular (net : Network) : List (Time × Action) → Prop
  | [] => net.InTime
  | (now, a) :: rest => net.InTime ∧ net.Allows now a ∧ (net.step now a).Regular rest

instance decidableRegular : ∀ (net : Network) (actions : List (Time × Action)),
    Decidable (net.Regular actions)
  | net, [] =>
    inferInstanceAs (Decidable (∀ n st, net.stations.get? n = some st → net.server.InTime n))
  | net, (now, a) :: rest =>
    have := decidableRegular (net.step now a) rest
    inferInstanceAs (Decidable ((∀ n st, net.stations.get? n = some st → net.server.InTime n) ∧
      net.Allows now a ∧ (net.step now a).Regular rest))

/-- **No frame is on its way.** -/
def Quiet (net : Network) : Prop :=
  ∀ n st, net.stations.get? n = some st →
    st.up = [] ∧ st.down = [] ∧ net.server.pending n = []

instance (net : Network) : Decidable net.Quiet :=
  inferInstanceAs (Decidable (∀ n st, net.stations.get? n = some st → _))

/-- **Every client has the content of the tree of the server.** -/
def Agrees (net : Network) : Prop :=
  ∀ n st, net.stations.get? n = some st →
    st.client.replica.snapshot = net.server.tree.snapshot

instance (net : Network) : Decidable net.Agrees :=
  inferInstanceAs (Decidable (∀ n st, net.stations.get? n = some st → _))

/-- **Every client has a session and a connection.** -/
structure Connected (net : Network) : Prop where
  server : net.server.Coherent
  live : ∀ n st, net.stations.get? n = some st → st.client.Live
  sessions : ∀ n st, net.stations.get? n = some st → ∃ x, net.server.sessions.get? n = some x

/-- **No frame is on its way, and all replicas hold the tree of the server.** -/
structure Settled (net : Network) : Prop where
  connected : net.Connected
  quiet : net.Quiet
  tree : net.server.tree.WellFormed
  replicas : ∀ n st, net.stations.get? n = some st → st.client.replica.WellFormed ∧
    st.client.replica.bounds = net.server.tree.bounds ∧
    st.client.replica.snapshot = net.server.tree.snapshot

/-! ### Networks at the start -/

/-- A server without clients. -/
theorem settled_create (config : ServerConfig) {t : Tree} (store : Option Store)
    (ht : t.WellFormed) : Settled { server := .create config t store } where
  connected := {
    server := Server.coherent_create config t store
    live := fun n st h => by cases h
    sessions := fun n st h => by cases h }
  quiet n st h := by cases h
  tree := ht
  replicas n st h := by cases h

/-- A client joins: a session is opened for it. -/
def join (net : Network) (now : Time) (id : Uuid) (address : Option Address) (c : Client) :
    Network :=
  let (server, n) := net.server.openSession now id address
  put { net with server } n { client := c }

/-- **A client with the tree of the server joins a settled network**, which is settled again. -/
theorem settled_join {net : Network} (h : net.Settled) {id : Uuid}
    (hid : ∀ n x, net.server.sessions.get? n = some x → x.id ≠ id) {c : Client} (hlive : c.Live)
    (hwell : c.replica.WellFormed) (hbounds : c.replica.bounds = net.server.tree.bounds)
    (hsnapshot : c.replica.snapshot = net.server.tree.snapshot) (now : Time)
    (address : Option Address) : (net.join now id address c).Settled := by
  obtain ⟨⟨hserver, hclients, hsessions⟩, hquiet, htree, hreplicas⟩ := h
  -- a station is the new one, or one from before at another session
  have hstation : ∀ n st, (net.join now id address c).stations.get? n = some st →
      n = net.server.nextSession ∧ st = { client := c } ∨
        n ≠ net.server.nextSession ∧ net.stations.get? n = some st := by
    intro n st hst
    have hinsert : (net.stations.insert net.server.nextSession { client := c }).get? n = some st :=
      hst
    rw [SortedMap.get?_insert] at hinsert
    split at hinsert
    · next hn => exact .inl ⟨hn, (Option.some.inj hinsert).symm⟩
    · next hn => exact .inr ⟨hn, hinsert⟩
  have hopened : ∀ n, (net.join now id address c).server.sessions.get? n =
      if n = net.server.nextSession then some ⟨id, net.server.group.nextReceiver⟩
      else net.server.sessions.get? n := fun n => SortedMap.get?_insert
  obtain ⟨hnew, hother⟩ := Server.pending_openSession hserver now id address
  refine ⟨⟨hserver.openSession hid now address, fun n st hst => ?_, fun n st hst => ?_⟩,
    fun n st hst => ?_, htree, fun n st hst => ?_⟩
  · rcases hstation n st hst with ⟨-, rfl⟩ | ⟨-, hst⟩
    · exact hlive
    · exact hclients n st hst
  · rw [hopened]
    rcases hstation n st hst with ⟨hn, -⟩ | ⟨hn, hst⟩
    · exact ⟨_, if_pos hn⟩
    · rw [if_neg hn]
      exact hsessions n st hst
  · rcases hstation n st hst with ⟨rfl, rfl⟩ | ⟨hn, hst⟩
    · exact ⟨rfl, rfl, hnew⟩
    · obtain ⟨hup, hdown, hpending⟩ := hquiet n st hst
      exact ⟨hup, hdown, (hother n hn).trans hpending⟩
  · rcases hstation n st hst with ⟨-, rfl⟩ | ⟨-, hst⟩
    · exact ⟨hwell, hbounds, hsnapshot⟩
    · exact hreplicas n st hst

end Network

end Sync

end Fleet
