import Fleet.Sync.Outbox
import Fleet.Tree.Merge

/-!
# Clients

A client holds a replica of the tree of a server. Changes that its owner makes are published to the
server, or wait while there is no connection; patches that the server relays are applied quietly.

When a connection is made, the frames that wait are handed over first and the request for the whole
tree follows, so that the answer already contains them. A patch that does not fit the replica means
that the replica has drifted away, and the whole tree is requested again.

The outbox, the state and the replica are shared by all connections of a client. Each connection has
a reader of its own that handles the frames which come in, and a reader may come to its end at any
time after its connection, even when another one has been made since. `Client.readerEnds` says what
it does then.
-/

namespace Fleet.Sync

/-- **Whether a client is connected.** -/
inductive ConnectionState where
  | disconnected
  | connecting
  | connected
deriving DecidableEq, Repr

/-- The name of a state. -/
def ConnectionState.name : ConnectionState → String
  | disconnected => "disconnected"
  | connecting => "connecting"
  | connected => "connected"

/-- **What a client tells its owner.** -/
inductive Notice where
  | connected
  | disconnected
  /-- The replica was replaced by the tree of the server. -/
  | initialized (devices views : Nat)
  /-- A patch was applied, in the manner in which it was meant. -/
  | applied (manner : Tree.Manner) (patch : Patch)
  /-- The server has refused a patch of ours. -/
  | rejected (report : ErrorReport)
  /-- A patch did not fit, and the tree was requested again. -/
  | resync (report : ErrorReport)
  | pong
deriving DecidableEq

/-- **A client.** -/
structure Client where
  replica : Tree
  state : ConnectionState := .disconnected
  outbox : Outbox
  /-- The number for the next connection. -/
  nextLink : Nat := 0
  /-- The connections whose readers are still there. -/
  readers : List Nat := []
  /-- What its reader of documents says of a value that is no patch. -/
  wording : Value → String := fun _ => ""

/-- **What a step of a client leaves behind**: the client, the frames that it handed over and what
it told its owner. -/
structure Client.Step where
  client : Client
  handed : List Handed := []
  notices : List Notice := []

namespace Client

/-- How many frames may wait unless something else is asked for. -/
def defaultQueueSize : Nat := 10000

/-- A client without a connection. -/
def create (replica : Tree) (maxQueued : Nat := defaultQueueSize)
    (wording : Value → String := fun _ => "") : Client where
  replica := replica
  outbox := { queue := ⟨maxQueued, []⟩ }
  wording := wording

/-! ### The owner -/

/-- Events of the replica are published one after another. -/
def publish (c : Client) (events : List Event) : Step :=
  events.foldl (fun s e =>
    let (outbox, sent) := s.client.outbox.sendOrQueue (Message.ofEvent e).encode
    { s with
      client := { s.client with outbox }
      handed := s.handed ++ match sent with
        | .handed h => [h]
        | _ => [] })
    { client := c }

/-- **The owner does something to the replica**, and what it publishes is sent or waits. -/
def edit {α : Type} (c : Client) (run : Tree → Outcome α) : Step × Except TreeError α :=
  let o := run c.replica
  ({ c with replica := o.tree }.publish o.events, o.result)

/-- A message for the connection only. -/
def sendLive (c : Client) (m : Message) : Except LinkError Handed := c.outbox.sendLive m.encode

/-- The whole tree is requested. -/
def requestInit (c : Client) : Except LinkError Handed := c.sendLive .requestInit

/-- A sign of life is requested. -/
def ping (c : Client) : Except LinkError Handed := c.sendLive .ping

/-! ### Connections -/

/-- A connection is being made. -/
def dial (c : Client) : Client := { c with state := .connecting }

/-- The connection could not be made, for a reason that comes from outside. -/
def dialFailed (c : Client) (reason : String := "") : Client × LinkError :=
  ({ c with state := .disconnected }, .unreachable reason)

/-- **The connection is made**: what waits is handed over and the whole tree is requested. -/
def established (c : Client) : Step :=
  let (outbox, handed) := c.outbox.attach c.nextLink Message.requestInit.encode
  { client := { c with
      outbox
      state := .connected
      nextLink := c.nextLink + 1
      readers := c.nextLink :: c.readers }
    handed
    notices := [.connected] }

/-- **The owner gives the connection up.** Its reader will notice later. -/
def disconnect (c : Client) : Client :=
  { c with outbox := c.outbox.detach, state := .disconnected }

/-- A connection takes no more frames. -/
def writerEnds (c : Client) (number : Nat) : Client := { c with outbox := c.outbox.shut number }

/-- **The reader of a connection comes to its end.** Whatever connection it was, the outbox gives up
the one that it has. -/
def readerEnds (c : Client) (number : Nat) : Step :=
  if number ∈ c.readers then
    { client := { c.disconnect with readers := c.readers.filter (· ≠ number) }
      notices := [.disconnected] }
  else { client := c }

/-! ### Frames from the server -/

/-- A message is sent if there is a connection; it does not matter if there is none. -/
def answer (c : Client) (m : Message) (notices : List Notice := []) : Step :=
  match c.sendLive m with
  | .ok h => { client := c, handed := [h], notices }
  | .error _ => { client := c, notices }

/-- **A patch from the server** is applied, or else the whole tree is requested again. -/
def applyRemote (c : Client) (now : Time) (manner : Tree.Manner) (v : Value) : Step :=
  let applied := do
    let p ← Patch.ofValue v
    let t ← c.replica.apply now manner p
    .ok (t, p)
  match applied with
  | .ok (t, p) => { client := { c with replica := t }, notices := [.applied manner p] }
  | .error e => c.answer .requestInit [.resync (e.report (c.wording v))]

/-- **A message from the server.** -/
def handle (c : Client) (now : Time) : Message → Step
  | .init s =>
    match c.replica.restore s with
    | .ok t =>
      { client := { c with replica := t }
        notices := [.initialized t.devices.size t.views.size] }
    | .error _ => { client := c }
  | .update v => c.applyRemote now .update v
  | .delete v => c.applyRemote now .delete v
  | .error report => { client := c, notices := [.rejected report] }
  | .ping => c.answer .pong
  | .pong => { client := c, notices := [.pong] }
  | .requestInit => { client := c }

/-- **A frame from the server.** One that holds no message does nothing. -/
def receive (c : Client) (now : Time) (frame : String) : Step :=
  match Message.decode frame with
  | .ok m => c.handle now m
  | .error _ => { client := c }

end Client

end Fleet.Sync
