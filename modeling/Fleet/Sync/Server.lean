import Fleet.Sync.Broadcast
import Fleet.Sync.Store
import Fleet.Tree.Merge

/-!
# The server

The server holds the tree that counts. A patch that a session sends is applied to it and relayed to
all other sessions, never to the one that sent it; a patch that is refused is answered with an
error, to its sender only. Events of the tree itself go to every session.

A session does two things, in any order: it takes a frame from its client (`Server.receive`), which
is answered at once if at all, and it forwards the next frame of the broadcast group to its client
(`Server.forward`). A session that has lost frames gets the whole tree instead and goes on with
the frames that are left.

The tree is saved to the snapshot file when it is asked for and at every full interval, then only if
it may have changed. Other steps may come between the two moments of saving (`Server.beginSave`,
`Server.finishSave`).
-/

namespace Fleet.Sync

/-! ### State -/

/-- **What a server counts.** -/
structure Counters where
  totalConnections : Nat := 0
  activeConnections : Nat := 0
  totalMessages : Nat := 0
  totalBytes : Nat := 0
  appliedPatches : Nat := 0
  rejectedPatches : Nat := 0
  resyncs : Nat := 0
  persistedSnapshots : Nat := 0
deriving DecidableEq, Repr

/-- **How a server is set up.** -/
structure ServerConfig where
  bindAddress : String := "127.0.0.1:3000"
  broadcastCapacity : Nat := 256
  /-- Seconds between two saves. -/
  saveInterval : Nat := 60
deriving DecidableEq, Repr

/-- **A session**: the identifier that it draws, and its receiver in the broadcast group. -/
structure Session where
  id : Uuid
  receiver : Nat
deriving DecidableEq

/-- **A server.** -/
structure Server where
  config : ServerConfig
  tree : Tree
  group : Broadcast
  /-- The snapshot file, if there is one. -/
  store : Option Store
  counters : Counters := {}
  /-- The number for the next session. -/
  nextSession : Nat := 0
  /-- The sessions that are open, under their numbers. -/
  sessions : SortedMap Nat Session := ∅
  /-- Seconds since the server was started. -/
  uptime : Nat := 0
  /-- What its reader of documents says of a value that is no patch. -/
  wording : Value → String := fun _ => ""

/-- **What comes of a message**: an answer for its sender, and frames for everybody. -/
structure Reaction where
  answer : Option Message := none
  relayed : List Envelope := []
deriving DecidableEq

/-- A snapshot that is about to be written. -/
structure PendingSave where
  snapshot : Snapshot
  /-- Whether the store was dirty when the snapshot was taken. -/
  wasDirty : Bool

namespace Server

/-- A server without sessions. -/
def create (config : ServerConfig) (tree : Tree) (store : Option Store)
    (wording : Value → String := fun _ => "") : Server where
  config := config
  tree := tree
  group := .ofCapacity config.broadcastCapacity
  store := store
  wording := wording

/-- A server with an empty tree, set up as usual and without a file. -/
def standard : Server := create {} {} none

/-- The tree may have changed. -/
def markDirty (s : Server) : Server := { s with store := s.store.map Store.markDirty }

/-- Frames are sent to all sessions. -/
def broadcast (s : Server) (es : List Envelope) : Server := { s with group := s.group.sendAll es }

/-- **What the server has counted**, under the names in which it is reported. -/
def statistics (s : Server) : List (String × Nat) := [
  ("total_connections", s.counters.totalConnections),
  ("active_connections", s.counters.activeConnections),
  ("total_messages", s.counters.totalMessages),
  ("total_bytes", s.counters.totalBytes),
  ("applied_patches", s.counters.appliedPatches),
  ("rejected_patches", s.counters.rejectedPatches),
  ("resyncs", s.counters.resyncs),
  ("persisted_snapshots", s.counters.persistedSnapshots),
  ("messages_sent", s.group.sent.toNat),
  ("messages_dropped", s.group.dropped.toNat),
  ("active_peers", s.group.peers.size)]

/-! ### Events of the tree -/

/-- **The owner does something to the tree**, and what it publishes is sent to every session. -/
def edit {α : Type} (s : Server) (run : Tree → Outcome α) : Server × Except TreeError α :=
  let o := run s.tree
  let s := { s with tree := o.tree }
  -- an operation that publishes nothing has changed nothing
  let s := if o.events.isEmpty then s else s.markDirty
  (s.broadcast (o.events.map Envelope.ofEvent), o.result)

/-! ### Sessions -/

/-- **A session is opened** and gets a number. -/
def openSession (s : Server) (now : Time) (id : Uuid) (address : Option Address) : Server × Nat :=
  let (group, receiver) := s.group.addPeer ⟨id, address, now⟩
  ({ s with
      group
      sessions := s.sessions.insert s.nextSession ⟨id, receiver⟩
      nextSession := s.nextSession + 1
      counters := { s.counters with
        totalConnections := s.counters.totalConnections + 1
        activeConnections := s.counters.activeConnections + 1 } },
    s.nextSession)

/-- **A session is closed.** -/
def closeSession (s : Server) (number : Nat) : Server :=
  match s.sessions.get? number with
  | none => s
  | some session =>
    { s with
      group := (s.group.removePeer session.id).1.unsubscribe session.receiver
      sessions := s.sessions.erase number
      counters := { s.counters with activeConnections := s.counters.activeConnections - 1 } }

/-! ### Frames from sessions -/

/-- **A patch of a session** is applied and relayed, or the reason why not is the answer. -/
def applyRemote (s : Server) (now : Time) (sender : Uuid) (manner : Tree.Manner) (v : Value) :
    Server × Reaction :=
  let applied := do
    let p ← Patch.ofValue v
    let t ← s.tree.apply now manner p
    .ok (t, p)
  match applied with
  | .ok (t, p) =>
    ({ s.markDirty with
        tree := t
        counters := { s.counters with appliedPatches := s.counters.appliedPatches + 1 } },
      { relayed := [.ofPatch sender p manner] })
  | .error e =>
    ({ s with
        counters := { s.counters with rejectedPatches := s.counters.rejectedPatches + 1 } },
      { answer := some (.ofError e (s.wording v)) })

/-- **A message of a session**, and what comes of it. -/
def handle (s : Server) (now : Time) (sender : Uuid) : Message → Server × Reaction
  | .requestInit => (s, { answer := some (.ofTree s.tree) })
  | .update v => s.applyRemote now sender .update v
  | .delete v => s.applyRemote now sender .delete v
  | .ping => (s, { answer := some .pong })
  | .init _ | .error _ | .pong => (s, {})

/-- A frame is counted. -/
def countFrame (s : Server) (frame : String) : Server :=
  { s with
    counters := { s.counters with
      totalMessages := s.counters.totalMessages + 1
      totalBytes := s.counters.totalBytes + frame.utf8ByteSize } }

/-- **A frame of a session**, and the frames that answer it. One that holds no message is counted
and otherwise ignored; a session that is not open sends nothing. -/
def receive (s : Server) (now : Time) (number : Nat) (frame : String) : Server × List String :=
  match s.sessions.get? number with
  | none => (s, [])
  | some session =>
    let s := s.countFrame frame
    match Message.decode frame with
    | .error _ => (s, [])
    | .ok m =>
      let (s, reaction) := s.handle now session.id m
      (s.broadcast reaction.relayed, (reaction.answer.map Message.encode).toList)

/-- **Frames of a session**, one after another, and the frames that answer each of them. -/
def receiveEach (s : Server) (now : Time) (number : Nat) :
    List String → Server × List (List String)
  | [] => (s, [])
  | frame :: rest =>
    let (s, answers) := s.receive now number frame
    let (s, more) := receiveEach s now number rest
    (s, answers :: more)

/-! ### Frames to sessions -/

/-- **A session forwards the next frame** of the broadcast group, if there is one, and skips those
that it caused itself. If it has lost frames, it sends the whole tree. -/
def forward (s : Server) (number : Nat) : Option (Server × List String) := do
  let session ← s.sessions.get? number
  let (group, received) ← s.group.receive session.receiver
  match received with
  | .nothing => none
  | .envelope e =>
    some ({ s with group }, if e.origin = some session.id then [] else [e.frame])
  | .lagged lost =>
    some ({ s with
        group := group.countDropped lost
        counters := { s.counters with resyncs := s.counters.resyncs + 1 } },
      [(Message.ofTree s.tree).encode])

/-- Up to `n` frames are forwarded. -/
def forwardUpTo (number : Nat) : Nat → Server → Server × List String
  | 0, s => (s, [])
  | n + 1, s =>
    match s.forward number with
    | none => (s, [])
    | some (s, frames) =>
      let (s, more) := forwardUpTo number n s
      (s, frames ++ more)

/-- **A session forwards all there is.** It loses frames at most once on the way, so it takes no
more steps than there are frames and one. -/
def forwardAll (s : Server) (number : Nat) : Server × List String :=
  forwardUpTo number (s.group.kept.length + 1) s

/-- The sessions of a list forward all there is, one after another. -/
def forwardEach (s : Server) : List Nat → Server × List (Nat × List String)
  | [] => (s, [])
  | number :: rest =>
    let (s, frames) := s.forwardAll number
    let (s, more) := forwardEach s rest
    (s, (number, frames) :: more)

/-- **Every open session forwards all there is.** -/
def settle (s : Server) : Server × List (Nat × List String) := s.forwardEach s.sessions.keys

/-! ### Saving -/

/-- **The snapshot to save is taken** and the flag of the store cleared. -/
def beginSave (s : Server) : Option (Server × PendingSave) :=
  s.store.map fun store =>
    let (store, wasDirty) := store.takeDirty
    ({ s with store := some store }, ⟨s.tree.snapshot, wasDirty⟩)

/-- **The file is replaced**, or the flag is put back. -/
def finishSave (s : Server) (pending : PendingSave) : Server × Except FileError Unit :=
  match s.store with
  | none => (s, .error .unavailable)
  | some store =>
    match store.save pending.snapshot with
    | .ok store =>
      ({ s with
          store := some store
          counters := { s.counters with
            persistedSnapshots := s.counters.persistedSnapshots + 1 } },
        .ok ())
    | .error e => (if pending.wasDirty then s.markDirty else s, .error e)

/-- **The tree is saved**; without a file there is nothing to do, which is said by `false`. -/
def save (s : Server) : Server × Except FileError Bool :=
  match s.beginSave with
  | none => (s, .ok false)
  | some (s, pending) =>
    let (s, result) := s.finishSave pending
    (s, result.map fun _ => true)

/-- Whether the tree may have changed since it was saved. -/
def isDirty (s : Server) : Bool := s.store.any (·.dirty)

/-- The interval is over: the tree is saved if it may have changed. Errors are passed over. -/
def tick (s : Server) : Server := if s.isDirty then s.save.1 else s

/-- **Time goes by.** A second tick right after a first one does nothing new, so it does not matter
how many intervals are over. -/
def elapse (s : Server) (seconds : Nat) : Server :=
  let every := max s.config.saveInterval 1
  let later := s.uptime + seconds
  let s' := if s.uptime / every < later / every then s.tick else s
  { s' with uptime := later }

end Server

end Fleet.Sync
