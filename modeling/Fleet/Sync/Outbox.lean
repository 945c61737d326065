import Fleet.Sync.Message

/-!
# Outgoing frames of a client

A client hands its frames to the connection that it has. Frames that tell of its own changes must
not get lost while it has none, so they wait in a queue of bounded length and are handed over when
the next connection is made.

Connections are numbered in the order in which they were made. A connection may have ended without
the client having noticed; it notices when a frame is not taken.

What waits is handed over at once, and the connection is taken to last until it has got everything
(`Outbox.attach`). Should it end before that, the frames that it does not take are lost, because the
queue has been cleared by then; this is outside of what is described here.
-/

namespace Fleet.Sync

/-! ### The queue -/

/-- **Frames that wait**, oldest first. -/
structure OfflineQueue where
  maxSize : Nat
  frames : List String := []
deriving DecidableEq, Repr

namespace OfflineQueue

/-- Whether there is no room for another frame. -/
def isFull (q : OfflineQueue) : Bool := q.maxSize ≤ q.frames.length

/-- **One more frame**, unless the queue is full; and whether it was taken. -/
def enqueue (q : OfflineQueue) (frame : String) : OfflineQueue × Bool :=
  if q.isFull then (q, false) else ({ q with frames := q.frames ++ [frame] }, true)

/-- The queue without frames. -/
def clear (q : OfflineQueue) : OfflineQueue := { q with frames := [] }

/-- How many frames wait. -/
def size (q : OfflineQueue) : Nat := q.frames.length

/-- The bytes of all frames that wait. -/
def totalBytes (q : OfflineQueue) : Nat := q.frames.foldl (fun n frame => n + frame.utf8ByteSize) 0

end OfflineQueue

/-! ### The outbox -/

/-- **A connection** as the outbox sees it. -/
structure Link where
  number : Nat
  /-- Whether the connection still takes frames. -/
  takesFrames : Bool := true
deriving DecidableEq, Repr

/-- A frame that was handed to a connection. -/
structure Handed where
  link : Nat
  frame : String
deriving DecidableEq, Repr

/-- **Where outgoing frames go**: to a connection, or into the queue. -/
structure Outbox where
  link : Option Link := none
  queue : OfflineQueue
deriving DecidableEq, Repr

namespace Outbox

/-- A frame for the connection only. It is lost if there is none. -/
def sendLive (o : Outbox) (frame : String) : Except LinkError Handed :=
  match o.link with
  | some link => if link.takesFrames then .ok ⟨link.number, frame⟩ else .error .closed
  | none => .error .closed

/-- **What became of a frame** that was to be sent. -/
inductive Sent where
  | handed (h : Handed)
  | queued
  /-- The queue was full. -/
  | lost
deriving DecidableEq, Repr

/-- A frame that waits, if there is room for it. -/
def wait (o : Outbox) (frame : String) : Outbox × Sent :=
  let (queue, taken) := o.queue.enqueue frame
  ({ o with queue }, if taken then .queued else .lost)

/-- **A frame for the connection, or else for the queue.** A connection that does not take it is
given up. -/
def sendOrQueue (o : Outbox) (frame : String) : Outbox × Sent :=
  match o.link with
  | some link =>
    if link.takesFrames then (o, .handed ⟨link.number, frame⟩)
    else { o with link := none }.wait frame
  | none => o.wait frame

/-- **A new connection** gets everything that waits, and then a last frame. It takes all of them. -/
def attach (o : Outbox) (number : Nat) (last : String) : Outbox × List Handed :=
  ({ link := some ⟨number, true⟩, queue := o.queue.clear },
    (o.queue.frames ++ [last]).map fun frame => ⟨number, frame⟩)

/-- The connection is given up. -/
def detach (o : Outbox) : Outbox := { o with link := none }

/-- A connection takes no more frames, which the outbox does not notice yet. -/
def shut (o : Outbox) (number : Nat) : Outbox :=
  { o with link := o.link.map fun link =>
      if link.number = number then { link with takesFrames := false } else link }

end Outbox

end Fleet.Sync
