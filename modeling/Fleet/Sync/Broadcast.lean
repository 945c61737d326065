import Fleet.Sync.Address
import Fleet.Sync.Message

/-!
# Broadcasting

A broadcast group hands every frame that is sent to all receivers. It keeps the last frames only:
a receiver that has fallen behind by more than the group keeps has lost some. Such a receiver is
told how many it has lost and goes on with the oldest frame that is kept.

The group counts frames by their *position*, from the first one that was ever sent. A receiver is
the position of the frame that it reads next, which starts at the frame that is sent next. So a
receiver has lost frames exactly if its position is before the oldest frame that is kept.

Every frame carries the session that it came from, so that the session can be left out; whoever
forwards the frame sees to that.
-/

namespace Fleet.Sync

/-- **A frame on its way** to all receivers. -/
structure Envelope where
  /-- The session that caused the frame, if it was one. -/
  origin : Option Uuid
  frame : String
deriving DecidableEq

/-- The frame that tells of an event of the tree itself. -/
def Envelope.ofEvent (e : Event) : Envelope := ⟨none, (Message.ofEvent e).encode⟩

/-- The frame that relays a patch of a session. -/
def Envelope.ofPatch (sender : Uuid) (p : Patch) (manner : Tree.Manner) : Envelope :=
  ⟨some sender, (Message.ofPatch p manner).encode⟩

/-- **A session** as others see it. -/
structure Peer where
  id : Uuid
  address : Option Address
  connectedAt : Time
deriving DecidableEq

/-- **A broadcast group.** -/
structure Broadcast where
  /-- The number of frames that a receiver may fall behind, as it was asked for. -/
  capacity : Nat
  /-- The position of the frame that is sent next. -/
  position : Nat := 0
  /-- The last frames, oldest first. -/
  kept : List Envelope := []
  /-- The number for the next receiver. -/
  nextReceiver : Nat := 0
  /-- The position of every receiver that is still there. -/
  receivers : SortedMap Nat Nat := ∅
  peers : SortedMap Uuid Peer := ∅
  /-- How many frames were sent, counted in 64 bits. -/
  sent : UInt64 := 0
  /-- How many frames were reported as lost, counted in 64 bits. -/
  dropped : UInt64 := 0

namespace Broadcast

/-- A group without receivers. -/
def ofCapacity (capacity : Nat) : Broadcast := { capacity }

/-- The largest capacity that there is memory for: a kept frame takes 32 bytes, and all of them
together less than half of what 64 bits can address. -/
def maxCapacity : Nat := UInt64.size / 128

/-- **How many frames are kept**: the capacity, at least one, rounded up to a power of two. -/
def room (b : Broadcast) : Nat := (max b.capacity 1).nextPowerOfTwo

/-- The position of the oldest frame that is kept. -/
def oldest (b : Broadcast) : Nat := b.position - b.kept.length

/-! ### Receivers and peers -/

/-- One more receiver, and its number. -/
def subscribe (b : Broadcast) : Broadcast × Nat :=
  ({ b with
      nextReceiver := b.nextReceiver + 1
      receivers := b.receivers.insert b.nextReceiver b.position },
    b.nextReceiver)

/-- One receiver less. -/
def unsubscribe (b : Broadcast) (n : Nat) : Broadcast :=
  { b with receivers := b.receivers.erase n }

/-- A session joins with a receiver of its own, in place of one of the same identifier. -/
def addPeer (b : Broadcast) (p : Peer) : Broadcast × Nat :=
  { b with peers := b.peers.insert p.id p }.subscribe

/-- A session leaves, if it is there. Its receiver stays. -/
def removePeer (b : Broadcast) (id : Uuid) : Broadcast × Option Peer :=
  ({ b with peers := b.peers.erase id }, b.peers.get? id)

/-! ### Sending and receiving -/

/-- **A frame is sent** and the oldest one given up if there is no more room. Frames are only kept
if somebody can receive them. -/
def send (b : Broadcast) (e : Envelope) : Broadcast :=
  let b := { b with sent := b.sent + 1 }
  -- a receiver that comes later starts behind this frame, so nobody will ever ask for it
  if b.receivers.isEmpty then b
  else
    let kept := b.kept ++ [e]
    { b with position := b.position + 1, kept := kept.drop (kept.length - b.room) }

/-- Frames are sent one after another. -/
def sendAll (b : Broadcast) (es : List Envelope) : Broadcast := es.foldl send b

/-- How many receivers there are. -/
def listeners (b : Broadcast) : Nat := b.receivers.size

/-- **What a receiver gets.** -/
inductive Received where
  /-- It has got everything. -/
  | nothing
  /-- The next frame. -/
  | envelope (e : Envelope)
  /-- It has lost so many frames. -/
  | lagged (lost : Nat)
deriving DecidableEq

/-- **A receiver asks for the next frame**; there is nothing for a receiver that is not there. -/
def receive (b : Broadcast) (n : Nat) : Option (Broadcast × Received) :=
  (b.receivers.get? n).map fun place =>
    if place < b.oldest then
      ({ b with receivers := b.receivers.insert n b.oldest }, .lagged (b.oldest - place))
    else
      match b.kept[place - b.oldest]? with
      | some e => ({ b with receivers := b.receivers.insert n (place + 1) }, .envelope e)
      | none => (b, .nothing)

/-- Up to `k` times, a receiver asks for the next frame: the frames that it gets, and how many it
has lost. -/
def receiveUpTo (n : Nat) : Nat → Broadcast → Broadcast × List Envelope × Nat
  | 0, b => (b, [], 0)
  | k + 1, b =>
    match b.receive n with
    | some (b, .envelope e) =>
      let (b, es, lost) := receiveUpTo n k b
      (b, e :: es, lost)
    | some (b, .lagged missed) =>
      let (b, es, lost) := receiveUpTo n k b
      (b, es, missed + lost)
    | _ => (b, [], 0)

/-- **A receiver gets everything.** It loses frames at most once on the way, so it asks no more
often than there are frames and one. -/
def receiveAll (b : Broadcast) (n : Nat) : Broadcast × List Envelope × Nat :=
  receiveUpTo n (b.kept.length + 1) b

/-- Frames that a receiver has lost are counted. The counter starts over after its last value. -/
def countDropped (b : Broadcast) (n : Nat) : Broadcast :=
  { b with dropped := b.dropped + .ofNat n }

end Broadcast

end Fleet.Sync
