import Fleet.Proofs.Basics
import Fleet.Sync.Client

/-!
# What an outbox does with frames

A frame that is published meets the outbox of the client. There are three things that can become of
it, and `Outbox.sendOrQueue_cases` says when each of them does. Frames that are published one after
another are followed by `Outbox.sendAll`, which is the outbox after them, and `Outbox.handedAll`,
which is what was handed over; what a client publishes is these two (`Client.publish_eq`).

An outbox with a connection hands over everything (`Outbox.sendAll_of_link`). One without keeps the
first frames, as many of them as there is room for (`Outbox.sendAll_of_offline`).
-/

namespace Fleet.Sync

/-! ### Waiting -/

theorem take_take_append {α : Type} (as bs : List α) (k : Nat) :
    (as.take k ++ bs).take k = (as ++ bs).take k := by
  have hroom : k - min k as.length = k - as.length := by omega
  rw [List.take_append, List.take_append, List.take_take, Nat.min_self, List.length_take, hroom]

namespace OfflineQueue

/-- **A queue keeps the first frames** for which it has room. -/
theorem enqueue_eq {q : OfflineQueue} (h : q.frames.length ≤ q.maxSize) (frame : String) :
    (q.enqueue frame).1 = { q with frames := (q.frames ++ [frame]).take q.maxSize } := by
  unfold enqueue isFull
  by_cases hfull : q.maxSize ≤ q.frames.length
  · have hkept : (q.frames ++ [frame]).take q.maxSize = q.frames := by
      rw [Nat.le_antisymm hfull h, List.take_left]
    rw [if_pos (decide_eq_true hfull), hkept]
  · have hroom : (q.frames ++ [frame]).length ≤ q.maxSize := by
      rw [List.length_append, List.length_singleton]
      omega
    rw [if_neg (by simp [hfull]), List.take_of_length_le hroom]

end OfflineQueue

namespace Outbox

variable {o : Outbox} {number : Nat}

/-! ### One frame -/

/-- **There is no connection that takes frames.** There may be one that has ended unnoticed. -/
def Offline (o : Outbox) : Prop := ∀ link ∈ o.link, link.takesFrames = false

theorem not_offline_iff : ¬ o.Offline ↔ ∃ link, o.link = some link ∧ link.takesFrames = true := by
  obtain ⟨link, queue⟩ := o
  cases link <;> simp [Offline]

theorem offline_of_none (h : o.link = none) : o.Offline := by
  intro link hlink
  rw [h] at hlink
  cases hlink

/-- A connection takes all frames. -/
theorem sendOrQueue_of_link (h : o.link = some ⟨number, true⟩) (frame : String) :
    o.sendOrQueue frame = (o, .handed ⟨number, frame⟩) := by
  unfold sendOrQueue
  simp only [h, if_true]

/-- One that has ended is given up, and the frame has to wait. -/
theorem sendOrQueue_of_offline (h : o.Offline) (frame : String) :
    o.sendOrQueue frame = (⟨none, o.queue⟩ : Outbox).wait frame := by
  obtain ⟨link, queue⟩ := o
  cases link with
  | none => rfl
  | some link =>
    have hshut : link.takesFrames = false := h link rfl
    unfold sendOrQueue
    simp only [hshut, Bool.false_eq_true, if_false]

/-- **What can become of a frame**: a connection takes it, or else it waits if there is room. -/
theorem sendOrQueue_cases (o : Outbox) (frame : String) :
    (∃ link, o.link = some link ∧ link.takesFrames = true ∧
      o.sendOrQueue frame = (o, .handed ⟨link.number, frame⟩)) ∨
    (o.Offline ∧ o.queue.isFull = false ∧ o.sendOrQueue frame =
      (⟨none, { o.queue with frames := o.queue.frames ++ [frame] }⟩, .queued)) ∨
    (o.Offline ∧ o.queue.isFull = true ∧ o.sendOrQueue frame = (⟨none, o.queue⟩, .lost)) := by
  by_cases hoffline : o.Offline
  · rw [sendOrQueue_of_offline hoffline, wait, OfflineQueue.enqueue]
    cases hfull : o.queue.isFull with
    | true => exact .inr (.inr ⟨hoffline, rfl, rfl⟩)
    | false => exact .inr (.inl ⟨hoffline, rfl, rfl⟩)
  · obtain ⟨link, hlink, htakes⟩ := not_offline_iff.mp hoffline
    refine .inl ⟨link, hlink, htakes, ?_⟩
    unfold sendOrQueue
    simp only [hlink, htakes, if_true]

/-! ### Frames one after another -/

/-- Frames are sent or wait, one after another. -/
def sendAll (o : Outbox) (frames : List String) : Outbox :=
  frames.foldl (fun o frame => (o.sendOrQueue frame).1) o

/-- What is handed over when a frame is sent. -/
def Sent.toList : Sent → List Handed
  | .handed h => [h]
  | _ => []

/-- What is handed over when frames are sent one after another. -/
def handedAll (o : Outbox) : List String → List Handed
  | [] => []
  | frame :: rest => (o.sendOrQueue frame).2.toList ++ (o.sendOrQueue frame).1.handedAll rest

theorem sendAll_append (o : Outbox) (frames more : List String) :
    o.sendAll (frames ++ more) = (o.sendAll frames).sendAll more := List.foldl_append

/-- **A connection that takes frames** takes all of them. -/
theorem sendAll_of_link (h : o.link = some ⟨number, true⟩) (frames : List String) :
    o.sendAll frames = o ∧ o.handedAll frames = frames.map fun frame => ⟨number, frame⟩ := by
  induction frames with
  | nil => exact ⟨rfl, rfl⟩
  | cons frame rest ih =>
    have hfirst := sendOrQueue_of_link h frame
    constructor
    · show (o.sendOrQueue frame).1.sendAll rest = o
      rw [hfirst]
      exact ih.1
    · rw [handedAll, hfirst, List.map_cons, ← ih.2]
      rfl

/-- **Without a connection** none is made and nothing is handed over. -/
theorem sendAll_of_none (h : o.link = none) (frames : List String) :
    (o.sendAll frames).link = none ∧ o.handedAll frames = [] := by
  induction frames generalizing o with
  | nil => exact ⟨h, rfl⟩
  | cons frame rest ih =>
    have hfirst : (o.sendOrQueue frame).1.link = none ∧ (o.sendOrQueue frame).2.toList = [] := by
      rcases sendOrQueue_cases o frame with ⟨link, hlink, -, -⟩ | ⟨-, -, heq⟩ | ⟨-, -, heq⟩
      · cases h.symm.trans hlink
      · rw [heq]
        exact ⟨rfl, rfl⟩
      · rw [heq]
        exact ⟨rfl, rfl⟩
    obtain ⟨hlink, hhanded⟩ := ih hfirst.1
    refine ⟨hlink, ?_⟩
    rw [handedAll, hfirst.2, hhanded]
    rfl

/-- **Frames that are sent offline wait**, as many of them as there is room for. -/
theorem sendAll_of_offline (h : o.Offline) (hroom : o.queue.frames.length ≤ o.queue.maxSize)
    (frames : List String) : (o.sendAll frames).queue =
      { o.queue with frames := (o.queue.frames ++ frames).take o.queue.maxSize } := by
  induction frames generalizing o with
  | nil =>
    rw [List.append_nil, List.take_of_length_le hroom]
    rfl
  | cons frame rest ih =>
    -- the queue stays within its bound, which is what the rest of the frames needs
    have hfirst : (o.sendOrQueue frame).1 = ⟨none, (o.queue.enqueue frame).1⟩ :=
      congrArg Prod.fst (sendOrQueue_of_offline h frame)
    rw [OfflineQueue.enqueue_eq hroom] at hfirst
    have hroom' : (o.sendOrQueue frame).1.queue.frames.length ≤
        (o.sendOrQueue frame).1.queue.maxSize := by
      rw [hfirst]
      exact List.length_take_le _ _
    have hrest := ih (offline_of_none (congrArg Outbox.link hfirst)) hroom'
    rw [hfirst] at hrest
    refine (congrArg Outbox.queue (congrArg (·.sendAll rest) hfirst)).trans
      (hrest.trans (congrArg (OfflineQueue.mk o.queue.maxSize) ?_))
    -- what has found no room before finds none with more behind it
    dsimp only
    rw [take_take_append, ← List.append_cons]

end Outbox

/-! ### The client -/

namespace Client

/-- Frames are sent one after another by a loop that sends one at a time. -/
theorem foldl_sent {send : Step → Event → Step}
    (hclient : ∀ s e, (send s e).client = { s.client with
      outbox := (s.client.outbox.sendOrQueue (Message.ofEvent e).encode).1 })
    (hhanded : ∀ s e, (send s e).handed =
      s.handed ++ (s.client.outbox.sendOrQueue (Message.ofEvent e).encode).2.toList)
    (events : List Event) (s : Step) :
    (events.foldl send s).client = { s.client with
      outbox := s.client.outbox.sendAll (events.map fun e => (Message.ofEvent e).encode) } ∧
    (events.foldl send s).handed =
      s.handed ++ s.client.outbox.handedAll (events.map fun e => (Message.ofEvent e).encode) := by
  induction events generalizing s with
  | nil => exact ⟨rfl, (List.append_nil _).symm⟩
  | cons e rest ih =>
    obtain ⟨hrest, hrest'⟩ := ih (send s e)
    rw [List.foldl_cons, hrest, hrest', hhanded, hclient, List.map_cons, Outbox.handedAll,
      List.append_assoc]
    exact ⟨rfl, rfl⟩

/-- **What is published** is sent or waits; nothing else about the client changes. -/
theorem publish_eq (c : Client) (events : List Event) :
    (c.publish events).client =
      { c with outbox := c.outbox.sendAll (events.map fun e => (Message.ofEvent e).encode) } ∧
    (c.publish events).handed =
      c.outbox.handedAll (events.map fun e => (Message.ofEvent e).encode) :=
  foldl_sent (fun _ _ => rfl) (fun _ _ => rfl) events { client := c }

variable {α : Type}

/-- **A command changes the replica, and the outbox by what it publishes.** -/
theorem edit_eq (c : Client) (f : Tree → Outcome α) : (c.edit f).1.client =
    { c with
      replica := (f c.replica).tree
      outbox := c.outbox.sendAll
        ((f c.replica).events.map fun e => (Message.ofEvent e).encode) } :=
  (publish_eq _ _).1

theorem handed_edit (c : Client) (f : Tree → Outcome α) : (c.edit f).1.handed =
    c.outbox.handedAll ((f c.replica).events.map fun e => (Message.ofEvent e).encode) :=
  (publish_eq _ _).2

end Client

end Fleet.Sync
