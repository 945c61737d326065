import Fleet.Proofs.RedoLog

/-!
# What a session still has to forward

A receiver of a broadcast group that is *in time* has lost nothing: the frame that it reads next is
still kept. What waits for it then (`Broadcast.waiting`) is a queue in its own right. Frames that
are sent join its end (`Broadcast.waiting_sendAll`), the receiver takes them from its front
(`Broadcast.receive_of_waiting`), and no other receiver has anything to do with it.

A session forwards from its queue the frames that it did not cause itself. These are the frames that
are *pending* (`Server.pending`), which is all that the other side of a session will ever see of a
broadcast group that it keeps up with.
-/

namespace Fleet.Sync

/-! ### Receivers -/

namespace Broadcast

/-- **The group keeps no more frames than were sent**, and no receiver is ahead of them. -/
structure WellFormed (b : Broadcast) : Prop where
  kept : b.kept.length ≤ b.position
  receivers : ∀ n place, b.receivers.get? n = some place → n < b.nextReceiver ∧ place ≤ b.position

/-- **The receiver has lost nothing.** -/
def InTime (b : Broadcast) (n : Nat) : Prop :=
  ∃ place ∈ b.receivers.get? n, b.oldest ≤ place

instance (b : Broadcast) (n : Nat) : Decidable (b.InTime n) :=
  inferInstanceAs (Decidable (∃ place ∈ b.receivers.get? n, _))

/-- **The frames that wait for a receiver** which is in time. -/
def waiting (b : Broadcast) (n : Nat) : List Envelope :=
  ((b.receivers.get? n).map fun place => b.kept.drop (place - b.oldest)).getD []

variable {b b' : Broadcast} {m n : Nat}

theorem waiting_eq {place : Nat} (h : b.receivers.get? n = some place) :
    b.waiting n = b.kept.drop (place - b.oldest) := by
  unfold waiting
  rw [h]
  rfl

/-! A frame that is sent joins the end of what is kept, and then the group gives up what there is no
room for. -/

/-- A frame joins the end of what is kept. -/
def append (b : Broadcast) (e : Envelope) : Broadcast :=
  { b with sent := b.sent + 1, position := b.position + 1, kept := b.kept ++ [e] }

/-- **The group gives up** its oldest frames. -/
def lose (b : Broadcast) (m : Nat) : Broadcast := { b with kept := b.kept.drop m }

theorem send_eq (e : Envelope) {place : Nat} (h : b.receivers.get? n = some place) :
    b.send e = (b.append e).lose (b.kept.length + 1 - b.room) := by
  have hsome : b.receivers.isEmpty = false := by
    cases hempty : b.receivers.isEmpty with
    | false => rfl
    | true =>
      rw [SortedMap.isEmpty_iff.mp hempty] at h
      cases h
  unfold send
  simp only [hsome, Bool.false_eq_true, if_false, List.length_append, List.length_singleton]
  rfl

theorem oldest_append (b : Broadcast) (e : Envelope) : (b.append e).oldest = b.oldest := by
  show b.position + 1 - (b.kept ++ [e]).length = b.position - b.kept.length
  rw [List.length_append, List.length_singleton, Nat.add_sub_add_right]

theorem oldest_lose (h : b.WellFormed) (m : Nat) :
    (b.lose m).oldest = b.oldest + min m b.kept.length := by
  have := h.kept
  show b.position - (b.kept.drop m).length = b.position - b.kept.length + min m b.kept.length
  rw [List.length_drop]
  omega

theorem WellFormed.append (h : b.WellFormed) (e : Envelope) : (b.append e).WellFormed := by
  refine ⟨?_, fun n place hplace => ?_⟩
  · show (b.kept ++ [e]).length ≤ b.position + 1
    rw [List.length_append, List.length_singleton]
    exact Nat.succ_le_succ h.kept
  · obtain ⟨hn, hle⟩ := h.receivers n place hplace
    exact ⟨hn, Nat.le_succ_of_le hle⟩

theorem WellFormed.lose (h : b.WellFormed) (m : Nat) : (b.lose m).WellFormed := by
  refine ⟨?_, h.receivers⟩
  show (b.kept.drop m).length ≤ b.position
  rw [List.length_drop]
  exact Nat.le_trans (Nat.sub_le _ _) h.kept

theorem waiting_append (h : b.WellFormed) (e : Envelope) {place : Nat}
    (hplace : b.receivers.get? n = some place) :
    (b.append e).waiting n = b.waiting n ++ [e] := by
  have hlast := (h.receivers n place hplace).2
  have hafter : (b.append e).receivers.get? n = some place := hplace
  rw [waiting_eq hafter, waiting_eq hplace, oldest_append]
  refine List.drop_append_of_le_length ?_
  unfold oldest
  omega

theorem inTime_append {e : Envelope} : (b.append e).InTime n ↔ b.InTime n := by
  unfold InTime
  rw [oldest_append]
  rfl

/-- **What is given up is lost** on a receiver that has not got it yet. -/
theorem waiting_lose (h : b.WellFormed) (m : Nat) : (b.lose m).waiting n <:+ b.waiting n := by
  cases hplace : b.receivers.get? n with
  | none =>
    have hnone : (b.lose m).waiting n = [] := by
      unfold waiting lose
      rw [hplace]
      rfl
    rw [hnone]
    exact List.nil_suffix
  | some place =>
    have hafter : (b.lose m).receivers.get? n = some place := hplace
    have hdrop : m + (place - (b.lose m).oldest) =
        place - b.oldest + (m + (place - (b.lose m).oldest) - (place - b.oldest)) := by
      rw [oldest_lose h]
      omega
    rw [waiting_eq hafter, waiting_eq hplace]
    show (b.kept.drop m).drop _ <:+ _
    rw [List.drop_drop, hdrop, ← List.drop_drop]
    exact List.drop_suffix _ _

/-- A receiver that is still in time has lost nothing. -/
theorem waiting_lose_of_inTime (h : b.WellFormed) {m : Nat} (hintime : (b.lose m).InTime n) :
    b.InTime n ∧ (b.lose m).waiting n = b.waiting n := by
  obtain ⟨place, hafter, hle⟩ := hintime
  have hplace : b.receivers.get? n = some place := hafter
  have hlast := (h.receivers n place hplace).2
  have hkept := h.kept
  rw [oldest_lose h] at hle
  refine ⟨⟨place, hplace, by omega⟩, ?_⟩
  rw [waiting_eq hafter, waiting_eq hplace, oldest_lose h]
  show (b.kept.drop m).drop _ = _
  rw [List.drop_drop]
  -- if everything is given up then the receiver has got everything
  rcases Nat.le_total m b.kept.length with hm | hm
  · congr 1
    omega
  · unfold oldest at hle ⊢
    rw [List.drop_eq_nil_of_le (by omega), List.drop_eq_nil_of_le (by omega)]

theorem receivers_send (b : Broadcast) (e : Envelope) :
    (b.send e).receivers = b.receivers ∧ (b.send e).nextReceiver = b.nextReceiver := by
  unfold send
  dsimp only
  split <;> exact ⟨rfl, rfl⟩

theorem WellFormed.send (h : b.WellFormed) (e : Envelope) : (b.send e).WellFormed := by
  unfold Broadcast.send
  dsimp only
  split
  · exact ⟨h.kept, h.receivers⟩
  · refine ⟨?_, fun n place hplace => ?_⟩
    · have := h.kept
      simp only [List.length_drop, List.length_append, List.length_singleton]
      omega
    · obtain ⟨hn, hle⟩ := h.receivers n place hplace
      exact ⟨hn, Nat.le_succ_of_le hle⟩

/-- **A frame that is sent joins the end** of what waits for a receiver that stays in time. -/
theorem waiting_send (h : b.WellFormed) {e : Envelope} (hintime : (b.send e).InTime n) :
    b.InTime n ∧ (b.send e).waiting n = b.waiting n ++ [e] := by
  obtain ⟨place, hafter, hle⟩ := hintime
  have hplace : b.receivers.get? n = some place := (b.receivers_send e).1 ▸ hafter
  rw [send_eq e hplace] at hafter hle ⊢
  obtain ⟨hbefore, hwaiting⟩ := waiting_lose_of_inTime (h.append e) ⟨place, hafter, hle⟩
  exact ⟨inTime_append.mp hbefore, hwaiting.trans (waiting_append h e hplace)⟩

/-- At the front of what waits, a receiver may lose frames by it. -/
theorem waiting_send_suffix (h : b.WellFormed) (e : Envelope) :
    (b.send e).waiting n <:+ b.waiting n ++ [e] := by
  cases hplace : b.receivers.get? n with
  | none =>
    have hnone : (b.send e).waiting n = [] := by
      unfold waiting
      rw [(b.receivers_send e).1, hplace]
      rfl
    rw [hnone]
    exact List.nil_suffix
  | some place =>
    rw [send_eq e hplace, ← waiting_append h e hplace]
    exact waiting_lose (h.append e) _

theorem receivers_sendAll (b : Broadcast) (es : List Envelope) :
    (b.sendAll es).receivers = b.receivers ∧ (b.sendAll es).nextReceiver = b.nextReceiver := by
  induction es generalizing b with
  | nil => exact ⟨rfl, rfl⟩
  | cons e rest ih =>
    obtain ⟨hreceivers, hnext⟩ := b.receivers_send e
    obtain ⟨hreceivers', hnext'⟩ := ih (b.send e)
    exact ⟨hreceivers'.trans hreceivers, hnext'.trans hnext⟩

theorem WellFormed.sendAll (h : b.WellFormed) (es : List Envelope) :
    (b.sendAll es).WellFormed := by
  induction es generalizing b with
  | nil => exact h
  | cons e rest ih => exact ih (h.send e)

/-- **Frames that are sent join the end** of what waits for a receiver that stays in time. -/
theorem waiting_sendAll (h : b.WellFormed) {es : List Envelope}
    (hintime : (b.sendAll es).InTime n) :
    b.InTime n ∧ (b.sendAll es).waiting n = b.waiting n ++ es := by
  induction es generalizing b with
  | nil => exact ⟨hintime, (List.append_nil _).symm⟩
  | cons e rest ih =>
    obtain ⟨hmiddle, hrest⟩ := ih (h.send e) hintime
    obtain ⟨hfirst, hsend⟩ := waiting_send h hmiddle
    refine ⟨hfirst, ?_⟩
    calc (b.sendAll (e :: rest)).waiting n
      _ = (b.send e).waiting n ++ rest := hrest
      _ = b.waiting n ++ [e] ++ rest := by rw [hsend]
      _ = b.waiting n ++ e :: rest := by rw [List.append_assoc, List.singleton_append]

theorem waiting_sendAll_suffix (h : b.WellFormed) (es : List Envelope) :
    (b.sendAll es).waiting n <:+ b.waiting n ++ es := by
  induction es generalizing b with
  | nil => exact ⟨[], (List.append_nil _).symm⟩
  | cons e rest ih =>
    have hrest : (b.sendAll (e :: rest)).waiting n <:+ (b.send e).waiting n ++ rest := ih (h.send e)
    rw [← List.singleton_append, ← List.append_assoc]
    exact hrest.trans (List.suffix_append_self_iff.mpr (waiting_send_suffix h e))

/-- What waits for a receiver depends on its place and on what is kept. -/
theorem waiting_congr (hreceiver : b'.receivers.get? n = b.receivers.get? n)
    (hkept : b'.kept = b.kept) (hposition : b'.position = b.position) :
    b'.waiting n = b.waiting n ∧ (b'.InTime n ↔ b.InTime n) := by
  unfold waiting InTime oldest
  rw [hreceiver, hkept, hposition]
  exact ⟨rfl, Iff.rfl⟩

/-- **A receiver has moved on**, to a place that is not ahead of the group. -/
structure Moves (b b' : Broadcast) (m : Nat) : Prop where
  receiver : ∃ old new, b.receivers.get? m = some old ∧ new ≤ b.position ∧
    b'.receivers = b.receivers.insert m new
  kept : b'.kept = b.kept
  position : b'.position = b.position
  next : b'.nextReceiver = b.nextReceiver

theorem moves_receive (h : b.WellFormed) {r : Received} (hreceive : b.receive m = some (b', r)) :
    b.Moves b' m := by
  obtain ⟨place, hplace, hreceive⟩ := Option.map_eq_some_iff.mp hreceive
  have hkept := h.kept
  have hlast := (h.receivers m place hplace).2
  split at hreceive
  · cases hreceive
    exact ⟨⟨place, _, hplace, Nat.sub_le _ _, rfl⟩, rfl, rfl, rfl⟩
  · next hle =>
    split at hreceive
    · next e he =>
      cases hreceive
      have hlt := (List.getElem?_eq_some_iff.mp he).1
      refine ⟨⟨place, place + 1, hplace, ?_, rfl⟩, rfl, rfl, rfl⟩
      unfold oldest at hle hlt
      omega
    -- a receiver that has got everything stays where it is
    · cases hreceive
      exact ⟨⟨place, place, hplace, hlast, (SortedMap.insert_eq_self hplace).symm⟩, rfl, rfl, rfl⟩

theorem Moves.get? (h : b.Moves b' m) (hn : n ≠ m) :
    b'.receivers.get? n = b.receivers.get? n := by
  obtain ⟨old, new, -, -, hreceivers⟩ := h.receiver
  rw [hreceivers, SortedMap.get?_insert, if_neg hn]

theorem Moves.isSome (h : b.Moves b' m) (n : Nat) :
    (b'.receivers.get? n).isSome = (b.receivers.get? n).isSome := by
  obtain ⟨old, new, hold, -, hreceivers⟩ := h.receiver
  rw [hreceivers, SortedMap.get?_insert]
  split
  · next hn =>
    rw [hn, hold]
    rfl
  · rfl

theorem WellFormed.moves (h : b.WellFormed) (hmoves : b.Moves b' m) : b'.WellFormed := by
  obtain ⟨old, new, hold, hnew, hreceivers⟩ := hmoves.receiver
  refine ⟨?_, fun n place hplace => ?_⟩
  · rw [hmoves.kept, hmoves.position]
    exact h.kept
  · rw [hmoves.next, hmoves.position]
    rw [hreceivers, SortedMap.get?_insert] at hplace
    split at hplace
    · next hn =>
      cases hplace
      exact ⟨hn ▸ (h.receivers m old hold).1, hnew⟩
    · exact h.receivers n place hplace

theorem receive_of_waiting_nil (hintime : b.InTime n) (hwaiting : b.waiting n = []) :
    b.receive n = some (b, .nothing) := by
  obtain ⟨place, hplace, hle⟩ := hintime
  rw [waiting_eq hplace, List.drop_eq_nil_iff] at hwaiting
  unfold receive
  rw [hplace, Option.map_some, if_neg (by omega), List.getElem?_eq_none hwaiting]

/-- **A receiver takes the first frame** of what waits for it. -/
theorem receive_of_waiting_cons (hintime : b.InTime n) {e : Envelope} {rest : List Envelope}
    (hwaiting : b.waiting n = e :: rest) :
    ∃ b', b.receive n = some (b', .envelope e) ∧ b'.waiting n = rest := by
  obtain ⟨place, hplace, hle⟩ := hintime
  rw [waiting_eq hplace] at hwaiting
  have hget : b.kept[place - b.oldest]? = some e := by
    rw [← List.head?_drop, hwaiting]
    rfl
  have hrest : b.kept.drop (place - b.oldest + 1) = rest := by
    rw [← List.tail_drop, hwaiting]
    rfl
  refine ⟨{ b with receivers := b.receivers.insert n (place + 1) }, ?_, ?_⟩
  · unfold receive
    rw [hplace, Option.map_some, if_neg (Nat.not_lt.mpr hle), hget]
  · have hnew : (b.receivers.insert n (place + 1)).get? n = some (place + 1) := by
      rw [SortedMap.get?_insert, if_pos rfl]
    rw [waiting_eq hnew, ← hrest]
    show b.kept.drop (place + 1 - b.oldest) = _
    rw [Nat.sub_add_comm hle]

theorem WellFormed.addPeer (h : b.WellFormed) (p : Peer) : (b.addPeer p).1.WellFormed := by
  refine ⟨h.kept, fun n place hplace => ?_⟩
  have hinsert : (b.receivers.insert b.nextReceiver b.position).get? n = some place := hplace
  rw [SortedMap.get?_insert] at hinsert
  split at hinsert
  · next hn =>
    cases hinsert
    exact ⟨hn ▸ Nat.lt_succ_self _, Nat.le_refl _⟩
  · obtain ⟨hn, hle⟩ := h.receivers n place hinsert
    exact ⟨Nat.lt_succ_of_lt hn, hle⟩

/-- Nothing waits for a new receiver, and the others do not notice it. -/
theorem waiting_addPeer (h : b.WellFormed) (p : Peer) :
    (b.addPeer p).1.waiting b.nextReceiver = [] ∧
      ∀ m, m ≠ b.nextReceiver → (b.addPeer p).1.waiting m = b.waiting m := by
  have hget : ∀ m, (b.addPeer p).1.receivers.get? m =
      if m = b.nextReceiver then some b.position else b.receivers.get? m := fun m =>
    SortedMap.get?_insert
  constructor
  · rw [waiting_eq ((hget _).trans (if_pos rfl)), List.drop_eq_nil_iff]
    show b.kept.length ≤ b.position - (b.position - b.kept.length)
    have := h.kept
    omega
  · intro m hm
    unfold waiting
    rw [hget, if_neg hm]
    rfl

end Broadcast

/-! ### Sessions -/

namespace Server

/-- **Every session has a receiver**, and no two have the same receiver or the same identifier. -/
structure Coherent (s : Server) : Prop where
  group : s.group.WellFormed
  sessions : ∀ n x, s.sessions.get? n = some x →
    n < s.nextSession ∧ (s.group.receivers.get? x.receiver).isSome
  differ : ∀ m n x y, s.sessions.get? m = some x → s.sessions.get? n = some y → m ≠ n →
    x.id ≠ y.id ∧ x.receiver ≠ y.receiver

/-- **The session is open and has lost nothing.** -/
def InTime (s : Server) (n : Nat) : Prop :=
  ∃ x ∈ s.sessions.get? n, s.group.InTime x.receiver

instance (s : Server) (n : Nat) : Decidable (s.InTime n) :=
  inferInstanceAs (Decidable (∃ x ∈ s.sessions.get? n, _))

/-- Those of some envelopes that a session forwards, as frames. -/
def framesFor (x : Session) (es : List Envelope) : List String :=
  (es.filter fun e => e.origin ≠ some x.id).map Envelope.frame

/-- **The frames that a session still has to forward.** -/
def pending (s : Server) (n : Nat) : List String :=
  ((s.sessions.get? n).map fun x => framesFor x (s.group.waiting x.receiver)).getD []

variable {s s' : Server} {k n : Nat} {x : Session}

theorem pending_eq (hx : s.sessions.get? n = some x) :
    s.pending n = framesFor x (s.group.waiting x.receiver) := by
  unfold pending
  rw [hx]
  rfl

theorem inTime_iff (hx : s.sessions.get? n = some x) :
    s.InTime n ↔ s.group.InTime x.receiver := by
  unfold InTime
  rw [hx]
  exact ⟨fun ⟨_, hy, hgroup⟩ => Option.some.inj hy ▸ hgroup, fun hgroup => ⟨x, rfl, hgroup⟩⟩

theorem framesFor_append (x : Session) (es more : List Envelope) :
    framesFor x (es ++ more) = framesFor x es ++ framesFor x more := by
  unfold framesFor
  rw [List.filter_append, List.map_append]

theorem framesFor_own {es : List Envelope} (h : ∀ e ∈ es, e.origin = some x.id) :
    framesFor x es = [] := by
  unfold framesFor
  rw [List.map_eq_nil_iff, List.filter_eq_nil_iff]
  intro e he
  simp [h e he]

theorem framesFor_foreign {es : List Envelope} (h : ∀ e ∈ es, e.origin ≠ some x.id) :
    framesFor x es = es.map Envelope.frame := by
  unfold framesFor
  rw [List.filter_eq_self.mpr]
  intro e he
  simp [h e he]

/-- **The server has sent frames**, and its sessions are the same as before. -/
structure Sends (s s' : Server) (es : List Envelope) : Prop where
  sessions : s'.sessions = s.sessions
  next : s'.nextSession = s.nextSession
  group : s'.group = s.group.sendAll es

theorem Coherent.sends {es : List Envelope} (h : s.Coherent) (hsends : s.Sends s' es) :
    s'.Coherent where
  group := hsends.group ▸ h.group.sendAll es
  sessions n x hx := by
    rw [hsends.sessions] at hx
    rw [hsends.next, hsends.group, (s.group.receivers_sendAll es).1]
    exact h.sessions n x hx
  differ m n x y hx hy := by
    rw [hsends.sessions] at hx hy
    exact h.differ m n x y hx hy

/-- **What is sent is pending** for every session that stays in time, unless it caused it. -/
theorem pending_sends {es : List Envelope} (h : s.Coherent) (hsends : s.Sends s' es)
    (hx : s.sessions.get? n = some x) (hintime : s'.InTime n) :
    s'.pending n = s.pending n ++ framesFor x es := by
  have hx' : s'.sessions.get? n = some x := by rw [hsends.sessions, hx]
  rw [inTime_iff hx', hsends.group] at hintime
  rw [pending_eq hx', pending_eq hx, hsends.group, (Broadcast.waiting_sendAll h.group hintime).2,
    framesFor_append]

/-- **A session that forwards** has moved its own receiver and nothing else. -/
theorem moves_forward (h : s.Coherent) {frames : List String}
    (hforward : s.forward k = some (s', frames)) :
    s'.sessions = s.sessions ∧ s'.nextSession = s.nextSession ∧ s'.tree = s.tree ∧
      ∃ x, s.sessions.get? k = some x ∧ s.group.Moves s'.group x.receiver := by
  unfold forward at hforward
  obtain ⟨x, hx, hforward⟩ := Option.bind_eq_some_iff.mp hforward
  obtain ⟨⟨group, r⟩, hreceive, hforward⟩ := Option.bind_eq_some_iff.mp hforward
  have hmoves := Broadcast.moves_receive h.group hreceive
  cases r with
  | nothing => cases hforward
  | envelope e =>
    cases hforward
    exact ⟨rfl, rfl, rfl, x, hx, hmoves⟩
  | lagged lost =>
    cases hforward
    exact ⟨rfl, rfl, rfl, x, hx, hmoves.receiver, hmoves.kept, hmoves.position, hmoves.next⟩

theorem Coherent.forward (h : s.Coherent) {frames : List String}
    (hforward : s.forward k = some (s', frames)) : s'.Coherent := by
  obtain ⟨hsessions, hnext, -, x, hx, hmoves⟩ := moves_forward h hforward
  refine ⟨h.group.moves hmoves, fun n y hy => ?_, fun m n y z hy hz => ?_⟩
  · rw [hsessions] at hy
    rw [hnext, hmoves.isSome]
    exact h.sessions n y hy
  · rw [hsessions] at hy hz
    exact h.differ m n y z hy hz

/-- What another session forwards is of no concern to a session. -/
theorem waiting_forward (h : s.Coherent) {frames : List String}
    (hforward : s.forward k = some (s', frames)) (hk : n ≠ k) (hx : s.sessions.get? n = some x) :
    s'.group.waiting x.receiver = s.group.waiting x.receiver ∧
      (s'.group.InTime x.receiver ↔ s.group.InTime x.receiver) := by
  obtain ⟨-, -, -, y, hy, hmoves⟩ := moves_forward h hforward
  have hreceiver : x.receiver ≠ y.receiver := (h.differ n k x y hx hy hk).2
  exact Broadcast.waiting_congr (hmoves.get? hreceiver) hmoves.kept hmoves.position

theorem pending_forward (h : s.Coherent) {frames : List String}
    (hforward : s.forward k = some (s', frames)) (hk : n ≠ k) : s'.pending n = s.pending n := by
  have hsessions := (moves_forward h hforward).1
  cases hx : s.sessions.get? n with
  | none =>
    unfold pending
    rw [hsessions, hx]
    rfl
  | some x =>
    have hx' : s'.sessions.get? n = some x := by rw [hsessions, hx]
    rw [pending_eq hx', pending_eq hx, (waiting_forward h hforward hk hx).1]

/-- **A session forwards** the first of what is pending, or passes over a frame of its own. -/
theorem forward_spec (h : s.Coherent) (hintime : s.InTime n) :
    s.forward n = none ∨ ∃ s' frames, s.forward n = some (s', frames) ∧ s'.Coherent ∧
      s'.tree = s.tree ∧ s'.sessions = s.sessions ∧ s.pending n = frames ++ s'.pending n ∧
      ∀ m, m ≠ n → s'.pending m = s.pending m := by
  obtain ⟨x, hx, hgroup⟩ := hintime
  have hx : s.sessions.get? n = some x := hx
  cases hwaiting : s.group.waiting x.receiver with
  | nil =>
    left
    simp only [forward, hx, Option.bind_eq_bind, Option.bind_some,
      Broadcast.receive_of_waiting_nil hgroup hwaiting]
  | cons e rest =>
    right
    obtain ⟨group, hreceive, hrest⟩ := Broadcast.receive_of_waiting_cons hgroup hwaiting
    have hforward : s.forward n =
        some ({ s with group }, if e.origin = some x.id then [] else [e.frame]) := by
      simp only [forward, hx, Option.bind_eq_bind, Option.bind_some, hreceive]
    refine ⟨_, _, hforward, h.forward hforward, rfl, rfl, ?_, fun m hm =>
      pending_forward h hforward hm⟩
    have hx' : { s with group }.sessions.get? n = some x := hx
    rw [pending_eq hx, pending_eq hx', hwaiting, hrest]
    by_cases horigin : e.origin = some x.id
    -- a frame of its own, which was not pending
    · rw [if_pos horigin, List.nil_append, ← List.singleton_append, framesFor_append,
        framesFor_own (by simpa using horigin), List.nil_append]
    · rw [if_neg horigin, ← List.singleton_append, framesFor_append,
        framesFor_foreign (by simpa using horigin)]
      rfl

/-- A server without sessions. -/
theorem coherent_create (config : ServerConfig) (t : Tree) (store : Option Store) :
    (create config t store).Coherent where
  group := ⟨Nat.le_refl 0, fun n place h => by cases h⟩
  sessions n x h := by cases h
  differ m n x y h := by cases h

/-- **A session is opened** under an identifier that no other has. -/
theorem Coherent.openSession (h : s.Coherent) {id : Uuid}
    (hid : ∀ n x, s.sessions.get? n = some x → x.id ≠ id) (now : Time) (address : Option Address) :
    (s.openSession now id address).1.Coherent := by
  have hget : ∀ n, (s.openSession now id address).1.sessions.get? n =
      if n = s.nextSession then some ⟨id, s.group.nextReceiver⟩ else s.sessions.get? n := fun n =>
    SortedMap.get?_insert
  -- receivers are numbered upwards, so the new one is none of those that the sessions have
  have hreceiver : ∀ n x, s.sessions.get? n = some x → x.receiver ≠ s.group.nextReceiver := by
    intro n x hx
    obtain ⟨place, hplace⟩ := Option.isSome_iff_exists.mp (h.sessions n x hx).2
    exact Nat.ne_of_lt (h.group.receivers _ place hplace).1
  refine ⟨h.group.addPeer _, fun n x hx => ?_, fun m n x y hx hy hmn => ?_⟩
  · rw [hget] at hx
    show n < s.nextSession + 1 ∧
      ((s.group.receivers.insert s.group.nextReceiver s.group.position).get? x.receiver).isSome
    rw [SortedMap.get?_insert]
    split at hx
    · next hn =>
      cases hx
      exact ⟨hn ▸ Nat.lt_succ_self _, by rw [if_pos rfl]; rfl⟩
    · obtain ⟨hn, hsome⟩ := h.sessions n x hx
      rw [if_neg (hreceiver n x hx)]
      exact ⟨Nat.lt_succ_of_lt hn, hsome⟩
  · rw [hget] at hx hy
    by_cases hm : m = s.nextSession
    · rw [if_pos hm] at hx
      cases hx
      rw [if_neg (fun hn => hmn (hm.trans hn.symm))] at hy
      exact ⟨(hid n y hy).symm, (hreceiver n y hy).symm⟩
    · rw [if_neg hm] at hx
      by_cases hn : n = s.nextSession
      · rw [if_pos hn] at hy
        cases hy
        exact ⟨hid m x hx, hreceiver m x hx⟩
      · rw [if_neg hn] at hy
        exact h.differ m n x y hx hy hmn

/-- Nothing is pending for a new session, and the others do not notice it. -/
theorem pending_openSession (h : s.Coherent) (now : Time) (id : Uuid) (address : Option Address) :
    (s.openSession now id address).1.pending s.nextSession = [] ∧
      ∀ n, n ≠ s.nextSession → (s.openSession now id address).1.pending n = s.pending n := by
  have hget : ∀ n, (s.openSession now id address).1.sessions.get? n =
      if n = s.nextSession then some ⟨id, s.group.nextReceiver⟩ else s.sessions.get? n := fun n =>
    SortedMap.get?_insert
  obtain ⟨hnew, hother⟩ := Broadcast.waiting_addPeer h.group ⟨id, address, now⟩
  constructor
  · rw [pending_eq ((hget _).trans (if_pos rfl))]
    show framesFor _ ((s.group.addPeer ⟨id, address, now⟩).1.waiting s.group.nextReceiver) = []
    rw [hnew]
    rfl
  · intro n hn
    cases hx : s.sessions.get? n with
    | none =>
      unfold pending
      rw [hget, if_neg hn, hx]
      rfl
    | some x =>
      obtain ⟨place, hplace⟩ := Option.isSome_iff_exists.mp (h.sessions n x hx).2
      have hlt := (h.group.receivers _ place hplace).1
      rw [pending_eq hx, pending_eq ((hget n).trans ((if_neg hn).trans hx))]
      exact congrArg _ (hother _ (Nat.ne_of_lt hlt))

/-- What the owner does is sent to everybody. -/
theorem sends_edit {α : Type} (s : Server) (f : Tree → Outcome α) :
    s.Sends (s.edit f).1 ((f s.tree).events.map Envelope.ofEvent) := by
  refine ⟨?_, ?_, s.group_edit f⟩
  · show (if (f s.tree).events.isEmpty then _ else _ : Server).sessions = _
    split <;> rfl
  · show (if (f s.tree).events.isEmpty then _ else _ : Server).nextSession = _
    split <;> rfl

end Server

end Fleet.Sync
