import Fleet.Proofs.Forwarding

/-!
# Sessions that fall behind

A session that does not keep up with the broadcast group loses the oldest of its frames. What it
still has to forward is then the end of what it would have had (`Server.Queues`), and the next thing
that it forwards is the whole tree (`Server.forward_of_not_inTime`).

Most of what happens at a server is of no concern to a given session. Other sessions are opened and
closed, and they forward frames at their own pace: all this leaves the queue of the session as it
is.
-/

namespace Fleet.Sync

/-! ### Receivers -/

namespace Broadcast

variable {b b' : Broadcast} {m n : Nat}

theorem get?_leave {id : Uuid} : ((b.removePeer id).1.unsubscribe m).receivers.get? n =
    if n = m then none else b.receivers.get? n := SortedMap.get?_erase

theorem WellFormed.leave (h : b.WellFormed) (id : Uuid) (m : Nat) :
    ((b.removePeer id).1.unsubscribe m).WellFormed := by
  refine ⟨h.kept, fun n place hplace => ?_⟩
  rw [get?_leave] at hplace
  split at hplace
  · cases hplace
  · exact h.receivers n place hplace

/-- **A receiver that has lost frames** goes on with the oldest that is kept. -/
theorem receive_of_not_inTime {place : Nat} (hplace : b.receivers.get? n = some place)
    (hlate : ¬ b.InTime n) :
    b.receive n = some ({ b with receivers := b.receivers.insert n b.oldest },
      .lagged (b.oldest - place)) := by
  have hlt : place < b.oldest := Nat.lt_of_not_le fun hle => hlate ⟨place, hplace, hle⟩
  unfold receive
  rw [hplace, Option.map_some, if_pos hlt]

/-- Before and after it has noticed, the same frames wait for it. -/
theorem waiting_of_not_inTime {place : Nat} (hplace : b.receivers.get? n = some place)
    (hlate : ¬ b.InTime n) :
    { b with receivers := b.receivers.insert n b.oldest }.waiting n = b.waiting n := by
  have hlt : place < b.oldest := Nat.lt_of_not_le fun hle => hlate ⟨place, hplace, hle⟩
  have hnew : (b.receivers.insert n b.oldest).get? n = some b.oldest := by
    rw [SortedMap.get?_insert, if_pos rfl]
  rw [waiting_eq hnew, waiting_eq hplace, Nat.sub_eq_zero_of_le (Nat.le_of_lt hlt)]
  show b.kept.drop (b.oldest - b.oldest) = _
  rw [Nat.sub_self]

end Broadcast

/-! ### Sessions -/

namespace Server

variable {s s' : Server} {k n : Nat} {x : Session}

/-- **Frames join the queue of a session**, whose oldest frames may be lost. As long as the session
is in time, they are not. -/
structure Queues (s s' : Server) (n : Nat) (frames : List String) : Prop where
  coherent : s'.Coherent
  session : s'.sessions.get? n = s.sessions.get? n
  suffix : s'.pending n <:+ s.pending n ++ frames
  inTime : s'.InTime n → s.InTime n ∧ s'.pending n = s.pending n ++ frames

/-- A session whose receiver and whose frames are where they were does not notice anything. -/
theorem queues_of_waiting (h : s'.Coherent) (hx : s.sessions.get? n = some x)
    (hx' : s'.sessions.get? n = some x) (hwaiting : s'.group.waiting x.receiver =
      s.group.waiting x.receiver ∧ (s'.group.InTime x.receiver ↔ s.group.InTime x.receiver)) :
    s.Queues s' n [] := by
  have hpending : s'.pending n = s.pending n ++ [] := by
    rw [pending_eq hx', pending_eq hx, hwaiting.1, List.append_nil]
  refine ⟨h, hx'.trans hx.symm, ⟨[], hpending⟩, fun hintime => ⟨?_, hpending⟩⟩
  exact (inTime_iff hx).mpr (hwaiting.2.mp ((inTime_iff hx').mp hintime))

theorem framesFor_suffix (x : Session) {es es' : List Envelope} (h : es' <:+ es) :
    framesFor x es' <:+ framesFor x es := (h.filter _).map _

/-- **What is sent joins the queue** of every session that did not cause it. -/
theorem queues_sends (h : s.Coherent) {es : List Envelope} (hsends : s.Sends s' es)
    (hx : s.sessions.get? n = some x) : s.Queues s' n (framesFor x es) := by
  have hx' : s'.sessions.get? n = some x := by rw [hsends.sessions, hx]
  refine ⟨h.sends hsends, hx'.trans hx.symm, ?_, fun hintime =>
    ⟨?_, pending_sends h hsends hx hintime⟩⟩
  · rw [pending_eq hx', pending_eq hx, hsends.group, ← framesFor_append]
    exact framesFor_suffix x (Broadcast.waiting_sendAll_suffix h.group es)
  · rw [inTime_iff hx', hsends.group] at hintime
    exact (inTime_iff hx).mpr (Broadcast.waiting_sendAll h.group hintime).1

/-- **The group gives up** its oldest frames. -/
def lose (s : Server) (m : Nat) : Server := { s with group := s.group.lose m }

theorem queues_lose (h : s.Coherent) (m : Nat) (hx : s.sessions.get? n = some x) :
    s.Queues (s.lose m) n [] := by
  have hx' : (s.lose m).sessions.get? n = some x := hx
  refine ⟨⟨h.group.lose m, h.sessions, h.differ⟩, rfl, ?_, fun hintime => ?_⟩
  · rw [List.append_nil, pending_eq hx', pending_eq hx]
    exact framesFor_suffix x (Broadcast.waiting_lose h.group m)
  · obtain ⟨hbefore, hwaiting⟩ :=
      Broadcast.waiting_lose_of_inTime h.group ((inTime_iff hx').mp hintime)
    refine ⟨(inTime_iff hx).mpr hbefore, ?_⟩
    rw [List.append_nil, pending_eq hx', pending_eq hx]
    exact congrArg _ hwaiting

/-! ### Other sessions -/

theorem queues_forward (h : s.Coherent) {frames : List String}
    (hforward : s.forward k = some (s', frames)) (hk : n ≠ k) (hx : s.sessions.get? n = some x) :
    s.Queues s' n [] := by
  have hx' : s'.sessions.get? n = some x := by rw [(moves_forward h hforward).1, hx]
  exact queues_of_waiting (h.forward hforward) hx hx' (waiting_forward h hforward hk hx)

theorem queues_openSession (h : s.Coherent) {id : Uuid}
    (hid : ∀ n x, s.sessions.get? n = some x → x.id ≠ id) (now : Time) (address : Option Address)
    (hx : s.sessions.get? n = some x) : s.Queues (s.openSession now id address).1 n [] := by
  obtain ⟨hn, hsome⟩ := h.sessions n x hx
  obtain ⟨place, hplace⟩ := Option.isSome_iff_exists.mp hsome
  have hreceiver : x.receiver ≠ s.group.nextReceiver :=
    Nat.ne_of_lt (h.group.receivers _ place hplace).1
  refine queues_of_waiting (h.openSession hid now address) hx ?_
    (Broadcast.waiting_congr ?_ rfl rfl)
  · exact SortedMap.get?_insert.trans ((if_neg (Nat.ne_of_lt hn)).trans hx)
  · exact SortedMap.get?_insert.trans (if_neg hreceiver)

theorem closeSession_eq (hx : s.sessions.get? k = some x) :
    (s.closeSession k).sessions = s.sessions.erase k ∧
      (s.closeSession k).nextSession = s.nextSession ∧ (s.closeSession k).group =
        (s.group.removePeer x.id).1.unsubscribe x.receiver := by
  unfold closeSession
  rw [hx]
  exact ⟨rfl, rfl, rfl⟩

theorem closeSession_eq_self (hx : s.sessions.get? k = none) : s.closeSession k = s := by
  unfold closeSession
  rw [hx]

/-- **A session is closed**, and its receiver goes with it. -/
theorem Coherent.closeSession (h : s.Coherent) (k : Nat) : (s.closeSession k).Coherent := by
  cases hy : s.sessions.get? k with
  | none =>
    rw [closeSession_eq_self hy]
    exact h
  | some y =>
    obtain ⟨hsessions, hnext, hgroup⟩ := closeSession_eq hy
    have hleft : ∀ n x, (s.closeSession k).sessions.get? n = some x →
        n ≠ k ∧ s.sessions.get? n = some x := by
      intro n x hx
      rw [hsessions, SortedMap.get?_erase] at hx
      split at hx
      · cases hx
      · next hn => exact ⟨hn, hx⟩
    -- no other session had the receiver that is gone
    refine ⟨hgroup ▸ h.group.leave y.id y.receiver, fun n x hx => ?_, fun m n x z hx hz => ?_⟩
    · obtain ⟨hn, hx⟩ := hleft n x hx
      rw [hnext, hgroup, Broadcast.get?_leave, if_neg (h.differ n k x y hx hy hn).2]
      exact h.sessions n x hx
    · exact h.differ m n x z (hleft m x hx).2 (hleft n z hz).2

theorem queues_closeSession (h : s.Coherent) (hk : n ≠ k) (hx : s.sessions.get? n = some x) :
    s.Queues (s.closeSession k) n [] := by
  have hclosed := h.closeSession k
  cases hy : s.sessions.get? k with
  | none =>
    rw [closeSession_eq_self hy]
    exact queues_of_waiting h hx hx ⟨rfl, Iff.rfl⟩
  | some y =>
    obtain ⟨hsessions, -, hgroup⟩ := closeSession_eq hy
    have hreceiver : x.receiver ≠ y.receiver := (h.differ n k x y hx hy hk).2
    refine queues_of_waiting hclosed hx ?_ ?_
    · rw [hsessions, SortedMap.get?_erase, if_neg hk, hx]
    · rw [hgroup]
      exact Broadcast.waiting_congr (Broadcast.get?_leave.trans (if_neg hreceiver)) rfl rfl

/-! ### The session itself -/

/-- **A session that has lost frames forwards the whole tree**, and then what is left. -/
theorem forward_of_not_inTime (h : s.Coherent) (hx : s.sessions.get? n = some x)
    (hlate : ¬ s.InTime n) :
    ∃ s', s.forward n = some (s', [(Message.ofTree s.tree).encode]) ∧ s'.Coherent ∧
      s'.tree = s.tree ∧ s'.sessions = s.sessions ∧ s'.pending n = s.pending n := by
  obtain ⟨place, hplace⟩ := Option.isSome_iff_exists.mp (h.sessions n x hx).2
  have hgroup : ¬ s.group.InTime x.receiver := (not_congr (inTime_iff hx)).mp hlate
  obtain ⟨s', hforward, htree, hsessions, hwaiting⟩ :
      ∃ s', s.forward n = some (s', [(Message.ofTree s.tree).encode]) ∧ s'.tree = s.tree ∧
        s'.sessions = s.sessions ∧ s'.group.waiting x.receiver = s.group.waiting x.receiver := by
    simp only [forward, hx, Option.bind_eq_bind, Option.bind_some,
      Broadcast.receive_of_not_inTime hplace hgroup]
    exact ⟨_, rfl, rfl, rfl, Broadcast.waiting_of_not_inTime hplace hgroup⟩
  refine ⟨s', hforward, h.forward hforward, htree, hsessions, ?_⟩
  have hx' : s'.sessions.get? n = some x := by rw [hsessions, hx]
  rw [pending_eq hx', pending_eq hx, hwaiting]

/-- **A session that has nothing to forward** is in time, and nothing is pending. -/
theorem inTime_of_forward_eq_none (h : s.Coherent) (hx : s.sessions.get? n = some x)
    (hnone : s.forward n = none) : s.InTime n ∧ s.pending n = [] := by
  -- a session that is late would have forwarded the whole tree
  have hintime : s.InTime n := Decidable.byContradiction fun hlate => by
    obtain ⟨s', hforward, -⟩ := forward_of_not_inTime h hx hlate
    rw [hforward] at hnone
    cases hnone
  refine ⟨hintime, ?_⟩
  cases hwaiting : s.group.waiting x.receiver with
  | nil =>
    rw [pending_eq hx, hwaiting]
    rfl
  | cons e rest =>
    obtain ⟨group, hreceive, -⟩ :=
      Broadcast.receive_of_waiting_cons ((inTime_iff hx).mp hintime) hwaiting
    simp only [forward, hx, Option.bind_eq_bind, Option.bind_some, hreceive] at hnone
    cases hnone

end Server

end Fleet.Sync
