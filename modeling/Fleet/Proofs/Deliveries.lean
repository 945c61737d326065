import Fleet.Proofs.Kinds
import Fleet.Proofs.Quiescence
import Mathlib.Algebra.GroupWithZero.Nat

/-!
# Deliveries come to an end

Frames cause frames: a patch is relayed to all other sessions, each client may refuse it and ask for
the whole tree, and requests, signs of life and refusals are answered. If nobody does anything on
its own, this comes to an end, whatever the frames hold and whoever refuses what
(`Network.deliveries_end`).

Every frame has a weight that depends on its kind only, and so on where it stands:

| on the way to        | patch         | request | sign of life | anything else |
|----------------------|---------------|---------|--------------|---------------|
| the server           | 4 × clients + 2 | 2     | 2            | 1             |
| a client             | 3             | 1       | 2            | 1             |

What a receiver of the broadcast group has not taken yet weighs 4 a frame, which pays for whatever
the frame turns out to be. Each delivery takes away more than it adds: a patch at the server pays
for one more frame in front of every receiver or for a refusal, a patch at a client for a request,
and a request for the answer, which no client reads as a patch (`Message.kind_of_decode_encode`).
The last point is what breaks the circle.
-/

namespace Fleet

open Message (Kind)

/-! ### Sums over maps -/

namespace SortedMap

variable {α : Type}

/-- What the entries of a map amount to. -/
def total (m : SortedMap Nat α) (f : Nat → α → Nat) : Nat :=
  (m.entries.map fun p => f p.1 p.2).sum

variable {m : SortedMap Nat α}

theorem nodup_entries (m : SortedMap Nat α) : m.entries.Nodup :=
  List.Pairwise.of_map Prod.fst (fun _ _ hne heq => hne (congrArg Prod.fst heq)) m.nodup_keys

/-- An entry may be put in front of all others. -/
theorem perm_entries {k : Nat} {a : α} (h : m.get? k = some a) :
    m.entries.Perm ((k, a) :: (m.erase k).entries) := by
  have hnew : (k, a) ∉ (m.erase k).entries := by
    rw [← get?_eq_some_iff, get?_erase, if_pos rfl]
    exact nofun
  refine (List.perm_ext_iff_of_nodup m.nodup_entries
    (List.nodup_cons.mpr ⟨hnew, nodup_entries _⟩)).mpr fun p => ?_
  obtain ⟨l, b⟩ := p
  rw [List.mem_cons, ← get?_eq_some_iff, ← get?_eq_some_iff, get?_erase]
  by_cases hl : l = k
  · subst hl
    simp [h, eq_comm]
  · simp [hl]

/-- **Another value at one key makes the total smaller** if it saves more than what the other
entries may gain, which is `c` each. -/
theorem total_insert_lt {f g : Nat → α → Nat} {k c : Nat} {a b : α} (h : m.get? k = some a)
    (hother : ∀ l x, l ≠ k → m.get? l = some x → f l x ≤ g l x + c)
    (hown : f k b + c * m.size < g k a + c) :
    (m.insert k b).total f < m.total g ∧ (m.insert k b).size = m.size := by
  have hget : (m.insert k b).get? k = some b := by rw [get?_insert, if_pos rfl]
  have hrest : (m.insert k b).erase k = m.erase k := by
    refine ext_get? fun l => ?_
    rw [get?_erase, get?_erase, get?_insert]
    split <;> rfl
  -- the entry at the key stands in front, before and afterwards, and the others are the same
  have hbefore := perm_entries h
  have hafter := perm_entries hget
  rw [hrest] at hafter
  have htotal := (hbefore.map fun p => g p.1 p.2).sum_nat
  have htotal' := (hafter.map fun p => f p.1 p.2).sum_nat
  simp only [List.map_cons, List.sum_cons] at htotal htotal'
  have hothers : ((m.erase k).entries.map fun p => f p.1 p.2).sum ≤
      ((m.erase k).entries.map fun p => g p.1 p.2).sum + c * (m.erase k).entries.length := by
    have hall : ∀ p ∈ (m.erase k).entries, f p.1 p.2 ≤ g p.1 p.2 + c := by
      intro p hp
      have hp := get?_eq_some_iff.mpr hp
      rw [get?_erase] at hp
      split at hp
      · cases hp
      · next hne => exact hother p.1 p.2 hne hp
    generalize (m.erase k).entries = entries at hall
    induction entries with
    | nil => simp
    | cons p rest ih =>
      have hfirst := hall p List.mem_cons_self
      have hrest := ih fun q hq => hall q (List.mem_cons_of_mem _ hq)
      simp only [List.map_cons, List.sum_cons, List.length_cons, Nat.mul_succ]
      omega
  have hsize : m.size = (m.erase k).entries.length + 1 := hbefore.length_eq
  have hsize' : (m.insert k b).size = (m.erase k).entries.length + 1 := hafter.length_eq
  rw [hsize, Nat.mul_succ] at hown
  unfold total
  omega

end SortedMap

namespace Sync

/-! ### What a frame weighs -/

/-- The kind of the message in a frame. -/
def kindIn? (frame : String) : Option Kind := (Message.decode frame).toOption.map Message.kind

/-- What a frame weighs on its way to the server, where a patch weighs as much as is given. -/
def upWeight (patch : Nat) (frame : String) : Nat :=
  match kindIn? frame with
  | some .update | some .delete => patch
  | some .requestInit | some .ping => 2
  | _ => 1

/-- What a frame weighs on its way to a client. -/
def downWeight (frame : String) : Nat :=
  match kindIn? frame with
  | some .update | some .delete => 3
  | some .ping => 2
  | _ => 1

theorem downWeight_le (frame : String) : downWeight frame ≤ 3 := by
  unfold downWeight
  split <;> omega

theorem downWeight_pos (frame : String) : 0 < downWeight frame := by
  unfold downWeight
  split <;> exact Nat.succ_pos _

theorem kindIn?_of_decode {frame : String} {m : Message} (h : Message.decode frame = .ok m) :
    kindIn? frame = some m.kind := by
  rw [kindIn?, h]
  rfl

theorem kindIn?_of_error {frame : String} {e : LinkError} (h : Message.decode frame = .error e) :
    kindIn? frame = none := by
  rw [kindIn?, h]
  rfl

/-- A frame is of the kind that was written, or holds no message. -/
theorem kindIn?_encode (m : Message) :
    kindIn? m.encode = none ∨ kindIn? m.encode = some m.kind := by
  cases h : Message.decode m.encode with
  | error e => exact .inl (kindIn?_of_error h)
  | ok m' => exact .inr (by rw [kindIn?_of_decode h, Message.kind_of_decode_encode h])

/-- **The kind of an answer of the server**: the whole tree, a refusal or a sign of life. -/
def Answers (kind : Kind) : Prop := kind = .init ∨ kind = .error ∨ kind = .pong

/-- An answer of the server is light. -/
theorem downWeight_encode {m : Message} (h : Answers m.kind) : downWeight m.encode = 1 := by
  unfold downWeight
  rcases kindIn?_encode m with hnone | hkind
  · rw [hnone]
  · rw [hkind]
    rcases h with h | h | h <;> rw [h]

/-- No frame weighs more than a patch. -/
theorem sum_downWeight_le (frames : List String) :
    (frames.map downWeight).sum ≤ 3 * frames.length := by
  induction frames with
  | nil => exact Nat.le_refl 0
  | cons frame rest ih =>
    have := downWeight_le frame
    simp only [List.map_cons, List.sum_cons, List.length_cons]
    omega

theorem sum_downWeight_of_answers {answers : List String}
    (h : ∀ a ∈ answers, ∃ m : Message, a = m.encode ∧ Answers m.kind) :
    (answers.map downWeight).sum = answers.length := by
  induction answers with
  | nil => rfl
  | cons a rest ih =>
    obtain ⟨m, rfl, hm⟩ := h a List.mem_cons_self
    rw [List.map_cons, List.sum_cons, downWeight_encode hm,
      ih fun a ha => h a (List.mem_cons_of_mem _ ha), List.length_cons, Nat.add_comm]

theorem upWeight_requestInit (patch : Nat) : upWeight patch Message.requestInit.encode ≤ 2 := by
  have h := kindIn?_encode .requestInit
  unfold upWeight
  generalize kindIn? Message.requestInit.encode = kind at h
  rcases h with rfl | rfl
  · exact Nat.le_succ 1
  · exact Nat.le_refl 2

theorem upWeight_pong (patch : Nat) : upWeight patch Message.pong.encode ≤ 1 := by
  have h := kindIn?_encode .pong
  unfold upWeight
  generalize kindIn? Message.pong.encode = kind at h
  rcases h with rfl | rfl
  · exact Nat.le_refl 1
  · exact Nat.le_refl 1

/-! ### A client -/

namespace Client

theorem frames_answer (c : Client) (m : Message) (notices : List Notice) :
    (c.answer m notices).frames = [] ∨ (c.answer m notices).frames = [m.encode] := by
  rw [answer_eq]
  unfold Step.frames sendLive Outbox.sendLive
  dsimp only
  split
  · split
    · exact .inr rfl
    · exact .inl rfl
  · exact .inl rfl

/-- What a client answers weighs less than what it answers. A patch weighs 3 and the request for the
whole tree 2: this is where a circle would close. -/
theorem Prompts.lighter {m answer : Message} (h : Prompts m answer) {frame : String}
    (hdecode : Message.decode frame = .ok m) (patch : Nat) :
    upWeight patch answer.encode < downWeight frame := by
  have hkind := kindIn?_of_decode hdecode
  cases h with
  | patch hpatch =>
    have hweight : downWeight frame = 3 := by
      rw [downWeight, hkind]
      rcases hpatch with hpatch | hpatch <;> rw [hpatch]
    rw [hweight]
    exact Nat.lt_succ_of_le (upWeight_requestInit patch)
  | ping =>
    have hweight : downWeight frame = 2 := by
      rw [downWeight, hkind]
      rfl
    rw [hweight]
    exact Nat.lt_succ_of_le (upWeight_pong patch)

/-- **A client answers with something lighter**: a patch at most with a request, and a request for a
sign of life with the sign. -/
theorem receive_spec (c : Client) (now : Time) (frame : String) :
    (∀ a ∈ (c.receive now frame).frames,
      a = Message.requestInit.encode ∨ a = Message.pong.encode) ∧
    ∀ patch, ((c.receive now frame).frames.map (upWeight patch)).sum < downWeight frame := by
  have hsilent : (c.receive now frame).frames = [] →
      (∀ a ∈ (c.receive now frame).frames,
        a = Message.requestInit.encode ∨ a = Message.pong.encode) ∧
      ∀ patch, ((c.receive now frame).frames.map (upWeight patch)).sum < downWeight frame := by
    intro hframes
    rw [hframes]
    exact ⟨fun a ha => (nomatch ha), fun _ => downWeight_pos frame⟩
  rcases c.receive_cases now frame with ⟨t, notices, h⟩ | ⟨m, answer, notices, hdecode, hprompts, h⟩
  · exact hsilent (congrArg Step.frames h)
  · -- one frame at most, which may find no connection
    rcases c.frames_answer answer notices with hnone | hone
    · exact hsilent ((congrArg Step.frames h).trans hnone)
    · rw [h, hone]
      refine ⟨fun a ha => ?_, fun patch => ?_⟩
      · rw [List.mem_singleton.mp ha]
        cases hprompts with
        | patch => exact .inl rfl
        | ping => exact .inr rfl
      · rw [List.map_singleton, List.sum_singleton]
        exact hprompts.lighter hdecode patch

end Client

/-! ### The server -/

namespace Server

variable {s s' : Server} {n : Nat} {frame : String}

/-- **What comes of a frame at the server** that was sent in a session: answers, and frames that are
relayed under the name of the session. All of it is lighter than the frame, where every relayed
frame weighs as much as a patch does but for two. -/
structure Replies (s : Server) (n : Nat) (frame : String) (s' : Server) (answers : List String)
    (relayed : List Envelope) : Prop where
  sends : s.Sends s' relayed
  kinds : ∀ a ∈ answers, ∃ m : Message, a = m.encode ∧ Answers m.kind
  origins : ∀ e ∈ relayed, ∃ x, s.sessions.get? n = some x ∧ e.origin = some x.id
  lighter : ∀ patch, answers.length + patch * relayed.length < upWeight (patch + 2) frame

theorem replies_nothing (hsends : s.Sends s' []) : s.Replies n frame s' [] [] where
  sends := hsends
  kinds _ h := nomatch h
  origins _ h := nomatch h
  lighter patch := by
    unfold upWeight
    split <;> exact Nat.succ_pos _

/-- What is answered weighs two at least. -/
theorem replies_answer {m : Message} (hsends : s.Sends s' []) (hm : Answers m.kind)
    (hweight : ∀ patch, 2 ≤ upWeight (patch + 2) frame) :
    s.Replies n frame s' [m.encode] [] where
  sends := hsends
  kinds _ h := ⟨m, List.mem_singleton.mp h, hm⟩
  origins _ h := nomatch h
  lighter patch := Nat.lt_of_lt_of_le Nat.one_lt_two (hweight patch)

/-- A patch is either relayed or refused. -/
theorem replies_patch {s₀ : Server} (hsame : s.Sends s₀ []) {x : Session}
    (hx : s.sessions.get? n = some x) (now : Time) (manner : Tree.Manner) (v : Value)
    (hweight : ∀ patch, upWeight (patch + 2) frame = patch + 2) : ∃ relayed,
      s.Replies n frame
        ((s₀.applyRemote now x.id manner v).1.broadcast
          (s₀.applyRemote now x.id manner v).2.relayed)
        ((s₀.applyRemote now x.id manner v).2.answer.map Message.encode).toList relayed := by
  have hsends : ∀ es, s.Sends ((s₀.applyRemote now x.id manner v).1.broadcast es) es := by
    intro es
    obtain ⟨hsessions, hnext, hgroup⟩ := hsame
    unfold applyRemote
    dsimp only
    split <;> exact ⟨hsessions, hnext, congrArg (Broadcast.sendAll · es) hgroup⟩
  cases haccept : s₀.tree.accept now manner v with
  | ok r =>
    obtain ⟨t, p⟩ := r
    rw [(applyRemote_ok x.id haccept).2]
    refine ⟨_, hsends _, fun _ h => (nomatch h), fun e he => ⟨x, hx, ?_⟩, fun patch => ?_⟩
    · rw [List.mem_singleton.mp he]
      rfl
    · rw [hweight]
      show 0 + patch * 1 < patch + 2
      omega
  | error err =>
    rw [(applyRemote_error x.id haccept).2]
    exact ⟨[], replies_answer (hsends []) (.inr (.inl rfl)) fun patch =>
      (hweight patch).symm ▸ Nat.le_add_left 2 patch⟩

/-- **The server replies with something lighter.** -/
theorem receive_spec (s : Server) (now : Time) (n : Nat) (frame : String) : ∃ relayed,
    s.Replies n frame (s.receive now n frame).1 (s.receive now n frame).2 relayed := by
  have hcounted : s.Sends (s.countFrame frame) [] := ⟨rfl, rfl, rfl⟩
  unfold receive
  cases hx : s.sessions.get? n with
  | none => exact ⟨[], replies_nothing ⟨rfl, rfl, rfl⟩⟩
  | some x =>
    cases hdecode : Message.decode frame with
    | error e => exact ⟨[], replies_nothing hcounted⟩
    | ok m =>
      have hkind := kindIn?_of_decode hdecode
      cases m with
      | update v =>
        exact replies_patch hcounted hx now .update v fun patch => by rw [upWeight, hkind]; rfl
      | delete v =>
        exact replies_patch hcounted hx now .delete v fun patch => by rw [upWeight, hkind]; rfl
      | requestInit =>
        exact ⟨[], replies_answer (m := .ofTree s.tree) hcounted (.inl rfl) fun patch => by
          rw [upWeight, hkind]
          exact Nat.le_refl 2⟩
      | ping =>
        exact ⟨[], replies_answer (m := .pong) hcounted (.inr (.inr rfl)) fun patch => by
          rw [upWeight, hkind]
          exact Nat.le_refl 2⟩
      | _ => exact ⟨[], replies_nothing hcounted⟩

/-- **How many frames a session has not taken yet** from the broadcast group. -/
def lag (s : Server) (n : Nat) : Nat :=
  (((s.sessions.get? n).bind fun x => s.group.receivers.get? x.receiver).map fun place =>
    s.group.position - place).getD 0

theorem position_sendAll_le (b : Broadcast) (es : List Envelope) :
    (b.sendAll es).position ≤ b.position + es.length := by
  induction es generalizing b with
  | nil => exact Nat.le_refl _
  | cons e rest ih =>
    have hfirst : (b.send e).position ≤ b.position + 1 := by
      unfold Broadcast.send
      dsimp only
      split
      · exact Nat.le_succ _
      · exact Nat.le_refl _
    have hrest := ih (b.send e)
    show ((b.send e).sendAll rest).position ≤ _
    rw [List.length_cons]
    omega

/-- A session lags behind by what is sent, at most. -/
theorem lag_sends {es : List Envelope} (h : s.Sends s' es) (n : Nat) :
    s'.lag n ≤ s.lag n + es.length := by
  have hposition := position_sendAll_le s.group es
  unfold lag
  rw [h.sessions, h.group, (s.group.receivers_sendAll es).1]
  cases (s.sessions.get? n).bind fun x => s.group.receivers.get? x.receiver with
  | none => exact Nat.zero_le _
  | some place =>
    show (s.group.sendAll es).position - place ≤ s.group.position - place + es.length
    omega

theorem lag_eq {x : Session} (hx : s.sessions.get? n = some x) {place : Nat}
    (hplace : s.group.receivers.get? x.receiver = some place) :
    s.lag n = s.group.position - place := by
  unfold lag
  rw [hx, Option.bind_some, hplace]
  rfl

/-- **A session that forwards catches up**, and the others do not notice it. -/
theorem lag_forward (h : s.Coherent) {frames : List String}
    (hforward : s.forward n = some (s', frames)) :
    s'.lag n < s.lag n ∧ frames.length ≤ 1 ∧ ∀ m, m ≠ n → s'.lag m = s.lag m := by
  obtain ⟨hsessions, -, -, x, hx, hmoves⟩ := moves_forward h hforward
  have hothers : ∀ m, m ≠ n → s'.lag m = s.lag m := by
    intro m hm
    unfold lag
    rw [hsessions, hmoves.position]
    cases hy : s.sessions.get? m with
    | none => rfl
    | some y =>
      have hreceiver : y.receiver ≠ x.receiver := (h.differ m n y x hy hx hm).2
      rw [Option.bind_some, Option.bind_some, hmoves.get? hreceiver]
  have hx' : s'.sessions.get? n = some x := by rw [hsessions, hx]
  unfold forward at hforward
  obtain ⟨y, hy, hforward⟩ := Option.bind_eq_some_iff.mp hforward
  cases hx.symm.trans hy
  obtain ⟨⟨group, r⟩, hreceive, hforward⟩ := Option.bind_eq_some_iff.mp hforward
  obtain ⟨place, hplace, hreceive⟩ := Option.map_eq_some_iff.mp hreceive
  have hkept := h.group.kept
  rw [lag_eq hx hplace]
  split at hreceive
  -- it has lost frames, and goes on with the oldest one that is kept
  · next hlost =>
    cases hreceive
    cases hforward
    have hnew : (s.group.receivers.insert x.receiver s.group.oldest).get? x.receiver =
        some s.group.oldest := by rw [SortedMap.get?_insert, if_pos rfl]
    rw [lag_eq hx' hnew]
    refine ⟨?_, Nat.le_refl 1, hothers⟩
    show s.group.position - s.group.oldest < s.group.position - place
    unfold Broadcast.oldest at hlost ⊢
    omega
  · next htime =>
    split at hreceive
    · next e he =>
      cases hreceive
      cases hforward
      have hnew : (s.group.receivers.insert x.receiver (place + 1)).get? x.receiver =
          some (place + 1) := by rw [SortedMap.get?_insert, if_pos rfl]
      have hlt := (List.getElem?_eq_some_iff.mp he).1
      rw [lag_eq hx' hnew]
      refine ⟨?_, by split <;> simp, hothers⟩
      show s.group.position - (place + 1) < s.group.position - place
      unfold Broadcast.oldest at htime hlt
      omega
    · cases hreceive
      cases hforward

end Server

/-! ### The network -/

namespace Network

variable {net : Network}

/-- **A frame can get one step further** by the move at a station. -/
def CanDeliver (net : Network) (n : Nat) : Move → Prop
  | .serve => ∃ st ∈ net.stations.get? n, st.up ≠ []
  | .forward => (net.stations.get? n).isSome = true ∧ (net.server.forward n).isSome = true
  | .hear => ∃ st ∈ net.stations.get? n, st.down ≠ []
  | .edit _ | .request => False

/-- **Moves one after another** by each of which a frame gets one step further. -/
def Deliveries (net : Network) : List (Time × Nat × Move) → Prop
  | [] => True
  | (now, n, m) :: rest => net.CanDeliver n m ∧ (net.step now (.move n m)).Deliveries rest

/-- What the frames at a station weigh, in a network with so many stations. -/
def loadAt (server : Server) (stations n : Nat) (st : Station) : Nat :=
  (st.up.map (upWeight (4 * stations + 2))).sum + (st.down.map downWeight).sum +
    4 * server.lag n

/-- **What all frames on their way weigh.** -/
def load (net : Network) : Nat := net.stations.total (loadAt net.server net.stations.size)

/-- **Another server and another station weigh less** if the station weighs less by more than all
sessions lag behind because of it. -/
theorem load_put_lt {n k : Nat} {st st' : Station} {server : Server}
    (hst : net.stations.get? n = some st)
    (hlag : ∀ m, m ≠ n → server.lag m ≤ net.server.lag m + k)
    (hown : loadAt server net.stations.size n st' + 4 * k * net.stations.size <
      loadAt net.server net.stations.size n st + 4 * k) :
    (put { net with server } n st').load < net.load := by
  have hothers : ∀ m x, m ≠ n → net.stations.get? m = some x →
      loadAt server net.stations.size m x ≤ loadAt net.server net.stations.size m x + 4 * k := by
    intro m x hm _
    have := hlag m hm
    unfold loadAt
    omega
  obtain ⟨hlt, hsize⟩ := SortedMap.total_insert_lt (b := st') hst hothers hown
  show (net.stations.insert n st').total (loadAt server (net.stations.insert n st').size) < _
  rw [hsize]
  exact hlt

/-- **Each delivery takes weight away**, and the server stays coherent. -/
theorem load_step_lt (h : net.server.Coherent) (now : Time) {n : Nat} {m : Move}
    (hm : net.CanDeliver n m) : (net.step now (.move n m)).server.Coherent ∧
      (net.step now (.move n m)).load < net.load := by
  cases m with
  -- nothing is delivered
  | edit c => exact hm.elim
  | request => exact hm.elim
  -- the frame leaves its station, whose answers come in, and every session may lag behind by what
  -- is relayed, which the weight of the frame pays for
  | serve =>
    obtain ⟨st, hst, hup⟩ := hm
    have hst : net.stations.get? n = some st := hst
    obtain ⟨frame, rest, hframes⟩ := List.exists_cons_of_ne_nil hup
    obtain ⟨relayed, hreplies⟩ := net.server.receive_spec now n frame
    have hstep : net.step now (.move n .serve) =
        put { net with server := (net.server.receive now n frame).1 } n
          { st with up := rest, down := st.down ++ (net.server.receive now n frame).2 } := by
      simp only [step, hst, act, hframes]
    rw [hstep]
    refine ⟨h.sends hreplies.sends, load_put_lt (k := relayed.length) hst
      (fun m _ => Server.lag_sends hreplies.sends m) ?_⟩
    have hlag := Server.lag_sends hreplies.sends n
    have hweight := sum_downWeight_of_answers hreplies.kinds
    have hlighter := hreplies.lighter (4 * net.stations.size)
    rw [Nat.mul_right_comm]
    simp only [loadAt, List.map_append, List.sum_append, hframes, List.map_cons, List.sum_cons,
      hweight]
    omega
  -- no session lags behind more, and this one does so by a frame less, which weighs 4; for that one
  -- frame comes in at most, and no frame weighs more than 3
  | forward =>
    obtain ⟨hstation, hforward⟩ := hm
    obtain ⟨st, hst⟩ := Option.isSome_iff_exists.mp hstation
    obtain ⟨⟨server, frames⟩, hforward⟩ := Option.isSome_iff_exists.mp hforward
    obtain ⟨hlag, hlength, hothers⟩ := Server.lag_forward h hforward
    have hstep : net.step now (.move n .forward) =
        put { net with server } n { st with down := st.down ++ frames } := by
      simp only [step, hst, act, hforward]
    rw [hstep]
    refine ⟨h.forward hforward,
      load_put_lt (k := 0) hst (fun m hm => Nat.le_of_eq (hothers m hm)) ?_⟩
    have hweight := sum_downWeight_le frames
    simp only [loadAt, List.map_append, List.sum_append]
    omega
  -- the server is as it was, and the client answers the frame with something lighter
  | hear =>
    obtain ⟨st, hst, hdown⟩ := hm
    have hst : net.stations.get? n = some st := hst
    obtain ⟨frame, rest, hframes⟩ := List.exists_cons_of_ne_nil hdown
    have hlighter := (st.client.receive_spec now frame).2 (4 * net.stations.size + 2)
    have hstep : net.step now (.move n .hear) =
        put { net with server := net.server } n
          (Station.after { st with down := rest } (st.client.receive now frame)) := by
      simp only [step, hst, act, hframes]
    rw [hstep]
    refine ⟨h, load_put_lt (k := 0) hst (fun m _ => Nat.le_refl _) ?_⟩
    simp only [loadAt, Station.after, List.map_append, List.sum_append, hframes, List.map_cons,
      List.sum_cons]
    omega

/-- **Deliveries are bounded by what the frames weigh.** -/
theorem length_deliveries_le (h : net.server.Coherent) {moves : List (Time × Nat × Move)}
    (hmoves : net.Deliveries moves) : moves.length ≤ net.load := by
  induction moves generalizing net with
  | nil => exact Nat.zero_le _
  | cons q rest ih =>
    obtain ⟨now, n, m⟩ := q
    obtain ⟨hfirst, hrest⟩ := hmoves
    obtain ⟨hcoherent, hlt⟩ := load_step_lt h now hfirst
    exact Nat.succ_le_of_lt (Nat.lt_of_le_of_lt (ih hcoherent hrest) hlt)

/-- **Deliveries come to an end.** In a network where nobody does anything on its own, no more
deliveries follow one another than the frames on their way weigh, whatever these frames hold. What a
client hands over on account of a frame is a request for the whole tree or a sign of life. The
server answers a frame with no patch, and what it relays of the frame is not forwarded by the
session that the frame came from. -/
theorem deliveries_end (h : net.server.Coherent) :
    (∀ moves, net.Deliveries moves → moves.length ≤ net.load) ∧
    (∀ moves : Nat → Time × Nat × Move, ∃ k, ¬ net.Deliveries ((List.range k).map moves)) ∧
    (∀ (c : Client) (now : Time) (frame : String), ∀ a ∈ (c.receive now frame).frames,
      a = Message.requestInit.encode ∨ a = Message.pong.encode) ∧
    ∀ (s : Server) (now : Time) (n : Nat) (frame : String),
      (∀ a ∈ (s.receive now n frame).2, ∃ m : Message, a = m.encode ∧ Answers m.kind) ∧
      ∃ relayed, (s.receive now n frame).1.group = s.group.sendAll relayed ∧
        ∀ x, s.sessions.get? n = some x → Server.framesFor x relayed = [] := by
  refine ⟨fun moves => length_deliveries_le h, fun moves => ⟨net.load + 1, fun hmoves => ?_⟩,
    fun c now frame => (c.receive_spec now frame).1, fun s now n frame => ?_⟩
  · have hlength := length_deliveries_le h hmoves
    rw [List.length_map, List.length_range] at hlength
    exact Nat.not_succ_le_self _ hlength
  · obtain ⟨relayed, hreplies⟩ := s.receive_spec now n frame
    refine ⟨hreplies.kinds, relayed, hreplies.sends.group, fun x hx => ?_⟩
    refine Server.framesFor_own fun e he => ?_
    obtain ⟨y, hy, horigin⟩ := hreplies.origins e he
    rw [horigin, Option.some.inj (hx.symm.trans hy)]

instance (net : Network) (n : Nat) (m : Move) : Decidable (net.CanDeliver n m) :=
  match m with
  | .serve => inferInstanceAs (Decidable (∃ st ∈ net.stations.get? n, st.up ≠ []))
  | .forward => inferInstanceAs (Decidable (_ ∧ _))
  | .hear => inferInstanceAs (Decidable (∃ st ∈ net.stations.get? n, st.down ≠ []))
  | .edit _ | .request => .isFalse id

instance decidableDeliveries :
    (net : Network) → (moves : List (Time × Nat × Move)) → Decidable (net.Deliveries moves)
  | _, [] => .isTrue trivial
  | net, (now, n, m) :: rest =>
    have := decidableDeliveries (net.step now (.move n m)) rest
    inferInstanceAs (Decidable (net.CanDeliver n m ∧ Deliveries _ rest))

/-- Two clients with frames on their way: one has sent what is no message and then a new lobby, and
the other one is about to hear of a device without a name. -/
def busyNetwork : Network :=
  { hallNetwork with
    stations := (hallNetwork.stations.insert 0 {
        client := hallClient
        up := ["?", (Message.ofPatch (.device "x" (.change
          { name := some "", lastUpdate := some 1 })) .update).encode] }).insert 1 {
        client := hallClient
        down :=
          [(Message.ofPatch (.device "y" (.change { lastUpdate := some 1 })) .update).encode] } }

/-- Both frames of the first client are served, the second one is relayed, and the second client
asks for the whole tree and hears of it. -/
def settlingMoves : List (Time × Nat × Move) := [
  (1, 0, .serve), (1, 0, .serve), (2, 0, .forward), (2, 1, .hear), (3, 1, .forward), (4, 1, .serve),
  (5, 1, .hear), (5, 1, .hear)]

theorem deliveries_end_busy :
    busyNetwork.server.Coherent ∧ busyNetwork.Deliveries settlingMoves ∧
      settlingMoves.length ≤ busyNetwork.load ∧
      ∃ k, ¬ busyNetwork.Deliveries ((List.range k).map fun k => (0, k % 2, .hear)) := by
  have hserver : busyNetwork.server.Coherent := settled_hallNetwork.connected.server
  have hmoves : busyNetwork.Deliveries settlingMoves := by decide +kernel
  obtain ⟨hbound, hend, -⟩ := deliveries_end hserver
  exact ⟨hserver, hmoves, hbound _ hmoves, hend _⟩

end Network

end Sync

end Fleet
