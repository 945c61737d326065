import Fleet.Proofs.Connections
import Fleet.Proofs.Frames
import Fleet.Proofs.Kinds

/-!
# What leaves a client

Frames that tell of changes leave a client in two ways, over the connection that it has or through
the queue to the next one, and any of its connections may come and go between two of them. All the
same they leave in the order in which they were published and each of them once, except those that
met a full queue and no connection that took them (`Client.outgoing_exact`).

The reason is a law of conservation (`Outbox.Passage`): what waited and what was published since is
what was handed over since and what waits now. One frame obeys it (`Outbox.passage_send`), so does
everything that can happen to a client (`Client.passage_act`), and it composes
(`Outbox.Passage.trans`). It rests on the invariant `Outbox.Sound`, by which nothing waits while the
outbox has a connection: a frame that is handed over at once overtakes no other.

Besides changes a client hands over signals, which are requests for the whole tree and signs of
life. These never wait, and no change is written like one of them.

The state of the client and its list of readers do not matter to the outbox, so a call that uses
the outbox in one moment and says so in another is one action here. That its two moments may lie
apart is the subject of `Wiring`. A connection that is made lasts at least until it has got what
waited, which is one step (`Outbox.attach`).
-/

namespace Fleet

/-! ### Signals -/

/-- **The frames that tell of no change.** -/
def signals : List String :=
  [Message.requestInit.encode, Message.ping.encode, Message.pong.encode]

/-- **No change is written like a signal**: a frame is read as what it was written as, or as
nothing. -/
theorem encode_ofEvent_notMem_signals (e : Event) : (Message.ofEvent e).encode ∉ signals := by
  have hother : ∀ m : Message, Message.decode m.encode = .ok m → m.kind ≠ .update →
      m.kind ≠ .delete → (Message.ofEvent e).encode ≠ m.encode := by
    intro m hm hupdate hdelete heq
    rw [← heq] at hm
    have hkind := Message.kind_of_decode_encode hm
    obtain ⟨manner, patch⟩ := e
    cases manner with
    | update => exact hupdate hkind
    | delete => exact hdelete hkind
  simp only [signals, List.mem_cons, List.not_mem_nil, or_false, not_or]
  exact ⟨hother _ asks_requestInit nofun nofun, hother _ decode_ping nofun nofun,
    hother _ decode_pong nofun nofun⟩

namespace Sync

/-- **The frames that tell of changes** among those that were handed over. -/
def changes (handed : List Handed) : List String :=
  (handed.map Handed.frame).filter (· ∉ signals)

theorem changes_append (handed more : List Handed) :
    changes (handed ++ more) = changes handed ++ changes more := by
  rw [changes, List.map_append, List.filter_append]
  rfl

/-- The frames that one connection got. -/
theorem changes_map (number : Nat) (frames : List String) :
    changes (frames.map fun frame => ⟨number, frame⟩) = frames.filter (· ∉ signals) := by
  rw [changes, List.map_map]
  exact congrArg _ (List.map_id' frames)

/-! ### Publications -/

/-- **A frame that was published**, and the outbox as it was then. -/
structure Publication where
  frame : String
  met : Outbox

/-- **The frame was lost.** -/
def Publication.Lost (p : Publication) : Prop := (p.met.sendOrQueue p.frame).2 = .lost

instance (p : Publication) : Decidable p.Lost := inferInstanceAs (Decidable (_ = _))

/-- **A frame is lost** exactly if no connection takes it and the queue is full. -/
theorem Publication.lost_iff {p : Publication} :
    p.Lost ↔ p.met.Offline ∧ p.met.queue.isFull = true := by
  unfold Lost
  rcases Outbox.sendOrQueue_cases p.met p.frame with ⟨link, hlink, htakes, heq⟩ |
      ⟨hoffline, hroom, heq⟩ | ⟨hoffline, hfull, heq⟩
  · rw [heq]
    refine ⟨nofun, fun ⟨hoffline, _⟩ => ?_⟩
    cases htakes.symm.trans (hoffline link hlink)
  · rw [heq, hroom]
    exact ⟨nofun, nofun⟩
  · rw [heq]
    exact ⟨fun _ => ⟨hoffline, hfull⟩, fun _ => rfl⟩

/-- **The frames that were not lost**, in the order in which they were published. -/
def passed (published : List Publication) : List String :=
  (published.filter (¬ ·.Lost)).map Publication.frame

theorem passed_append (published more : List Publication) :
    passed (published ++ more) = passed published ++ passed more := by
  rw [passed, List.filter_append, List.map_append]
  rfl

theorem passed_singleton (p : Publication) :
    passed [p] = if (p.met.sendOrQueue p.frame).2 = .lost then [] else [p.frame] := by
  by_cases hlost : (p.met.sendOrQueue p.frame).2 = .lost
  · simp [passed, Publication.Lost, hlost]
  · simp [passed, Publication.Lost, hlost]

namespace Outbox

variable {o o' o'' : Outbox} {maxQueued n n' n'' : Nat} {frame : String}
  {published published' : List Publication} {handed handed' : List Handed}

/-- Frames are published one after another. -/
def publications (o : Outbox) : List String → List Publication
  | [] => []
  | frame :: rest => ⟨frame, o⟩ :: (o.sendOrQueue frame).1.publications rest

/-! ### The invariant -/

/-- **The invariant of an outbox** that has room for so many frames, where the next connection will
have the number `nextLink`. -/
structure Sound (maxQueued nextLink : Nat) (o : Outbox) : Prop where
  bound : o.queue.maxSize = maxQueued
  room : o.queue.frames.length ≤ maxQueued
  /-- Nothing waits while there is a connection. -/
  idle : o.link ≠ none → o.queue.frames = []
  /-- Only changes wait. -/
  plain : ∀ frame ∈ o.queue.frames, frame ∉ signals
  /-- The connection is the last one that was made. -/
  current : ∀ link ∈ o.link, link.number + 1 = nextLink

theorem Sound.isFull_iff (h : o.Sound maxQueued n) :
    o.queue.isFull = true ↔ o.queue.size = maxQueued := by
  have hroom := h.room
  rw [OfflineQueue.isFull, decide_eq_true_iff, h.bound, OfflineQueue.size]
  omega

/-- An outbox that holds frames has no connection. -/
theorem Sound.offline (h : o.Sound maxQueued n) (hsize : o.queue.size ≠ 0) : o.Offline := by
  intro link hlink
  have hempty := h.idle (hlink ▸ Option.some_ne_none link)
  rw [OfflineQueue.size, hempty] at hsize
  exact absurd rfl hsize

theorem Sound.detach (h : o.Sound maxQueued n) : o.detach.Sound maxQueued n :=
  ⟨h.bound, h.room, fun hnone => absurd rfl hnone, h.plain, nofun⟩

theorem Sound.shut (h : o.Sound maxQueued n) (number : Nat) :
    (o.shut number).Sound maxQueued n := by
  refine ⟨h.bound, h.room, fun hlink => h.idle fun hnone => hlink ?_, h.plain, fun link hlink => ?_⟩
  · rw [Outbox.shut, hnone]
    rfl
  · obtain ⟨link', hlink', rfl⟩ := Option.map_eq_some_iff.mp hlink
    have hnumber := h.current link' hlink'
    split
    · exact hnumber
    · exact hnumber

/-! ### The law of conservation -/

/-- **What passes through an outbox** from one moment to another: what was published since, and what
was handed over. -/
structure Passage (maxQueued n : Nat) (o : Outbox) (published : List Publication)
    (handed : List Handed) (n' : Nat) (o' : Outbox) : Prop where
  sound : o'.Sound maxQueued n'
  met : ∀ p ∈ published, ∃ n, p.met.Sound maxQueued n
  conserved : o.queue.frames ++ passed published = changes handed ++ o'.queue.frames
  later : n ≤ n'
  links : ∀ x ∈ handed, n ≤ x.link + 1 ∧ x.link < n'
  sorted : handed.Pairwise fun x y => x.link ≤ y.link

theorem Passage.trans (h : Passage maxQueued n o published handed n' o')
    (h' : Passage maxQueued n' o' published' handed' n'' o'') :
    Passage maxQueued n o (published ++ published') (handed ++ handed') n'' o'' where
  sound := h'.sound
  met := List.forall_mem_append.mpr ⟨h.met, h'.met⟩
  conserved := by
    rw [passed_append, changes_append, ← List.append_assoc, h.conserved, List.append_assoc,
      h'.conserved, List.append_assoc]
  later := Nat.le_trans h.later h'.later
  links := by
    have hfirst := h.later
    have hsecond := h'.later
    refine List.forall_mem_append.mpr ⟨fun x hx => ?_, fun x hx => ?_⟩
    · have hlink := h.links x hx
      omega
    · have hlink := h'.links x hx
      omega
  sorted := by
    refine List.pairwise_append.mpr ⟨h.sorted, h'.sorted, fun x hx y hy => ?_⟩
    have hx := h.links x hx
    have hy := h'.links y hy
    omega

/-- **Nothing passes** while the queue stays as it is. -/
theorem passage_quiet (hsound : o'.Sound maxQueued n) (hqueue : o'.queue = o.queue) :
    Passage maxQueued n o [] [] n o' := by
  refine ⟨hsound, nofun, ?_, Nat.le_refl n, nofun, .nil⟩
  rw [hqueue]
  exact List.append_nil _

/-- **A frame for the connection** passes it by itself. -/
theorem passage_link (h : o.Sound maxQueued n) {link : Link} (hlink : o.link = some link)
    (hmet : ∀ p ∈ published, ∃ n, p.met.Sound maxQueued n)
    (hpassed : passed published = changes [⟨link.number, frame⟩]) :
    Passage maxQueued n o published [⟨link.number, frame⟩] n o := by
  have hempty := h.idle (hlink ▸ Option.some_ne_none link)
  have hnumber := h.current link hlink
  refine ⟨h, hmet, ?_, Nat.le_refl n, fun x hx => ?_, List.pairwise_singleton _ _⟩
  · rw [hempty, hpassed, List.nil_append, List.append_nil]
  · rw [List.mem_singleton.mp hx]
    dsimp only
    omega

/-- **A signal** is handed over at once or not at all. -/
theorem passage_signal (h : o.Sound maxQueued n) (hframe : frame ∈ signals) :
    Passage maxQueued n o [] (o.sendLive frame).toOption.toList n o := by
  unfold sendLive
  split
  · next link hlink =>
    split
    · refine passage_link h hlink nofun ?_
      exact (changes_map link.number [frame]).symm ▸ by simp [hframe, passed]
    · exact passage_quiet h rfl
  · exact passage_quiet h rfl

/-- **A frame that tells of a change** obeys the law, whatever becomes of it. -/
theorem passage_send (h : o.Sound maxQueued n) (hframe : frame ∉ signals) :
    Passage maxQueued n o [⟨frame, o⟩] (o.sendOrQueue frame).2.toList n
      (o.sendOrQueue frame).1 := by
  have hmet : ∀ p ∈ [(⟨frame, o⟩ : Publication)], ∃ n, p.met.Sound maxQueued n :=
    List.forall_mem_singleton.mpr ⟨n, h⟩
  have hpassed := passed_singleton ⟨frame, o⟩
  dsimp only at hpassed
  rcases sendOrQueue_cases o frame with ⟨link, hlink, -, heq⟩ | ⟨-, hroom, heq⟩ | ⟨-, -, heq⟩
  · rw [heq] at hpassed ⊢
    exact passage_link h hlink hmet (hpassed.trans (by simp [changes, hframe]))
  -- the frame waits behind those that wait already
  · rw [heq] at hpassed ⊢
    have hlength : o.queue.frames.length < maxQueued := by
      rw [OfflineQueue.isFull, decide_eq_false_iff_not, h.bound] at hroom
      exact Nat.lt_of_not_le hroom
    have hsound : (⟨none, { o.queue with frames := o.queue.frames ++ [frame] }⟩ : Outbox).Sound
        maxQueued n := by
      refine ⟨h.bound, ?_, fun hnone => absurd rfl hnone,
        List.forall_mem_append.mpr ⟨h.plain, List.forall_mem_singleton.mpr hframe⟩, nofun⟩
      rw [List.length_append, List.length_singleton]
      exact hlength
    refine ⟨hsound, hmet, ?_, Nat.le_refl n, nofun, .nil⟩
    rw [hpassed]
    rfl
  -- the frame is gone, and all else is as it was
  · rw [heq] at hpassed ⊢
    refine ⟨h.detach, hmet, ?_, Nat.le_refl n, nofun, .nil⟩
    rw [hpassed]
    exact List.append_nil _

/-- **Frames that tell of changes** obey it one after another. -/
theorem passage_sendAll {frames : List String} (h : o.Sound maxQueued n)
    (hframes : ∀ frame ∈ frames, frame ∉ signals) :
    Passage maxQueued n o (o.publications frames) (o.handedAll frames) n (o.sendAll frames) := by
  induction frames generalizing o with
  | nil => exact passage_quiet h rfl
  | cons frame rest ih =>
    obtain ⟨hframe, hrest⟩ := List.forall_mem_cons.mp hframes
    have hfirst := passage_send h hframe
    exact hfirst.trans (ih hfirst.sound hrest)

/-- **A new connection** gets all that waits, and then the request for the whole tree. -/
theorem passage_attach (h : o.Sound maxQueued n) :
    Passage maxQueued n o [] (o.attach n Message.requestInit.encode).2 (n + 1)
      (o.attach n Message.requestInit.encode).1 := by
  have hsound : (o.attach n Message.requestInit.encode).1.Sound maxQueued (n + 1) := by
    refine ⟨h.bound, Nat.zero_le _, fun _ => rfl, nofun, fun link hlink => ?_⟩
    cases hlink
    rfl
  have hlinks : ∀ x ∈ (o.attach n Message.requestInit.encode).2, x.link = n := by
    intro x hx
    obtain ⟨frame, -, rfl⟩ := List.mem_map.mp hx
    rfl
  refine ⟨hsound, nofun, ?_, Nat.le_succ n, fun x hx => ?_, ?_⟩
  · have hplain : o.queue.frames.filter (· ∉ signals) = o.queue.frames :=
      List.filter_eq_self.mpr fun frame hframe => decide_eq_true (h.plain frame hframe)
    have hrequest : [Message.requestInit.encode].filter (· ∉ signals) = [] := by
      simp [signals]
    rw [attach, changes_map, List.filter_append, hplain, hrequest]
    exact (List.append_nil _).symm
  · rw [hlinks x hx]
    omega
  · refine List.pairwise_of_forall_mem_list fun x hx y hy => ?_
    exact Nat.le_of_eq ((hlinks x hx).trans (hlinks y hy).symm)

end Outbox

/-! ### Clients -/

namespace Client

/-- **What happens to a client.** -/
inductive Action where
  /-- The owner does something to the replica. -/
  | edit (run : Tree → Outcome Unit)
  /-- The owner begins to connect. -/
  | dial
  /-- The connection could not be made. -/
  | refused
  /-- The connection is made. -/
  | established
  /-- The owner gives the connection up. -/
  | disconnect
  /-- The owner requests the whole tree. -/
  | requestInit
  /-- The owner requests a sign of life. -/
  | ping
  /-- A connection takes no more frames. -/
  | writerEnds (number : Nat)
  /-- The reader of a connection comes to its end. -/
  | readerEnds (number : Nat)
  /-- A reader takes a frame. -/
  | receive (now : Time) (frame : String)

/-- **One action.** -/
def act (c : Client) : Action → Step
  | .edit run => (c.edit run).1
  | .dial => { client := c.dial }
  | .refused => { client := c.dialFailed.1 }
  | .established => c.established
  | .disconnect => { client := c.disconnect }
  | .requestInit => { client := c, handed := c.requestInit.toOption.toList }
  | .ping => { client := c, handed := c.ping.toOption.toList }
  | .writerEnds number => { client := c.writerEnds number }
  | .readerEnds number => c.readerEnds number
  | .receive now frame => c.receive now frame

/-- **What is published** by an action. -/
def publications (c : Client) : Action → List Publication
  | .edit run =>
    c.outbox.publications ((run c.replica).events.map fun e => (Message.ofEvent e).encode)
  | _ => []

/-- **What has become of a client**, with all that was published and all that was handed over. -/
structure History where
  client : Client
  published : List Publication := []
  handed : List Handed := []

/-- **Actions one after another.** -/
def live (c : Client) : List Action → History
  | [] => { client := c }
  | a :: rest =>
    let later := (c.act a).client.live rest
    { later with
      published := c.publications a ++ later.published
      handed := (c.act a).handed ++ later.handed }

variable {c : Client} {maxQueued : Nat}

theorem live_append (c : Client) (actions more : List Action) : c.live (actions ++ more) =
    let before := c.live actions
    let later := before.client.live more
    { later with
      published := before.published ++ later.published
      handed := before.handed ++ later.handed } := by
  induction actions generalizing c with
  | nil => rfl
  | cons a rest ih =>
    rw [List.cons_append, live, ih]
    simp only [live, List.append_assoc]

/-- The invariant of a client is that of its outbox. -/
def Sound (c : Client) (maxQueued : Nat) : Prop := c.outbox.Sound maxQueued c.nextLink

/-- What passes through a client is what passes through its outbox. -/
def Passage (maxQueued : Nat) (c : Client) (published : List Publication) (handed : List Handed)
    (c' : Client) : Prop :=
  c.outbox.Passage maxQueued c.nextLink published handed c'.nextLink c'.outbox

/-- **A frame that comes in** is answered with a signal, if at all. -/
theorem handed_receive (c : Client) (now : Time) (frame : String) :
    (c.receive now frame).handed = [] ∨ ∃ m : Message, m.encode ∈ signals ∧
      (c.receive now frame).handed = (c.sendLive m).toOption.toList := by
  rcases c.receive_cases now frame with ⟨t, notices, h⟩ | ⟨m, answer, notices, -, hprompts, h⟩
  · exact .inl (congrArg Step.handed h)
  · rw [h, answer_eq]
    refine .inr ⟨answer, ?_, rfl⟩
    cases hprompts with
    | patch => exact List.mem_cons_self
    | ping => exact List.mem_cons_of_mem _ (List.mem_cons_of_mem _ List.mem_cons_self)

/-- **Every action obeys the law.** -/
theorem passage_act (h : c.Sound maxQueued) (a : Action) :
    Passage maxQueued c (c.publications a) (c.act a).handed (c.act a).client := by
  cases a with
  -- what is published is sent, and no event reads like a signal
  | edit run =>
    have hframes : ∀ frame ∈ (run c.replica).events.map fun e => (Message.ofEvent e).encode,
        frame ∉ signals := List.forall_mem_map.mpr fun e _ => encode_ofEvent_notMem_signals e
    have hpassage := Outbox.passage_sendAll h hframes
    unfold Passage
    simp only [act, publications]
    rw [handed_edit, edit_eq]
    exact hpassage
  | dial => exact Outbox.passage_quiet h rfl
  | refused => exact Outbox.passage_quiet h rfl
  | established => exact Outbox.passage_attach h
  | disconnect => exact Outbox.passage_quiet h.detach rfl
  | requestInit => exact Outbox.passage_signal h List.mem_cons_self
  | ping => exact Outbox.passage_signal h (List.mem_cons_of_mem _ List.mem_cons_self)
  | writerEnds number => exact Outbox.passage_quiet (h.shut number) rfl
  -- the connection is given up, or there is no such reader any more
  | readerEnds number =>
    show Passage maxQueued c [] (c.readerEnds number).handed (c.readerEnds number).client
    unfold readerEnds
    split
    · exact Outbox.passage_quiet h.detach rfl
    · exact Outbox.passage_quiet h rfl
  | receive now frame =>
    show Passage maxQueued c [] (c.receive now frame).handed (c.receive now frame).client
    obtain ⟨t, hclient⟩ := receive_eq c now frame
    rw [hclient]
    rcases handed_receive c now frame with hhanded | ⟨m, hm, hhanded⟩
    · rw [hhanded]
      exact Outbox.passage_quiet h rfl
    · rw [hhanded]
      exact Outbox.passage_signal h hm

/-- **So does every run.** -/
theorem passage_live (h : c.Sound maxQueued) (actions : List Action) :
    Passage maxQueued c (c.live actions).published (c.live actions).handed
      (c.live actions).client := by
  induction actions generalizing c with
  | nil => exact Outbox.passage_quiet h rfl
  | cons a rest ih =>
    have hfirst := passage_act h a
    exact hfirst.trans (ih hfirst.sound)

theorem sound_create (replica : Tree) (maxQueued : Nat) (wording : Value → String) :
    (create replica maxQueued wording).Sound maxQueued :=
  ⟨rfl, Nat.zero_le _, fun _ => rfl, nofun, nofun⟩

/-- **All that leaves a client is accounted for**, if it has room for `maxQueued` frames. -/
structure History.Accounted (maxQueued : Nat) (h : History) : Prop where
  /-- Nothing waits while there is a connection. -/
  idle : h.client.outbox.link ≠ none → h.client.outbox.queue.frames = []
  /-- The changes that were handed over, and then those that wait, are those that were published, in
  that order, but for the lost ones. -/
  conserved : changes h.handed ++ h.client.outbox.queue.frames = passed h.published
  /-- A frame is lost if no connection takes it and the queue is full. -/
  lost : ∀ p ∈ h.published, p.Lost ↔ p.met.Offline ∧ p.met.queue.size = maxQueued
  /-- If there is room for frames at all, a frame is lost if the queue is full. -/
  full : maxQueued ≠ 0 → ∀ p ∈ h.published, p.Lost ↔ p.met.queue.size = maxQueued
  /-- Frames are handed over to one connection after another. -/
  sorted : h.handed.Pairwise fun x y => x.link ≤ y.link

theorem accounted_live (h : c.Sound maxQueued) (hempty : c.outbox.queue.frames = [])
    (actions : List Action) : (c.live actions).Accounted maxQueued := by
  have hpassage := passage_live h actions
  have hlost : ∀ p ∈ (c.live actions).published,
      p.Lost ↔ p.met.Offline ∧ p.met.queue.size = maxQueued := by
    intro p hp
    obtain ⟨n, hmet⟩ := hpassage.met p hp
    rw [Publication.lost_iff, hmet.isFull_iff]
  refine ⟨hpassage.sound.idle, ?_, hlost, fun hbound p hp => ?_, hpassage.sorted⟩
  · have hconserved := hpassage.conserved
    rw [hempty] at hconserved
    exact hconserved.symm
  -- where there is room for frames, a queue that is full is not empty
  · obtain ⟨n, hmet⟩ := hpassage.met p hp
    rw [hlost p hp]
    exact and_iff_right_of_imp fun hfull => hmet.offline (hfull ▸ hbound)

/-- **The exact account of what leaves a client.** Whatever happens to a client, all that leaves it
is accounted for; and a connection that is made gets all that waits and one request for the whole
tree, after everything that earlier connections got and before anything else. -/
theorem outgoing_exact (replica : Tree) (maxQueued : Nat) (wording : Value → String) :
    (∀ actions, ((create replica maxQueued wording).live actions).Accounted maxQueued) ∧
    ∀ before after,
      let h := (create replica maxQueued wording).live before
      ∃ later, ((create replica maxQueued wording).live (before ++ .established :: after)).handed =
          h.handed ++ (h.client.outbox.queue.frames ++ [Message.requestInit.encode]).map
            (fun frame => ⟨h.client.nextLink, frame⟩) ++ later ∧
        (∀ x ∈ h.handed, x.link < h.client.nextLink) ∧
        ∀ x ∈ later, h.client.nextLink ≤ x.link := by
  have hsound := sound_create replica maxQueued wording
  refine ⟨accounted_live hsound rfl, fun before after => ?_⟩
  have hbefore := passage_live hsound before
  have hafter := passage_live (passage_act hbefore.sound .established).sound after
  refine ⟨_, ?_, fun x hx => (hbefore.links x hx).2,
    fun x hx => Nat.le_of_succ_le_succ (hafter.links x hx).1⟩
  rw [live_append, List.append_assoc]
  rfl

/-- A device is added while there is no connection, another one when the queue is full, and a third
one is told at once. The fourth one has to wait again, because the connection has ended. -/
def devicesAdded : List Action := [
  .edit ((Tree.Command.addDevice "a" "A").run 5), .edit ((Tree.Command.addDevice "b" "B").run 5),
  .dial, .established, .edit ((Tree.Command.addDevice "c" "C").run 6), .ping,
  .writerEnds 0, .edit ((Tree.Command.addDevice "d" "D").run 7), .dial]

theorem outgoing_exact_devices :
    let h₀ := (create (.ofBounds .standard) 1).live devicesAdded
    let h := (create (.ofBounds .standard) 1).live (devicesAdded ++ [.established])
    h.Accounted 1 ∧ h.published.map (fun p => decide p.Lost) = [false, true, false, false] ∧
    h.handed.map Handed.link = [0, 0, 0, 0, 1, 1] ∧ h₀.client.outbox.queue.size = 1 ∧
    ∃ later, h.handed = h₀.handed ++
      (h₀.client.outbox.queue.frames ++ [Message.requestInit.encode]).map
        (fun frame => ⟨h₀.client.nextLink, frame⟩) ++ later := by
  obtain ⟨haccounted, hconnected⟩ := outgoing_exact (.ofBounds .standard) 1 _
  obtain ⟨later, hhanded, -, -⟩ := hconnected devicesAdded []
  exact ⟨haccounted _, by decide +kernel, by decide +kernel, by decide +kernel, later, hhanded⟩

/-- **In a client without room for any frame** a queue that is full loses nothing while there is a
connection. -/
theorem full_queue_hands_over :
    let h := (create (.ofBounds .standard) 0).live
      [.established, .edit ((Tree.Command.addDevice "hall" "Hall").run 5)]
    (∀ p ∈ h.published, p.met.queue.size = 0) ∧
    changes h.handed ++ h.client.outbox.queue.frames ≠
      (h.published.filter (¬ ·.met.queue.size = 0)).map Publication.frame := by
  decide +kernel

end Client

end Sync

end Fleet
