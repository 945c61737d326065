import Fleet.Proofs.Forwarding
import Fleet.Proofs.Publishing

/-!
# What frames do at either end

A frame that is read holds an event (`eventIn?`), the whole tree (`treeIn?`) or the request for it
(`Asks`), or else nothing that any replica would notice. This module says once what becomes of a
frame at each end of a connection: at the server (`Server.Receives`) and at a client whose
connection takes frames (`Client.Hears`). `Client.receive_cases` is what remains of the latter
without such a connection.

Frames are read before they are looked at, so these statements hold of every text. That a frame is
read as what was written is a matter of the one who writes it (`Event.Arrives`).
-/

namespace Fleet

/-! ### Reading frames -/

/-- The event in a message, if it carries a patch that can be read. -/
def Message.event? (m : Message) : Option Event :=
  m.patch?.bind fun q => (Patch.ofValue q.2).toOption.map (Event.mk q.1)

/-- The snapshot that is all of a message. -/
def Message.tree? : Message → Option Snapshot
  | .init s => some s
  | _ => none

/-- A message that neither asks nor tells of anything. -/
def Message.Idle (m : Message) : Prop := (∃ report, m = .error report) ∨ m = .pong

/-- **The event that a frame tells of.** -/
def eventIn? (frame : String) : Option Event := (Message.decode frame).toOption.bind Message.event?

/-- The events that frames tell of, in their order. -/
def eventsIn (frames : List String) : List Event := frames.filterMap eventIn?

/-- **The frame asks for the whole tree.** -/
def Asks (frame : String) : Prop := Message.decode frame = .ok .requestInit

instance (frame : String) : Decidable (Asks frame) := decidable_of_iff _ toOption_eq_some_iff

/-- **The whole tree in a frame.** -/
def treeIn? (frame : String) : Option Snapshot := (Message.decode frame).toOption.bind Message.tree?

/-- **The event arrives**: its frame is read as it was written. -/
def Event.Arrives (e : Event) : Prop := eventIn? (Message.ofEvent e).encode = some e

variable {frame : String} {m : Message}

theorem eventIn?_of_decode (h : Message.decode frame = .ok m) : eventIn? frame = m.event? := by
  unfold eventIn?
  rw [h]
  rfl

theorem treeIn?_of_decode (h : Message.decode frame = .ok m) : treeIn? frame = m.tree? := by
  unfold treeIn?
  rw [h]
  rfl

theorem asks_iff_of_decode (h : Message.decode frame = .ok m) : Asks frame ↔ m = .requestInit := by
  unfold Asks
  rw [h]
  exact ⟨Except.ok.inj, fun hm => hm ▸ rfl⟩

theorem eventIn?_of_error {e : LinkError} (h : Message.decode frame = .error e) :
    eventIn? frame = none := by
  unfold eventIn?
  rw [h]
  rfl

theorem treeIn?_of_error {e : LinkError} (h : Message.decode frame = .error e) :
    treeIn? frame = none := by
  unfold treeIn?
  rw [h]
  rfl

theorem not_asks_of_error {e : LinkError} (h : Message.decode frame = .error e) : ¬ Asks frame := by
  unfold Asks
  rw [h]
  intro hasks
  cases hasks

/-- A frame that tells of an event is nothing else. -/
theorem not_asks_of_eventIn? {e : Event} (h : eventIn? frame = some e) :
    ¬ Asks frame ∧ treeIn? frame = none := by
  cases hdecode : Message.decode frame with
  | error err =>
    rw [eventIn?_of_error hdecode] at h
    cases h
  | ok m =>
    rw [eventIn?_of_decode hdecode] at h
    rw [asks_iff_of_decode hdecode, treeIn?_of_decode hdecode]
    cases m with
    | update v => exact ⟨Message.noConfusion, rfl⟩
    | delete v => exact ⟨Message.noConfusion, rfl⟩
    | _ => cases h

theorem Message.Idle.quiet (hm : m.Idle) (h : Message.decode frame = .ok m) :
    eventIn? frame = none ∧ treeIn? frame = none ∧ ¬ Asks frame := by
  rw [eventIn?_of_decode h, treeIn?_of_decode h, asks_iff_of_decode h]
  rcases hm with ⟨report, rfl⟩ | rfl
  · exact ⟨rfl, rfl, Message.noConfusion⟩
  · exact ⟨rfl, rfl, Message.noConfusion⟩

theorem asks_requestInit : Asks Message.requestInit.encode :=
  toOption_eq_some_iff.mp (by decide +kernel)

theorem decode_ping : Message.decode Message.ping.encode = .ok .ping :=
  toOption_eq_some_iff.mp (by decide +kernel)

theorem decode_pong : Message.decode Message.pong.encode = .ok .pong :=
  toOption_eq_some_iff.mp (by decide +kernel)

namespace Sync

/-! ### At the server -/

namespace Server

variable {s : Server} {now : Time} {frame : String} {n : Nat} {x : Session}

/-- **The answer to a frame** of a session, if there is one. -/
def answer? (s : Server) (now : Time) (n : Nat) (frame : String) : Option Message := do
  let x ← s.sessions.get? n
  let m ← (Message.decode frame).toOption
  (s.handle now x.id m).2.answer

/-- **What becomes of a frame at the server** that comes from an open session: the server after it,
and its answer. -/
inductive Receives (s : Server) (now : Time) (x : Session) (frame : String) :
    Server → Option Message → Prop where
  | answered {s' : Server} (hasks : Asks frame) (htree : s'.tree = s.tree)
      (hsends : s.Sends s' []) : Receives s now x frame s' (some (.ofTree s.tree))
  | applied {s' : Server} {e : Event} (hevent : eventIn? frame = some e)
      (happly : s.tree.apply now e.manner e.patch = .ok s'.tree)
      (hsends : s.Sends s' [.ofPatch x.id e.patch e.manner]) : Receives s now x frame s' none
  | idle {s' : Server} {answer : Option Message} (hasks : ¬ Asks frame)
      (hrefused : ∀ e, eventIn? frame = some e → ∀ u, s.tree.apply now e.manner e.patch ≠ .ok u)
      (htree : s'.tree = s.tree) (hsends : s.Sends s' []) (hidle : ∀ m, answer = some m → m.Idle) :
      Receives s now x frame s' answer

theorem receives_patch {m : Message} {manner : Tree.Manner} {v : Value}
    (hdecode : Message.decode frame = .ok m) (hpatch : m.patch? = some (manner, v)) :
    s.Receives now x frame
      ((s.applyRemote now x.id manner v).1.broadcast (s.applyRemote now x.id manner v).2.relayed)
      (s.applyRemote now x.id manner v).2.answer := by
  have hasks : ¬ Asks frame := by
    rw [asks_iff_of_decode hdecode]
    intro hm
    rw [hm] at hpatch
    cases hpatch
  have hframe : eventIn? frame = (Patch.ofValue v).toOption.map (Event.mk manner) := by
    rw [eventIn?_of_decode hdecode, Message.event?, hpatch]
    rfl
  have hsends : ∀ es, s.Sends ((s.applyRemote now x.id manner v).1.broadcast es) es := by
    intro es
    unfold applyRemote
    dsimp only
    split <;> exact ⟨rfl, rfl, rfl⟩
  cases haccept : s.tree.accept now manner v with
  | ok r =>
    obtain ⟨t, p⟩ := r
    obtain ⟨htree, hreaction⟩ := applyRemote_ok x.id haccept
    obtain ⟨hread, happly⟩ := Tree.accept_eq_ok_iff.mp haccept
    rw [hreaction]
    refine .applied (e := ⟨manner, p⟩) ?_ ?_ (hsends _)
    · rw [hframe, hread]
      rfl
    · rw [happly]
      exact congrArg Except.ok htree.symm
  | error err =>
    -- a patch may be unreadable, and then there is no event, or it is refused
    obtain ⟨htree, hreaction⟩ := applyRemote_error x.id haccept
    rw [hreaction]
    refine .idle hasks (fun e he u hu => ?_) htree (hsends _) fun m' hm' => ?_
    · rw [hframe] at he
      obtain ⟨p, hp, rfl⟩ := Option.map_eq_some_iff.mp he
      rw [Tree.accept_eq_ok_iff.mpr ⟨toOption_eq_some_iff.mp hp, hu⟩] at haccept
      cases haccept
    · cases hm'
      exact .inl ⟨_, rfl⟩

theorem receives_other {m : Message} (hdecode : Message.decode frame = .ok m)
    (hpatch : m.patch? = none) :
    s.Receives now x frame ((s.handle now x.id m).1.broadcast (s.handle now x.id m).2.relayed)
      (s.handle now x.id m).2.answer := by
  have hnone : ∀ e, eventIn? frame = some e →
      ∀ u, s.tree.apply now e.manner e.patch ≠ .ok u := by
    intro e he
    rw [eventIn?_of_decode hdecode, Message.event?, hpatch] at he
    cases he
  have hidle : ∀ answer : Option Message, m ≠ .requestInit → (∀ m, answer = some m → m.Idle) →
      s.Receives now x frame s answer := fun answer hm hanswer =>
    .idle (fun hasks => hm ((asks_iff_of_decode hdecode).mp hasks)) hnone rfl ⟨rfl, rfl, rfl⟩
      hanswer
  cases m with
  | requestInit => exact .answered hdecode rfl ⟨rfl, rfl, rfl⟩
  | ping => exact hidle (some .pong) Message.noConfusion fun m hm => by cases hm; exact .inr rfl
  | update v => cases hpatch
  | delete v => cases hpatch
  | _ => exact hidle none Message.noConfusion fun m hm => by cases hm

theorem Receives.of_countFrame {s' : Server} {answer : Option Message}
    (h : (s.countFrame frame).Receives now x frame s' answer) :
    s.Receives now x frame s' answer := by
  cases h with
  | answered hasks htree hsends => exact .answered hasks htree ⟨hsends.1, hsends.2, hsends.3⟩
  | applied hevent happly hsends => exact .applied hevent happly ⟨hsends.1, hsends.2, hsends.3⟩
  | idle hasks hrefused htree hsends hidle =>
    exact .idle hasks hrefused htree ⟨hsends.1, hsends.2, hsends.3⟩ hidle

theorem handle_countFrame (s : Server) (now : Time) (sender : Uuid) (frame : String) (m : Message) :
    ((s.countFrame frame).handle now sender m).2 = (s.handle now sender m).2 := by
  cases hpatch : m.patch? with
  | some q =>
    obtain ⟨manner, v⟩ := q
    rw [handle_of_patch? hpatch, handle_of_patch? hpatch]
    unfold applyRemote
    dsimp only [countFrame]
    split <;> rfl
  | none =>
    cases m with
    | update v => cases hpatch
    | delete v => cases hpatch
    | _ => rfl

/-- **A frame of an open session** is answered, applied or idle. -/
theorem receives (hx : s.sessions.get? n = some x) (now : Time) (frame : String) :
    s.Receives now x frame (s.receive now n frame).1 (s.answer? now n frame) ∧
      (s.receive now n frame).2 = ((s.answer? now n frame).map Message.encode).toList := by
  unfold receive answer?
  rw [hx]
  simp only [Option.bind_eq_bind, Option.bind_some]
  cases hdecode : Message.decode frame with
  | error err =>
    refine ⟨.idle (not_asks_of_error hdecode) (fun e he => ?_) rfl ⟨rfl, rfl, rfl⟩
      fun m hm => ?_, rfl⟩
    · rw [eventIn?_of_error hdecode] at he
      cases he
    · cases hm
  | ok m =>
    show s.Receives now x frame (((s.countFrame frame).handle now x.id m).1.broadcast
      ((s.countFrame frame).handle now x.id m).2.relayed) (s.handle now x.id m).2.answer ∧
      (((s.countFrame frame).handle now x.id m).2.answer.map Message.encode).toList =
        ((s.handle now x.id m).2.answer.map Message.encode).toList
    -- the frame is counted first, which neither the answer nor the tree depends on
    rw [← s.handle_countFrame now x.id frame m]
    refine ⟨.of_countFrame ?_, rfl⟩
    cases hpatch : m.patch? with
    | none => exact receives_other hdecode hpatch
    | some q =>
      obtain ⟨manner, v⟩ := q
      rw [handle_of_patch? hpatch]
      exact receives_patch hdecode hpatch

end Server

/-! ### At a client -/

namespace Client

variable {c : Client} {now : Time} {frame : String}

/-- **The client has a connection** that takes frames. -/
def Live (c : Client) : Prop := ∃ number, c.outbox.link = some ⟨number, true⟩

/-- The frames that a client has handed over. -/
def Step.frames (s : Step) : List String := s.handed.map Handed.frame

theorem sendLive_of_live (hlive : c.Live) (m : Message) :
    ∃ h : Handed, c.sendLive m = .ok h ∧ h.frame = m.encode := by
  obtain ⟨number, hlink⟩ := hlive
  refine ⟨⟨number, m.encode⟩, ?_, rfl⟩
  unfold sendLive Outbox.sendLive
  simp only [hlink, if_true]

/-- **What is published** is handed to the connection, and nothing about the client changes. -/
theorem publish_of_link {number : Nat} (hlink : c.outbox.link = some ⟨number, true⟩)
    (events : List Event) : (c.publish events).client = c ∧
      (c.publish events).handed = events.map fun e => ⟨number, (Message.ofEvent e).encode⟩ := by
  obtain ⟨hclient, hhanded⟩ := publish_eq c events
  obtain ⟨hsame, hall⟩ := Outbox.sendAll_of_link hlink
    (events.map fun e => (Message.ofEvent e).encode)
  refine ⟨?_, ?_⟩
  · rw [hclient, hsame]
  · rw [hhanded, hall, List.map_map]
    rfl

theorem publish_of_live (hlive : c.Live) (events : List Event) :
    (c.publish events).client = c ∧
      (c.publish events).frames = events.map fun e => (Message.ofEvent e).encode := by
  obtain ⟨number, hlink⟩ := hlive
  obtain ⟨hclient, hhanded⟩ := publish_of_link hlink events
  refine ⟨hclient, ?_⟩
  rw [Step.frames, hhanded, List.map_map]
  rfl

/-- **What the owner of a client does** is handed over. -/
theorem edit_of_live {α : Type} (hlive : c.Live) (f : Tree → Outcome α) :
    (c.edit f).1.client = { c with replica := (f c.replica).tree } ∧
      (c.edit f).1.frames = (f c.replica).events.map fun e => (Message.ofEvent e).encode := by
  have hlive' : { c with replica := (f c.replica).tree }.Live := hlive
  exact publish_of_live hlive' _

/-- **What a client answers to a message**, if it answers: to a patch, that it wants the whole tree,
and to a request for a sign of life the sign. -/
inductive Prompts : Message → Message → Prop where
  | patch {m : Message} (h : m.kind = .update ∨ m.kind = .delete) : Prompts m .requestInit
  | ping : Prompts .ping .pong

/-- An answer goes to the connection, if there is one that takes it, and nowhere else. -/
theorem answer_eq (c : Client) (m : Message) (notices : List Notice) :
    c.answer m notices =
      { client := c, handed := (c.sendLive m).toOption.toList, notices } := by
  unfold answer
  cases c.sendLive m with
  | ok h => rfl
  | error e => rfl

/-- **All that a frame can do to a client**, with a connection or without: it changes the replica at
most, in silence, or it is answered. -/
theorem receive_cases (c : Client) (now : Time) (frame : String) :
    (∃ t notices, c.receive now frame = { client := { c with replica := t }, notices }) ∨
    ∃ m answer notices, Message.decode frame = .ok m ∧ Prompts m answer ∧
      c.receive now frame = c.answer answer notices := by
  unfold receive
  cases hdecode : Message.decode frame with
  | error e => exact .inl ⟨c.replica, _, rfl⟩
  | ok m =>
    -- a patch is applied in silence, or else it is answered
    have hpatch : ∀ manner v, m.kind = .update ∨ m.kind = .delete →
        (∃ t notices, c.applyRemote now manner v =
          { client := { c with replica := t }, notices }) ∨
        ∃ m' answer notices, (.ok m : Except LinkError Message) = .ok m' ∧ Prompts m' answer ∧
          c.applyRemote now manner v = c.answer answer notices := by
      intro manner v hkind
      unfold applyRemote
      dsimp only
      split
      · exact .inl ⟨_, _, rfl⟩
      · exact .inr ⟨m, _, _, rfl, .patch hkind, rfl⟩
    cases m with
    | update v => exact hpatch .update v (.inl rfl)
    | delete v => exact hpatch .delete v (.inr rfl)
    | ping => exact .inr ⟨_, _, _, rfl, .ping, rfl⟩
    | init s =>
      refine .inl ?_
      simp only [handle]
      split
      · exact ⟨_, _, rfl⟩
      · exact ⟨c.replica, _, rfl⟩
    | _ => exact .inl ⟨c.replica, _, rfl⟩

/-- **What becomes of a frame at a client**: the client after it, and the frames that it hands
over. -/
inductive Hears (c : Client) (now : Time) (frame : String) : Client → List String → Prop where
  | restored {s : Snapshot} {t : Tree} (htree : treeIn? frame = some s)
      (hrestore : c.replica.restore s = .ok t) : Hears c now frame { c with replica := t } []
  | applied {e : Event} {t : Tree} (hevent : eventIn? frame = some e)
      (happly : c.replica.apply now e.manner e.patch = .ok t) :
      Hears c now frame { c with replica := t } []
  | lost (hnotree : treeIn? frame = none) : Hears c now frame c [Message.requestInit.encode]
  | idle (hevent : eventIn? frame = none)
      (hrefused : ∀ s, treeIn? frame = some s → ∀ t, c.replica.restore s ≠ .ok t)
      {answers : List String} (hanswers : ∀ a ∈ answers, a = Message.pong.encode) :
      Hears c now frame c answers

theorem answer_of_live (hlive : c.Live) (m : Message) (notices : List Notice) :
    (c.answer m notices).client = c ∧ (c.answer m notices).frames = [m.encode] := by
  obtain ⟨h, hsend, hframe⟩ := sendLive_of_live hlive m
  rw [answer_eq, hsend]
  exact ⟨rfl, congrArg (fun f => [f]) hframe⟩

/-- **A frame from the server** is heard in one of these ways. -/
theorem hears (hlive : c.Live) (now : Time) (frame : String) :
    c.Hears now frame (c.receive now frame).client (c.receive now frame).frames := by
  unfold receive
  cases hdecode : Message.decode frame with
  | error err =>
    refine .idle (eventIn?_of_error hdecode) (fun s hs => ?_) fun a ha => absurd ha List.not_mem_nil
    rw [treeIn?_of_error hdecode] at hs
    cases hs
  | ok m =>
    have hevent := eventIn?_of_decode hdecode
    have htree := treeIn?_of_decode hdecode
    -- a patch is applied, or the client asks for the whole tree
    have hpatch : ∀ manner v, m.patch? = some (manner, v) → m.tree? = none →
        c.Hears now frame (c.applyRemote now manner v).client
          (c.applyRemote now manner v).frames := by
      intro manner v hpatch hnone
      rw [Message.event?, hpatch] at hevent
      unfold applyRemote
      cases haccept : c.replica.accept now manner v with
      | ok r =>
        obtain ⟨t, p⟩ := r
        obtain ⟨hread, happly⟩ := Tree.accept_eq_ok_iff.mp haccept
        unfold Tree.accept at haccept
        simp only [haccept]
        refine .applied (e := ⟨manner, p⟩) ?_ happly
        rw [hevent, Option.bind_some, hread]
        rfl
      | error err =>
        unfold Tree.accept at haccept
        simp only [haccept]
        obtain ⟨hclient, hframes⟩ :=
          answer_of_live hlive .requestInit [.resync (err.report (c.wording v))]
        rw [hclient, hframes]
        exact .lost (htree.trans hnone)
    cases m with
    | update v => exact hpatch .update v rfl rfl
    | delete v => exact hpatch .delete v rfl rfl
    | init s =>
      show c.Hears now frame (c.handle now (.init s)).client (c.handle now (.init s)).frames
      unfold handle
      dsimp only
      split
      · next t ht => exact .restored htree ht
      · next err ht =>
        refine .idle hevent (fun s' hs' t ht' => ?_) fun a ha => absurd ha List.not_mem_nil
        cases htree.symm.trans hs'
        rw [ht] at ht'
        cases ht'
    | ping =>
      obtain ⟨hclient, hframes⟩ := answer_of_live hlive .pong []
      show c.Hears now frame (c.answer .pong).client (c.answer .pong).frames
      rw [hclient, hframes]
      exact .idle hevent (fun s hs => by rw [htree] at hs; cases hs) fun a ha =>
        List.mem_singleton.mp ha
    | _ =>
      exact .idle hevent (fun s hs => by rw [htree] at hs; cases hs) fun a ha =>
        absurd ha List.not_mem_nil

end Client

end Sync

end Fleet
