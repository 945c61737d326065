import Fleet.Proofs.Configuration
import Fleet.Proofs.Network
import Fleet.Proofs.SnapshotCodec

/-!
# Edits that were made offline

The owner of a client may give commands while the client has no connection. Their events wait in a
queue of bounded length, and those that find it full are lost. When the client connects, the events
that wait are sent ahead of the request for the whole tree. If by then nobody else has changed the
tree of the server, the server accepts all of them, however the cut at the bound falls among the
events of one command, and its answer gives the client the tree that came of them
(`Client.reconnect_spec`).

The events of the commands are a chain of steps (`Tree.told_carryOut`), so whatever number of them
waits is a chain too, from the same tree (`Tree.Told.split`). A chain tells of its steps at any
clock and with any table of bounds, and its table is all in which the tree of the server differs
from what the replica was.
-/

namespace Fleet

/-! ### Commands one after another -/

namespace Tree

/-- **Commands are carried out**, each at its clock: the tree after them, and all their events. -/
def carryOut (t : Tree) : List (Time × Command) → Tree × List Event
  | [] => (t, [])
  | (now, c) :: rest =>
    let (u, events) := (c.run now t).tree.carryOut rest
    (u, (c.run now t).events ++ events)

/-- All commands can be carried out: their doubles are finite, and an identifier that is drawn for a
view is not in use. -/
def Permits (t : Tree) : List (Time × Command) → Prop
  | [] => True
  | (now, c) :: rest => c.Finite ∧ c.Fresh t ∧ (c.run now t).tree.Permits rest

variable {t u : Tree}

/-- **The events of commands tell** of what the commands did. -/
theorem told_carryOut (ht : t.WellFormed) (hfinite : t.Finite) {edits : List (Time × Command)}
    (hedits : t.Permits edits) : Told Finite t (t.carryOut edits).2 (t.carryOut edits).1 := by
  induction edits generalizing t with
  | nil => exact .done t
  | cons q rest ih =>
    obtain ⟨now, c⟩ := q
    obtain ⟨hcommand, hfresh, hrest⟩ := hedits
    have htold : Told Finite t (c.run now t).events (c.run now t).tree :=
      (Command.told ht hfresh).imp fun u hu => hu ⟨hfinite, hcommand⟩
    exact htold.append (ih (htold.wellFormed ht) (htold.last hfinite) hrest)

/-- **A chain that breaks off** leads to a tree on its way. -/
theorem Told.split {ok : Tree → Prop} {events : List Event} (h : Told ok t events u) (k : Nat) :
    ∃ v, Told ok t (events.take k) v ∧ Told ok v (events.drop k) u := by
  induction h generalizing k with
  | done t =>
    rw [List.take_nil, List.drop_nil]
    exact ⟨t, .done t, .done t⟩
  | @step t u w e events hstep hok hrest ih =>
    cases k with
    | zero => exact ⟨t, .done t, .step hstep hok hrest⟩
    | succ k =>
      obtain ⟨v, hv, hw⟩ := ih k
      exact ⟨v, .step hstep hok hv, hw⟩

theorem SameContent.eq_withBounds (h : t.SameContent u) : u = { t with bounds := u.bounds } := by
  obtain ⟨devices, views, bounds⟩ := u
  obtain ⟨hdevices, hviews⟩ := h
  cases hdevices
  cases hviews
  rfl

end Tree

namespace Sync

/-! ### The client -/

namespace Client

variable {c : Client}

/-- **The owner gives commands**, each at its clock. -/
def editAll (c : Client) : List (Time × Tree.Command) → Client
  | [] => c
  | (now, command) :: rest => (c.edit (command.run now)).1.client.editAll rest

/-- **Commands are carried out on the replica**, and all their events are sent or wait. -/
theorem editAll_eq (c : Client) (edits : List (Time × Tree.Command)) : c.editAll edits =
    { c with
      replica := (c.replica.carryOut edits).1
      outbox := c.outbox.sendAll
        ((c.replica.carryOut edits).2.map fun e => (Message.ofEvent e).encode) } := by
  induction edits generalizing c with
  | nil => rfl
  | cons q rest ih =>
    obtain ⟨now, command⟩ := q
    rw [editAll, ih, edit_eq, Tree.carryOut, List.map_append, Outbox.sendAll_append]

/-- **The client gets a connection** after its owner has given commands. -/
def reconnect (c : Client) (edits : List (Time × Tree.Command)) : Step :=
  (c.editAll edits).dial.established

/-- **The events that are kept** for the next connection: the first ones, as many of them as the
queue has room for. -/
def kept (c : Client) (edits : List (Time × Tree.Command)) : List Event :=
  (c.replica.carryOut edits).2.take c.outbox.queue.maxSize

/-- **A new connection** gets the frames that wait, and then the request for the whole tree. -/
theorem frames_established (c : Client) : c.established.frames =
    c.outbox.queue.frames ++ [Message.requestInit.encode] := by
  show ((c.outbox.queue.frames ++ [Message.requestInit.encode]).map _).map Handed.frame = _
  rw [List.map_map]
  exact List.map_id' _

/-- **After commands that were given offline** the connection gets the events that are kept. -/
theorem frames_reconnect (hoffline : c.outbox.Offline) (hempty : c.outbox.queue.frames = [])
    (edits : List (Time × Tree.Command)) : (c.reconnect edits).frames =
      (c.kept edits).map (fun e => (Message.ofEvent e).encode) ++
        [Message.requestInit.encode] := by
  have hroom : c.outbox.queue.frames.length ≤ c.outbox.queue.maxSize := by
    rw [hempty]
    exact Nat.zero_le _
  rw [reconnect, frames_established, editAll_eq]
  show (c.outbox.sendAll _).queue.frames ++ _ = _
  rw [Outbox.sendAll_of_offline hoffline hroom]
  dsimp only
  rw [hempty, List.nil_append, kept, List.map_take]

/-- **The whole tree of a server** replaces the content of the replica. -/
theorem replica_receive_ofTree {u : Tree} (hu : u.WellFormed)
    (harrives : (Message.ofTree u).Arrives) (c : Client) (now : Time) :
    (c.receive now (Message.ofTree u).encode).client.replica.SameContent u := by
  have hrestore := Tree.restore_snapshot hu c.replica
  unfold receive
  rw [harrives]
  show (c.handle now (.init u.snapshot)).client.replica.SameContent u
  unfold handle
  dsimp only
  rw [hrestore]
  exact ⟨rfl, rfl⟩

end Client

/-! ### The server -/

namespace Server

/-- **A session takes frames** one after another, the one of number `k` at the clock `clock k`: the
server after that, and the frames that answer each of them. -/
def serveAll (clock : Nat → Time) (s : Server) (n : Nat) :
    List String → Server × List (List String)
  | [] => (s, [])
  | frame :: rest =>
    let (s, answers) := s.receive (clock 0) n frame
    let (s, more) := serveAll (fun k => clock (k + 1)) s n rest
    (s, answers :: more)

/-- With one clock for all of them this is how a server takes frames. -/
theorem serveAll_const (s : Server) (now : Time) (n : Nat) (frames : List String) :
    s.serveAll (fun _ => now) n frames = s.receiveEach now n frames := by
  induction frames generalizing s with
  | nil => rfl
  | cons frame rest ih => simp only [serveAll, receiveEach, ih]

/-- **So many patches were accepted**, and none was refused. -/
structure Accepts (s s' : Server) (count : Nat) : Prop where
  sessions : s'.sessions = s.sessions
  applied : s'.counters.appliedPatches = s.counters.appliedPatches + count
  rejected : s'.counters.rejectedPatches = s.counters.rejectedPatches

variable {s : Server} {now : Time} {n : Nat} {x : Session} {u : Tree}

/-- **A patch that applies** is accepted, and not answered. -/
theorem receive_event (hx : s.sessions.get? n = some x) {e : Event}
    (harrives : (Message.ofEvent e).Arrives) (hread : Patch.ofValue e.patch.toValue = .ok e.patch)
    (happly : s.tree.apply now e.manner e.patch = .ok u) :
    ∃ s', s.receive now n (Message.ofEvent e).encode = (s', []) ∧ s'.tree = u ∧ s.Accepts s' 1 := by
  have haccept : s.tree.accept now e.manner e.patch.toValue = .ok (u, e.patch) :=
    Tree.accept_eq_ok_iff.mpr ⟨hread, happly⟩
  have hpatch : (Message.ofEvent e).patch? = some (e.manner, e.patch.toValue) :=
    Message.patch?_ofPatch e.patch e.manner
  unfold receive
  rw [hx]
  dsimp only
  rw [harrives]
  dsimp only
  rw [handle_of_patch? hpatch]
  unfold applyRemote
  unfold Tree.accept at haccept
  simp only [countFrame, haccept]
  exact ⟨_, rfl, rfl, rfl, rfl, rfl⟩

/-- **The request for the whole tree** is answered with the tree, which stays as it is. -/
theorem receive_requestInit (hx : s.sessions.get? n = some x) (now : Time) :
    ∃ s', s.receive now n Message.requestInit.encode = (s', [(Message.ofTree s.tree).encode]) ∧
      s'.tree = s.tree ∧ s.Accepts s' 0 := by
  have hasks : Message.decode Message.requestInit.encode = .ok .requestInit := asks_requestInit
  unfold receive
  rw [hx]
  dsimp only
  rw [hasks]
  exact ⟨_, rfl, rfl, rfl, rfl, rfl⟩

theorem Accepts.trans {s' s'' : Server} {k l : Nat} (h : s.Accepts s' k) (h' : s'.Accepts s'' l) :
    s.Accepts s'' (l + k) where
  sessions := h'.sessions.trans h.sessions
  applied := by rw [h'.applied, h.applied, Nat.add_assoc, Nat.add_comm l k]
  rejected := h'.rejected.trans h.rejected

/-- **A session that hears a chain of steps** and then the request for the whole tree takes the tree
of the server along, and answers nothing but the request. -/
theorem serveAll_told {t v : Tree} {events : List Event} (h : Tree.Told Tree.Finite t events v)
    (ht : t.WellFormed) (hx : s.sessions.get? n = some x) {table : BoundsTable}
    (hs : s.tree = { t with bounds := table })
    (harrive : ∀ e ∈ events, (Message.ofEvent e).Arrives) (clock : Nat → Time) :
    s.tree.applyAll clock events = .ok { v with bounds := table } ∧
    ∃ s', s.serveAll clock n
        (events.map (fun e => (Message.ofEvent e).encode) ++ [Message.requestInit.encode]) =
          (s', .replicate events.length [] ++ [[(Message.ofTree s'.tree).encode]]) ∧
      s'.tree = { v with bounds := table } ∧ s.Accepts s' events.length := by
  induction h generalizing s clock with
  | done t =>
    obtain ⟨s', hreceive, htree, haccepts⟩ := receive_requestInit hx (clock 0)
    refine ⟨by rw [hs]; rfl, s', ?_, htree.trans hs, haccepts⟩
    rw [List.map_nil, List.nil_append, serveAll, hreceive, htree]
    rfl
  | @step t u v e events hstep hfinite _ ih =>
    -- the server has another table and clock, at which the step can be taken just as well
    have happly : s.tree.apply (clock 0) e.manner e.patch = .ok { u with bounds := table } := by
      rw [hs]
      exact (Tree.apply_eq_ok_iff (ht.withBounds table)).mpr (hstep.takes table (clock 0))
    obtain ⟨s₁, hreceive, htree, haccepts⟩ := receive_event hx (harrive e List.mem_cons_self)
      (Patch.ofValue_toValue (hstep.writable hfinite)) happly
    obtain ⟨hrest, s', hserve, htree', haccepts'⟩ := ih hstep.wellFormed
      ((congrArg (·.get? n) haccepts.sessions).trans hx) htree
      (fun f hf => harrive f (List.mem_cons_of_mem _ hf)) fun k => clock (k + 1)
    refine ⟨?_, s', ?_, htree', haccepts.trans haccepts'⟩
    · rw [Tree.applyAll, happly, ok_bind, ← htree]
      exact hrest
    · rw [List.map_cons, List.cons_append, serveAll, hreceive]
      dsimp only
      rw [hserve]
      rfl

end Server

/-! ### Both -/

/-- **Edits that were made offline survive reconnecting.** Whatever commands the owner of a client
without a connection gives, if the queue is empty at first and the tree of the server has the
content that the replica had before the commands, the server accepts every patch that was kept. Its
tree becomes what the kept events, the first ones up to the capacity of the queue, make of it. No
frame is answered but the request for the whole tree, and the answer gives the replica exactly that
content. If all events were kept, it is what the replica was before it connected. -/
theorem Client.reconnect_spec {c : Client} {s : Server} {n : Nat} {x : Session}
    (hreach : c.replica.Reachable) (hfinite : c.replica.Finite) (hoffline : c.outbox.Offline)
    (hempty : c.outbox.queue.frames = []) (hsame : c.replica.SameContent s.tree)
    (hx : s.sessions.get? n = some x) {edits : List (Time × Tree.Command)}
    (hedits : c.replica.Permits edits) (harrive : ∀ e ∈ c.kept edits, (Message.ofEvent e).Arrives)
    (clock : Nat → Time) (now : Time)
    (hanswer : ∀ u, s.tree.applyAll clock (c.kept edits) = .ok u → (Message.ofTree u).Arrives) :
    ∃ u s', s.tree.applyAll clock (c.kept edits) = .ok u ∧
      s.serveAll clock n (c.reconnect edits).frames =
        (s', .replicate (c.kept edits).length [] ++ [[(Message.ofTree u).encode]]) ∧
      s'.tree = u ∧ s.Accepts s' (c.kept edits).length ∧
      ((c.reconnect edits).client.receive now (Message.ofTree u).encode).client.replica.SameContent
        u ∧
      ((c.replica.carryOut edits).2.length ≤ c.outbox.queue.maxSize →
        (c.editAll edits).replica.SameContent u) := by
  have ht := hreach.wellFormed
  obtain ⟨v, hkept, hlost⟩ : ∃ v, Tree.Told Tree.Finite c.replica (c.kept edits) v ∧
      Tree.Told Tree.Finite v ((c.replica.carryOut edits).2.drop c.outbox.queue.maxSize)
        (c.replica.carryOut edits).1 := (Tree.told_carryOut ht hfinite hedits).split _
  obtain ⟨happlied, s', hserve, htree, haccepts⟩ :=
    Server.serveAll_told hkept ht hx hsame.eq_withBounds harrive clock
  rw [htree] at hserve
  rw [frames_reconnect hoffline hempty]
  have hv : ({ v with bounds := s.tree.bounds } : Tree).WellFormed :=
    (hkept.wellFormed ht).withBounds _
  refine ⟨_, s', happlied, hserve, htree, haccepts,
    Client.replica_receive_ofTree hv (hanswer _ happlied) _ now, fun hall => ?_⟩
  -- nothing was lost, so the chain ends where the commands did
  rw [List.drop_of_length_le hall] at hlost
  rw [Client.editAll_eq, hlost.eq_of_nil]
  exact ⟨rfl, rfl⟩

/-- A device without endpoints. -/
def bareDevice : Tree :=
  ((Tree.Command.addDevice "h" "a").run 5 (.ofBounds (.ofFallback ⟨0, 1⟩))).tree

/-- The device is found under another name, and with two endpoints. -/
def foundDevice : List (Time × Tree.Command) :=
  [(6, .merge ⟨"h", "b", [⟨1, .actor 4 ""⟩, ⟨2, .sensor 1 ""⟩]⟩ ⟨6, 6, fun _ => 7⟩)]

/-- A server with the device and a session, whose table of bounds is another one. -/
def bareServer : Server :=
  ((Server.create {} { bareDevice with bounds := .standard } none).openSession 6 ⟨1⟩ none).1

/-- There is room for two of the three events of a merge. -/
theorem Client.reconnect_spec_merge :
    let c := Client.create bareDevice 2
    (bareDevice.carryOut foundDevice).2.length = 3 ∧
    ∃ u s', bareServer.tree.applyAll .ofNat (c.kept foundDevice) = .ok u ∧ s'.tree = u ∧
      bareServer.Accepts s' 2 ∧
      bareServer.serveAll .ofNat 0 (c.reconnect foundDevice).frames =
        (s', [[], [], [(Message.ofTree u).encode]]) ∧
      ((c.reconnect foundDevice).client.receive 9
        (Message.ofTree u).encode).client.replica.SameContent u ∧
      u.endpoint? "h.1" ≠ none ∧ u.endpoint? "h.2" = none := by
  intro c
  have hreach : c.replica.Reachable := .command (.ofBounds _) 5 _
  have hfinite : c.replica.Finite := by
    refine ⟨fun eid => ⟨?_, ?_⟩, ?_⟩
    · show (0 : Float).isFinite = true
      decide
    · show (1 : Float).isFinite = true
      decide
    · show ∀ ip d, bareDevice.devices.get? ip = some d → d.Finite
      decide +kernel
  have hedits : c.replica.Permits foundDevice :=
    ⟨List.forall_mem_cons.mpr ⟨⟨nofun, nofun⟩, List.forall_mem_cons.mpr ⟨⟨nofun, nofun⟩, nofun⟩⟩,
      trivial, trivial⟩
  have harrive : ∀ e ∈ c.kept foundDevice, (Message.ofEvent e).Arrives := by decide +kernel
  have hanswer : ∀ u ∈ (bareServer.tree.applyAll .ofNat (c.kept foundDevice)).toOption,
      (Message.ofTree u).Arrives := by decide +kernel
  obtain ⟨u, s', happlied, hserve, htree, haccepts, hreplica, -⟩ :=
    Client.reconnect_spec hreach hfinite (fun _ hlink => (nomatch hlink)) rfl ⟨rfl, rfl⟩
      (n := 0) (x := ⟨⟨1⟩, 0⟩) rfl hedits harrive .ofNat 9
      fun u hu => hanswer u (toOption_eq_some_iff.mpr hu)
  have hcount : (c.kept foundDevice).length = 2 := by decide +kernel
  have hnamed : (bareServer.tree.applyAll .ofNat (c.kept foundDevice)).toOption.map (fun u =>
      ((u.endpoint? "h.1").isSome, (u.endpoint? "h.2").isSome)) = some (true, false) := by
    decide +kernel
  rw [happlied, Except.toOption, Option.map_some, Option.some.injEq, Prod.mk.injEq,
    Option.isSome_iff_ne_none, Option.isSome_eq_false_iff, Option.isNone_iff_eq_none] at hnamed
  rw [hcount] at haccepts hserve
  exact ⟨by decide +kernel, u, s', happlied, htree, haccepts, hserve, hreplica, hnamed⟩

end Sync

end Fleet
