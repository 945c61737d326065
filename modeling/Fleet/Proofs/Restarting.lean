import Fleet.Proofs.Intake
import Fleet.Proofs.Saving

/-!
# A daemon that is started again

A daemon loads its snapshot file, merges what a discovery run has found, serves sessions and saves
the tree when it ends. What it has saved is accepted when it is started again, and it then holds the
tree that it held when it ended (`Daemon.start_of_stopped`). So nothing that a session sends or that
stands in any of the files can make a daemon write a snapshot that it would refuse.

The invariant is that the tree is well-formed and can be stored (`Daemon.Sound`). It holds after the
start because all that is read can be stored, and whatever happens while the daemon serves keeps it:
only a frame changes the tree, and what it brings can be stored too. That doubles are written in a
form that gives them back is all that has to be assumed of the tree at the end.
-/

namespace Fleet

namespace Sync.Server

variable {s : Server} {now : Time}

/-! ### What becomes of the store -/

/-- Whether the snapshot file can be replaced, if there is a store. -/
def writable? (s : Server) : Option Bool := s.store.map (·.writable)

theorem writable?_markDirty (s : Server) : s.markDirty.writable? = s.writable? := by
  show (s.store.map Store.markDirty).map _ = s.store.map _
  rw [Option.map_map]
  rfl

theorem writable?_handle (s : Server) (now : Time) (sender : Uuid) (m : Message) :
    (s.handle now sender m).1.writable? = s.writable? := by
  cases hpatch : m.patch? with
  | none => rw [(handle_of_patch?_none hpatch).1]
  | some q =>
    rw [handle_of_patch? hpatch]
    unfold applyRemote
    dsimp only
    split
    · exact s.writable?_markDirty
    · rfl

theorem writable?_receive (s : Server) (now : Time) (n : Nat) (frame : String) :
    (s.receive now n frame).1.writable? = s.writable? := by
  unfold receive
  split
  · rfl
  · next x _ =>
    dsimp only
    split
    · rfl
    · next m _ => exact (s.countFrame frame).writable?_handle now x.id m

/-- **The tree stays**, and so does whether the file can be replaced. -/
structure Keeps (s s' : Server) : Prop where
  tree : s'.tree = s.tree
  writable : s'.writable? = s.writable?

theorem keeps_save (s : Server) : s.Keeps s.save.1 := by
  cases hstore : s.store with
  | none => constructor <;> simp [save, beginSave, hstore]
  | some store =>
    obtain ⟨file, writable, dirty, saves⟩ := store
    cases writable with
    | true =>
      constructor <;>
        simp [save, beginSave, finishSave, writable?, hstore, Store.save, Store.takeDirty]
    -- the flag is put back if it was set
    | false =>
      cases dirty <;> constructor <;>
        simp [save, beginSave, finishSave, writable?, hstore, Store.save, Store.takeDirty,
          markDirty, Store.markDirty]

/-- **A save replaces the file**, if that is possible, by what is written of the tree. -/
theorem file_save (h : s.writable? = some true) :
    s.save.1.store.bind (·.file) = some s.tree.snapshot.fileText := by
  obtain ⟨store, hstore, hwritable⟩ := Option.map_eq_some_iff.mp h
  simp [save, beginSave, finishSave, hstore, Store.save, Store.takeDirty, hwritable]

theorem keeps_elapse (s : Server) (seconds : Nat) : s.Keeps (s.elapse seconds) := by
  have htick : s.Keeps s.tick := by
    unfold tick
    split
    · exact s.keeps_save
    · exact ⟨rfl, rfl⟩
  unfold elapse
  dsimp only
  split
  · exact ⟨htick.tree, htick.writable⟩
  · exact ⟨rfl, rfl⟩

theorem keeps_forward {n : Nat} {s' : Server} {frames : List String}
    (h : s.forward n = some (s', frames)) : s.Keeps s' := by
  obtain ⟨x, -, h⟩ := Option.bind_eq_some_iff.mp h
  obtain ⟨⟨group, received⟩, -, h⟩ := Option.bind_eq_some_iff.mp h
  cases received with
  | nothing => cases h
  | envelope e =>
    cases h
    exact ⟨rfl, rfl⟩
  | lagged lost =>
    cases h
    exact ⟨rfl, rfl⟩

theorem keeps_closeSession (s : Server) (n : Nat) : s.Keeps (s.closeSession n) := by
  unfold closeSession
  split
  · exact ⟨rfl, rfl⟩
  · exact ⟨rfl, rfl⟩

/-- **A frame changes the tree** by an event that it holds, or not at all. -/
theorem tree_receive (s : Server) (now : Time) (n : Nat) (frame : String) :
    (s.receive now n frame).1.tree = s.tree ∨ ∃ e, eventIn? frame = some e ∧
      s.tree.apply now e.manner e.patch = .ok (s.receive now n frame).1.tree := by
  cases hx : s.sessions.get? n with
  | none =>
    have hsame : s.receive now n frame = (s, []) := by
      unfold receive
      rw [hx]
    exact .inl (congrArg (fun r => r.1.tree) hsame)
  | some x =>
    obtain ⟨hreceives, -⟩ := receives hx now frame
    generalize s.answer? now n frame = answer at hreceives
    cases hreceives with
    | answered _ htree _ => exact .inl htree
    | applied hevent happly _ => exact .inr ⟨_, hevent, happly⟩
    | idle _ _ htree _ _ => exact .inl htree

end Sync.Server

namespace Daemon

open Sync (Server ServerConfig Store Address)

/-! ### While the daemon serves -/

/-- **What happens while the daemon serves**: a session is opened or closed, a frame comes from one,
one forwards the next frame to its client, or time goes by. -/
inductive Happening where
  | join (id : Uuid) (address : Option Address)
  | leave (number : Nat)
  | frame (number : Nat) (text : String)
  | forward (number : Nat)
  | elapse (seconds : Nat)

/-- The server after something has happened. -/
def happen (s : Server) (now : Time) : Happening → Server
  | .join id address => (s.openSession now id address).1
  | .leave number => s.closeSession number
  | .frame number text => (s.receive now number text).1
  | .forward number => ((s.forward number).map Prod.fst).getD s
  | .elapse seconds => s.elapse seconds

/-- **The daemon serves**: things happen one after another, each at its time. -/
def proceed (s : Server) (happenings : List (Time × Happening)) : Server :=
  happenings.foldl (fun s h => happen s h.1 h.2) s

/-- The frames of a session are served one after another. -/
theorem receiveEach_eq_proceed (s : Server) (now : Time) (number : Nat) (frames : List String) :
    (s.receiveEach now number frames).1 =
      proceed s (frames.map fun text => (now, .frame number text)) := by
  induction frames generalizing s with
  | nil => rfl
  | cons text rest ih => exact ih (s.receive now number text).1

/-- **The tree can be stored**, and there is a file that it can be written to. -/
structure Sound (s : Server) : Prop where
  wellFormed : s.tree.WellFormed
  storable : s.tree.Storable
  writable : s.writable? = some true

variable {s s' : Server}

theorem Sound.keeps (h : Sound s) (hkeeps : s.Keeps s') : Sound s' :=
  ⟨hkeeps.tree ▸ h.wellFormed, hkeeps.tree ▸ h.storable, hkeeps.writable.trans h.writable⟩

/-- **A frame keeps the daemon sound**, whatever it holds. -/
theorem Sound.receive (h : Sound s) (now : Time) (number : Nat) (text : String) :
    Sound (s.receive now number text).1 := by
  have hwritable := s.writable?_receive now number text
  rcases s.tree_receive now number text with htree | ⟨e, hevent, happly⟩
  · exact h.keeps ⟨htree, hwritable⟩
  · obtain ⟨hexact, hshallow⟩ := storable_of_eventIn? hevent
    have htakes := Tree.takes_of_apply h.wellFormed happly
    exact ⟨htakes.wellFormed, htakes.storable hexact hshallow h.storable,
      hwritable.trans h.writable⟩

/-- **Whatever happens keeps the daemon sound.** -/
theorem Sound.happen (h : Sound s) (now : Time) (happening : Happening) :
    Sound (happen s now happening) := by
  cases happening with
  | join id address => exact h.keeps ⟨rfl, rfl⟩
  | leave number => exact h.keeps (s.keeps_closeSession number)
  | frame number text => exact h.receive now number text
  | elapse seconds => exact h.keeps (s.keeps_elapse seconds)
  | forward number =>
    show Sound (((s.forward number).map Prod.fst).getD s)
    cases hforward : s.forward number with
    | none => exact h
    | some r => exact h.keeps (Server.keeps_forward hforward)

theorem Sound.proceed (h : Sound s) (happenings : List (Time × Happening)) :
    Sound (proceed s happenings) := by
  induction happenings generalizing s with
  | nil => exact h
  | cons p rest ih => exact ih (h.happen p.1 p.2)

/-! ### The start -/

variable {times : Nat → Tree.MergeTimes} {t : Tree}

/-- **A tree that was loaded can be stored.** -/
theorem storable_loadTree {bounds : BoundsTable} (hbounds : bounds.Finite) {store : Store}
    (h : loadTree bounds store = .ok t) : t.Storable := by
  obtain ⟨loaded, hloaded, h⟩ := bind_eq_ok_iff.mp h
  cases loaded with
  | none =>
    cases h
    exact Tree.storable_ofBounds hbounds
  | some snapshot =>
    unfold Store.load at hloaded
    split at hloaded
    · cases hloaded
    · obtain ⟨s, hs, heq⟩ := map_eq_ok_iff.mp hloaded
      cases heq
      have hstored := Snapshot.storable_of_ofFile hs
      exact Tree.storable_restore (t := .ofBounds bounds) hstored hbounds (mapError_eq_ok_iff.mp h)

theorem storable_mergeAll {found : List Discovery.Device} (hfound : ∀ d ∈ found, d.Finite)
    (ht : t.WellFormed) (hstorable : t.Storable) :
    (mergeAll times t found).WellFormed ∧ (mergeAll times t found).Storable := by
  induction found generalizing times t with
  | nil => exact ⟨ht, hstorable⟩
  | cons d rest ih =>
    obtain ⟨hmerged, hkept⟩ :=
      Tree.storable_merge ht hstorable (times 0) (hfound d List.mem_cons_self)
    exact ih (fun e he => hfound e (List.mem_cons_of_mem _ he)) hmerged hkept

theorem storable_mergeFile (ht : t.WellFormed) (hstorable : t.Storable)
    (times : Nat → Tree.MergeTimes) (file : Option String) :
    (mergeFile times t file).WellFormed ∧ (mergeFile times t file).Storable := by
  unfold mergeFile
  split
  · next found hread =>
    obtain ⟨text, -, hread⟩ := Option.map_eq_some_iff.mp hread
    unfold Json.readText at hread
    exact storable_mergeAll (Discovery.yields_readAll _ found (Json.eq_ok_of_whenClosed hread))
      ht hstorable
  · exact ⟨ht, hstorable⟩

/-- **A daemon that has started is sound**, whatever its files hold. -/
theorem sound_of_start {config : ServerConfig} {files : Files} {wording : Value → String}
    (hwritable : files.writable = true) (h : start config times files wording = .ok s) :
    Sound s := by
  obtain ⟨t, ht, h⟩ := bind_eq_ok_iff.mp h
  have hload := mapError_eq_ok_iff.mp ht
  split at h
  · cases h
  · cases h
    obtain ⟨hwell, hstorable⟩ := storable_mergeFile (wellFormed_loadTree hload)
      (storable_loadTree (finite_loadBounds files.bounds) hload) times files.discovered
    exact ⟨hwell, hstorable, congrArg some hwritable⟩

/-! ### Starting again -/

/-- What a sound daemon saves is the text that its tree is read back from. -/
theorem Sound.saved (h : Sound s) (hfaithful : s.tree.Faithful) :
    (stop s).store.bind (·.file) = some s.tree.snapshot.fileText ∧
      Snapshot.ofFile s.tree.snapshot.fileText = .ok s.tree.snapshot :=
  ⟨Server.file_save h.writable, Tree.ofFile_snapshot h.wellFormed h.storable.finite.devices
    h.storable.shallow hfaithful⟩

/-- **A daemon starts from what is written of a tree** if it can be read: nothing but its capacity
can keep it from starting. -/
theorem start_of_file (ht : t.WellFormed)
    (hread : Snapshot.ofFile t.snapshot.fileText = .ok t.snapshot) (config : ServerConfig)
    (times : Nat → Tree.MergeTimes) {files : Files} (wording : Value → String)
    (hsnapshot : files.snapshot = some t.snapshot.fileText)
    (hdiscovered : files.discovered = none) :
    start config times files wording =
      if Sync.Broadcast.maxCapacity < config.broadcastCapacity then .error .capacity
      else .ok (.create config { t with bounds := loadBounds files.bounds }
        (some { file := files.snapshot, writable := files.writable }) wording) := by
  have hload : loadTree (loadBounds files.bounds)
      { file := files.snapshot, writable := files.writable } =
        .ok { t with bounds := loadBounds files.bounds } :=
    loadTree_of_file ht hread hsnapshot _
  unfold start
  dsimp only
  rw [hload, hdiscovered]
  rfl

/-- **A daemon that is started again** has lost nothing and does not refuse what it has saved. The
files of its start and the happenings while it serves are arbitrary. If every double in the tree at
the end is one that its written form gives back, then the daemon has saved a text with which it can
be started again, in any setup and with any table of bounds: it holds the same tree then, and if it
does not start at all, this is not for the snapshot. -/
theorem start_of_stopped {config : ServerConfig} {files : Files} {wording : Value → String}
    (hwritable : files.writable = true) (hstart : start config times files wording = .ok s)
    (happenings : List (Time × Happening)) (hfaithful : (proceed s happenings).tree.Faithful) :
    ∃ text, (stop (proceed s happenings)).store.bind (·.file) = some text ∧
      ∀ (config' : ServerConfig) (times' : Nat → Tree.MergeTimes) (files' : Files)
        (wording' : Value → String),
        files'.snapshot = some text → files'.discovered = none →
          (config'.broadcastCapacity ≤ Sync.Broadcast.maxCapacity →
            ∃ s', start config' times' files' wording' = .ok s' ∧
              s'.tree = { (proceed s happenings).tree with bounds := loadBounds files'.bounds }) ∧
          ∀ e, start config' times' files' wording' = .error e → e.exitCode ≠ 1 := by
  have hsound := (sound_of_start hwritable hstart).proceed happenings
  obtain ⟨hsaved, hread⟩ := hsound.saved hfaithful
  refine ⟨_, hsaved, fun config' times' files' wording' hsnapshot hdiscovered => ?_⟩
  rw [start_of_file hsound.wellFormed hread config' times' wording' hsnapshot hdiscovered]
  constructor
  · intro hcapacity
    rw [if_neg (Nat.not_lt.mpr hcapacity)]
    exact ⟨_, rfl, rfl⟩
  · intro e he
    split at he
    · cases he
      decide
    · cases he

/-- A snapshot with a number and a type that are spelled in unusual ways, bounds that are listed,
and a device that was found. -/
def hallFiles : Files where
  snapshot := some ("\x7b\"devices\":\x7b\"hall\":\x7b\"name\":\"Hall\",\"last_update\":3," ++
    "\"endpoints\":\x7b\"07\":\x7b\"type\":\"4\",\"function\":\"sensor\"\x7d\x7d\x7d\x7d\x7d")
  bounds := some "\x7b\"fallback\":[0,0.5]\x7d"
  discovered := some "[[\"attic\",\"Attic\"]]"

/-- A session is opened, reports a value, and sends what is no message. -/
def hallHappenings : List (Time × Happening) := [
  (10, .join ⟨1⟩ none),
  (11, .frame 0 ("\x7b\"event\":\"tree_update\",\"data\":\x7b\"devices\":\x7b\"hall\":" ++
    "\x7b\"endpoints\":\x7b\"7\":\x7b\"last_value\":[1.5]\x7d\x7d\x7d\x7d\x7d\x7d")),
  (12, .frame 0 "no message")]

theorem start_of_stopped_hall : ∃ s, start {} (fun _ => .always 9) hallFiles = .ok s ∧
    (proceed s hallHappenings).tree.Faithful ∧
    ((proceed s hallHappenings).tree.endpoint? "hall.7").any (·.lastValue ≠ .zero) = true ∧
    ∃ text, (stop (proceed s hallHappenings)).store.bind (·.file) = some text ∧
      ∃ s', start {} (fun _ => .always 20) { snapshot := some text } = .ok s' ∧
        s'.tree = { (proceed s hallHappenings).tree with bounds := .standard } := by
  have hserved : ((start {} (fun _ => .always 9) hallFiles).toOption.any fun s =>
      decide ((proceed s hallHappenings).tree.Faithful ∧
        ((proceed s hallHappenings).tree.endpoint? "hall.7").any (·.lastValue ≠ .zero) = true)) =
          true := by decide +kernel
  obtain ⟨s, hs, hserved⟩ := (Option.any_eq_true _ _).mp hserved
  have hstart : start {} (fun _ => .always 9) hallFiles = .ok s := toOption_eq_some_iff.mp hs
  obtain ⟨hfaithful, hvalue⟩ := of_decide_eq_true hserved
  have hwritable : hallFiles.writable = true := rfl
  obtain ⟨text, htext, hagain⟩ := start_of_stopped hwritable hstart hallHappenings hfaithful
  obtain ⟨s', hs', htree⟩ :=
    (hagain {} (fun _ => .always 20) { snapshot := some text } _ rfl rfl).1 (by decide)
  exact ⟨s, hstart, hfaithful, hvalue, text, htext, s', hs', htree⟩

end Daemon

end Fleet
