import Fleet.Proofs.Restarting

/-!
# What was found may not be saved

A daemon merges what a discovery run has found before it makes its server, and the server takes the
tree that it gets to be the one in the file. So its store is clean at first although the file may
lack what was found.

Apart from that the flag can be relied on. A `Watch` is a server from its start on, at which
anything happens while saves are made one after another. Whenever the store is clean, the file loads
to the tree, or nothing has become of the tree and of the file since the start
(`Watch.clean_saved_or_found`). While a save is underway the same holds if it was begun with a clean
store, and else it would write the tree. Until something is changed, nothing that was found is ever
saved by the server itself (`Watch.found_not_saved`).
-/

namespace Fleet

open Daemon (Happening happen)

/-- The server itself may save the tree. -/
def Daemon.Happening.saves : Happening → Bool
  | .elapse _ => true
  | _ => false

namespace Daemon

open Sync (Server ServerConfig)

variable {times : Nat → Tree.MergeTimes} {t : Tree}

/-! ### The start -/

/-- A tree that was loaded has the table that it was loaded with. -/
theorem bounds_loadTree {bounds : BoundsTable} {store : Sync.Store}
    (h : loadTree bounds store = .ok t) : t.bounds = bounds := by
  obtain ⟨loaded, -, h⟩ := bind_eq_ok_iff.mp h
  cases loaded with
  | none =>
    cases h
    rfl
  | some snapshot =>
    exact Tree.bounds_restore (t := .ofBounds bounds) (mapError_eq_ok_iff.mp h)

theorem bounds_mergeAll (ht : t.WellFormed) (found : List Discovery.Device) :
    (mergeAll times t found).WellFormed ∧ (mergeAll times t found).bounds = t.bounds := by
  induction found generalizing times t with
  | nil => exact ⟨ht, rfl⟩
  | cons d rest ih =>
    have hmerged := Tree.wellFormed_merge ht (times 0) d
    have hkept : (t.merge (times 0) d).tree.bounds = t.bounds :=
      Tree.Told.bounds (Tree.told_merge (F := False) ht False.elim (times 0) False.elim)
    exact ⟨(ih hmerged).1, (ih hmerged).2.trans hkept⟩

theorem bounds_mergeFile (ht : t.WellFormed) (file : Option String) :
    (mergeFile times t file).WellFormed ∧ (mergeFile times t file).bounds = t.bounds := by
  unfold mergeFile
  split
  · exact bounds_mergeAll ht _
  · exact ⟨ht, rfl⟩

/-- **A server that has been started** has a clean store with the file, and the table of bounds that
the daemon was given. -/
theorem start_spec {config : ServerConfig} {files : Files} {wording : Value → String} {s : Server}
    (h : start config times files wording = .ok s) :
    s.store = some { file := files.snapshot, writable := files.writable } ∧ s.tree.WellFormed ∧
      s.tree.bounds = loadBounds files.bounds := by
  obtain ⟨t, ht, h⟩ := bind_eq_ok_iff.mp h
  have hload := mapError_eq_ok_iff.mp ht
  split at h
  · cases h
  · cases h
    obtain ⟨hwell, hbounds⟩ : (mergeFile times t files.discovered).WellFormed ∧
        (mergeFile times t files.discovered).bounds = t.bounds :=
      bounds_mergeFile (wellFormed_loadTree hload) files.discovered
    exact ⟨rfl, hwell, hbounds.trans (bounds_loadTree hload)⟩

end Daemon

namespace Sync.Server

variable {s s' : Server} {now : Time}

/-! ### What marks the store, and what clears it -/

/-- **A frame marks the store, or it changes nothing.** -/
theorem marks_receive (s : Server) (now : Time) (n : Nat) (frame : String) :
    s.Marks (s.receive now n frame).1 := by
  unfold receive
  split
  · exact .refl s
  · next x _ =>
    dsimp only
    split
    · exact .inr ⟨rfl, rfl⟩
    · next m _ => exact (s.countFrame frame).marks_handle now x.id m

/-- **Sessions that come, go or forward** do nothing to the store. -/
theorem marks_forward {n : Nat} {frames : List String} (h : s.forward n = some (s', frames)) :
    s.Marks s' := by
  obtain ⟨x, -, h⟩ := Option.bind_eq_some_iff.mp h
  obtain ⟨⟨group, received⟩, -, h⟩ := Option.bind_eq_some_iff.mp h
  cases received with
  | nothing => cases h
  | envelope e =>
    cases h
    exact .inr ⟨rfl, rfl⟩
  | lagged lost =>
    cases h
    exact .inr ⟨rfl, rfl⟩

theorem marks_closeSession (s : Server) (n : Nat) : s.Marks (s.closeSession n) := by
  unfold closeSession
  split
  · exact .refl s
  · exact .inr ⟨rfl, rfl⟩

/-- **A save leaves the store clean** with what is written of the tree, or as it was. -/
theorem store_save (s : Server) : s.save.1.store = s.store.map fun store =>
    if store.writable then
      { store with
        file := some s.tree.snapshot.fileText, dirty := false, saves := store.saves + 1 }
    else store := by
  cases hstore : s.store with
  | none => simp [save, beginSave, hstore]
  | some store =>
    obtain ⟨file, writable, dirty, saves⟩ := store
    cases writable with
    | true => simp [save, beginSave, finishSave, hstore, Store.save, Store.takeDirty]
    -- the flag is put back if it was set
    | false =>
      cases dirty <;>
        simp [save, beginSave, finishSave, hstore, Store.save, Store.takeDirty, markDirty,
          Store.markDirty]

/-- **When time goes by**, the store stays as it is, or the tree is saved. -/
theorem store_elapse (s : Server) (seconds : Nat) :
    (s.elapse seconds).store = s.store ∨
      (s.isDirty = true ∧ (s.elapse seconds).store = s.save.1.store) := by
  unfold elapse
  dsimp only
  split
  · unfold tick
    split
    · next hdirty => exact .inr ⟨hdirty, rfl⟩
    · exact .inl rfl
  · exact .inl rfl

/-- A clean store is not saved. -/
theorem store_elapse_of_clean (h : s.isDirty = false) (seconds : Nat) :
    (s.elapse seconds).store = s.store := by
  rcases s.store_elapse seconds with hsame | ⟨hdirty, -⟩
  · exact hsame
  · rw [h] at hdirty
    cases hdirty

end Sync.Server

namespace Sync

/-! ### A server with one save at a time -/

/-- **A server with the save that is underway**, if there is one. -/
structure Watch where
  server : Server
  save : Option PendingSave := none

namespace Watch

open Saving (Holds withFile finishSave_spec)

/-- **What happens.** -/
inductive Act where
  /-- Something happens to a session, or time goes by. -/
  | happening (now : Time) (h : Happening)
  /-- The owner of the server gives a command. -/
  | command (now : Time) (c : Tree.Command)
  /-- A save begins. -/
  | begin
  /-- The save that is underway ends, with a file that can be replaced then or cannot. -/
  | finish (writable : Bool)

/-- **One step**, if it is possible. While a save is underway, no other one begins, neither by
itself nor because time goes by. -/
def step? (w : Watch) : Act → Option Watch
  | .happening now h =>
    if h.saves && w.save.isSome then none else some { w with server := happen w.server now h }
  | .command now c => some { w with server := (w.server.edit (c.run now)).1 }
  | .begin =>
    if w.save.isSome then none
    else w.server.beginSave.map fun r => { server := r.1, save := some r.2 }
  | .finish writable =>
    w.save.map fun save => { server := ((withFile w.server writable).finishSave save).1 }

/-- **Steps one after another**, if all of them are possible. -/
def run? (w : Watch) : List Act → Option Watch
  | [] => some w
  | a :: rest => (w.step? a).bind (run? · rest)

variable {s : Server} {w w' : Watch} {store : Store} {t : Tree}

/-! ### What can be relied on -/

/-- **The tree is settled**: the file holds it, or nothing has become of both since the start. -/
def Settled (s : Server) (store : Store) (t : Tree) : Prop :=
  Holds store t ∨ (t = s.tree ∧ some store.file = s.store.map Store.file)

/-- **The invariant.** The save that is underway, if there is one, was begun with the flag set, or
it does not matter. -/
structure Sound (s : Server) (w : Watch) : Prop where
  wellFormed : w.server.tree.WellFormed
  bounds : w.server.tree.bounds = s.tree.bounds
  stored : w.server.store.isSome = true
  clean : ∀ store, w.server.store = some store → store.dirty = false →
    (∀ save ∈ w.save, save.snapshot = w.server.tree.snapshot) ∧
      ((∀ save ∈ w.save, save.wasDirty = false) → Settled s store w.server.tree)

theorem Settled.of_file {store' : Store} (h : Settled s store t)
    (hfile : store'.file = store.file) : Settled s store' t :=
  h.imp (fun h => h.of_file hfile) fun h => ⟨h.1, hfile ▸ h.2⟩

/-- **What marks the store or changes nothing** keeps the invariant. -/
theorem Sound.marks (h : Sound s w) {s' : Server} (hmarks : w.server.Marks s')
    (hwell : s'.tree.WellFormed) (hbounds : s'.tree.bounds = w.server.tree.bounds) :
    Sound s { w with server := s' } := by
  refine ⟨hwell, hbounds.trans h.bounds, ?_, fun store hget hclean => ?_⟩
  · rcases hmarks with hmarked | ⟨hsame, -⟩
    · show s'.store.isSome = true
      rw [hmarked, Option.isSome_map, h.stored]
    · show s'.store.isSome = true
      rw [hsame, h.stored]
  · rcases hmarks with hmarked | ⟨hsame, htree⟩
    · obtain ⟨store₀, -, rfl⟩ := Option.map_eq_some_iff.mp (hmarked.symm.trans hget)
      cases hclean
    · dsimp only
      rw [htree]
      exact h.clean store (hsame.symm.trans hget) hclean

/-- **A frame** keeps the invariant. -/
theorem Sound.receive (h : Sound s w) (now : Time) (n : Nat) (text : String) :
    Sound s { w with server := (w.server.receive now n text).1 } := by
  refine h.marks (w.server.marks_receive now n text) ?_ ?_ <;>
    rcases w.server.tree_receive now n text with htree | ⟨e, -, happly⟩
  · exact htree ▸ h.wellFormed
  · exact (Tree.takes_of_apply h.wellFormed happly).wellFormed
  · rw [htree]
  · exact (Tree.takes_of_apply h.wellFormed happly).bounds

/-- **While no save is underway**, time may go by. -/
theorem Sound.elapse (h : Sound s w) (hrest : w.save = none) (seconds : Nat) :
    Sound s { w with server := w.server.elapse seconds } := by
  have htree : (w.server.elapse seconds).tree = w.server.tree :=
    (w.server.keeps_elapse seconds).tree
  rcases w.server.store_elapse seconds with hsame | ⟨-, hsaved⟩
  · exact h.marks (.inr ⟨hsame, htree⟩) (htree ▸ h.wellFormed) (htree ▸ rfl)
  · rw [Server.store_save] at hsaved
    refine ⟨htree ▸ h.wellFormed, htree ▸ h.bounds, ?_, fun store' hget hclean => ?_⟩
    · show (w.server.elapse seconds).store.isSome = true
      rw [hsaved, Option.isSome_map, h.stored]
    obtain ⟨store, hstore, rfl⟩ := Option.map_eq_some_iff.mp (hsaved.symm.trans hget)
    dsimp only
    rw [htree]
    cases hwritable : store.writable with
    | true =>
      rw [if_pos rfl]
      exact ⟨by simp [hrest], fun _ => .inl (.inr rfl)⟩
    | false =>
      simp only [hwritable, Bool.false_eq_true, if_false] at hclean ⊢
      exact h.clean store hstore hclean

/-- **What happens to sessions** keeps the invariant. -/
theorem Sound.happen (h : Sound s w) (now : Time) {happening : Happening}
    (hsaves : happening.saves = true → w.save = none) :
    Sound s { w with server := happen w.server now happening } := by
  cases happening with
  | join id address => exact h.marks (.inr ⟨rfl, rfl⟩) h.wellFormed rfl
  | leave n =>
    have htree := (w.server.keeps_closeSession n).tree
    exact h.marks (w.server.marks_closeSession n) (htree ▸ h.wellFormed) (htree ▸ rfl)
  | frame n text => exact h.receive now n text
  | elapse seconds => exact h.elapse (hsaves rfl) seconds
  | forward n =>
    show Sound s { w with server := ((w.server.forward n).map Prod.fst).getD w.server }
    cases hforward : w.server.forward n with
    | none => exact h
    | some r =>
      have htree := (Server.keeps_forward hforward).tree
      exact h.marks (Server.marks_forward hforward) (htree ▸ h.wellFormed) (htree ▸ rfl)

/-- **A save that begins** would write the tree, and the flag says whether it matters. -/
theorem Sound.begin (h : Sound s w) (hrest : w.save = none)
    (hstep : w.step? .begin = some w') : Sound s w' := by
  obtain ⟨store, hstore⟩ := Option.isSome_iff_exists.mp h.stored
  have hbegin : w.step? .begin = some
      { server := { w.server with store := some { store with dirty := false } }
        save := some ⟨w.server.tree.snapshot, store.dirty⟩ } := by
    simp [Watch.step?, hrest, Server.beginSave, hstore, Store.takeDirty]
  cases hbegin.symm.trans hstep
  refine ⟨h.wellFormed, h.bounds, rfl, fun store' hget _ => ?_⟩
  cases hget
  refine ⟨fun save hsave => Option.some.inj hsave ▸ rfl, fun hclean => ?_⟩
  exact ((h.clean store hstore (hclean _ rfl)).2 (by simp [hrest])).of_file rfl

/-- **A save that ends** has written the tree, or it did not matter, or the flag is put back. -/
theorem Sound.finish (h : Sound s w) {writable : Bool}
    (hstep : w.step? (.finish writable) = some w') : Sound s w' := by
  obtain ⟨save, hsave, rfl⟩ := Option.map_eq_some_iff.mp hstep
  obtain ⟨htree, hafter⟩ := finishSave_spec w.server save writable
  refine ⟨htree ▸ h.wellFormed, htree ▸ h.bounds, ?_, fun store' hget hclean => ?_⟩
  · dsimp only
    rw [hafter, Option.isSome_map, h.stored]
  obtain ⟨store, hstore, rfl⟩ := Option.map_eq_some_iff.mp (hafter.symm.trans hget)
  dsimp only
  rw [htree]
  refine ⟨nofun, fun _ => ?_⟩
  cases writable with
  | true =>
    rw [if_pos rfl, (h.clean store hstore hclean).1 save hsave]
    exact .inl (.inr rfl)
  | false =>
    obtain ⟨hdirty, hwas⟩ : store.dirty = false ∧ save.wasDirty = false := by
      simpa using hclean
    refine ((h.clean store hstore hdirty).2 fun save' hsave' => ?_).of_file rfl
    cases hsave.symm.trans hsave'
    exact hwas

/-- **Every step keeps the invariant.** -/
theorem Sound.step? (h : Sound s w) {a : Act} (hstep : w.step? a = some w') : Sound s w' := by
  cases a with
  | happening now happening =>
    obtain ⟨hpossible, ⟨⟩⟩ := Option.ite_none_left_eq_some.mp hstep
    refine h.happen now fun hsaves => ?_
    simpa [hsaves] using hpossible
  | command now c =>
    cases hstep
    have htree := w.server.tree_edit (c.run now)
    refine h.marks (Server.marks_command h.wellFormed now c) ?_ ?_
    · rw [htree]
      exact Tree.Command.wellFormed_run h.wellFormed c
    · rw [htree]
      exact Tree.Command.bounds_run h.wellFormed c
  | begin =>
    obtain ⟨hrest, -⟩ := Option.ite_none_left_eq_some.mp hstep
    exact h.begin (by simpa using hrest) hstep
  | finish writable => exact h.finish hstep

/-- **A whole run keeps the invariant.** -/
theorem Sound.run? (h : Sound s w) {acts : List Act} (hrun : w.run? acts = some w') :
    Sound s w' := by
  induction acts generalizing w with
  | nil =>
    cases hrun
    exact h
  | cons a rest ih =>
    obtain ⟨v, hstep, hrest⟩ := Option.bind_eq_some_iff.mp hrun
    exact ih (h.step? hstep) hrest

/-- A server is watched from its start on. -/
theorem sound_of_start {config : ServerConfig} {times : Nat → Tree.MergeTimes}
    {files : Daemon.Files} {wording : Value → String}
    (h : Daemon.start config times files wording = .ok s) : Sound s { server := s } := by
  obtain ⟨hstore, hwell, -⟩ := Daemon.start_spec h
  refine ⟨hwell, rfl, by simp [hstore], fun store hget _ => ⟨nofun, fun _ => .inr ⟨rfl, ?_⟩⟩⟩
  have hsame : s.store = some store := hget
  rw [hsame]
  rfl

/-- **A clean store is saved, or nothing has happened since the start.** Whatever stands in the
files of a daemon, let anything happen at its server while saves are made one after another and
succeed or fail. Whenever the store is clean, the file loads to the tree with the table of bounds of
the daemon, or both are what they were when the server was made. If the file has loaded to the tree
then, it always does so while the store is clean. The one exception is a save that is underway and
was begun with the flag set, which is about to write the tree. -/
theorem clean_saved_or_found {config : ServerConfig} {times : Nat → Tree.MergeTimes}
    {files : Daemon.Files} {wording : Value → String}
    (hstart : Daemon.start config times files wording = .ok s) {acts : List Act}
    (hrun : ({ server := s } : Watch).run? acts = some w) (hclean : w.server.isDirty = false)
    (hread : Snapshot.ofFile w.server.tree.snapshot.fileText = .ok w.server.tree.snapshot) :
    ∃ store, w.server.store = some store ∧
      (∀ save ∈ w.save, save.snapshot = w.server.tree.snapshot) ∧
      ((∀ save ∈ w.save, save.wasDirty = false) →
        (Daemon.loadTree (Daemon.loadBounds files.bounds) store = .ok w.server.tree ∨
          (w.server.tree = s.tree ∧ store.file = files.snapshot)) ∧
        (Daemon.loadTree (Daemon.loadBounds files.bounds) { file := files.snapshot } = .ok s.tree →
          Daemon.loadTree (Daemon.loadBounds files.bounds) store = .ok w.server.tree)) := by
  obtain ⟨hstore₀, -, hbounds⟩ := Daemon.start_spec hstart
  have hsound := (sound_of_start hstart).run? hrun
  obtain ⟨store, hstore⟩ := Option.isSome_iff_exists.mp hsound.stored
  have hdirty : store.dirty = false := by
    simpa [Server.isDirty, hstore] using hclean
  obtain ⟨hsnapshot, hsettled⟩ := hsound.clean store hstore hdirty
  refine ⟨store, hstore, hsnapshot, fun hwas => ?_⟩
  have hdecided : Daemon.loadTree (Daemon.loadBounds files.bounds) store = .ok w.server.tree ∨
      (w.server.tree = s.tree ∧ store.file = files.snapshot) := by
    rcases hsettled hwas with hheld | ⟨htree, hfile⟩
    · rw [← hbounds, ← hsound.bounds]
      exact .inl (hheld.loads hsound.wellFormed hread)
    · rw [hstore₀] at hfile
      exact .inr ⟨htree, Option.some.inj hfile⟩
  refine ⟨hdecided, fun hloaded => ?_⟩
  rcases hdecided with hload | ⟨htree, hfile⟩
  · exact hload
  · rw [htree, ← hloaded]
    exact Daemon.loadTree_congr hfile _

/-- A session is opened and reports a value. While this is saved, a device is added, and the file
cannot be replaced. The next save succeeds. -/
def guarded : List Act := [
  .happening 10 (.join ⟨1⟩ none),
  .happening 11 (.frame 0 (Message.update (Patch.toValue (.device "attic"
    (.change { name := some "Loft", lastUpdate := some 11 })))).encode),
  .begin,
  .command 12 (.addDevice "cellar" "Cellar"),
  .finish false,
  .begin,
  .finish true]

theorem clean_saved_or_found_guarded : ∃ s w store,
    Daemon.start {} (fun _ => .always 9) Daemon.hallFiles = .ok s ∧
    ({ server := s } : Watch).run? guarded = some w ∧ w.server.isDirty = false ∧
    (w.server.tree.device? "cellar").isSome = true ∧ w.server.store = some store ∧
    Daemon.loadTree (Daemon.loadBounds Daemon.hallFiles.bounds) store = .ok w.server.tree := by
  have hwatched : ((Daemon.start {} (fun _ => .always 9) Daemon.hallFiles).toOption.bind fun s =>
      (({ server := s } : Watch).run? guarded).map fun w => (s, w)).any (fun p =>
        decide (p.2.server.isDirty = false ∧ p.2.save.isNone = true ∧
          (p.1.tree.device? "cellar").isSome = false ∧
          (p.2.server.tree.device? "cellar").isSome = true ∧
          p.2.server.tree.Everywhere fun e => e.Finite ∧ e.Shallow ∧ e.Faithful)) = true := by
    decide +kernel
  obtain ⟨⟨s, w⟩, hp, hwatched⟩ := (Option.any_eq_true _ _).mp hwatched
  obtain ⟨hclean, hrest, hold, hnew, hplain⟩ := of_decide_eq_true hwatched
  obtain ⟨_, hs, hw⟩ := Option.bind_eq_some_iff.mp hp
  obtain ⟨_, hrun, heq⟩ := Option.map_eq_some_iff.mp hw
  cases heq
  have hstart : Daemon.start {} (fun _ => .always 9) Daemon.hallFiles = .ok s :=
    toOption_eq_some_iff.mp hs
  have hwell := ((sound_of_start hstart).run? hrun).wellFormed
  have hread : Snapshot.ofFile w.server.tree.snapshot.fileText = .ok w.server.tree.snapshot :=
    Tree.ofFile_of_everywhere hwell hplain
  obtain ⟨store, hstore, -, hsettled⟩ := clean_saved_or_found hstart hrun hclean hread
  have hnone : ∀ save ∈ w.save, save.wasDirty = false := by
    rw [Option.isNone_iff_eq_none.mp hrest]
    exact nofun
  refine ⟨s, w, store, hstart, hrun, hclean, hnew, hstore, ?_⟩
  rcases (hsettled hnone).1 with hload | ⟨hsame, -⟩
  · exact hload
  -- the tree is not that of the start
  · rw [hsame, hold] at hnew
    cases hnew

/-- **What was found is not saved.** A daemon without a snapshot file finds a device. Its store is
clean, and what is written of its tree can be read, but there is no file, which is read as the empty
tree; and there will not be one, however much time goes by. -/
theorem found_not_saved : ∃ s store,
    Daemon.start {} (fun _ => .always 9) { discovered := some "[[\"attic\",\"Attic\"]]" } = .ok s ∧
    s.isDirty = false ∧
    Snapshot.ofFile s.tree.snapshot.fileText = .ok s.tree.snapshot ∧
    s.store = some store ∧ store.file = none ∧
    Daemon.loadTree .standard store = .ok (.ofBounds .standard) ∧
    (s.tree.device? "attic").isSome = true ∧ Tree.ofBounds .standard ≠ s.tree ∧
    ∀ seconds, (s.elapse seconds).store = some store ∧ (s.elapse seconds).tree = s.tree := by
  have hfound : (Daemon.start {} (fun _ => .always 9)
      { discovered := some "[[\"attic\",\"Attic\"]]" }).toOption.any
      (fun s => decide (s.isDirty = false ∧ (s.tree.device? "attic").isSome = true ∧
        s.tree.Everywhere fun e => e.Finite ∧ e.Shallow ∧ e.Faithful)) = true := by
    decide +kernel
  obtain ⟨s, hs, hfound⟩ := (Option.any_eq_true _ _).mp hfound
  obtain ⟨hclean, hattic, hplain⟩ := of_decide_eq_true hfound
  have hstart := toOption_eq_some_iff.mp hs
  obtain ⟨hstore, hwell, -⟩ := Daemon.start_spec hstart
  refine ⟨s, _, hstart, hclean, Tree.ofFile_of_everywhere hwell hplain, hstore, rfl, rfl, hattic,
    ?_, fun seconds => ⟨?_, (s.keeps_elapse seconds).tree⟩⟩
  · intro hsame
    rw [← hsame] at hattic
    cases hattic
  · rw [Server.store_elapse_of_clean hclean, hstore]

end Watch

end Sync

end Fleet
