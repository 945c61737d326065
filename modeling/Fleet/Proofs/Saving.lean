import Fleet.Daemon.Lifecycle
import Fleet.Proofs.RedoLog
import Fleet.Proofs.SnapshotFiles

/-!
# Clean means saved

A save has two moments: the flag of the store is cleared when the snapshot is taken, and the file is
replaced some time later. In between the tree may change and other saves may begin, and they need
not end in the order in which they began. `Saving` is a server with the saves that are underway.

The flag is meant to say whether the file still lacks something. It does as long as no save replaces
the file after it has been *overtaken*, that is, after a save that was begun later has replaced it
(`Saving.clean_saved`). An overtaken save that does replace the file puts an old tree into it while
the store stays clean, and nothing will ever save the tree again until it changes
(`Saving.overtaken_save_loses`).

The invariant is `Saving.Covered`. While the store is clean, one of two things holds:

* the file holds the tree, and every save that has not been overtaken would write this tree again;
* a save is underway that was begun with the flag set and would write the tree, and so would all
  that were begun after it. If it ends without success, it puts the flag back.
-/

namespace Fleet

open Fleet.Tree (Command)

/-- A tree that was loaded is well-formed. -/
theorem Daemon.wellFormed_loadTree {bounds : BoundsTable} {store : Sync.Store} {t : Tree}
    (h : loadTree bounds store = .ok t) : t.WellFormed := by
  unfold loadTree at h
  obtain ⟨loaded, -, h⟩ := bind_eq_ok_iff.mp h
  cases loaded with
  | none =>
    cases h
    exact (Tree.Reachable.ofBounds bounds).wellFormed
  | some s => exact Tree.wellFormed_restore (mapError_eq_ok_iff.mp h)

/-- What is loaded depends on the file only. -/
theorem Daemon.loadTree_congr {store store' : Sync.Store} (h : store'.file = store.file)
    (bounds : BoundsTable) : loadTree bounds store' = loadTree bounds store := by
  unfold loadTree Sync.Store.load
  rw [h]

/-- **What is written of a tree loads to it**, with whatever table of bounds, if it can be read. -/
theorem Daemon.loadTree_of_file {t : Tree} {store : Sync.Store} (ht : t.WellFormed)
    (hread : Snapshot.ofFile t.snapshot.fileText = .ok t.snapshot)
    (hfile : store.file = some t.snapshot.fileText) (bounds : BoundsTable) :
    loadTree bounds store = .ok { t with bounds } := by
  have hrestore : Tree.ofSnapshot bounds t.snapshot = .ok { t with bounds } :=
    Tree.restore_snapshot ht (.ofBounds bounds)
  unfold loadTree Sync.Store.load
  simp only [hfile, hread, Except.map, ok_bind, hrestore]
  rfl

namespace Sync

/-! ### What changes a tree marks the store -/

namespace Server

variable {s : Server} {now : Time}

theorem store_edit {α : Type} (s : Server) (f : Tree → Outcome α) :
    (s.edit f).1.store =
      if (f s.tree).events.isEmpty then s.store else s.store.map Store.markDirty := by
  show (if (f s.tree).events.isEmpty then _ else _ : Server).store = _
  split <;> rfl

/-- **The store is marked**, or nothing has become of it and of the tree. -/
def Marks (s s' : Server) : Prop :=
  s'.store = s.store.map Store.markDirty ∨ (s'.store = s.store ∧ s'.tree = s.tree)

theorem Marks.refl (s : Server) : s.Marks s := .inr ⟨rfl, rfl⟩

/-- **A command marks the store, or it changes nothing.** -/
theorem marks_command (ht : s.tree.WellFormed) (now : Time) (c : Command) :
    s.Marks (s.edit (c.run now)).1 := by
  unfold Marks
  rw [store_edit, tree_edit]
  by_cases hsilent : (c.run now s.tree).events.isEmpty = true
  · rw [if_pos hsilent]
    exact .inr ⟨rfl, Command.tree_run_of_silent ht (List.isEmpty_iff.mp hsilent)⟩
  · exact .inl (if_neg hsilent)

/-- **A message marks the store, or it changes nothing.** -/
theorem marks_handle (s : Server) (now : Time) (sender : Uuid) (m : Message) :
    s.Marks (s.handle now sender m).1 := by
  cases hpatch : m.patch? with
  | none =>
    rw [(handle_of_patch?_none hpatch).1]
    exact .refl s
  | some q =>
    rw [handle_of_patch? hpatch]
    unfold applyRemote
    dsimp only
    split
    · exact .inl rfl
    · exact .inr ⟨rfl, rfl⟩

/-- **An activity marks the store, or it leaves the tree and the store alone.** -/
theorem marks_perform (ht : s.tree.WellFormed) (now : Time) (a : Activity) :
    s.Marks (s.perform now a).1 := by
  cases a with
  | command c => exact marks_command ht now c
  | message sender m => exact s.marks_handle now sender m

theorem wellFormed_perform (ht : s.tree.WellFormed) (a : Activity) :
    (s.perform now a).1.tree.WellFormed := by
  cases a with
  | command c =>
    have htree : (s.perform now (.command c)).1.tree = _ := s.tree_edit (c.run now)
    rw [htree]
    exact Command.wellFormed_run ht c
  | message sender m =>
    show (s.handle now sender m).1.tree.WellFormed
    cases hpatch : m.patch? with
    | none =>
      rw [(handle_of_patch?_none hpatch).1]
      exact ht
    | some q =>
      rw [handle_of_patch? hpatch]
      cases haccept : s.tree.accept now q.1 q.2 with
      | error e =>
        rw [(applyRemote_error sender haccept).1]
        exact ht
      | ok r =>
        rw [(applyRemote_ok sender haccept).1]
        exact (Tree.takes_of_apply ht (Tree.accept_eq_ok_iff.mp haccept).2).wellFormed

end Server

/-! ### A server with saves underway -/

/-- **A save between its two moments**, and whether one that was begun later has replaced the
file. -/
structure Underway where
  save : PendingSave
  overtaken : Bool := false

/-- **A server with the saves that are underway**, in the order in which they were begun. -/
structure Saving where
  server : Server
  underway : List Underway := []

namespace Saving

/-- **One step**: something happens at the server, a save begins, or the save at an index of those
underway ends, with a file that can be replaced then or cannot. -/
inductive Act where
  | perform (now : Time) (a : Activity)
  | begin
  | finish (index : Nat) (writable : Bool)

/-- The server with a file that can be replaced or cannot. -/
def withFile (s : Server) (writable : Bool) : Server :=
  { s with store := s.store.map fun store => { store with writable } }

/-- **The state after a step.** -/
def act (st : Saving) : Act → Saving
  | .perform now a => { st with server := (st.server.perform now a).1 }
  | .begin =>
    match st.server.beginSave with
    | none => st
    | some (s, save) => { server := s, underway := st.underway ++ [⟨save, false⟩] }
  | .finish index writable =>
    match st.underway[index]? with
    | none => st
    | some u =>
      { server := ((withFile st.server writable).finishSave u.save).1
        underway :=
          (st.underway.take index).map (fun v => { v with overtaken := v.overtaken || writable }) ++
            st.underway.drop (index + 1) }

/-- The state after several steps. -/
def run (st : Saving) (acts : List Act) : Saving := acts.foldl act st

/-- A save that replaces the file has not been overtaken. -/
def Timely (st : Saving) : Act → Prop
  | .finish index true => (st.underway[index]?.all fun u => !u.overtaken) = true
  | _ => True

instance (st : Saving) (a : Act) : Decidable (st.Timely a) :=
  match a with
  | .finish index true =>
    inferInstanceAs (Decidable ((st.underway[index]?.all fun u => !u.overtaken) = true))
  | .finish _ false | .perform .. | .begin => .isTrue trivial

/-- **No save replaces the file after it has been overtaken.** -/
def InOrder (st : Saving) : List Act → Prop
  | [] => True
  | a :: rest => st.Timely a ∧ InOrder (st.act a) rest

instance decidableInOrder : (st : Saving) → (acts : List Act) → Decidable (st.InOrder acts)
  | _, [] => .isTrue trivial
  | st, a :: rest =>
    have := decidableInOrder (st.act a) rest
    inferInstanceAs (Decidable (st.Timely a ∧ InOrder (st.act a) rest))

/-- **The file loads to the tree** of the server, or it is what is written of the tree. -/
def Holds (store : Store) (t : Tree) : Prop :=
  Daemon.loadTree t.bounds store = .ok t ∨ store.file = some t.snapshot.fileText

theorem Holds.of_file {store store' : Store} {t : Tree} (h : Holds store t)
    (hfile : store'.file = store.file) : Holds store' t := by
  unfold Holds
  rw [Daemon.loadTree_congr hfile, hfile]
  exact h

/-- **The tree is in the file, or a save that will not let it down is underway.** -/
def Covered (store : Store) (t : Tree) (underway : List Underway) : Prop :=
  (Holds store t ∧ ∀ u ∈ underway, u.overtaken = false → u.save.snapshot = t.snapshot) ∨
    ∃ before u after, underway = before ++ u :: after ∧ u.save.wasDirty = true ∧
      u.save.snapshot = t.snapshot ∧ ∀ v ∈ after, v.save.snapshot = t.snapshot

/-- **The invariant.** -/
structure Sound (st : Saving) : Prop where
  wellFormed : st.server.tree.WellFormed
  stored : st.server.store.isSome = true
  clean : ∀ store, st.server.store = some store → store.dirty = false →
    Covered store st.server.tree st.underway

/-! ### Steps keep the invariant -/

/-- Two ways to single out an item of a list: it is the same item, or one comes before the other. -/
theorem split_at {α : Type} {before after before' after' : List α} {u w : α}
    (h : before ++ u :: after = before' ++ w :: after') :
    (u = w ∧ after = after') ∨
      (∃ between, after = between ++ w :: after') ∨
      ∃ between, before = before' ++ w :: between ∧ after' = between ++ u :: after := by
  rcases List.append_eq_append_iff.mp h with ⟨between, -, htail⟩ | ⟨between, hbefore, htail⟩
  · cases between with
    | nil =>
      cases htail
      exact .inl ⟨rfl, rfl⟩
    | cons v between =>
      cases htail
      exact .inr (.inl ⟨between, rfl⟩)
  · cases between with
    | nil =>
      cases htail
      exact .inl ⟨rfl, rfl⟩
    | cons v between =>
      cases htail
      exact .inr (.inr ⟨between, hbefore, rfl⟩)

variable {store store' : Store} {t : Tree} {before after : List Underway} {u : Underway}

/-- **A save that has not been overtaken replaces the file.** The saves that were begun before it
are overtaken from then on. -/
theorem Covered.written (h : Covered store t (before ++ u :: after)) (hu : u.overtaken = false)
    (hfile : store'.file = some u.save.snapshot.fileText) :
    Covered store' t (before.map (fun v => { v with overtaken := true }) ++ after) := by
  -- if the save writes the tree, then so would all that are left and not overtaken
  have hsettled : u.save.snapshot = t.snapshot →
      (∀ v ∈ after, v.overtaken = false → v.save.snapshot = t.snapshot) →
      Covered store' t (before.map (fun v => { v with overtaken := true }) ++ after) := by
    intro hsnapshot hafter
    refine .inl ⟨.inr (hsnapshot ▸ hfile), fun v hv hnot => ?_⟩
    rcases List.mem_append.mp hv with hv | hv
    · obtain ⟨v, -, rfl⟩ := List.mem_map.mp hv
      cases hnot
    · exact hafter v hv hnot
  rcases h with ⟨-, hall⟩ | ⟨before', w, after', hsplit, hdirty, hw, hafter'⟩
  · refine hsettled (hall u (by simp) hu) fun v hv hnot => hall v (by simp [hv]) hnot
  · rcases split_at hsplit with ⟨rfl, rfl⟩ | ⟨between, rfl⟩ | ⟨between, -, rfl⟩
    · exact hsettled hw fun v hv _ => hafter' v hv
    · exact .inr ⟨_, w, after', (List.append_assoc ..).symm, hdirty, hw, hafter'⟩
    · exact hsettled (hafter' u (by simp)) fun v hv _ => hafter' v (by simp [hv])

/-- **A save that was begun with a clean store fails**, and nothing depends on it. -/
theorem Covered.failed (h : Covered store t (before ++ u :: after)) (hu : u.save.wasDirty = false)
    (hfile : store'.file = store.file) : Covered store' t (before ++ after) := by
  rcases h with ⟨hheld, hall⟩ | ⟨before', w, after', hsplit, hdirty, hw, hafter'⟩
  · refine .inl ⟨hheld.of_file hfile, fun v hv => hall v ?_⟩
    rw [List.mem_append] at hv
    exact List.mem_append.mpr (hv.imp_right (List.mem_cons_of_mem u))
  · rcases split_at hsplit with ⟨rfl, -⟩ | ⟨between, rfl⟩ | ⟨between, rfl, rfl⟩
    · rw [hu] at hdirty
      cases hdirty
    · exact .inr ⟨before ++ between, w, after', (List.append_assoc ..).symm, hdirty, hw, hafter'⟩
    · refine .inr ⟨before', w, between ++ after, by simp, hdirty, hw, fun v hv => hafter' v ?_⟩
      rw [List.mem_append] at hv
      exact List.mem_append.mpr (hv.imp_right (List.mem_cons_of_mem u))

variable {st : Saving}

theorem Sound.perform (h : st.Sound) (now : Time) (a : Activity) :
    (st.act (.perform now a)).Sound := by
  have hstore := Server.marks_perform h.wellFormed now a
  have hstored : (st.server.perform now a).1.store.isSome = true := by
    rcases hstore with hmarked | ⟨hsame, -⟩
    · rw [hmarked, Option.isSome_map, h.stored]
    · rw [hsame, h.stored]
  refine ⟨Server.wellFormed_perform h.wellFormed a, hstored, fun store hget hclean => ?_⟩
  rcases hstore with hmarked | ⟨hsame, htree⟩
  · obtain ⟨store₀, -, rfl⟩ := Option.map_eq_some_iff.mp (hmarked.symm.trans hget)
    cases hclean
  · show Covered store (st.server.perform now a).1.tree st.underway
    rw [htree]
    exact h.clean store (hsame.symm.trans hget) hclean

theorem act_begin {store : Store} (hstore : st.server.store = some store) :
    st.act .begin =
      { server := { st.server with store := some { store with dirty := false } }
        underway := st.underway ++ [⟨⟨st.server.tree.snapshot, store.dirty⟩, false⟩] } := by
  simp only [act, Server.beginSave, hstore, Option.map_some]
  rfl

/-- A save that begins is one that would write the tree. -/
theorem Sound.begin (h : st.Sound) : (st.act .begin).Sound := by
  cases hstore : st.server.store with
  | none =>
    have hsame : st.act .begin = st := by
      simp only [act, Server.beginSave, hstore, Option.map_none]
    rw [hsame]
    exact h
  | some store =>
    rw [act_begin hstore]
    refine ⟨h.wellFormed, rfl, fun store' hstore' _ => ?_⟩
    cases hstore'
    cases hdirty : store.dirty with
    -- the new save is the one that the flag has been taken for
    | true => exact .inr ⟨st.underway, _, [], rfl, rfl, rfl, fun _ hv => nomatch hv⟩
    -- the store was clean for a reason, which still holds behind a save of the same tree
    | false =>
      have hnew : ∀ v ∈ [(⟨⟨st.server.tree.snapshot, false⟩, false⟩ : Underway)],
          v.save.snapshot = st.server.tree.snapshot := by simp
      rcases h.clean store hstore hdirty with
        ⟨hheld, hall⟩ | ⟨before, u, after, hsplit, hwas, hu, hafter⟩
      · exact .inl ⟨hheld, fun v hv hnot =>
          (List.mem_append.mp hv).elim (fun hv => hall v hv hnot) (hnew v)⟩
      · refine .inr ⟨before, u, _, ?_, hwas, hu, fun v hv =>
          (List.mem_append.mp hv).elim (hafter v) (hnew v)⟩
        rw [hsplit, List.append_assoc, List.cons_append]

/-- **How a save ends**: the tree stays, and the file is replaced or the flag is put back. -/
theorem finishSave_spec (s : Server) (save : PendingSave) (writable : Bool) :
    ((withFile s writable).finishSave save).1.tree = s.tree ∧
      ((withFile s writable).finishSave save).1.store = s.store.map fun store =>
        if writable then
          { store with file := some save.snapshot.fileText, writable, saves := store.saves + 1 }
        else { store with writable, dirty := store.dirty || save.wasDirty } := by
  unfold withFile Server.finishSave
  cases hstore : s.store with
  | none => exact ⟨rfl, rfl⟩
  | some store =>
    simp only [Option.map_some, Store.save]
    cases writable with
    | true => exact ⟨rfl, rfl⟩
    | false =>
      cases hwas : save.wasDirty with
      | true => simp [Server.markDirty, Store.markDirty]
      | false => simp

/-- **Every step keeps the tree well-formed**, in whatever order saves end. -/
theorem wellFormed_act (h : st.server.tree.WellFormed) (a : Act) :
    (st.act a).server.tree.WellFormed := by
  cases a with
  | perform now a => exact Server.wellFormed_perform h a
  | begin =>
    cases hstore : st.server.store with
    | none =>
      simp only [act, Server.beginSave, hstore, Option.map_none]
      exact h
    | some store =>
      rw [act_begin hstore]
      exact h
  | finish index writable =>
    simp only [act]
    split
    · exact h
    · next u _ =>
      show ((withFile st.server writable).finishSave u.save).1.tree.WellFormed
      rw [(finishSave_spec st.server u.save writable).1]
      exact h

theorem wellFormed_run (h : st.server.tree.WellFormed) (acts : List Act) :
    (st.run acts).server.tree.WellFormed := by
  induction acts generalizing st with
  | nil => exact h
  | cons a rest ih => exact ih (wellFormed_act h a)

theorem Sound.finish (h : st.Sound) {index : Nat} {writable : Bool}
    (horder : st.Timely (.finish index writable)) :
    (st.act (.finish index writable)).Sound := by
  cases hget : st.underway[index]? with
  | none =>
    have hsame : st.act (.finish index writable) = st := by simp only [act, hget]
    rw [hsame]
    exact h
  | some u =>
    obtain ⟨hlt, hu⟩ := List.getElem?_eq_some_iff.mp hget
    -- the saves that are underway: those begun before, the one that ends, and those begun after it
    have hsplit : st.underway = st.underway.take index ++ u :: st.underway.drop (index + 1) := by
      rw [← hu, ← List.drop_eq_getElem_cons hlt, List.take_append_drop]
    have hact : st.act (.finish index writable) =
        { server := ((withFile st.server writable).finishSave u.save).1
          underway := (st.underway.take index).map
            (fun v => { v with overtaken := v.overtaken || writable }) ++
              st.underway.drop (index + 1) } := by simp only [act, hget]
    obtain ⟨htree, hafter⟩ := finishSave_spec st.server u.save writable
    rw [hact]
    refine ⟨htree ▸ h.wellFormed, ?_, fun store' hstore' hclean => ?_⟩
    · rw [hafter, Option.isSome_map, h.stored]
    rw [htree]
    obtain ⟨store, hstore, rfl⟩ := Option.map_eq_some_iff.mp (hafter.symm.trans hstore')
    cases writable with
    -- the file is replaced by a snapshot that no later one has overtaken
    | true =>
      have hcovered := h.clean store hstore hclean
      rw [hsplit] at hcovered
      have hu : u.overtaken = false := by simpa [Timely, hget] using horder
      simpa using hcovered.written hu rfl
    -- nothing is written, and the store is clean only if it was so before and when the save began
    | false =>
      obtain ⟨hclean, hwas⟩ : store.dirty = false ∧ u.save.wasDirty = false := by
        simpa using hclean
      have hcovered := h.clean store hstore hclean
      rw [hsplit] at hcovered
      have hleft : Covered { store with writable := false, dirty := store.dirty || u.save.wasDirty }
          st.server.tree (st.underway.take index ++ st.underway.drop (index + 1)) :=
        hcovered.failed hwas rfl
      simpa using hleft

/-- **A run in which no overtaken save replaces the file keeps the invariant.** -/
theorem Sound.run (h : st.Sound) {acts : List Act} (horder : st.InOrder acts) :
    (st.run acts).Sound := by
  induction acts generalizing st with
  | nil => exact h
  | cons a rest ih =>
    obtain ⟨hfirst, hrest⟩ := horder
    refine ih ?_ hrest
    cases a with
    | perform now a => exact h.perform now a
    | begin => exact h.begin
    | finish index writable => exact h.finish hfirst

/-! ### A clean store -/

/-- A file that holds a tree loads to it if what is written of the tree can be read. -/
theorem Holds.loads (h : Holds store t) (ht : t.WellFormed)
    (hread : Snapshot.ofFile t.snapshot.fileText = .ok t.snapshot) :
    Daemon.loadTree t.bounds store = .ok t := by
  rcases h with hload | hfile
  · exact hload
  · exact Daemon.loadTree_of_file ht hread hfile t.bounds

/-- A server without saves underway. -/
def ofServer (s : Server) : Saving := { server := s }

/-- **The file of the server loads to its tree.** -/
def Saved (s : Server) : Prop :=
  ∃ store, s.store = some store ∧ Daemon.loadTree s.tree.bounds store = .ok s.tree

theorem sound_ofServer {s : Server} (h : Saved s) : (ofServer s).Sound := by
  obtain ⟨store, hstore, hload⟩ := h
  refine ⟨Daemon.wellFormed_loadTree hload, by simp [ofServer, hstore], fun store' hstore' _ => ?_⟩
  cases hstore.symm.trans hstore'
  exact .inl ⟨.inl hload, fun _ hu => nomatch hu⟩

/-- **Clean means saved.** Start a server whose file loads to its tree, and let things happen at it
while saves begin, overlap, succeed and fail in any way, except that none replaces the file after it
has been overtaken. Whenever the store is clean and no save is underway, the file loads to the
tree. -/
theorem clean_saved {s : Server} (hstart : Saved s) {acts : List Act}
    (horder : (ofServer s).InOrder acts)
    (hclean : ((ofServer s).run acts).server.isDirty = false)
    (hrest : ((ofServer s).run acts).underway = [])
    (hread : Snapshot.ofFile ((ofServer s).run acts).server.tree.snapshot.fileText =
      .ok ((ofServer s).run acts).server.tree.snapshot) :
    Saved ((ofServer s).run acts).server := by
  have hsound := (sound_ofServer hstart).run horder
  obtain ⟨store, hstore⟩ := Option.isSome_iff_exists.mp hsound.stored
  have hdirty : store.dirty = false := by
    simpa [Server.isDirty, hstore] using hclean
  refine ⟨store, hstore, ?_⟩
  have hcovered := hsound.clean store hstore hdirty
  rw [hrest] at hcovered
  rcases hcovered with ⟨hheld, -⟩ | ⟨before, u, after, hnone, -⟩
  · exact hheld.loads hsound.wellFormed hread
  · cases before <;> cases hnone

/-- A server that starts without a file. -/
def freshServer : Server := .create {} (.ofBounds (.ofFallback ⟨0, 1⟩)) (some {})

theorem saved_freshServer : Saved freshServer := ⟨{}, rfl, rfl⟩

theorem wellFormed_freshServer : (ofServer freshServer).server.tree.WellFormed :=
  (Tree.Reachable.ofBounds _).wellFormed

/-- A session tells of a device, and the owner adds another one while that is being saved. Then the
second save fails, and a third one succeeds. -/
def overlapping : List Act := [
  .perform 10 (.message ⟨1⟩ (.update (Patch.toValue (.device "hall"
    (.change { name := some "", lastUpdate := some 9 }))))),
  .begin,
  .perform 11 (.command (.addDevice "attic" "Attic")),
  .begin,
  .finish 0 true,
  .finish 0 false,
  .begin,
  .finish 0 true]

theorem clean_saved_overlapping :
    Saved freshServer ∧ (ofServer freshServer).InOrder overlapping ∧
    ((ofServer freshServer).run overlapping).server.isDirty = false ∧
    Saved ((ofServer freshServer).run overlapping).server := by
  have horder : (ofServer freshServer).InOrder overlapping := by decide +kernel
  have hclean : ((ofServer freshServer).run overlapping).server.isDirty = false := by
    decide +kernel
  have hrest : ((ofServer freshServer).run overlapping).underway.isEmpty = true := by
    decide +kernel
  have hread := Tree.ofFile_snapshot (wellFormed_run wellFormed_freshServer overlapping)
    (by decide +kernel) (by decide +kernel) (by decide +kernel)
  exact ⟨saved_freshServer, horder, hclean, clean_saved saved_freshServer horder hclean
    (List.isEmpty_iff.mp hrest) hread⟩

/-- The same two changes, each with a save of its own, but the saves end in the other order. -/
def crossing : List Act := [
  .perform 10 (.command (.addDevice "hall" "Hall")),
  .begin,
  .perform 11 (.command (.addDevice "attic" "Attic")),
  .begin,
  .finish 1 true,
  .finish 0 true]

/-- **An overtaken save loses the tree.** Both saves succeed and what they write can be read, the
store is clean and no save is underway, but the file does not load to the tree. -/
theorem overtaken_save_loses :
    Saved freshServer ∧
    (∀ acts ∈ [crossing.take 2, crossing], Snapshot.ofFile
      ((ofServer freshServer).run acts).server.tree.snapshot.fileText =
        .ok ((ofServer freshServer).run acts).server.tree.snapshot) ∧
    ((ofServer freshServer).run crossing).server.isDirty = false ∧
    ((ofServer freshServer).run crossing).underway = [] ∧
    ¬ Saved ((ofServer freshServer).run crossing).server := by
  have hplain : ∀ acts ∈ [crossing.take 2, crossing],
      ((ofServer freshServer).run acts).server.tree.Everywhere fun e =>
        e.Finite ∧ e.Shallow ∧ e.Faithful := by decide +kernel
  have hread : ∀ acts ∈ [crossing.take 2, crossing], Snapshot.ofFile
      ((ofServer freshServer).run acts).server.tree.snapshot.fileText =
        .ok ((ofServer freshServer).run acts).server.tree.snapshot := fun acts hacts =>
    Tree.ofFile_of_everywhere (wellFormed_run wellFormed_freshServer acts) (hplain acts hacts)
  have hrest : ((ofServer freshServer).run crossing).underway.isEmpty = true := by decide +kernel
  refine ⟨saved_freshServer, hread, by decide +kernel, List.isEmpty_iff.mp hrest, ?_⟩
  rintro ⟨store, hstore, hload⟩
  have hlost : (((ofServer freshServer).run crossing).server.store.bind fun store =>
      (Daemon.loadTree ((ofServer freshServer).run crossing).server.tree.bounds store).toOption.map
        Tree.snapshot) ≠ some ((ofServer freshServer).run crossing).server.tree.snapshot := by
    decide +kernel
  refine hlost ?_
  rw [hstore, Option.bind_some, hload]
  rfl

end Saving
end Sync
end Fleet
