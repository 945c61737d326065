import Fleet.Patch.Document
import Fleet.Tree.Basic

/-!
# Applying the patches of others

A patch that comes from another replica is applied as a whole or not at all, and nothing is said to
others about it. As for a single device, staging comes first: every entry is looked at in the order
of the keys, devices before views, against the tree as it is, and the first entry that cannot be
applied is the reason why the patch is refused. Committing then puts and removes what staging has
found.

There are two ways to apply a patch.

* As an **update** (`Tree.applyUpdate`): tombstones delete, changes create or change.
* As a **deletion** (`Tree.applyDeletion`): tombstones delete and everything else is ignored, apart
  from keys that are no identifiers. Deleting what does not exist is no error.
-/

namespace Fleet

open Patch (Entry DeviceChange ViewChange)

namespace Tree

/-- **What an entry comes down to**: its key is without a value, or it has the given one. -/
inductive Step (α : Type) where
  | remove
  | put (a : α)
deriving DecidableEq

/-- One step on a map. -/
def Step.run {κ α : Type} [Ord κ] [Std.TransOrd κ] [Std.LawfulEqOrd κ] [DecidableEq κ]
    (m : SortedMap κ α) : κ × Step α → SortedMap κ α
  | (k, remove) => m.erase k
  | (k, put a) => m.insert k a

/-- **A patch that was staged**: steps on the devices and on the views. -/
structure Staged where
  devices : List (String × Step Device)
  views : List (Uuid × Step View)
deriving DecidableEq

/-- The tree after a staged patch. -/
def commit (t : Tree) (s : Staged) : Tree :=
  { t with
    devices := s.devices.foldl Step.run t.devices
    views := s.views.foldl Step.run t.views }

/-- Stage entry after entry, up to the first that cannot be applied. An entry may turn out to do
nothing. -/
def stageAll {α β : Type} (stage : α → Except TreeError (Option β)) :
    List α → Except TreeError (List β)
  | [] => .ok []
  | a :: rest => do
    let b ← stage a
    let bs ← stageAll stage rest
    .ok (b.toList ++ bs)

/-! ### Updates -/

/-- What the entry of a device comes down to. -/
def updateDevice (t : Tree) (now : Time) :
    String × Entry DeviceChange → Except TreeError (Option (String × Step Device))
  | (ip, .tombstone) => .ok (some (ip, .remove))
  | (ip, .change c) => do
    let d ← match t.device? ip with
      | some d => d.update t.bounds now c
      | none => Device.ofChange t.bounds now ip c
    .ok (some (ip, .put d))

/-- What the entry of a view comes down to. -/
def updateView (t : Tree) :
    String × Entry ViewChange → Except TreeError (Option (Uuid × Step View))
  | (key, entry) => do
    let id ← View.requiredId key
    match entry with
    | .tombstone => .ok (some (id, .remove))
    | .change c => do
      let v ← match t.view? id with
        | some v => v.update c
        | none => View.ofChange id c
      .ok (some (id, .put v))

/-- An update is staged. -/
def stageUpdate (t : Tree) (now : Time) (p : Patch) : Except TreeError Staged := do
  let devices ← stageAll (t.updateDevice now) p.devices.entries
  let views ← stageAll t.updateView p.views.entries
  .ok ⟨devices, views⟩

/-- **A patch is applied as an update.** -/
def applyUpdate (t : Tree) (now : Time) (p : Patch) : Except TreeError Tree :=
  (t.stageUpdate now p).map t.commit

/-! ### Deletions -/

/-- What the entry of a device comes down to when only tombstones count. For a device that does
not exist, it comes down to nothing, but the keys in it have to be numbers all the same. -/
def pruneDevice (t : Tree) :
    String × Entry DeviceChange → Except TreeError (Option (String × Step Device))
  | (ip, .tombstone) => .ok (some (ip, .remove))
  | (ip, .change c) =>
    match t.device? ip with
    | some d => (d.prune c).map fun d => some (ip, .put d)
    | none => (Device.tombstones c.endpoints.entries).map fun _ => none

/-- What the entry of a view comes down to when only tombstones count. -/
def pruneView : String × Entry ViewChange → Except TreeError (Option (Uuid × Step View))
  | (key, entry) =>
    (View.requiredId key).map fun id => if entry.isTombstone then some (id, .remove) else none

/-- A deletion is staged. -/
def stageDeletion (t : Tree) (p : Patch) : Except TreeError Staged := do
  let devices ← stageAll t.pruneDevice p.devices.entries
  let views ← stageAll pruneView p.views.entries
  .ok ⟨devices, views⟩

/-- **A patch is applied as a deletion.** -/
def applyDeletion (t : Tree) (p : Patch) : Except TreeError Tree :=
  (t.stageDeletion p).map t.commit

/-! ### Either -/

/-- **How a patch is meant.** -/
inductive Manner where
  | update
  | delete
deriving DecidableEq, Repr

/-- The name of a manner. -/
def Manner.name : Manner → String
  | update => "update"
  | delete => "delete"

/-- A patch is applied in the manner in which it is meant. -/
def apply (t : Tree) (now : Time) : Manner → Patch → Except TreeError Tree
  | .update, p => t.applyUpdate now p
  | .delete, p => t.applyDeletion p

end Tree

end Fleet
