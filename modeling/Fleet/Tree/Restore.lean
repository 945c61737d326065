import Fleet.Snapshot

/-!
# Taking and restoring snapshots

`Tree.snapshot` takes down a tree as data and `Tree.restore` replaces the whole of a tree by what a
snapshot describes. Restoring is quiet, and it does all of it or nothing. The table of bounds stays
that of the tree; it matters only for sensors whose records lack a bound.
-/

namespace Fleet.Tree

/-- **The snapshot of a tree.** -/
def snapshot (t : Tree) : Snapshot where
  devices := t.devices.mapValues fun _ d => .ofDevice d
  views := .ofList (t.views.entries.map fun p => (p.1.text, .ofView p.2))

/-- The devices of records, put into a map one after another. -/
def restoreDevices (table : BoundsTable) :
    SortedMap String Device → List (String × DeviceRecord) →
      Except TreeError (SortedMap String Device)
  | m, [] => .ok m
  | m, (ip, r) :: rest => do
    let d ← r.toDevice table ip
    restoreDevices table (m.insert ip d) rest

/-- The views of records, put into a map one after another. -/
def restoreViews :
    SortedMap Uuid View → List (String × ViewRecord) → Except TreeError (SortedMap Uuid View)
  | m, [] => .ok m
  | m, (key, r) :: rest => do
    let v ← r.toView key
    restoreViews (m.insert v.id v) rest

/-- **The tree with the devices and views that a snapshot describes.** -/
def restore (t : Tree) (s : Snapshot) : Except TreeError Tree := do
  let devices ← restoreDevices t.bounds ∅ s.devices.entries
  let views ← restoreViews ∅ s.views.entries
  .ok { t with devices, views }

/-- A new tree that a snapshot describes. -/
def ofSnapshot (bounds : BoundsTable) (s : Snapshot) : Except TreeError Tree :=
  (ofBounds bounds).restore s

/-- The tree as a plain value. -/
def toValue (t : Tree) : Value := t.snapshot.toValue

/-- **The tree that a file holds**, if there is a file. -/
def ofFile (bounds : BoundsTable) (file : Option String) : Except FileError Tree :=
  match file with
  | none => .error .unavailable
  | some text => do
    let s ← Snapshot.ofFile text
    (ofSnapshot bounds s).mapError fun e => .rejected e.report

end Fleet.Tree
