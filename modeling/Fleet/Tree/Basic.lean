import Fleet.Device
import Fleet.View

/-!
# Trees

A tree is the whole of what one replica knows: devices under their addresses, views under their
identifiers, and the table of bounds that it was set up with. The table belongs to the replica and
is not replicated.

This module holds the type and the questions that can be asked of it.
-/

namespace Fleet

/-- **A tree.** -/
structure Tree where
  devices : SortedMap String Device := ∅
  views : SortedMap Uuid View := ∅
  /-- Bounds for sensors that are announced without any. -/
  bounds : BoundsTable := .standard
deriving DecidableEq

namespace Tree

/-- The tree without devices and views that has a given table of bounds. -/
def ofBounds (bounds : BoundsTable) : Tree := { bounds }

/-- The device at an address. -/
def device? (t : Tree) (ip : String) : Option Device := t.devices.get? ip

/-- The view of an identifier. -/
def view? (t : Tree) (id : Uuid) : Option View := t.views.get? id

/-- **The endpoint of a full name.** -/
def endpoint? (t : Tree) (name : String) : Option Endpoint := do
  let (ip, eid) ← Endpoint.splitName? name
  let d ← t.device? ip
  d.endpoint? eid

/-- The device at an address, if it has an endpoint of the number. -/
def deviceWith? (t : Tree) (ip : String) (eid : Eid) : Option Device :=
  (t.device? ip).filter (·.hasEndpoint eid)

/-- The devices that have all the endpoints of a list of numbers. -/
def devicesWith (t : Tree) (eids : List Eid) : List Device :=
  t.devices.values.filter fun d => eids.all d.hasEndpoint

/-- The endpoints that a view shows, in its order; those that do not exist are left out. -/
def viewEndpoints? (t : Tree) (id : Uuid) : Option (List Endpoint) :=
  (t.view? id).map fun v => v.references.filterMap t.endpoint?

/-- The tree with a device in place of the one that was at the address. -/
def putDevice (t : Tree) (ip : String) (d : Device) : Tree :=
  { t with devices := t.devices.insert ip d }

/-- The tree with a view in place of the one that had the identifier. -/
def putView (t : Tree) (id : Uuid) (v : View) : Tree := { t with views := t.views.insert id v }

/-- The tree without the device at an address. -/
def withoutDevice (t : Tree) (ip : String) : Tree := { t with devices := t.devices.erase ip }

/-- The tree without a view. -/
def withoutView (t : Tree) (id : Uuid) : Tree := { t with views := t.views.erase id }

end Tree

end Fleet
