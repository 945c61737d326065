import Fleet.Endpoint.Params
import Fleet.Time

/-!
# Patches

A patch says what changed in a tree. It has an entry for every device and every view that is
concerned, and the entry of a device may have entries for its endpoints in turn. An entry is either
a *change*, which gives new values to some fields, or a *tombstone*, which deletes
(`Patch.Entry`).

A patch keeps the keys of its entries as the texts that they are. So a key that is no identifier is
an error of whoever applies the patch, and one endpoint or view may be addressed by several
spellings of its key.

A change of which no field is given is *blank*. A blank change cannot be told from a tombstone when
it is written, which is why reading refuses it; see `Patch.read`.
-/

namespace Fleet

namespace Patch

/-- **An entry of a patch.** -/
inductive Entry (α : Type) where
  /-- Delete what the key denotes. -/
  | tombstone
  /-- Create or change it. -/
  | change (a : α)
deriving DecidableEq

/-- Whether the entry deletes. -/
def Entry.isTombstone {α : Type} : Entry α → Bool
  | tombstone => true
  | change _ => false

/-- **What changes in an endpoint.** Only an endpoint that is created needs a description. -/
structure EndpointChange where
  lastUpdate : Option Time := none
  /-- The value reported last; the value `null` is one. -/
  lastValue : Option Value := none
  params : Option Endpoint.Params := none
  minvalue : Option Float := none
  maxvalue : Option Float := none
deriving DecidableEq

/-- Whether nothing changes in the endpoint. -/
def EndpointChange.isBlank (c : EndpointChange) : Bool :=
  c.lastUpdate.isNone && c.lastValue.isNone && c.params.isNone && c.minvalue.isNone &&
    c.maxvalue.isNone

/-- **What changes in a device** and in its endpoints. -/
structure DeviceChange where
  name : Option String := none
  lastUpdate : Option Time := none
  /-- Entries under the numbers of endpoints. -/
  endpoints : SortedMap String (Entry EndpointChange) := ∅
deriving DecidableEq

/-- Whether nothing changes in the device. -/
def DeviceChange.isBlank (c : DeviceChange) : Bool :=
  c.name.isNone && c.lastUpdate.isNone && c.endpoints.isEmpty

/-- The change with an entry for an endpoint. -/
def DeviceChange.withEndpoint (c : DeviceChange) (eid : Eid) (entry : Entry EndpointChange) :
    DeviceChange :=
  { c with endpoints := c.endpoints.insert eid.text entry }

/-- **What changes in a view.** Views are always changed as a whole. -/
structure ViewChange where
  id : Option Uuid := none
  name : Option String := none
  /-- The full names of the endpoints that the view shows. -/
  references : Option (List String) := none
deriving DecidableEq

/-- Whether nothing changes in the view. -/
def ViewChange.isBlank (c : ViewChange) : Bool :=
  c.id.isNone && c.name.isNone && c.references.isNone

end Patch

open Patch (Entry DeviceChange ViewChange)

/-- **A patch**: entries under the addresses of devices and the identifiers of views. -/
structure Patch where
  devices : SortedMap String (Entry DeviceChange) := ∅
  views : SortedMap String (Entry ViewChange) := ∅
deriving DecidableEq

namespace Patch

/-- Whether the patch has no entry. -/
def isEmpty (p : Patch) : Bool := p.devices.isEmpty && p.views.isEmpty

/-- The patch with one entry, for a device. -/
def device (ip : String) (entry : Entry DeviceChange) : Patch := { devices := .singleton ip entry }

/-- The patch with one entry, for a view. -/
def view (id : Uuid) (entry : Entry ViewChange) : Patch := { views := .singleton id.text entry }

/-- The patch that deletes a device. -/
def deviceTombstone (ip : String) : Patch := device ip .tombstone

/-- The patch that deletes an endpoint. -/
def endpointTombstone (ip : String) (eid : Eid) : Patch :=
  device ip (.change (DeviceChange.withEndpoint {} eid .tombstone))

/-- The patch that deletes a view. -/
def viewTombstone (id : Uuid) : Patch := view id .tombstone

end Patch

end Fleet
