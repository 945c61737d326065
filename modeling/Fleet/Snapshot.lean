import Fleet.Tree.Basic
import Fleet.Json.Text

/-!
# Snapshots

A snapshot is a tree as data: records of devices with their endpoints, and of views, under keys
that are texts. It is what a tree is written to a file and sent to a replica as. A record holds
everything about its device, endpoint or view except its keys, so a snapshot does not depend on
the table of bounds of the tree that it was taken of.

A document may leave out what has a default. In a view, `endpoints` is another name for `devices`.
-/

namespace Fleet

open Json (Node Refusal)

/-! ### Endpoints -/

/-- **The record of an endpoint.** -/
structure EndpointRecord where
  typeCode : Value
  function : String
  description : String
  lastValue : Value
  lastUpdate : Time
  minvalue : Option Float
  maxvalue : Option Float
  unit : Option String
deriving DecidableEq

namespace EndpointRecord

/-- The record of an endpoint. -/
def ofEndpoint (e : Endpoint) : EndpointRecord where
  typeCode := .number (.ofUInt64 e.typeCode.toUInt64)
  function := e.function.name
  description := e.description
  lastValue := e.lastValue
  lastUpdate := e.lastUpdate
  minvalue := e.minvalue
  maxvalue := e.maxvalue
  unit := e.unit

/-- The description of the endpoint. -/
def params (r : EndpointRecord) : Endpoint.Params where
  typeCode := some r.typeCode
  function := some r.function
  description := some r.description
  minvalue := r.minvalue
  maxvalue := r.maxvalue
  unit := r.unit

/-- **The endpoint that a record describes.** -/
def toEndpoint (table : BoundsTable) (ip : String) (eid : Eid) (r : EndpointRecord) :
    Except TreeError Endpoint :=
  (Endpoint.create table r.lastUpdate ip eid r.params).map fun e =>
    e.update { lastValue := some r.lastValue }

/-- A record as a document. -/
def toJson (r : EndpointRecord) : Json := .object <|
  Json.member "type" r.typeCode.json ++
  Json.member "function" (.string r.function) ++
  Json.member "description" (.string r.description) ++
  Json.member "last_value" r.lastValue.json ++
  Json.member "last_update" (.ofUInt64 r.lastUpdate) ++
  Json.member? "minvalue" Json.ofFloat r.minvalue ++
  Json.member? "maxvalue" Json.ofFloat r.maxvalue ++
  Json.member? "unit" Json.string r.unit

/-- A record that is being read. -/
structure Draft where
  typeCode : Option Value := none
  function : Option String := none
  description : String := ""
  lastValue : Value := .zero
  lastUpdate : Time := 0
  minvalue : Option Float := none
  maxvalue : Option Float := none
  unit : Option String := none

/-- The fields of a record. -/
def schema : Json.Schema Draft where
  fields := [
    .of "type" Node.readValue fun v r => { r with typeCode := some v },
    .of "function" Node.readString fun s r => { r with function := some s },
    .of "description" Node.readString fun s r => { r with description := s },
    .of "last_value" Node.readValue fun v r => { r with lastValue := v },
    .of "last_update" Node.readUInt64 fun t r => { r with lastUpdate := t },
    .of "minvalue" (Node.readOptional Node.readFloat) fun x r => { r with minvalue := x },
    .of "maxvalue" (Node.readOptional Node.readFloat) fun x r => { r with maxvalue := x },
    .of "unit" (Node.readOptional Node.readString) fun s r => { r with unit := s }]

/-- Reading a record, of which only the type and the function have to be there. -/
def read (node : Node) : Except Refusal EndpointRecord := do
  let r ← schema.read {} node
  .ok { r with
    typeCode := ← Json.required r.typeCode
    function := ← Json.required r.function }

end EndpointRecord

/-! ### Devices -/

/-- **The record of a device**: its endpoints under their numbers. -/
structure DeviceRecord where
  name : String
  lastUpdate : Time
  endpoints : SortedMap String EndpointRecord
deriving DecidableEq

namespace DeviceRecord

/-- The record of a device. -/
def ofDevice (d : Device) : DeviceRecord where
  name := d.name
  lastUpdate := d.lastUpdate
  endpoints := .ofList <|
    d.endpoints.values.map fun e => (e.eid.text, EndpointRecord.ofEndpoint e)

/-- The endpoints of records are inserted one after another. -/
def insertAll (table : BoundsTable) (ip : String) :
    Device → List (String × EndpointRecord) → Except TreeError Device
  | d, [] => .ok d
  | d, (key, r) :: rest => do
    let eid ← Device.requiredEid key
    let e ← r.toEndpoint table ip eid
    let d ← d.insertEndpoint e
    insertAll table ip d rest

/-- **The device that a record describes.** -/
def toDevice (table : BoundsTable) (ip : String) (r : DeviceRecord) : Except TreeError Device := do
  let d ← Device.create r.lastUpdate ip r.name
  insertAll table ip d r.endpoints.entries

/-- A record as a document. -/
def toJson (r : DeviceRecord) : Json := .object <|
  Json.member "name" (.string r.name) ++
  Json.member "last_update" (.ofUInt64 r.lastUpdate) ++
  Json.member "endpoints" (.ofMap id EndpointRecord.toJson r.endpoints)

/-- A record that is being read. -/
structure Draft where
  name : Option String := none
  lastUpdate : Option Time := none
  endpoints : SortedMap String EndpointRecord := ∅

/-- The fields of a record. -/
def schema : Json.Schema Draft where
  fields := [
    .of "name" Node.readString fun s r => { r with name := some s },
    .of "last_update" Node.readUInt64 fun t r => { r with lastUpdate := some t },
    .of "endpoints" (Node.readMap Json.Name.key EndpointRecord.read) fun m r =>
      { r with endpoints := m }]

/-- Reading a record, of which the name and the time have to be there. -/
def read (node : Node) : Except Refusal DeviceRecord := do
  let r ← schema.read {} node
  .ok ⟨← Json.required r.name, ← Json.required r.lastUpdate, r.endpoints⟩

end DeviceRecord

/-! ### Views -/

/-- **The record of a view.** -/
structure ViewRecord where
  name : String
  references : List String
deriving DecidableEq

namespace ViewRecord

/-- The record of a view. -/
def ofView (v : View) : ViewRecord := ⟨v.name, v.references⟩

/-- **The view that a record under a key describes.** -/
def toView (key : String) (r : ViewRecord) : Except TreeError View :=
  (View.requiredId key).map fun id => ⟨id, r.name, r.references⟩

/-- A record as a document. -/
def toJson (r : ViewRecord) : Json := .object <|
  Json.member "name" (.string r.name) ++
  Json.member "devices" (.ofList .string r.references)

/-- A record that is being read. -/
structure Draft where
  name : Option String := none
  references : List String := []

/-- The fields of a record. -/
def schema : Json.Schema Draft where
  fields := [
    .of "name" Node.readString fun s r => { r with name := some s },
    .of "devices" (Node.readList Node.readString) (fun refs r => { r with references := refs })
      (some "endpoints")]

/-- Reading a record, of which the name has to be there. -/
def read (node : Node) : Except Refusal ViewRecord := do
  let r ← schema.read {} node
  .ok ⟨← Json.required r.name, r.references⟩

end ViewRecord

/-! ### The whole -/

/-- **A snapshot.** -/
structure Snapshot where
  /-- Records under addresses. -/
  devices : SortedMap String DeviceRecord := ∅
  /-- Records under identifiers. -/
  views : SortedMap String ViewRecord := ∅
deriving DecidableEq

namespace Snapshot

/-- A snapshot as a document. -/
def toJson (s : Snapshot) : Json := .object <|
  Json.member "devices" (.ofMap id DeviceRecord.toJson s.devices) ++
  Json.member "views" (.ofMap id ViewRecord.toJson s.views)

/-- A snapshot as a plain value. -/
def toValue (s : Snapshot) : Value := .ofJson s.toJson

/-- The fields of a snapshot. -/
def schema : Json.Schema Snapshot where
  fields := [
    .of "devices" (Node.readMap Json.Name.key DeviceRecord.read) fun m s =>
      { s with devices := m },
    .of "views" (Node.readMap Json.Name.key ViewRecord.read) fun m s => { s with views := m }]

/-- Reading a snapshot. -/
def read (node : Node) : Except Refusal Snapshot := schema.read {} node

/-- **The text of a file** that holds a snapshot. -/
def fileText (s : Snapshot) : String := s.toJson.pretty

/-- **The snapshot that a file holds.** -/
def ofFile (text : String) : Except FileError Snapshot :=
  (Json.readText read text).mapError fun _ => .malformed

end Snapshot

end Fleet
