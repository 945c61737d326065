import Fleet.Patch.Basic

/-!
# Patches as documents

A patch is written as an object of objects, and a tombstone as an empty object. Fields that are not
given are left out, maps without entries as well.

Reading tells a tombstone from a change by the shape of the data: an empty object is a tombstone,
everything else has to be a change with at least one field (`Entry.read`). An entry is first read
as a plain value and then as a change; so within an entry the last of several members with one name
counts, and members are read in the order of their names.

Changes are strict about the names of their members. The references of a view may also be called
`endpoints`.
-/

namespace Fleet.Patch

open Json (Node Refusal)

/-! ### Writing -/

/-- An entry as a document. -/
def Entry.toJson {α : Type} (write : α → Json) : Entry α → Json
  | tombstone => .object []
  | change a => write a

/-- A change of an endpoint as a document. -/
def EndpointChange.toJson (c : EndpointChange) : Json := .object <|
  Json.member? "last_update" Json.ofUInt64 c.lastUpdate ++
  Json.member? "last_value" Value.json c.lastValue ++
  Json.member? "params" Endpoint.Params.toJson c.params ++
  Json.member? "minvalue" Json.ofFloat c.minvalue ++
  Json.member? "maxvalue" Json.ofFloat c.maxvalue

/-- A change of a device as a document. -/
def DeviceChange.toJson (c : DeviceChange) : Json := .object <|
  Json.member? "name" Json.string c.name ++
  Json.member? "last_update" Json.ofUInt64 c.lastUpdate ++
  Json.memberMap "endpoints" id (Entry.toJson EndpointChange.toJson) c.endpoints

/-- A change of a view as a document. -/
def ViewChange.toJson (c : ViewChange) : Json := .object <|
  Json.member? "id" (fun id : Uuid => Json.string id.text) c.id ++
  Json.member? "name" Json.string c.name ++
  Json.member? "devices" (Json.ofList Json.string) c.references

/-- **A patch as a document.** -/
def toJson (p : Patch) : Json := .object <|
  Json.memberMap "devices" id (Entry.toJson DeviceChange.toJson) p.devices ++
  Json.memberMap "views" id (Entry.toJson ViewChange.toJson) p.views

/-- A patch as a plain value. -/
def toValue (p : Patch) : Value := .ofJson p.toJson

/-! ### Reading -/

/-- **An entry**: an empty object is a tombstone; anything else has to be a change that is not
blank. -/
def Entry.read {α : Type} (readChange : Node → Except Refusal α) (isBlank : α → Bool)
    (node : Node) : Except Refusal (Entry α) := do
  let v ← node.readValue
  -- the shape decides: a change that gives nothing would be written in the same way
  if v.json = .object [] then .ok tombstone
  else
    let a ← Json.readFrom readChange v
    if isBlank a then .error .blankChange else .ok (change a)

/-- The fields of a change of an endpoint. A value that is given is never taken as missing, not
even `null`. -/
def EndpointChange.schema : Json.Schema EndpointChange where
  fields := [
    .of "last_update" (Node.readOptional Node.readUInt64) fun t c => { c with lastUpdate := t },
    .of "last_value" Node.readValue fun v c => { c with lastValue := some v },
    .of "params" (Node.readOptional Endpoint.Params.read) fun p c => { c with params := p },
    .of "minvalue" (Node.readOptional Node.readFloat) fun x c => { c with minvalue := x },
    .of "maxvalue" (Node.readOptional Node.readFloat) fun x c => { c with maxvalue := x }]
  strict := true

/-- Reading a change of an endpoint. -/
def EndpointChange.read (node : Node) : Except Refusal EndpointChange := schema.read {} node

/-- The fields of a change of a device. -/
def DeviceChange.schema : Json.Schema DeviceChange where
  fields := [
    .of "name" (Node.readOptional Node.readString) fun s c => { c with name := s },
    .of "last_update" (Node.readOptional Node.readUInt64) fun t c => { c with lastUpdate := t },
    .of "endpoints"
      (Node.readMap Json.Name.key (Entry.read EndpointChange.read EndpointChange.isBlank))
      fun m c => { c with endpoints := m }]
  strict := true

/-- Reading a change of a device. -/
def DeviceChange.read (node : Node) : Except Refusal DeviceChange := schema.read {} node

/-- The fields of a change of a view. -/
def ViewChange.schema : Json.Schema ViewChange where
  fields := [
    .of "id" (Node.readOptional Node.readUuid) fun id c => { c with id := id },
    .of "name" (Node.readOptional Node.readString) fun s c => { c with name := s },
    .of "devices" (Node.readOptional (Node.readList Node.readString))
      (fun refs c => { c with references := refs }) (some "endpoints")]
  strict := true

/-- Reading a change of a view. -/
def ViewChange.read (node : Node) : Except Refusal ViewChange := schema.read {} node

/-- The fields of a patch. -/
def schema : Json.Schema Patch where
  fields := [
    .of "devices" (Node.readMap Json.Name.key (Entry.read DeviceChange.read DeviceChange.isBlank))
      fun m p => { p with devices := m },
    .of "views" (Node.readMap Json.Name.key (Entry.read ViewChange.read ViewChange.isBlank))
      fun m p => { p with views := m }]

/-- Reading a patch. -/
def read (node : Node) : Except Refusal Patch := schema.read {} node

/-- What is said of data that are no patch. -/
def accept (r : Except Refusal Patch) : Except TreeError Patch := r.mapError .noPatch

/-- **The patch that some data denote.** -/
def ofValue (v : Value) : Except TreeError Patch := accept (Json.readFrom read v)

/-- **The patch that a text denotes.** -/
def ofText (text : String) : Except TreeError Patch := accept (Json.readText read text)

/-- The patch as a text. -/
def text (p : Patch) : String := p.toJson.compact

end Fleet.Patch
