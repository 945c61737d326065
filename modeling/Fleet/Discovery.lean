import Fleet.Endpoint.Basic

/-!
# Discovery

What a discovery run reports: devices with their addresses and names, and for each the endpoints
that it announces. An announced endpoint is one object that holds its number and its description
side by side, so it is the only record that cannot be read from an array.
-/

namespace Fleet.Discovery

open Json (Node Refusal)

/-! ### Endpoints -/

/-- **An announced endpoint.** -/
structure Endpoint where
  eid : Eid
  params : Endpoint.Params
deriving DecidableEq

/-- An announced endpoint that is being read. -/
structure EndpointDraft where
  eid : Option Eid
  params : Fleet.Endpoint.Params

/-- A field of the description as a field of the announced endpoint. -/
def describing (f : Json.Field Fleet.Endpoint.Params) : Json.Field EndpointDraft where
  name := f.name
  put node draft := (f.put node draft.params).map fun p => { draft with params := p }
  otherName := f.otherName

/-- The fields of an announced endpoint. -/
def Endpoint.schema : Json.Schema EndpointDraft where
  fields :=
    .of "eid" Node.readUInt32 (fun eid draft => { draft with eid := some eid }) ::
      Fleet.Endpoint.Params.fields.map describing

/-- Reading an announced endpoint. Members that do not belong to it are passed over, but only as a
whole: nothing in them may be at fault. -/
def Endpoint.read (node : Node) : Except Refusal Endpoint :=
  match node with
  | .object _ _ => do
    -- every member is read, also those that belong to nothing
    let _ ← node.readValue
    let draft ← schema.read ⟨none, {}⟩ node
    .ok ⟨← Json.required draft.eid, draft.params⟩
  | _ => .error .mismatch

/-! ### Devices -/

/-- **A device that was found.** -/
structure Device where
  ip : String
  name : String
  endpoints : List Endpoint
deriving DecidableEq

/-- A found device that is being read. -/
structure DeviceDraft where
  ip : Option String
  name : Option String
  endpoints : List Endpoint

/-- The fields of a found device. -/
def Device.schema : Json.Schema DeviceDraft where
  fields := [
    .of "ip" Node.readString fun s draft => { draft with ip := some s },
    .of "name" Node.readString fun s draft => { draft with name := some s },
    .of "endpoints" (Node.readList Endpoint.read) fun es draft => { draft with endpoints := es }]

/-- Reading a found device. -/
def Device.read (node : Node) : Except Refusal Device := do
  let draft ← schema.read ⟨none, none, []⟩ node
  .ok ⟨← Json.required draft.ip, ← Json.required draft.name, draft.endpoints⟩

/-- **What a discovery run found.** -/
def readAll : Node → Except Refusal (List Device) := Node.readList Device.read

end Fleet.Discovery
