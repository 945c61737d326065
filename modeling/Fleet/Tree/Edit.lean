import Fleet.Tree.Outcome

/-!
# Loud operations

The operations by which the owner of a tree changes it. Each publishes the smallest patch that says
what it did: an update for what was created or changed, a deletion for what was removed.

Operations on a device, an endpoint or a view that exists are reached through it, so they have no
outcome at all if it does not exist; the others are refused with an error.
-/

namespace Fleet.Tree

open Patch (Entry DeviceChange)

/-! ### Devices -/

/-- **A device is added** under a new address. -/
def addDevice (t : Tree) (now : Time) (ip name : String) : Outcome Device :=
  match Device.create now ip name with
  | .error e => .refused t e
  | .ok d =>
    if t.devices.contains ip then .refused t (.duplicate ip)
    else .loud (t.putDevice ip d) (.update (.device ip (.change d.creationChange))) d

/-- **A device is removed** with all its endpoints. -/
def removeDevice (t : Tree) (ip : String) : Outcome Device :=
  match t.device? ip with
  | none => .refused t (.notFound ip)
  | some d => .loud (t.withoutDevice ip) (.delete (.deviceTombstone ip)) d

/-- The device at an address is replaced, and what changed is published as an update. -/
def changeDevice (t : Tree) (ip : String) (r : Except TreeError (Device × DeviceChange)) :
    Outcome Patch :=
  match r with
  | .error e => .refused t e
  | .ok (d, c) =>
    let p := Patch.device ip (.change c)
    .loud (t.putDevice ip d) (.update p) p

/-- A device that is there gets a new time. -/
def touchDevice (t : Tree) (now : Time) (ip : String) : Option (Outcome Patch) :=
  (t.device? ip).map fun d =>
    let d := d.touch now
    t.changeDevice ip (.ok (d, d.headerChange))

/-- A device that is there gets a new name and a new time. -/
def renameDevice (t : Tree) (now : Time) (ip name : String) : Option (Outcome Patch) :=
  (t.device? ip).map fun d =>
    let d := d.rename now name
    t.changeDevice ip (.ok (d, d.headerChange))

/-- A device that is there gets a new endpoint. -/
def extendDevice (t : Tree) (now : Time) (ip : String) (eid : Eid) (params : Endpoint.Params) :
    Option (Outcome Patch) :=
  (t.device? ip).map fun d => t.changeDevice ip (d.createEndpoint t.bounds now eid params)

/-- A device that is there loses an endpoint. -/
def reduceDevice (t : Tree) (ip : String) (eid : Eid) : Option (Outcome (Patch × Endpoint)) :=
  (t.device? ip).map fun d =>
    match d.takeEndpoint eid with
    | .error e => .refused t e
    | .ok (d, e) =>
      let p := Patch.endpointTombstone ip eid
      .loud (t.putDevice ip d) (.delete p) (p, e)

/-! ### Endpoints -/

/-- **An endpoint is added.** If its device does not exist, it is added along with it, under the
name in the description, and one patch tells of both. -/
def addEndpoint (t : Tree) (now : Time) (ip : String) (eid : Eid) (params : Endpoint.Params) :
    Outcome Endpoint :=
  let created : Except TreeError (Device × DeviceChange) :=
    match t.device? ip with
    | some d => d.createEndpoint t.bounds now eid params
    | none =>
      match params.name with
      | none => .error (.missingDeviceName ip)
      | some name => do
        let d ← Device.create now ip name
        let (d, _) ← d.createEndpoint t.bounds now eid params
        -- the device is new to others too, so its whole creation is published
        .ok (d, d.creationChange)
  match created with
  | .error e => .refused t e
  | .ok (d, c) =>
    let t := t.putDevice ip d
    match d.endpoint? eid with
    | some e => .loud t (.update (.device ip (.change c))) e
    -- does not happen: the endpoint was put there
    | none => .refused t (.notFound (Endpoint.fullName ip eid))

/-- **An endpoint is removed.** -/
def removeEndpoint (t : Tree) (ip : String) (eid : Eid) : Outcome Endpoint :=
  match t.reduceDevice ip eid with
  | none => .refused t (.notFound ip)
  | some o => o.map (·.2)

/-- A value is reported by an endpoint that is there. -/
def setValueAt (t : Tree) (now : Time) (ip : String) (eid : Eid) (v : Value) :
    Option (Outcome Patch) :=
  (t.deviceWith? ip eid).map fun d => t.changeDevice ip (d.setValue now eid v)

/-- A value is reported by an endpoint that is there, under its full name. -/
def setValue (t : Tree) (now : Time) (name : String) (v : Value) : Option (Outcome Patch) := do
  let (ip, eid) ← Endpoint.splitName? name
  t.setValueAt now ip eid v

/-- The least value of a sensor that is there is set. -/
def setMin (t : Tree) (name : String) (x : Float) : Option (Outcome Patch) := do
  let (ip, eid) ← Endpoint.splitName? name
  let d ← t.deviceWith? ip eid
  some (t.changeDevice ip (d.setMin eid x))

/-- The greatest value of a sensor that is there is set. -/
def setMax (t : Tree) (name : String) (x : Float) : Option (Outcome Patch) := do
  let (ip, eid) ← Endpoint.splitName? name
  let d ← t.deviceWith? ip eid
  some (t.changeDevice ip (d.setMax eid x))

/-- **A value is recorded** under the full name of an endpoint, which has to exist. -/
def recordValue (t : Tree) (now : Time) (name : String) (v : Value) : Outcome Patch :=
  (t.setValue now name v).getD (.refused t (.notFound name))

/-! ### Views -/

/-- A view is put under an identifier and published as a whole. -/
def changeView (t : Tree) (id : Uuid) (v : View) : Outcome View :=
  .loud (t.putView id v) (.update (.view id (.change v.change))) v

/-- **A view is added** under an identifier that was drawn for it. If the identifier is that of a
view already, the new one is published but that view stays and is the result. -/
def addView (t : Tree) (id : Uuid) (name : String) (references : List String) : Outcome View :=
  let v : View := { id, name, references }
  match t.view? id with
  | none => t.changeView id v
  | some present => .loud t (.update (.view id (.change v.change))) present

/-- **A view is added** under an identifier that is given. -/
def addViewAs (t : Tree) (id : Uuid) (name : String) (references : List String) : Outcome View :=
  if t.views.contains id then .refused t (.duplicate id.text)
  else t.changeView id { id, name, references }

/-- **A view is removed.** -/
def removeView (t : Tree) (id : Uuid) : Outcome View :=
  match t.view? id with
  | none => .refused t (.notFound id.text)
  | some v => .loud (t.withoutView id) (.delete (.viewTombstone id)) v

/-- A view that is there gets a new name. -/
def renameView (t : Tree) (id : Uuid) (name : String) : Option (Outcome View) :=
  (t.view? id).map fun v => t.changeView id { v with name }

/-- A view that is there gets new references. -/
def setReferences (t : Tree) (id : Uuid) (references : List String) : Option (Outcome View) :=
  (t.view? id).map fun v => t.changeView id { v with references }

/-! ### Everything -/

/-- The patch that deletes all devices and views. -/
def resetPatch (t : Tree) : Patch where
  devices := .ofList (t.devices.keys.map fun ip => (ip, .tombstone))
  views := .ofList (t.views.keys.map fun id => (id.text, .tombstone))

/-- **Everything is removed**, and one patch tells of it. -/
def reset (t : Tree) : Outcome Patch :=
  .loud { t with devices := ∅, views := ∅ } (.delete t.resetPatch) t.resetPatch

end Fleet.Tree
