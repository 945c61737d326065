import Fleet.Endpoint.Basic

/-!
# Devices

A device is a place in the network with an address and a name, and it owns endpoints under their
numbers. An operation on a device gives the device after it, and those that are made by its owner
also give the change that tells others about it.

A change that comes from others is applied in two steps. *Staging* looks at every entry of the
change, in the order of the keys and against the device as it is, and finds either what each entry
does or the first reason why the change cannot be applied. *Committing* does all of it and cannot
fail.
-/

namespace Fleet

open Patch (Entry EndpointChange DeviceChange)

/-- **A device.** -/
structure Device where
  ip : String
  name : String
  lastUpdate : Time
  endpoints : SortedMap Eid Endpoint
deriving DecidableEq

namespace Device

/-- A device without endpoints. -/
def create (now : Time) (ip name : String) : Except TreeError Device :=
  if ip = "" then .error .missingAddress else .ok ⟨ip, name, now, ∅⟩

/-! ### Endpoints of a device -/

/-- The endpoint of a number. -/
def endpoint? (d : Device) (eid : Eid) : Option Endpoint := d.endpoints.get? eid

/-- Whether there is an endpoint of the number. -/
def hasEndpoint (d : Device) (eid : Eid) : Bool := d.endpoints.contains eid

/-- The device with an endpoint in place of the one that had the number. -/
def put (d : Device) (eid : Eid) (e : Endpoint) : Device :=
  { d with endpoints := d.endpoints.insert eid e }

/-- The device without the endpoint of a number. -/
def without (d : Device) (eid : Eid) : Device := { d with endpoints := d.endpoints.erase eid }

/-- The device with an endpoint that belongs to it and is new. -/
def insertEndpoint (d : Device) (e : Endpoint) : Except TreeError Device :=
  if e.ip ≠ d.ip then .error (.foreignEndpoint e.name d.ip)
  else if d.hasEndpoint e.eid then .error (.duplicate e.name)
  else .ok (d.put e.eid e)

/-- The device without an endpoint, and that endpoint. -/
def takeEndpoint (d : Device) (eid : Eid) : Except TreeError (Device × Endpoint) :=
  match d.endpoint? eid with
  | some e => .ok (d.without eid, e)
  | none => .error (.notFound (Endpoint.fullName d.ip eid))

/-! ### What is said to others -/

/-- The name and the time of the device. -/
def headerChange (d : Device) : DeviceChange where
  name := some d.name
  lastUpdate := some d.lastUpdate

/-- **All there is to say about a device**: its header and the creation of every endpoint. -/
def creationChange (d : Device) : DeviceChange :=
  { d.headerChange with
    endpoints := .ofList (d.endpoints.entries.map fun p => (p.1.text, .change p.2.creationChange)) }

/-! ### Changes by the owner -/

/-- The device with a new time. -/
def touch (d : Device) (now : Time) : Device := { d with lastUpdate := now }

/-- The device with a new name and a new time. -/
def rename (d : Device) (now : Time) (name : String) : Device :=
  { d with name := name, lastUpdate := now }

/-- The device with a new endpoint, and the change that creates it elsewhere. -/
def createEndpoint (table : BoundsTable) (now : Time) (d : Device) (eid : Eid)
    (params : Endpoint.Params) : Except TreeError (Device × DeviceChange) :=
  if d.hasEndpoint eid then .error (.duplicate (Endpoint.fullName d.ip eid))
  else do
    let e ← Endpoint.create table now d.ip eid params
    .ok (d.put eid e, DeviceChange.withEndpoint {} eid (.change e.creationChange))

/-- The endpoint of a number, which there has to be. -/
def requiredEndpoint (d : Device) (eid : Eid) : Except TreeError Endpoint :=
  match d.endpoint? eid with
  | some e => .ok e
  | none => .error (.notFound (Endpoint.fullName d.ip eid))

/-- **A value is reported.** The time of the device moves along with that of the endpoint, so the
change carries the header of the device too. -/
def setValue (d : Device) (now : Time) (eid : Eid) (v : Value) :
    Except TreeError (Device × DeviceChange) := do
  let e ← d.requiredEndpoint eid
  let e := e.setValue now v
  let d := (d.put eid e).touch now
  .ok (d, d.headerChange.withEndpoint eid (.change e.stateChange))

/-- A bound of an endpoint is set; the header of the device stays out of the change. -/
def setBound (d : Device) (eid : Eid) (set : Endpoint → Except TreeError Endpoint) :
    Except TreeError (Device × DeviceChange) := do
  let e ← d.requiredEndpoint eid
  let e ← set e
  .ok (d.put eid e, DeviceChange.withEndpoint {} eid (.change e.stateChange))

/-- The least value of an endpoint is set. -/
def setMin (d : Device) (eid : Eid) (x : Float) : Except TreeError (Device × DeviceChange) :=
  d.setBound eid (·.setMin x)

/-- The greatest value of an endpoint is set. -/
def setMax (d : Device) (eid : Eid) (x : Float) : Except TreeError (Device × DeviceChange) :=
  d.setBound eid (·.setMax x)

/-! ### Changes by others -/

/-- The number that a key of a change denotes. -/
def requiredEid (key : String) : Except TreeError Eid :=
  match Eid.ofText? key with
  | some eid => .ok eid
  | none => .error (.badEid key)

/-- **What an entry does** to the endpoints of a device. -/
inductive Step where
  | remove (eid : Eid)
  | update (eid : Eid) (c : EndpointChange)
  | create (e : Endpoint)
deriving DecidableEq

/-- What a single entry does, for an endpoint of a known number. -/
def stageEntry (table : BoundsTable) (now : Time) (d : Device) (eid : Eid) :
    Entry EndpointChange → Except TreeError Step
  | .tombstone => .ok (.remove eid)
  | .change c =>
    if d.hasEndpoint eid then .ok (.update eid c)
    else (Endpoint.ofChange table now d.ip eid c).map .create

/-- What the entries do one after another; `seen` are the numbers of the entries before. -/
def stageEntries (table : BoundsTable) (now : Time) (d : Device) (seen : List Eid) :
    List (String × Entry EndpointChange) → Except TreeError (List Step)
  | [] => .ok []
  | (key, entry) :: rest => do
    let eid ← requiredEid key
    -- two keys may spell one number, as `7` and `07` do
    if eid ∈ seen then .error (.endpointTwice (Endpoint.fullName d.ip eid))
    else do
      let step ← stageEntry table now d eid entry
      let steps ← stageEntries table now d (eid :: seen) rest
      .ok (step :: steps)

/-- **What a change does to a device**, or the first reason why it cannot be applied. -/
def stage (table : BoundsTable) (now : Time) (d : Device) (c : DeviceChange) :
    Except TreeError (List Step) :=
  stageEntries table now d [] c.endpoints.entries

/-- One step. An endpoint that is changed is there unless another step removed it. -/
def Step.run (d : Device) : Step → Device
  | remove eid => d.without eid
  | update eid c =>
    match d.endpoint? eid with
    | some e => d.put eid (e.update c)
    | none => d
  | create e => d.put e.eid e

/-- The device with the name and the time that a change gives. -/
def updateHeader (d : Device) (c : DeviceChange) : Device :=
  { d with name := c.name.getD d.name, lastUpdate := c.lastUpdate.getD d.lastUpdate }

/-- **The device after a change** that was staged. -/
def commit (d : Device) (c : DeviceChange) (steps : List Step) : Device :=
  steps.foldl Step.run (d.updateHeader c)

/-- A change is applied, all of it or nothing. -/
def update (table : BoundsTable) (now : Time) (d : Device) (c : DeviceChange) :
    Except TreeError Device :=
  (d.stage table now c).map (d.commit c)

/-- A new device that a change describes. The change has to give a name and a time. -/
def ofChange (table : BoundsTable) (now : Time) (ip : String) (c : DeviceChange) :
    Except TreeError Device :=
  match c.name, c.lastUpdate with
  | some name, some lastUpdate => do
    let d ← create lastUpdate ip name
    -- the header is applied once more, which changes nothing
    d.update table now c
  | _, _ => .error (.deviceWithoutHeader ip)

/-! ### Deletions by others -/

/-- The numbers that the entries delete. Every key has to be a number, also one that deletes
nothing. -/
def tombstones : List (String × Entry EndpointChange) → Except TreeError (List Eid)
  | [] => .ok []
  | (key, entry) :: rest => do
    let eid ← requiredEid key
    let eids ← tombstones rest
    .ok (if entry.isTombstone then eid :: eids else eids)

/-- **A deletion is applied**: the endpoints with a tombstone are removed if they are there, and
nothing else in the change matters. -/
def prune (d : Device) (c : DeviceChange) : Except TreeError Device :=
  (tombstones c.endpoints.entries).map (·.foldl without d)

end Device

end Fleet
