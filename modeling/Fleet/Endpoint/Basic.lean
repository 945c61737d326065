import Fleet.Patch.Basic

/-!
# Endpoints

An endpoint is one quantity that a device reports or lets others set. What it is (its type,
function, description and unit) is fixed when it is created; its value, the time of that value and,
for a sensor, its bounds change.

Every operation here is a function from an endpoint to an endpoint. What a change says to others is
`stateChange`, which gives the value and the bounds as they are, and `creationChange`, which
describes the endpoint so that it can be created elsewhere.
-/

namespace Fleet

/-- What only sensors have. -/
structure Sensor where
  bounds : Bounds
  unit : Option String
deriving DecidableEq

/-- **The function of an endpoint** with what belongs to it. -/
inductive Role where
  | sensor (s : Sensor)
  | actor
  | infrastructure
deriving DecidableEq

namespace Role

/-- The function without what belongs to it. -/
def function : Role → Function
  | sensor _ => .sensor
  | actor => .actor
  | infrastructure => .infrastructure

/-- What only sensors have. -/
def sensor? : Role → Option Sensor
  | sensor s => some s
  | _ => none

end Role

/-- **An endpoint** of the device at `ip`. -/
structure Endpoint where
  ip : String
  eid : Eid
  typeCode : UInt8
  description : String
  lastValue : Value
  lastUpdate : Time
  role : Role
deriving DecidableEq

open Patch (EndpointChange)

/-- The bounds with those that a change gives. -/
def Bounds.update (b : Bounds) (c : EndpointChange) : Bounds :=
  ⟨c.minvalue.getD b.min, c.maxvalue.getD b.max⟩

/-- The role with the bounds that a change gives, if it has bounds. -/
def Role.update (role : Role) (c : EndpointChange) : Role :=
  match role with
  | .sensor s => .sensor { s with bounds := s.bounds.update c }
  | role => role

namespace Endpoint

/-! ### Creation -/

/-- The bounds of a sensor: those of its description if it has both, else those of the table. -/
def Params.bounds (p : Params) (table : BoundsTable) (eid : Eid) : Bounds :=
  match p.minvalue, p.maxvalue with
  | some min, some max => ⟨min, max⟩
  | _, _ => table.lookup eid

/-- The role that a description gives to an endpoint of a function. -/
def Params.role (p : Params) (table : BoundsTable) (eid : Eid) : Function → Role
  | .sensor => .sensor ⟨p.bounds table eid, p.unit⟩
  | .actor => .actor
  | .infrastructure => .infrastructure

/-- **A new endpoint** as its description says, with the value zero. -/
def create (table : BoundsTable) (now : Time) (ip : String) (eid : Eid) (params : Params) :
    Except TreeError Endpoint :=
  if ip = "" then .error .missingAddress
  else do
    let typeCode ← params.requiredType
    let function ← params.requiredFunction
    .ok { ip, eid, typeCode, description := params.description.getD "", lastValue := .zero,
          lastUpdate := now, role := params.role table eid function }

/-! ### Fields -/

/-- The full name of the endpoint. -/
def name (e : Endpoint) : String := fullName e.ip e.eid

/-- The function of the endpoint. -/
def function (e : Endpoint) : Function := e.role.function

/-- Whether the endpoint is a sensor. -/
def isSensor (e : Endpoint) : Bool := e.role.sensor?.isSome

/-- The least value of a sensor. -/
def minvalue (e : Endpoint) : Option Float := e.role.sensor?.map (·.bounds.min)

/-- The greatest value of a sensor. -/
def maxvalue (e : Endpoint) : Option Float := e.role.sensor?.map (·.bounds.max)

/-- The unit of a sensor. -/
def unit (e : Endpoint) : Option String := e.role.sensor?.bind (·.unit)

/-- The seconds since the last value. -/
def age (e : Endpoint) (now : Time) : UInt64 := now.since e.lastUpdate

/-- The age up to which an endpoint counts as alive, in seconds. -/
def staleAfter : UInt64 := 600

/-- Whether the last value is too old. -/
def isStale (e : Endpoint) (now : Time) : Bool := staleAfter < e.age now

/-! ### What is said to others -/

/-- The description under which the endpoint can be created again. -/
def params (e : Endpoint) : Params :=
  { Params.ofFunction e.function e.typeCode e.description with
    minvalue := e.minvalue, maxvalue := e.maxvalue, unit := e.unit }

/-- The value, its time and the bounds, as they are. -/
def stateChange (e : Endpoint) : EndpointChange where
  lastUpdate := some e.lastUpdate
  lastValue := some e.lastValue
  minvalue := e.minvalue
  maxvalue := e.maxvalue

/-- The value, its time and the description. -/
def creationChange (e : Endpoint) : EndpointChange where
  lastUpdate := some e.lastUpdate
  lastValue := some e.lastValue
  params := some e.params

/-! ### Changes -/

/-- The endpoint with a value that is reported now. -/
def setValue (e : Endpoint) (now : Time) (v : Value) : Endpoint :=
  { e with lastValue := v, lastUpdate := now }

/-- A change of the bounds, which only a sensor has; `field` is what would be changed. -/
def mapBounds (e : Endpoint) (field : String) (f : Bounds → Bounds) : Except TreeError Endpoint :=
  match e.role with
  | .sensor s => .ok { e with role := .sensor { s with bounds := f s.bounds } }
  | _ => .error (.sensorOnly field e.name e.function)

/-- The sensor with another least value. -/
def setMin (e : Endpoint) (x : Float) : Except TreeError Endpoint :=
  e.mapBounds "minvalue" fun b => { b with min := x }

/-- The sensor with another greatest value. -/
def setMax (e : Endpoint) (x : Float) : Except TreeError Endpoint :=
  e.mapBounds "maxvalue" fun b => { b with max := x }

/-- **The endpoint after a change**: the value, its time and the bounds are those of the change as
far as it gives them. A description in the change does not matter, because what an endpoint is
never changes. -/
def update (e : Endpoint) (c : EndpointChange) : Endpoint :=
  { e with
    lastValue := c.lastValue.getD e.lastValue
    lastUpdate := c.lastUpdate.getD e.lastUpdate
    role := e.role.update c }

/-- A new endpoint that a change describes, with the values that the change gives. -/
def ofChange (table : BoundsTable) (now : Time) (ip : String) (eid : Eid) (c : EndpointChange) :
    Except TreeError Endpoint :=
  match c.params with
  | none => .error (.endpointWithoutParams (fullName ip eid))
  | some params => (create table now ip eid params).map (·.update c)

end Endpoint

end Fleet
