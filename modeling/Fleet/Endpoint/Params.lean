import Fleet.Endpoint.Function
import Fleet.Endpoint.Id
import Fleet.Error

/-!
# Descriptions of endpoints

A description (`Endpoint.Params`) says what an endpoint is: its type and function, a text, and for
a sensor its bounds and unit. It is what a discovery run announces and what a patch carries when it
creates an endpoint. Every part of it may be missing and the type may be any data, so that whoever
creates the endpoint can say what is wrong with it.

The type is a number from 0 to 255; some devices report it as a text.
-/

namespace Fleet.Endpoint

open Json (Node Refusal)

/-- **The description of an endpoint.** -/
structure Params where
  typeCode : Option Value := none
  function : Option String := none
  description : Option String := none
  minvalue : Option Float := none
  maxvalue : Option Float := none
  unit : Option String := none
  /-- The name for the device, if the endpoint is its first one. -/
  name : Option String := none
deriving DecidableEq

namespace Params

/-! ### Making descriptions -/

/-- The description of an endpoint of a given function and type. -/
def ofFunction (function : Function) (typeCode : UInt8) (description : String) : Params where
  typeCode := some (.number (.ofUInt64 typeCode.toUInt64))
  function := some function.name
  description := some description

/-- A sensor. -/
def sensor (typeCode : UInt8) (description : String) : Params :=
  ofFunction .sensor typeCode description

/-- An actor. -/
def actor (typeCode : UInt8) (description : String) : Params :=
  ofFunction .actor typeCode description

/-- A part of the infrastructure. -/
def infrastructure (typeCode : UInt8) (description : String) : Params :=
  ofFunction .infrastructure typeCode description

/-- The description with both bounds. -/
def withBounds (p : Params) (minvalue maxvalue : Float) : Params :=
  { p with minvalue := some minvalue, maxvalue := some maxvalue }

/-- The description with a unit. -/
def withUnit (p : Params) (unit : String) : Params := { p with unit := some unit }

/-- The description with a name for the device. -/
def withDeviceName (p : Params) (name : String) : Params := { p with name := some name }

/-! ### What a description must say -/

/-- The type that some data denote: an integer from 0 to 255, or a text of such a number. -/
def typeOf? (raw : Value) : Option UInt8 :=
  match raw.json with
  | .number n => (n.natural?.filter (· ≤ 255)).map UInt8.ofNat
  | .string s => (Text.signless? 255 (Text.trim s.toList)).map UInt8.ofNat
  | _ => none

/-- The type in the description. -/
def requiredType (p : Params) : Except TreeError UInt8 :=
  match p.typeCode with
  | none => .error .missingType
  | some raw =>
    match typeOf? raw with
    | some code => .ok code
    | none => .error (.badType raw)

/-- The function in the description. -/
def requiredFunction (p : Params) : Except TreeError Function :=
  match p.function with
  | none => .error .missingFunction
  | some name =>
    match Function.ofName? name with
    | some function => .ok function
    | none => .error (.unknownFunction name)

/-! ### As documents -/

/-- The fields of a description. -/
def fields : List (Json.Field Params) := [
  .of "type" (Node.readOptional Node.readValue) fun v p => { p with typeCode := v },
  .of "function" (Node.readOptional Node.readString) fun s p => { p with function := s },
  .of "description" (Node.readOptional Node.readString) fun s p => { p with description := s },
  .of "minvalue" (Node.readOptional Node.readFloat) fun x p => { p with minvalue := x },
  .of "maxvalue" (Node.readOptional Node.readFloat) fun x p => { p with maxvalue := x },
  .of "unit" (Node.readOptional Node.readString) fun s p => { p with unit := s },
  .of "name" (Node.readOptional Node.readString) fun s p => { p with name := s }]

/-- Reading a description, all of which may be missing. -/
def read (node : Node) : Except Refusal Params := Json.Schema.read ⟨fields, false⟩ {} node

/-- A description as a document, without what is missing. -/
def toJson (p : Params) : Json := .object <|
  Json.member? "type" Value.json p.typeCode ++
  Json.member? "function" Json.string p.function ++
  Json.member? "description" Json.string p.description ++
  Json.member? "minvalue" Json.ofFloat p.minvalue ++
  Json.member? "maxvalue" Json.ofFloat p.maxvalue ++
  Json.member? "unit" Json.string p.unit ++
  Json.member? "name" Json.string p.name

end Params

end Fleet.Endpoint
