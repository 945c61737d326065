import Fleet.Json.Schema

/-!
# What an endpoint does

An endpoint reports a quantity (`sensor`), can be acted upon (`actor`), or keeps the network
running (`infrastructure`). Only sensors have bounds and a unit.
-/

namespace Fleet

/-- **What an endpoint does.** -/
inductive Function where
  | sensor
  | actor
  | infrastructure
deriving DecidableEq, Repr

namespace Function

/-- The name of the function. -/
def name : Function → String
  | sensor => "sensor"
  | actor => "actor"
  | infrastructure => "infrastructure"

instance : ToString Function := ⟨name⟩

/-- The function of a name, which has no other spelling. -/
def ofName? (s : String) : Option Function :=
  if s = "sensor" then some sensor
  else if s = "actor" then some actor
  else if s = "infrastructure" then some infrastructure
  else none

/-- Reading a function as a choice of its own. -/
def read (node : Json.Node) : Except Json.Refusal Function :=
  (node.readChoice false).bind fun s => Json.required (ofName? s)

/-- The function as a document. -/
def toJson (f : Function) : Json := .string f.name

end Function

end Fleet
