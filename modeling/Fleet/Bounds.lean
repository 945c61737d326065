import Fleet.Json.Schema

/-!
# Bounds of sensors

A sensor that is announced without both of its bounds takes them from a `BoundsTable`: a pair of
bounds per endpoint number, and one more for every other number.

`BoundsTable.standard` covers the standard endpoint numbers. A table that is read from a document
has the entries of that document and no others; only its fallback is the standard one if the
document has none.
-/

namespace Fleet

open Json (Node Refusal)

/-- The number of an endpoint, unique within its device. -/
abbrev Eid := UInt32

/-- The number in decimal digits. -/
def Eid.text (eid : Eid) : String := String.ofList (Decimal.digits eid.toNat)

/-! ### Bounds -/

/-- **The least and the greatest value** that a sensor is expected to report. -/
structure Bounds where
  min : Float
  max : Float
deriving DecidableEq

namespace Bounds

/-- Bounds that are being read. -/
structure Draft where
  min : Option Float
  max : Option Float

/-- The fields of bounds. -/
def schema : Json.Schema Draft where
  fields := [
    .of "min" Node.readFloat fun x draft => { draft with min := some x },
    .of "max" Node.readFloat fun x draft => { draft with max := some x }]

/-- Reading bounds, both of which must be there. -/
def read (node : Node) : Except Refusal Bounds := do
  let draft ← schema.read ⟨none, none⟩ node
  .ok ⟨← Json.required draft.min, ← Json.required draft.max⟩

/-- Bounds as a document. -/
def toJson (b : Bounds) : Json := .object [("min", .ofFloat b.min), ("max", .ofFloat b.max)]

end Bounds

/-! ### The table -/

/-- **Bounds by endpoint number.** -/
structure BoundsTable where
  /-- The numbers with bounds of their own. -/
  perEid : SortedMap Eid Bounds
  /-- The bounds for all other numbers. -/
  fallback : Bounds
deriving DecidableEq

namespace BoundsTable

/-- From 0 to 100. -/
def standardFallback : Bounds := ⟨0, 100⟩

/-- **The bounds of the standard endpoint numbers**: 2 counts watts, 3 is a temperature, 4 a
button, 5 the humidity, 44 and 45 are the temperatures at an inlet and an outlet. -/
def standard : BoundsTable where
  perEid := .ofList
    [(2, ⟨0, 3600⟩), (3, ⟨10, 35⟩), (4, ⟨0, 1⟩), (5, ⟨0, 100⟩), (44, ⟨0, 100⟩), (45, ⟨0, 100⟩)]
  fallback := standardFallback

/-- A table in which no number has bounds of its own. -/
def ofFallback (fallback : Bounds) : BoundsTable := ⟨∅, fallback⟩

/-- The bounds of a number. -/
def lookup (table : BoundsTable) (eid : Eid) : Bounds := (table.perEid.get? eid).getD table.fallback

/-- The table in which a number has the given bounds. -/
def insert (table : BoundsTable) (eid : Eid) (bounds : Bounds) : BoundsTable :=
  { table with perEid := table.perEid.insert eid bounds }

/-- The fields of a table. -/
def schema : Json.Schema BoundsTable where
  fields := [
    .of "per_eid" (Node.readMap Json.Name.eidKey Bounds.read) fun m table =>
      { table with perEid := m },
    .of "fallback" Bounds.read fun b table => { table with fallback := b }]

/-- Reading a table. -/
def read (node : Node) : Except Refusal BoundsTable :=
  schema.read (ofFallback standardFallback) node

/-- A table as a document. -/
def toJson (table : BoundsTable) : Json :=
  .object [("per_eid", .ofMap Eid.text Bounds.toJson table.perEid),
    ("fallback", table.fallback.toJson)]

end BoundsTable

end Fleet
