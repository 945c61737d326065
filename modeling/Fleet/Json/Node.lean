import Fleet.Json.Value

/-!
# What reading a text finds

A `Node` is what a reader has in front of it: a document in which every part has already been
judged, but nothing has been rejected yet. Two things can be wrong with a part.

* It may be **unfit**: well-formed text that stands for no value, because a number is too large, a
  string holds half of a surrogate pair, or brackets nest too deep. Such a part may be passed over,
  but not read.
* The text may **break off**: from some point on it is no JSON. What was found before that point is
  kept, every container around it is marked as not closed, and where a value was due there is
  `broken`. Such a part may not even be passed over.

Keeping the faults in the tree lets structured data be read from a text in the order of the text,
so that of two faults the first one counts. A plain value is a node without faults
(`Node.ofJson`), and its members are read in the order of their names.
-/

namespace Fleet.Json

/-- **The name of a member** as it was found. -/
structure Name where
  /-- The name, unless it holds half of a surrogate pair. -/
  text : Option String
  /-- Whether some character of it was written as an escape. -/
  escaped : Bool
deriving DecidableEq, Repr

/-- **A part of a text that is being read.** -/
inductive Node where
  | null
  | bool (b : Bool)
  | number (n : Number)
  | string (s : String)
  /-- The items of an array, and whether it was closed. -/
  | array (items : List Node) (closed : Bool)
  /-- The members of an object in the order of the text, and whether it was closed. -/
  | object (members : List (Name × Node)) (closed : Bool)
  /-- Well-formed, but no value. -/
  | unfit
  /-- No JSON from here on. -/
  | broken

namespace Node

instance : Inhabited Node := ⟨null⟩

/-- A string as a value. -/
def ofName (name : Name) : Node :=
  match name.text with
  | some s => string s
  | none => unfit

/-- Whether the part is well-formed from end to end, so that it may be passed over. -/
def wellFormed : Node → Bool
  | array _ closed => closed
  | object _ closed => closed
  | broken => false
  | _ => true

mutual

/-- **The document that the part denotes**, if nothing in it is at fault. -/
def json? : Node → Option Json
  | null => some .null
  | bool b => some (.bool b)
  | number n => some (.number n)
  | string s => some (.string s)
  | array items closed => if closed then (jsonItems? items).map .array else none
  | object members closed => if closed then (jsonMembers? members).map .object else none
  | unfit => none
  | broken => none

/-- The documents that the items denote. -/
def jsonItems? : List Node → Option (List Json)
  | [] => some []
  | item :: rest => do
    let item ← item.json?
    let rest ← jsonItems? rest
    some (item :: rest)

/-- The members that the members denote. -/
def jsonMembers? : List (Name × Node) → Option (List (String × Json))
  | [] => some []
  | (name, value) :: rest => do
    let name ← name.text
    let value ← value.json?
    let rest ← jsonMembers? rest
    some ((name, value) :: rest)

end

/-- The plain value that the part denotes, if nothing in it is at fault. -/
def value? (node : Node) : Option Value := node.json?.map Value.ofJson

mutual

/-- **A document as a reader finds it**: whole, and without faults. -/
def ofJson : Json → Node
  | .null => null
  | .bool b => bool b
  | .number n => number n
  | .string s => string s
  | .array items => array (ofItems items) true
  | .object members => object (ofMembers members) true

/-- The items of a document. -/
def ofItems : List Json → List Node
  | [] => []
  | item :: rest => ofJson item :: ofItems rest

/-- The members of a document. -/
def ofMembers : List (String × Json) → List (Name × Node)
  | [] => []
  | (name, value) :: rest => (⟨some name, false⟩, ofJson value) :: ofMembers rest

end

/-- A plain value as a reader finds it. -/
def ofValue (v : Value) : Node := ofJson v.json

end Node

end Fleet.Json
