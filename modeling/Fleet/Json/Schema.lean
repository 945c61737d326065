import Fleet.Json.Reading
import Fleet.Uuid

/-!
# Reading structured data

Structured data are read from a `Node`: from a text in the order of the text, and from a plain
value in the order of the names (`Node.ofValue`). Reading stops at the first thing that does not
fit, so the order shows in which of two faults is reported. Only two reports can be told apart
(`Refusal`): a change that changes nothing, and everything else.

A *schema* lists the fields of a record in the order of declaration. A record is read

* from an object: each member fills the field of its name (or of the field's other name); a field
  may be filled only once, and members of other names are passed over, or refused if the schema is
  strict;
* from an array: the items fill the fields in their order, and there may be fewer items than
  fields, but not more.

What a missing field means is up to the record: it is read into a draft that starts out with the
defaults.
-/

namespace Fleet.Json

variable {α κ : Type}

/-- **Why data were refused.** -/
inductive Refusal where
  /-- A change that carries no field at all, which is not the same as a tombstone. -/
  | blankChange
  /-- Anything else: no JSON, a wrong kind of value, an unknown, repeated or missing member. -/
  | mismatch
deriving DecidableEq, Repr

/-- Something there must be. -/
def required (o : Option α) : Except Refusal α :=
  match o with
  | some a => .ok a
  | none => .error .mismatch

/-- What was read from a container that has to be closed. -/
def whenClosed (closed : Bool) (a : α) : Except Refusal α :=
  if closed then .ok a else .error .mismatch

namespace Node

/-! ### Single values -/

/-- Data of no particular structure. -/
def readValue (node : Node) : Except Refusal Value := required node.value?

/-- A text. -/
def readString : Node → Except Refusal String
  | string s => .ok s
  | _ => .error .mismatch

/-- A double; an integer stands for the nearest one. -/
def readFloat : Node → Except Refusal Float
  | number n => .ok n.toFloat
  | _ => .error .mismatch

/-- A natural number up to a limit, written as an integer. -/
def readNat (limit : Nat) : Node → Except Refusal Nat
  | number n => required (n.natural?.filter (· ≤ limit))
  | _ => .error .mismatch

/-- A time in seconds. -/
def readUInt64 (node : Node) : Except Refusal UInt64 :=
  (node.readNat (UInt64.size - 1)).map UInt64.ofNat

/-- The number of an endpoint. -/
def readUInt32 (node : Node) : Except Refusal UInt32 :=
  (node.readNat (UInt32.size - 1)).map UInt32.ofNat

/-- An identifier in any of its forms. -/
def readUuid (node : Node) : Except Refusal Uuid :=
  node.readString.bind fun s => required (Uuid.ofText? s)

/-- A value that may be absent: `null` says so. -/
def readOptional (read : Node → Except Refusal α) : Node → Except Refusal (Option α)
  | null => .ok none
  | node => (read node).map some

/-- The name of a choice without content, alone or as the name of a `null`. In a document that was
buffered before it is read, an empty object may stand for that `null`. -/
def readChoice (buffered : Bool) : Node → Except Refusal String
  | string s => .ok s
  | object [(name, null)] true => required name.text
  | object [(name, object [] true)] true =>
    if buffered then required name.text else .error .mismatch
  | _ => .error .mismatch

/-! ### Lists and maps -/

/-- Every item of an array. -/
def readItems (read : Node → Except Refusal α) : List Node → Except Refusal (List α)
  | [] => .ok []
  | item :: rest => do
    let a ← read item
    let as ← readItems read rest
    .ok (a :: as)

/-- A list. -/
def readList (read : Node → Except Refusal α) : Node → Except Refusal (List α)
  | array items closed => do whenClosed closed (← readItems read items)
  | _ => .error .mismatch

/-- Every member of an object, put into a map that is given; a later member replaces an earlier
one with the same key. -/
def readMembers [Ord κ] [Std.TransOrd κ] [Std.LawfulEqOrd κ] (key : Name → Except Refusal κ)
    (read : Node → Except Refusal α) (m : SortedMap κ α) :
    List (Name × Node) → Except Refusal (SortedMap κ α)
  | [] => .ok m
  | (name, node) :: rest => do
    let k ← key name
    let a ← read node
    readMembers key read (m.insert k a) rest

/-- A map, read from an object. -/
def readMap [Ord κ] [Std.TransOrd κ] [Std.LawfulEqOrd κ] (key : Name → Except Refusal κ)
    (read : Node → Except Refusal α) : Node → Except Refusal (SortedMap κ α)
  | object members closed => do whenClosed closed (← readMembers key read ∅ members)
  | _ => .error .mismatch

end Node

/-- A name as a key. -/
def Name.key (name : Name) : Except Refusal String := required name.text

/-- A name as the number of an endpoint: an integer literal in which no digit is escaped. -/
def Name.eidKey (name : Name) : Except Refusal UInt32 := required do
  let text ← name.text
  if name.escaped then none
  else
    let literal ← Literal.ofText? text.toList
    let n ← literal.number?
    let eid ← n.natural?
    if eid < UInt32.size then some (UInt32.ofNat eid) else none

/-! ### Records -/

/-- **A field of a record** that is read into a draft of type `ρ`. -/
structure Field (ρ : Type) where
  name : String
  /-- Read the field and put it into the draft. -/
  put : Node → ρ → Except Refusal ρ
  /-- Another name for the same field. -/
  otherName : Option String := none

/-- A field that is read by itself and then put into the draft. -/
def Field.of {ρ : Type} (name : String) (read : Node → Except Refusal α) (set : α → ρ → ρ)
    (otherName : Option String := none) : Field ρ where
  name := name
  put node draft := (read node).map fun a => set a draft
  otherName := otherName

/-- **The fields of a record** in the order of declaration, and whether other members are
refused. -/
structure Schema (ρ : Type) where
  fields : List (Field ρ)
  strict : Bool := false

namespace Schema

variable {ρ : Type}

/-- The field that a member of the given name fills. -/
def field? (s : Schema ρ) (name : String) : Option (Field ρ) :=
  s.fields.find? fun f => f.name = name ∨ f.otherName = some name

/-- The members of an object, in their order; `seen` are the fields that were filled before. -/
def readMembers (s : Schema ρ) (seen : List String) (draft : ρ) :
    List (Name × Node) → Except Refusal ρ
  | [] => .ok draft
  | (name, node) :: rest => do
    let name ← name.key
    match s.field? name with
    | none =>
      -- of a member that is passed over, only the form matters
      if s.strict ∨ ¬ node.wellFormed then .error .mismatch else s.readMembers seen draft rest
    | some f =>
      if f.name ∈ seen then .error .mismatch
      else do
        let draft ← f.put node draft
        s.readMembers (f.name :: seen) draft rest

/-- The items of an array, each for the next field. -/
def readItems (draft : ρ) : List (Field ρ) → List Node → Except Refusal ρ
  | _, [] => .ok draft
  | [], _ :: _ => .error .mismatch
  | f :: fields, node :: rest => do
    let draft ← f.put node draft
    readItems draft fields rest

/-- **A record**, from an object or an array. -/
def read (s : Schema ρ) (start : ρ) : Node → Except Refusal ρ
  | .object members closed => do whenClosed closed (← s.readMembers [] start members)
  | .array items closed => do whenClosed closed (← readItems start s.fields items)
  | _ => .error .mismatch

end Schema

/-! ### Where data are read from -/

/-- Read data from a text that holds nothing else. -/
def readText (read : Node → Except Refusal α) (text : String) : Except Refusal α := do
  let reading := Reading.ofText text
  let a ← read reading.root
  whenClosed reading.exact a

/-- Read data from a plain value. -/
def readFrom (read : Node → Except Refusal α) (v : Value) : Except Refusal α :=
  read (.ofValue v)

/-! ### Writing members -/

/-- A double as a document; one that is no number is written as `null`. -/
def ofFloat (x : Float) : Json :=
  match Number.ofFloat? x with
  | some n => .number n
  | none => .null

/-- A natural number of 64 bits as a document. -/
def ofUInt64 (n : UInt64) : Json := .number (.ofUInt64 n)

/-- A list as a document. -/
def ofList (write : α → Json) (as : List α) : Json := .array (as.map write)

/-- A map as a document, in key order. -/
def ofMap [Ord κ] (key : κ → String) (write : α → Json) (m : SortedMap κ α) : Json :=
  .object (m.entries.map fun p => (key p.1, write p.2))

/-- A member that is always written. -/
def member (name : String) (document : Json) : List (String × Json) := [(name, document)]

/-- A member that is written only if there is a value. -/
def member? (name : String) (write : α → Json) (o : Option α) : List (String × Json) :=
  match o with
  | some a => [(name, write a)]
  | none => []

/-- A member that is written only if it is not empty. -/
def memberMap [Ord κ] (name : String) (key : κ → String) (write : α → Json) (m : SortedMap κ α) :
    List (String × Json) :=
  if m.isEmpty then [] else [(name, ofMap key write m)]

end Fleet.Json
