import Fleet.Text.Numeral

/-!
# Universally unique identifiers

A `Uuid` is a number of 128 bits; its order is the order of these numbers. It is written as 32
lower-case hexadecimal digits in groups of 8, 4, 4, 4 and 12 with hyphens between them.

Four forms are read: the digits without hyphens, the grouped form, the grouped form between
braces, and the grouped form after `urn:uuid:`. Letters may have either case throughout.
-/

namespace Fleet

/-- **A universally unique identifier.** -/
structure Uuid where
  /-- The identifier as a number. -/
  bits : BitVec 128
deriving DecidableEq

namespace Uuid

instance : Ord Uuid := ⟨fun a b => compare a.bits b.bits⟩

instance : Std.TransOrd Uuid where
  eq_swap {a b} := Std.OrientedOrd.eq_swap (a := a.bits) (b := b.bits)
  isLE_trans {a b c} := Std.TransOrd.isLE_trans (a := a.bits) (b := b.bits) (c := c.bits)

instance : Std.LawfulEqOrd Uuid where
  compare_self {a} := Std.ReflOrd.compare_self (a := a.bits)
  eq_of_compare {a b} h := by
    cases a; cases b
    exact congrArg Uuid.mk (Std.LawfulEqOrd.eq_of_compare h)

/-! ### Fresh identifiers -/

/-- The random identifier (version 4, the standard variant) drawn as the given number: four bits
of it give way to the version and two to the variant. -/
def random (drawn : BitVec 128) : Uuid :=
  let versioned := (drawn &&& ~~~((0xF : BitVec 128) <<< 76)) ||| ((0x4 : BitVec 128) <<< 76)
  ⟨(versioned &&& ~~~((0x3 : BitVec 128) <<< 62)) ||| ((0x2 : BitVec 128) <<< 62)⟩

/-! ### Text -/

/-- The lengths of the groups of digits. -/
def groups : List Nat := [8, 4, 4, 4, 12]

/-- Put a hyphen between groups of the given lengths. -/
def hyphenate : List Nat → List Char → List Char
  | n :: m :: lengths, cs => cs.take n ++ '-' :: hyphenate (m :: lengths) (cs.drop n)
  | _, cs => cs

/-- The digits of groups of exactly the given lengths with a hyphen between them. -/
def unhyphenate? : List Nat → List Char → Option (List Char)
  | n :: m :: lengths, cs =>
    match cs.drop n with
    | '-' :: rest => (unhyphenate? (m :: lengths) rest).map (cs.take n ++ ·)
    | _ => none
  | [n], cs => if cs.length = n then some cs else none
  | [], cs => if cs.isEmpty then some cs else none

/-- The written form. -/
def text (u : Uuid) : String :=
  String.ofList (hyphenate groups (Text.hexadecimal 32 u.bits.toNat))

instance : ToString Uuid := ⟨text⟩

/-- Exactly 32 digits. -/
def ofDigits? (cs : List Char) : Option Uuid :=
  if cs.length = 32 then (Text.hexadecimal? cs).map fun n => ⟨BitVec.ofNat 128 n⟩ else none

/-- The grouped form. -/
def ofGroups? (cs : List Char) : Option Uuid :=
  (unhyphenate? groups cs).bind ofDigits?

/-- What stands before the grouped form in a resource name. -/
def urnScheme : List Char := "urn:uuid:".toList

/-- **Reading an identifier** in any of its four forms. -/
def ofText? (s : String) : Option Uuid :=
  let cs := s.toList
  if cs.head? = some '\x7b' ∧ cs.getLast? = some '\x7d' then ofGroups? cs.tail.dropLast
  else if (cs.take urnScheme.length).map Char.toLower = urnScheme then
    ofGroups? (cs.drop urnScheme.length)
  else (ofDigits? cs).or (ofGroups? cs)

end Uuid

end Fleet
