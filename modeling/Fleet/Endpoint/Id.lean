import Fleet.Bounds
import Fleet.Text.Blank

/-!
# Names of endpoints

An endpoint is named in full by the address of its device and its number, with a dot between them.
The address may contain dots itself, so a name is taken apart at its last dot.

Numbers are written in decimal digits, with at most one `+` before them. Where a number is a key of
a document, blanks around it do not count (`Eid.ofText?`); after the dot of a full name they do
(`Eid.ofExact?`).
-/

namespace Fleet

/-- The greatest number of an endpoint. -/
def Eid.max : Nat := UInt32.size - 1

/-- A number without blanks. -/
def Eid.ofExact? (cs : List Char) : Option Eid := (Text.signless? Eid.max cs).map UInt32.ofNat

/-- **A number**, perhaps between blanks. -/
def Eid.ofText? (s : String) : Option Eid := Eid.ofExact? (Text.trim s.toList)

namespace Endpoint

/-- What stands between the address and the number. -/
def separator : Char := '.'

/-- **The full name of an endpoint.** -/
def fullName (ip : String) (eid : Eid) : String :=
  String.ofList (ip.toList ++ separator :: Decimal.digits eid.toNat)

/-- The text before and after the last separator. -/
def splitLast : List Char → Option (List Char × List Char)
  | [] => none
  | c :: rest =>
    match splitLast rest with
    | some (before, after) => some (c :: before, after)
    | none => if c = separator then some ([], rest) else none

/-- **The address and the number in a full name.** -/
def splitName? (name : String) : Option (String × Eid) := do
  let (ip, number) ← splitLast name.toList
  let eid ← Eid.ofExact? number
  some (String.ofList ip, eid)

end Endpoint

end Fleet
