import Fleet.Decimal.Layout
import Fleet.Text.Numeral

/-!
# Socket addresses

An IP address of either version with a port. Version 4 is four decimal numbers with dots between
them, none with a leading zero. Version 6 stands between brackets: eight groups of hexadecimal
digits with colons between them, of which `::` stands for one or more that are zero and the last
two may be written as an address of version 4; a zone may follow after `%`.

An address is written in its canonical form: groups without leading zeros, `::` for the longest run
of at least two zero groups (the first of several), and an address of version 4 that is mapped into
version 6 with its decimal numbers.

The readers take a piece from the front of a text and give what is left.
-/

namespace Fleet.Sync

/-- **An IP address with a port.** -/
inductive Address where
  /-- Four numbers below 256. -/
  | v4 (octets : List Nat) (port : Nat)
  /-- Eight numbers below 65536, and a zone that is zero if there is none. -/
  | v6 (groups : List Nat) (zone port : Nat)
deriving DecidableEq, Repr

namespace Address

/-! ### Reading -/

/-- What a reader finds at the front of a text, and the rest of the text. -/
abbrev Reader (α : Type) := List Char → Option (α × List Char)

/-- A given character. -/
def given (c : Char) : Reader Unit
  | [] => none
  | d :: rest => if d = c then some ((), rest) else none

/-- The longest run of digits. -/
def digits (digit? : Char → Option Nat) : List Char → List Nat × List Char
  | [] => ([], [])
  | c :: rest =>
    match digit? c with
    | some d =>
      let (ds, rest) := digits digit? rest
      (d :: ds, rest)
    | none => ([], c :: rest)

/-- A number that is the longest run of decimal digits, up to a limit. -/
def number (limit : Nat) : Reader Nat := fun cs =>
  match digits Text.decimalDigit? cs with
  | ([], _) => none
  | (ds, rest) =>
    let n := Text.ofDigits 10 ds
    if n ≤ limit then some (n, rest) else none

/-- One of the numbers of version 4: up to three digits, without a leading zero. -/
def octet : Reader Nat := fun cs =>
  match digits Text.decimalDigit? cs with
  | ([], _) => none
  | (d :: ds, rest) =>
    let n := Text.ofDigits 10 (d :: ds)
    if ds.length ≤ 2 ∧ (d = 0 → ds = []) ∧ n ≤ 255 then some (n, rest) else none

/-- The numbers of version 4 after the first. -/
def moreOctets : Nat → Reader (List Nat)
  | 0, cs => some ([], cs)
  | n + 1, cs => do
    let (_, cs) ← given '.' cs
    let (o, cs) ← octet cs
    let (os, cs) ← moreOctets n cs
    some (o :: os, cs)

/-- The numbers of version 4. -/
def octets : Reader (List Nat) := fun cs => do
  let (o, cs) ← octet cs
  let (os, cs) ← moreOctets 3 cs
  some (o :: os, cs)

/-- A group of version 6: up to four digits. -/
def group : Reader Nat := fun cs =>
  match digits Text.hexDigit? cs with
  | ([], _) => none
  | (ds, rest) => if ds.length ≤ 4 then some (Text.ofDigits 16 ds, rest) else none

/-- A piece that is not the first one and so stands after a colon. -/
def afterColon {α : Type} (first : Bool) (read : Reader α) : Reader α := fun cs =>
  if first then read cs else (given ':' cs).bind fun p => read p.2

/-- The two groups that four numbers of version 4 stand for. -/
def groupsOfOctets : List Nat → List Nat
  | [a, b, c, d] => [256 * a + b, 256 * c + d]
  | _ => []

/-- Up to `n` groups, and whether the last two were written as version 4. -/
def groups (first : Bool) : Nat → List Char → List Nat × Bool × List Char
  | 0, cs => ([], false, cs)
  | n + 1, cs =>
    -- version 4 takes the place of two groups, so it does not fit into the last one
    match if n = 0 then none else afterColon first octets cs with
    | some (os, rest) => (groupsOfOctets os, true, rest)
    | none =>
      match afterColon first group cs with
      | some (g, rest) =>
        let (gs, mixed, rest) := groups false n rest
        (g :: gs, mixed, rest)
      | none => ([], false, cs)

/-- The eight groups of version 6. -/
def allGroups : Reader (List Nat) := fun cs =>
  let (head, mixed, cs) := groups true 8 cs
  if head.length = 8 then some (head, cs)
  else if mixed then none
  else do
    let (_, cs) ← given ':' cs
    let (_, cs) ← given ':' cs
    -- at least one group is left to the zeros
    let (tail, _, cs) := groups true (7 - head.length) cs
    some (head ++ List.replicate (8 - head.length - tail.length) 0 ++ tail, cs)

/-- A zone, if there is one. -/
def zone : Reader Nat := fun cs =>
  match (given '%' cs).bind fun p => number (UInt32.size - 1) p.2 with
  | some (n, rest) => some (n, rest)
  | none => some (0, cs)

/-- A port after its colon. -/
def port : Reader Nat := fun cs => (given ':' cs).bind fun p => number (UInt16.size - 1) p.2

/-- An address of version 4. -/
def readV4 : Reader Address := fun cs => do
  let (os, cs) ← octets cs
  let (p, cs) ← port cs
  some (v4 os p, cs)

/-- An address of version 6. -/
def readV6 : Reader Address := fun cs => do
  let (_, cs) ← given '[' cs
  let (gs, cs) ← allGroups cs
  let (z, cs) ← zone cs
  let (_, cs) ← given ']' cs
  let (p, cs) ← port cs
  some (v6 gs z p, cs)

/-- **The address that a text denotes.** -/
def ofText? (s : String) : Option Address :=
  match (readV4 s.toList).or (readV6 s.toList) with
  | some (a, []) => some a
  | _ => none

/-! ### Writing -/

/-- Numbers of version 4 with dots between them. -/
def octetsText (os : List Nat) : String :=
  ".".intercalate (os.map fun o => String.ofList (Decimal.digits o))

/-- A group without leading zeros. -/
def groupText (g : Nat) : String :=
  String.ofList (Text.hexadecimal (if g < 16 then 1 else if g < 256 then 2 else if g < 4096 then 3
    else 4) g)

/-- Groups with colons between them. -/
def groupsText (gs : List Nat) : String := ":".intercalate (gs.map groupText)

/-- Where a longest run of zero groups starts, and its length. `place` is that of the first
group, `run` the zeros right before it, `best` the longest run so far. -/
def longestZeros (place run : Nat) (best : Nat × Nat) : List Nat → Nat × Nat
  | [] => best
  | g :: gs =>
    if g = 0 then
      let run := run + 1
      longestZeros (place + 1) run (if best.2 < run then (place + 1 - run, run) else best) gs
    else longestZeros (place + 1) 0 best gs

/-- The groups of version 6 in canonical form. -/
def v6Text (gs : List Nat) : String :=
  match gs with
  | [0, 0, 0, 0, 0, 0xffff, a, b] => "::ffff:" ++ octetsText [a / 256, a % 256, b / 256, b % 256]
  | _ =>
    let (start, length) := longestZeros 0 0 (0, 0) gs
    if 1 < length then
      groupsText (gs.take start) ++ "::" ++ groupsText (gs.drop (start + length))
    else groupsText gs

/-- **The address in canonical form.** -/
def text : Address → String
  | v4 os p => octetsText os ++ ":" ++ String.ofList (Decimal.digits p)
  | v6 gs z p =>
    let zoneText := if z = 0 then "" else "%" ++ String.ofList (Decimal.digits z)
    "[" ++ v6Text gs ++ zoneText ++ "]:" ++ String.ofList (Decimal.digits p)

end Address

end Fleet.Sync
