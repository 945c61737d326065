import Fleet.Decimal.Layout
import Fleet.Text.Numeral

/-!
# Numbers of JSON

A plain JSON number is an integer of at most 64 bits or a finite double; the two are never
confused, so `1` and `1.0` are different numbers.

## Reading

A literal without fraction and exponent is an integer if it fits: from `0` to `2 ^ 64 - 1`, or from
`-2 ^ 63` to `-1`. Every other literal is a double, `-0` included. It is read in two roundings and
not in one: leading digits form an integer *significand* as long as it stays below `2 ^ 64`, and
the significand is then multiplied with or divided by the power of ten that is left
(`scaled?`). Each of the two operations rounds to nearest, so a literal of many digits may come out
one unit in the last place away from the nearest double. `Number.ReadsBack` says of a double that
this does not happen to its own written form.

A literal that is too large for a double is no number.

## Writing

Integers are written plainly and doubles by the fewest digits that read back, positionally from
`1e-5` up to but not including `1e16`.
-/

namespace Fleet.Json

open Decimal (Layout)

/-- The integers of 64 bits, with or without a sign: from `-2 ^ 63` to `2 ^ 64 - 1`. -/
abbrev Fits (n : Int) : Prop := -0x8000000000000000 ≤ n ∧ n < 0x10000000000000000

/-- **A plain JSON number.** -/
inductive Number where
  /-- An integer of 64 bits. -/
  | int (n : Int) (fits : Fits n)
  /-- A double that is neither infinite nor undefined. -/
  | float (x : Float) (finite : x.isFinite = true)
deriving DecidableEq

/-- **Doubles are written** positionally from `1e-5` up to but not including `1e16`. -/
def floatLayout : Layout := ⟨-5, 15⟩

namespace Number

/-- The integer zero. -/
def zero : Number := .int 0 (by decide)

/-- A natural number of 64 bits. -/
def ofUInt64 (n : UInt64) : Number :=
  .int n.toNat ⟨by omega, by have := n.toNat_lt; omega⟩

/-- A double, if it is a number. -/
def ofFloat? (x : Float) : Option Number :=
  if finite : x.isFinite = true then some (.float x finite) else none

/-- The nearest double. -/
def toFloat : Number → Float
  | .int n _ => Float.ofInt n
  | .float x _ => x

/-- The value of an integer that is not negative. -/
def natural? : Number → Option Nat
  | .int (.ofNat n) _ => some n
  | _ => none

/-- The written form. -/
def text : Number → List Char
  | .int n _ => (if n < 0 then ['-'] else []) ++ Decimal.digits n.natAbs
  | .float x _ => floatLayout.text x

/-- Whether two numbers are equal as numbers of their kind: doubles compare by value, so the two
zeros agree, and an integer agrees with no double. -/
def agrees : Number → Number → Bool
  | .int m _, .int n _ => m == n
  | .float x _, .float y _ => x == y
  | _, _ => false

end Number

/-! ### Literals -/

/-- **A number literal**, taken apart: its sign, the digits before and after the point, and the
exponent if there is one. -/
structure Literal where
  negative : Bool
  whole : List Nat
  fraction : List Nat
  exponent : Option Int
deriving Repr, DecidableEq

namespace Literal

/-- Append digits to a significand as long as it stays below `2 ^ 64`; the digits that are left. -/
def absorb (significand : Nat) : List Nat → Nat × List Nat
  | [] => (significand, [])
  | d :: rest =>
    if 10 * significand + d < UInt64.size then absorb (10 * significand + d) rest
    -- once a digit does not fit, none of those after it is looked at
    else (significand, d :: rest)

/-- The power of ten as a double. -/
def powerOfTen (k : Nat) : Float := Float.ofScientific 1 false k

/-- The greatest exponent of a power of ten that is a double. -/
def maxPower : Nat := 308

/-- The double multiplied with `10 ^ e`, or divided by `10 ^ -e`, in steps of at most `maxPower`; a
product that is infinite is refused. -/
def scaled? (x : Float) (e : Int) : Option Float :=
  if 0 ≤ e then
    if e ≤ maxPower then
      let product := x * powerOfTen e.toNat
      if product.isInf then none else some product
    -- whatever is not zero overflows here, since the significand is at least one
    else if x == 0 then some x else none
  else if -e ≤ maxPower then some (x / powerOfTen (-e).toNat)
  else if x == 0 then some x
  else scaled? (x / powerOfTen maxPower) (e + maxPower)
termination_by e.natAbs
decreasing_by simp only [maxPower] at *; omega

/-- The double that the literal is read as. -/
def float? (l : Literal) : Option Float :=
  let (whole, wholeLeft) := absorb 0 l.whole
  let (significand, fractionLeft) := absorb whole l.fraction
  let taken : Int := l.fraction.length - fractionLeft.length
  -- a digit left before the point raises the power, one taken after the point lowers it
  let exponent := l.exponent.getD 0 + wholeLeft.length - taken
  (scaled? (Float.ofNat significand) exponent).map fun x => if l.negative then -x else x

/-- The integer that the literal denotes, if it is written as one and fits. -/
def int? (l : Literal) : Option Int :=
  if l.fraction.isEmpty && l.exponent.isNone then
    let n : Int := Text.ofDigits 10 l.whole
    -- minus zero is a double, since no integer keeps its sign
    if l.negative then if n ≠ 0 ∧ Fits (-n) then some (-n) else none
    else if Fits n then some n else none
  else none

/-- **The number that a literal denotes**, if it does not overflow. -/
def number? (l : Literal) : Option Number :=
  match l.int? with
  | some n => if fits : Fits n then some (.int n fits) else none
  | none => l.float?.bind Number.ofFloat?

/-! ### The text of a literal -/

/-- Characters up to the first that is no decimal digit, and the rest. -/
def splitDigits (cs : List Char) : List Nat × List Char :=
  ((cs.takeWhile fun c => (Text.decimalDigit? c).isSome).filterMap Text.decimalDigit?,
    cs.dropWhile fun c => (Text.decimalDigit? c).isSome)

/-- The digits after a point, at least one; none at all without a point. -/
def fraction? : List Char → Option (List Nat × List Char)
  | '.' :: rest =>
    let (digits, rest) := splitDigits rest
    if digits.isEmpty then none else some (digits, rest)
  | cs => some ([], cs)

/-- The digits of an exponent with its sign, and nothing after them. -/
def exponentDigits? (negative : Bool) (cs : List Char) : Option Int :=
  (Text.numeral? cs).map fun n => if negative then -(n : Int) else n

/-- An exponent up to the end of the text, if there is one. -/
def exponent? : List Char → Option (Option Int)
  | [] => some none
  | c :: rest =>
    if c = 'e' ∨ c = 'E' then
      match rest with
      | '+' :: ds => (exponentDigits? false ds).map some
      | '-' :: ds => (exponentDigits? true ds).map some
      | ds => (exponentDigits? false ds).map some
    else none

/-- **The literal of a text**: an optional minus sign, digits of which the first is zero only if it
is the only one, then a fraction and an exponent, each of which may be missing. -/
def ofText? (cs : List Char) : Option Literal :=
  let (negative, cs) := match cs with
    | '-' :: rest => (true, rest)
    | _ => (false, cs)
  let (whole, rest) := splitDigits cs
  if whole.isEmpty ∨ (whole.head? = some 0 ∧ 1 < whole.length) then none
  else do
    let (fraction, rest) ← fraction? rest
    let exponent ← exponent? rest
    some ⟨negative, whole, fraction, exponent⟩

end Literal

/-- **A double that its written form gives back.** -/
def Number.ReadsBack (x : Float) : Prop :=
  ((Literal.ofText? (floatLayout.text x)).bind Literal.float?) = some x

end Fleet.Json
