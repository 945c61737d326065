/-!
# Numerals

Reading natural numbers from digits, and writing them in hexadecimal at a fixed width.

The digits of a numeral are ASCII; leading zeros do not count. `signless?` is the form in which
endpoint numbers and type codes are written: digits with at most one `+` before them, and a value
that does not exceed a limit.
-/

namespace Fleet.Text

/-! ### Digits -/

/-- The value of a decimal digit. -/
def decimalDigit? (c : Char) : Option Nat :=
  if '0' ≤ c ∧ c ≤ '9' then some (c.toNat - '0'.toNat) else none

/-- The value of a hexadecimal digit of either case. -/
def hexDigit? (c : Char) : Option Nat :=
  if '0' ≤ c ∧ c ≤ '9' then some (c.toNat - '0'.toNat)
  else if 'a' ≤ c ∧ c ≤ 'f' then some (c.toNat - 'a'.toNat + 10)
  else if 'A' ≤ c ∧ c ≤ 'F' then some (c.toNat - 'A'.toNat + 10)
  else none

/-- The number that the digits denote, the most significant first. -/
def ofDigits (base : Nat) (digits : List Nat) : Nat :=
  digits.foldl (fun n d => base * n + d) 0

/-! ### Numerals in text -/

/-- One or more decimal digits and nothing else. -/
def numeral? (cs : List Char) : Option Nat :=
  if cs.isEmpty then none else (cs.mapM decimalDigit?).map (ofDigits 10)

/-- A numeral, with at most one `+` before it, of a value up to `limit`. -/
def signless? (limit : Nat) (cs : List Char) : Option Nat :=
  let digits := match cs with
    | '+' :: rest => rest
    | _ => cs
  (numeral? digits).filter (· ≤ limit)

/-- Hexadecimal digits and nothing else; no digit at all denotes zero. -/
def hexadecimal? (cs : List Char) : Option Nat :=
  (cs.mapM hexDigit?).map (ofDigits 16)

/-! ### Fixed width -/

/-- The lower-case hexadecimal digit of a value below sixteen. -/
def hexDigit (n : Nat) : Char :=
  if n < 10 then Char.ofNat ('0'.toNat + n) else Char.ofNat ('a'.toNat + (n - 10))

/-- The last `width` hexadecimal digits of a number, the most significant first. -/
def hexadecimal : Nat → Nat → List Char
  | 0, _ => []
  | width + 1, n => hexadecimal width (n / 16) ++ [hexDigit (n % 16)]

end Fleet.Text
