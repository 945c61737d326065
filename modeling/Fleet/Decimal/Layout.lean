import Fleet.Decimal.Shortest

/-!
# Laying out the digits of a double

`Magnitude.shortest` decides *which* digits are written; a `Layout` decides how they stand on the
page: between which exponents the notation is positional, and what a number looks like outside
that range. A positional number always has a fraction; an exponent always has a sign.
-/

namespace Fleet.Decimal

/-- The decimal exponents, of the first digit, between which a number is written without one. -/
structure Layout where
  leastPositional : Int
  mostPositional : Int

/-- The digits of a natural number, the most significant first. -/
def digits (n : Nat) : List Char := Nat.toDigits 10 n

/-- The digits with the point `places` digits after the first of them, or before all of them. -/
def positional (ds : List Char) (places : Int) : List Char :=
  if places < 0 then '0' :: '.' :: (List.replicate (-places - 1).toNat '0' ++ ds)
  else
    let whole := places.toNat + 1
    if ds.length ≤ whole then ds ++ List.replicate (whole - ds.length) '0' ++ ['.', '0']
    else ds.take whole ++ '.' :: ds.drop whole

/-- The digits with the point after the first, and the exponent. -/
def scientific (ds : List Char) (exponent : Int) : List Char :=
  let mantissa := match ds with
    | first :: second :: rest => first :: '.' :: second :: rest
    | _ => ds
  mantissa ++ 'e' :: (if exponent < 0 then '-' else '+') :: digits exponent.natAbs

/-- A positive decimal number. -/
def Layout.write (l : Layout) (x : Scaled) : List Char :=
  let ds := digits x.coefficient
  let exponent := x.exponent + ((ds.length : Int) - 1)
  if l.leastPositional ≤ exponent ∧ exponent ≤ l.mostPositional then positional ds exponent
  else scientific ds exponent

/-- The value of the bit that holds the sign of a double, above all others. -/
def signBit : Nat := 0x8000000000000000

/-- **The text of a finite double**: a minus sign if the sign bit is set, and the shortest digits
that read back. -/
def Layout.text (l : Layout) (x : Float) : List Char :=
  let bits := x.toBits.toNat
  let sign := if signBit ≤ bits then ['-'] else []
  let magnitude := bits % signBit
  sign ++ if magnitude = 0 then ['0', '.', '0'] else l.write (Magnitude.ofBits magnitude).shortest

end Fleet.Decimal
