import LineTally.Text.Basic

/-!
# Fixed decimal places

A finite number that a computer holds is a whole number times a power of two, so
its decimal form is exact.  It is rounded once, to the given number of places, and
a tie goes to the even neighbour.
-/

namespace LineTally.Decimal

/-- The quotient rounded to a whole number; a half goes to the even neighbour. -/
def roundDiv (numerator denominator : Nat) : Nat :=
  let quotient := numerator / denominator
  let twice := 2 * (numerator % denominator)
  if twice < denominator then quotient
  else if denominator < twice then quotient + 1
  else quotient + quotient % 2

/-- A number in units of the last of `places` decimal places, written with a
point. -/
def write (places units : Nat) : Text :=
  let scale := Nat.pow 10 places
  let decimals := Text.ofNat (units % scale)
  Text.ofNat (units / scale) ++
    if places = 0 then []
    else '.' :: List.replicate (places - decimals.length) '0' ++ decimals

/-- The leading bit of a number of 53 bits; it is left out where the number is
stored. -/
def hiddenBit : Nat := 0x10000000000000

/-- The numerator and denominator of a finite number that is not negative. -/
def fraction (x : Float) : Nat × Nat :=
  let bits := x.toBits.toNat
  let exponent := bits / hiddenBit % 2048
  let digits := bits % hiddenBit
  let mantissa := if exponent = 0 then digits else digits + hiddenBit
  let power := max exponent 1
  if 1075 ≤ power then (mantissa * Nat.pow 2 (power - 1075), 1)
  else (mantissa, Nat.pow 2 (1075 - power))

/-- A finite number that is not negative, with `places` decimal places. -/
def fixed (places : Nat) (x : Float) : Text :=
  let (numerator, denominator) := fraction x
  write places (roundDiv (numerator * Nat.pow 10 places) denominator)

end LineTally.Decimal
