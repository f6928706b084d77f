/-!
# The binary64 format

The bits of a floating-point number are, from the highest on, a sign bit, 11 bits of the exponent
and 52 bits of the fraction. The bits without the sign bit are in the order of the numbers that they
stand for, so the next larger number has the next larger bits.
-/

namespace SqlRouting.Decimal

/-- The value of the lowest bit of the exponent. -/
def exponentUnit : Nat :=
  0x10000000000000

/-- The value of the sign bit. -/
def signUnit : Nat :=
  0x8000000000000000

/-- The bits of positive infinity. -/
def infinityBits : Nat :=
  0x7FF0000000000000

/-- A positive finite binary64 number `significand * 2 ^ place`. -/
structure Binary where
  significand : Nat
  place : Int
  /-- The next smaller number is only half a unit in the last place away. -/
  isLowest : Bool
  deriving DecidableEq, Repr

/-- The number with the given bits, the sign bit left out. -/
def Binary.ofBits (bits : Nat) : Binary :=
  let exponent : Nat := bits / exponentUnit % 0x800
  let fraction := bits % exponentUnit
  if exponent = 0 then ⟨fraction, -1074, false⟩
  else ⟨fraction + exponentUnit, exponent - 1075, fraction = 0 && 1 < exponent⟩

end SqlRouting.Decimal
