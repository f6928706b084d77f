import SqlRouting.Decimal.Binary64
import SqlRouting.Decimal.Digits

/-!
# The nearest floating-point number

The binary64 number nearest to a decimal number. A tie goes to the number whose significand is even;
numbers past the largest finite one become infinity.
-/

namespace SqlRouting.Decimal

/-- The quotient rounded to the nearest whole number, a tie to the even one. -/
def divToEven (num den : Nat) : Nat :=
  let quotient := num / den
  let rest := 2 * (num % den)
  if den < rest || (rest = den && quotient % 2 = 1) then quotient + 1 else quotient

/-- The integer part of the binary logarithm of `num / den`, both positive. -/
def floorLog2 (num den : Nat) : Int :=
  let guess : Int := (num.log2 : Int) - (den.log2 : Int)
  if den <<< guess.toNat ≤ num <<< (-guess).toNat then guess else guess - 1

/-- The bits of the number nearest to `num / den`, for positive `den`. The unit in
    the last place is `2 ^ place`, for subnormal numbers the smallest there is;
    counting a significand of 53 bits into the exponent gives the bits. -/
def nearest (num den : Nat) : Nat :=
  if num = 0 then 0
  else
    let place := max (floorLog2 num den - 52) (-1074)
    let significand := divToEven (num <<< (-place).toNat) (den <<< place.toNat)
    min ((place + 1074).toNat * exponentUnit + significand) infinityBits

/-- The bits of the number nearest to `digits * 10 ^ exponent`. Far outside of the
    range of binary64 the answer does not depend on the digits. -/
def nearestScientific (digits : List Char) (exponent : Int) : Nat :=
  let significant := digits.dropWhile (· = '0')
  let magnitude := exponent + significant.length
  let value := (valueFrom? 10 0 significant).getD 0
  if significant.isEmpty || magnitude < -330 then 0
  else if 400 < magnitude then infinityBits
  else nearest (value * Nat.pow 10 exponent.toNat) (Nat.pow 10 (-exponent).toNat)

/-- The whole number that an exponent such as `e-12` stands for. -/
def exponentValue (cs : List Char) : Int :=
  match cs.drop 1 with
  | '-' :: ds => -((valueFrom? 10 0 ds).getD 0 : Nat)
  | '+' :: ds => (valueFrom? 10 0 ds).getD 0
  | ds => (valueFrom? 10 0 ds).getD 0

/-- The bits of the number that a numeral stands for: digits, perhaps a point and
    digits behind it, perhaps an exponent. -/
def bitsOfNumeral (cs : List Char) : UInt64 :=
  let whole := cs.takeWhile Char.isDigit
  let rest := cs.dropWhile Char.isDigit
  let fraction := match rest with
    | '.' :: ds => ds.takeWhile Char.isDigit
    | _ => []
  let tail := match rest with
    | '.' :: ds => ds.dropWhile Char.isDigit
    | ds => ds
  .ofNat (nearestScientific (whole ++ fraction) (exponentValue tail - fraction.length))

end SqlRouting.Decimal
