import SqlRouting.Decimal.Binary64

/-!
# The shortest text of a floating-point number

A binary64 number is written with the fewest decimal digits that read back as the same number, and
among those with the digits nearest to it. It is written positionally, whatever its size.
-/

namespace SqlRouting.Decimal

namespace Binary

/-- The integer part of the decimal logarithm. -/
def floorLog10 (b : Binary) : Int :=
  let whole := b.significand <<< b.place.toNat >>> (-b.place).toNat
  if whole = 0 then
    let scale := (List.range 400).find? fun j =>
      1 <<< (-b.place).toNat ≤ b.significand * Nat.pow 10 (j + 1)
    .negSucc (scale.getD 0)
  else ((Nat.toDigits 10 whole).length - 1 : Nat)

/-- The multiple of `10 ^ k` by which the number may be written so that it reads
    back: of its two neighbours among those multiples the nearer one, if it lies
    in the interval of the reals that are rounded to the number, and else the
    other one, if that does. The ends of the interval belong to it if the
    significand is even. A tie goes to the larger multiple. -/
def multiple? (b : Binary) (k : Int) : Option Nat :=
  -- All is scaled so that the number, the ends of the interval and the grid are whole.
  let place := b.place - 2
  let ours := Nat.pow 10 (-k).toNat <<< place.toNat
  let unit := Nat.pow 10 k.toNat <<< (-place).toNat
  let value := 4 * b.significand * ours
  let low := (4 * b.significand - if b.isLowest then 1 else 2) * ours
  let high := (4 * b.significand + 2) * ours
  let readsBack := fun n : Nat =>
    if b.significand % 2 = 0 then low ≤ n * unit && n * unit ≤ high
    else low < n * unit && n * unit < high
  let below := value / unit
  let above := below + 1
  let nearer := if value - below * unit < above * unit - value then [below, above]
    else [above, below]
  nearer.find? readsBack

/-- The shortest decimal form: a number and the power of ten to multiply it with.
    The coarsest grid has the next power of ten for its only candidate, and on the
    finest, seventeen digits are always enough. -/
def shortest (b : Binary) : Nat × Int :=
  let top := b.floorLog10
  let places := (List.range 18).map fun n : Nat => top + 1 - n
  (places.findSome? fun k => (b.multiple? k).map fun digits => (digits, k)).getD (0, 0)

end Binary

/-- `digits * 10 ^ exponent` written positionally. -/
def positional (digits : Nat) (exponent : Int) : String :=
  let ds := Nat.toDigits 10 digits
  let places := (-exponent).toNat
  if places = 0 then String.ofList (ds ++ List.replicate exponent.toNat '0')
  else
    let padded := List.replicate (places + 1 - ds.length) '0' ++ ds
    let cut := padded.length - places
    String.ofList (padded.take cut ++ '.' :: padded.drop cut)

/-- The shortest text of the binary64 number with the given bits. -/
def textOfBits (bits : UInt64) : String :=
  let magnitude := bits.toNat % signUnit
  let sign := if bits.toNat < signUnit then "" else "-"
  if infinityBits < magnitude then "NaN"
  else if magnitude = infinityBits then sign ++ "inf"
  else if magnitude = 0 then sign ++ "0"
  else
    let (digits, exponent) := (Binary.ofBits magnitude).shortest
    sign ++ positional digits exponent

end SqlRouting.Decimal
