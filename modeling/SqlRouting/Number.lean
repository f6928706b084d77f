import SqlRouting.Decimal.Nearest

/-!
# Numbers

The numbers in a text and the literals they are written as. Whole numbers have to fit into 64 bits
with a sign; numbers with a fraction or an exponent are taken as the nearest binary64 number.
-/

namespace SqlRouting

/-- A number: a whole one, or the bits of a binary64 floating-point number. -/
inductive Number where
  | integer (value : Int)
  | double (bits : UInt64)
  deriving DecidableEq, Repr

namespace Number

/-- The number behind a minus sign. -/
def neg : Number → Number
  | integer value => integer (-value)
  | double bits => double (bits ^^^ 0x8000000000000000)

/-- The largest whole number that a literal may stand for, the largest with a sign
    and 63 bits. -/
def maxInteger : Nat :=
  0x7FFFFFFFFFFFFFFF

/-- The whole number that digits of a base stand for, if it is not too large. -/
def integer? (base : Nat) (digits : List Char) : Option Int :=
  (Decimal.value? base digits).bind fun n => if n ≤ maxInteger then some n else none

/-- The number of a literal in decimal digits. -/
def ofInt? (literal : String) : Option Number :=
  (integer? 10 literal.toList).map integer

/-- The number of a literal in hexadecimal digits, `0x1F` or `X'1F'`. -/
def ofHex? (literal : String) : Option Number :=
  match literal.toList with
  | '0' :: _ :: digits => (integer? 16 digits).map integer
  | _ :: '\'' :: digits => (integer? 16 digits.dropLast).map integer
  | _ => none

/-- The number of a literal with a fraction or an exponent. -/
def ofFloat (literal : String) : Number :=
  double (Decimal.bitsOfNumeral literal.toList)

end Number

end SqlRouting
