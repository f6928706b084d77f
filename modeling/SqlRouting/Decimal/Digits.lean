/-!
# Numerals

The number that a sequence of digits stands for, in base ten or sixteen.
-/

namespace SqlRouting.Decimal

/-- The value of a digit, hexadecimal ones in either case. -/
def digitValue? (c : Char) : Option Nat :=
  if '0' ≤ c && c ≤ '9' then some (c.toNat - '0'.toNat)
  else if 'a' ≤ c && c ≤ 'f' then some (c.toNat - 'a'.toNat + 10)
  else if 'A' ≤ c && c ≤ 'F' then some (c.toNat - 'A'.toNat + 10)
  else none

/-- The number that the digits `cs` stand for behind digits that stand for `acc`;
    none if one of them is no digit of the base. -/
def valueFrom? (base : Nat) : Nat → List Char → Option Nat
  | acc, [] => some acc
  | acc, c :: cs =>
    match digitValue? c with
    | some d => if d < base then valueFrom? base (acc * base + d) cs else none
    | none => none

/-- The number that a nonempty sequence of digits stands for. -/
def value? (base : Nat) (cs : List Char) : Option Nat :=
  if cs.isEmpty then none else valueFrom? base 0 cs

end SqlRouting.Decimal
