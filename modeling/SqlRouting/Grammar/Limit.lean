import SqlRouting.Number
import SqlRouting.Parser

/-!
# Limits

`LIMIT count`, `LIMIT offset, count` or `LIMIT count OFFSET offset`. Numbers that are written out
are marked; nothing is recorded until the clause is complete.
-/

namespace SqlRouting.Grammar

open SqlRouting.Parser

/-- A number of a limit with its position. A placeholder takes its index at once,
    so that indices follow the text. -/
def limitValue {κ : Type} : Parser κ (LimitValue × Nat) := do
  let token ← current
  let value ← match token.kind with
    | .literal .int =>
      match Number.integer? 10 token.literal.toList with
      | some n => pure (LimitValue.literal n)
      | none => unexpected
    | .symbol .question => pure (.parameter (← takePlaceholder))
    | _ => unexpected
  advance
  return (value, token.start)

/-- Appends the mark of a number that is written out. -/
def markLimitValue {κ : Type} (mark : Nat → Int → Mark) (value : LimitValue × Nat) :
    Parser κ Unit := do
  match value with
  | (.literal n, start) => modifyRouting fun r => { r with marks := r.marks ++ [mark start n] }
  | (.parameter _, _) => return ()

/-- The offset behind `LIMIT`, if there is one, and the row count. -/
def limitRange {κ : Type} : Parser κ (Option (LimitValue × Nat) × (LimitValue × Nat)) := do
  let first ← limitValue
  if ← skipSymbol .comma then return (some first, ← limitValue)
  else if ← skipKeyword [.OFFSET] then return (some (← limitValue), first)
  else return (none, first)

/-- A limit, which may be missing. -/
def limit : Parser SelectClauses Unit := do
  if ← skipKeyword [.LIMIT] then
    let (offset, rowCount) ← limitRange
    -- From here on nothing fails: the clause is recorded as a whole.
    if let some offset := offset then markLimitValue .offset offset
    markLimitValue .rowCount rowCount
    let database := (← cursor).database
    modifyClauses fun s =>
      { s with limit := some ⟨database, offset.map Prod.fst, some rowCount.1⟩ }

end SqlRouting.Grammar
