import SqlRouting.Grammar.Alias
import SqlRouting.Grammar.Operand

/-!
# Where

The comparisons of a `WHERE`, joined by `AND`. Those with `=`, `IN` and `BETWEEN` are recorded as
conditions if they compare a known column with values; all others are consumed, since they do not
narrow down the shards. A disjunction is refused: its parts must not be taken for conditions.
-/

namespace SqlRouting.Grammar

open SqlRouting.Parser

variable {κ : Type}

/-- Comparison operators that are consumed without a condition. -/
def looseComparisons : List TokenKind :=
  [Symbol.less, Symbol.greater, Symbol.lessEqual, Symbol.greaterEqual, Symbol.lessGreater,
    Symbol.bangEqual, Symbol.bangGreater, Symbol.bangLess, Symbol.lessEqualGreater, Keyword.LIKE]

/-- Records a comparison if its left side is a column and its right side consists
    of values. -/
def recordCondition (left : Expression) (comparison : Comparison) (values : List Expression) :
    Parser κ Unit := do
  if values.all Expression.isValue then
    match (← routing).tables.column? left with
    | some column => addCondition ⟨column, comparison, values⟩
    | none => return ()

/-- The values behind `IN`. -/
def inValues : Parser κ (List Expression) := do
  accept Symbol.leftParen
  if (← cursor).isKeyword [.SELECT] then throw (.unsupported .subquery)
  let values ← commaSeparated operand
  accept Symbol.rightParen
  return values

/-- The bounds behind `BETWEEN`. -/
def betweenBounds : Parser κ (List Expression) := do
  let low ← operand
  accept Keyword.AND
  let high ← operand
  return [low, high]

/-- What follows `NOT` in a comparison. -/
def negatedComparison : Parser κ Unit := do
  let d ← dialect
  if ← skipKeyword [.IN] then
    let _ ← inValues
  else if ← skipKeyword [.BETWEEN] then
    let _ ← betweenBounds
  else if ← skipKeyword (.LIKE :: d.comparisons) then
    let _ ← operand
  else unexpected

/-- What follows the left side of a comparison, if anything does. -/
def predicate (left : Expression) : Parser κ Unit := do
  let d ← dialect
  if ← skipSymbol .equal then
    let right ← operand
    recordCondition left .equal [right]
  else if ← skipKeyword [.IN] then
    recordCondition left .isIn (← inValues)
  else if ← skipKeyword [.BETWEEN] then
    recordCondition left .between (← betweenBounds)
  else if ← skipKeyword [.NOT] then negatedComparison
  else if ← skipKeyword [.IS] then
    -- `NULL` is read as an operand, and so would be anything else.
    let _ ← skipKeyword [.NOT]
    let _ ← operand
  else if ← skipIf (looseComparisons ++ d.comparisons.map .keyword) then
    let _ ← operand

/-- A comparison, perhaps in parentheses. -/
def comparison : Parser κ Unit := do
  refuseEnd
  let _ ← skipSymbol .leftParen
  predicate (← operand)
  let _ ← skipSymbol .rightParen

/-- Comparisons joined by `AND`. -/
def comparisons : Parser κ Unit := do
  let _ ← separatedBy (skipKeyword [.AND]) comparison

/-- A table alias and a `WHERE`, both of which may be missing. -/
def whereClause : Parser κ Unit := do
  let _ ← tableAlias
  if ← skipKeyword [.WHERE] then
    comparisons
    refuse [.OR]

end SqlRouting.Grammar
