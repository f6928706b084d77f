import SqlRouting.Grammar.Operand

/-!
# Assignments

The columns that an `UPDATE` sets and their new values.
-/

namespace SqlRouting.Grammar

open SqlRouting.Parser

/-- An assignment. It is recorded if its target is a column of the statement. -/
def assignment : Parser UpdateClauses Unit := do
  refuseEnd
  let target ← operand
  let _ ← skipIf [Symbol.equal, Symbol.colonEqual]
  refuseEnd
  let value ← operand
  match (← routing).tables.column? target with
  | some column =>
    modifyClauses fun u => { u with assignments := u.assignments ++ [(column, value)] }
  | none => return ()

/-- `SET` and the assignments behind it. -/
def assignments : Parser UpdateClauses Unit := do
  accept Keyword.SET
  let _ ← commaSeparated assignment

end SqlRouting.Grammar
