import SqlRouting.Number

/-!
# Expressions

An expression, as far as routing is concerned: only literal values and placeholders can decide
where a statement goes. All else is kept as it is written.
-/

namespace SqlRouting

/-- An expression as routing sees it. -/
inductive Expression where
  /-- A placeholder `?`; placeholders are counted from zero in text order. -/
  | placeholder (index : Nat)
  /-- A string, as written between its quotes. -/
  | text (content : String)
  | number (value : Number)
  /-- A name on its own. -/
  | identifier (name : String)
  /-- `owner.name`. -/
  | property (owner name : String)
  /-- Anything else, as written. -/
  | other (spelling : String)
  deriving DecidableEq, Repr

namespace Expression

/-- The expression is a literal value or a placeholder. -/
def isValue : Expression → Bool
  | placeholder _ | text _ | number _ => true
  | identifier _ | property _ _ | other _ => false

/-- The column that the expression names, without its owner. -/
def columnName? : Expression → Option String
  | identifier name | property _ name => some name
  | placeholder _ | text _ | number _ | other _ => none

end Expression

end SqlRouting
