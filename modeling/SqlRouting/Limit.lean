import SqlRouting.Database

/-!
# Limits

The rows that a select skips and those that it returns. Each number is a literal or the value of a
placeholder, which is known only when the statement is run.
-/

namespace SqlRouting

/-- A number of a limit: written out, or the parameter of a placeholder. -/
inductive LimitValue where
  | literal (value : Int)
  | parameter (index : Nat)
  deriving DecidableEq, Repr

namespace LimitValue

/-- The number, if it is written out. -/
def value? : LimitValue → Option Int
  | literal value => some value
  | parameter _ => none

/-- The index of the placeholder, if it is one. -/
def parameterIndex? : LimitValue → Option Nat
  | literal _ => none
  | parameter index => some index

/-- The number under the given parameters. There is none if the placeholder has
    no parameter. -/
def resolve (parameters : List Int) : LimitValue → Option Int
  | literal value => some value
  | parameter index => parameters[index]?

end LimitValue

/-- A limit on the rows of a select. -/
structure Limit where
  database : Database
  /-- The number of rows skipped. -/
  offset : Option LimitValue := none
  /-- The number of rows returned. -/
  rowCount : Option LimitValue := none
  deriving DecidableEq, Repr

namespace Limit

/-- The number of rows skipped under the given parameters; none are skipped where
    the limit does not say. -/
def offsetValue (l : Limit) (parameters : List Int) : Int :=
  (l.offset.bind (LimitValue.resolve parameters)).getD 0

/-- The number of rows returned under the given parameters, if there is a bound. -/
def rowCountValue (l : Limit) (parameters : List Int) : Option Int :=
  l.rowCount.bind (LimitValue.resolve parameters)

end Limit

end SqlRouting
