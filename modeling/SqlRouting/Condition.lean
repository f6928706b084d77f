import SqlRouting.Expression
import SqlRouting.Table

/-!
# Conditions

A condition compares a column with values; routing reads off it which shards can hold matching rows.
The conditions of a statement hold at most one condition for each column: a later one replaces the
earlier one in its place.
-/

namespace SqlRouting

/-- A column, with the table it belongs to if that is known. -/
structure Column where
  name : String
  table : Option String := none
  deriving DecidableEq, Repr

/-- The column that an expression refers to. An owner is a table or an alias; a
    name on its own refers to a column only if there is a single table. -/
def Tables.column? (ts : Tables) : Expression → Option Column
  | .property owner name => (ts.find? owner).map fun t => ⟨name, some t.name⟩
  | .identifier name => if ts.size = 1 then some ⟨name, ts.firstName?⟩ else none
  | _ => none

/-- How a condition compares. -/
inductive Comparison where
  /-- The column is equal to the value. -/
  | equal
  /-- The column is one of the values. -/
  | isIn
  /-- The column lies between the two values. -/
  | between
  deriving DecidableEq, Repr

/-- A comparison of a column with values, in the order in which they are written. -/
structure Condition where
  column : Column
  comparison : Comparison
  values : List Expression
  deriving DecidableEq, Repr

/-- The conditions of a statement, in the order in which their columns first
    appear. -/
structure Conditions where
  toList : List Condition := []
  deriving DecidableEq, Repr

namespace Conditions

/-- The condition on a column. -/
def get? (cs : Conditions) (column : Column) : Option Condition :=
  cs.toList.find? (·.column = column)

/-- The condition `c` in the place of an old one on its column. -/
def replace (c old : Condition) : Condition :=
  if old.column = c.column then c else old

/-- The conditions with one more, in the place of the one on its column if there
    is one. -/
def add (cs : Conditions) (c : Condition) : Conditions :=
  if (cs.get? c.column).isSome then ⟨cs.toList.map (replace c)⟩ else ⟨cs.toList ++ [c]⟩

/-- A replacement changes no column. -/
@[simp] theorem column_replace (c old : Condition) : (replace c old).column = old.column := by
  unfold replace
  split
  case isTrue h => exact h.symm
  case isFalse => rfl

/-- The condition added last is the one on its column. -/
theorem get?_add_self (cs : Conditions) (c : Condition) : (cs.add c).get? c.column = some c := by
  unfold add
  split
  case isTrue h =>
    obtain ⟨old, hold⟩ := Option.isSome_iff_exists.1 h
    have hcol : old.column = c.column := by simpa using List.find?_some hold
    simp only [get?, List.find?_map, Function.comp_def, column_replace]
    rw [← get?, hold]
    simp [replace, hcol]
  case isFalse h =>
    have hnone : cs.get? c.column = none := by simpa using h
    rw [get?, List.find?_append, ← get?, hnone]
    simp

/-- A condition leaves those on other columns alone. -/
theorem get?_add_of_ne {cs : Conditions} {c : Condition} {column : Column}
    (hne : column ≠ c.column) : (cs.add c).get? column = cs.get? column := by
  unfold add
  split
  case isTrue =>
    simp only [get?, List.find?_map, Function.comp_def, column_replace]
    rw [← get?]
    cases hold : cs.get? column with
    | none => rfl
    | some old =>
      have hcol : old.column = column := by simpa using List.find?_some hold
      simp [replace, hcol, hne]
  case isFalse => simp [get?, List.find?_append, Ne.symm hne]

/-- The conditions of a list, added one by one. -/
def ofList (cs : List Condition) : Conditions :=
  cs.foldl add {}

/-- The condition on the column of a table, both in upper or lower case. -/
def find? (cs : Conditions) (table name : String) : Option Condition :=
  cs.toList.find? fun c =>
    Text.sameLetters c.column.name name && c.column.table.any (Text.sameLetters · table)

/-- The number of conditions. -/
def size (cs : Conditions) : Nat :=
  cs.toList.length

/-- There is no condition. -/
def isEmpty (cs : Conditions) : Bool :=
  cs.toList.isEmpty

end Conditions

end SqlRouting
