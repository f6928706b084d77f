import SqlRouting.Condition
import SqlRouting.Limit
import SqlRouting.Mark
import SqlRouting.Select.Item
import SqlRouting.Select.Sorting

/-!
# Statements

A statement as routing needs it. Every kind of statement has a routing part: its tables, conditions
and marks, and the number of its placeholders. Beside it, a statement has the clauses of its kind.
-/

namespace SqlRouting

/-- What routing needs of a statement of any kind. -/
structure Routing where
  tables : Tables := {}
  conditions : Conditions := {}
  marks : List Mark := []
  /-- The number of placeholders. -/
  parameters : Nat := 0
  deriving DecidableEq, Repr

/-- A statement: its routing part and its clauses. -/
structure Body (κ : Type) extends Routing where
  clauses : κ
  deriving DecidableEq, Repr

/-! ## Clauses by kind -/

/-- The clauses of a `SELECT`. -/
structure SelectClauses where
  /-- The select list has an item `*` or `owner.*`. -/
  containsStar : Bool := false
  /-- The position of the token behind the select list. -/
  selectListStop : Nat := 0
  /-- The position of the token behind `GROUP BY`. -/
  groupByStop : Nat := 0
  items : List SelectItem := []
  groupBy : List SortItem := []
  /-- The items of `ORDER BY`, or those of `GROUP BY` if there is none. -/
  orderBy : List SortItem := []
  limit : Option Limit := none
  deriving DecidableEq, Repr

/-- A row of an insert. What is inserted by a row and what it says about the columns could be kept
    in two lists; with both in one record, there are as many of the one as of the other. -/
structure InsertedRow where
  /-- The keyword that introduces the rows. -/
  keyword : Keyword
  /-- The row as written. -/
  text : String
  /-- The number of placeholders in the row. -/
  parameters : Nat
  /-- What the row says about its columns. -/
  conditions : Conditions
  deriving DecidableEq, Repr

/-- The clauses of an `INSERT`. -/
structure InsertClauses where
  columns : List Column := []
  rows : List InsertedRow := []
  /-- The position of the parenthesis that closes the column list. -/
  columnsStop : Option Nat := none
  /-- The position behind the last row. -/
  rowsStop : Option Nat := none
  /-- The columns set by `ON DUPLICATE KEY UPDATE`. -/
  duplicateKeyColumns : List Column := []
  deriving DecidableEq, Repr

/-- The clauses of an `UPDATE`: the columns set and their new values. -/
structure UpdateClauses where
  assignments : List (Column × Expression) := []
  deriving DecidableEq, Repr

/-- The clauses of a `DELETE`: it has none beside its routing part. -/
structure DeleteClauses where
  deriving DecidableEq, Repr

instance : Inhabited SelectClauses := ⟨{}⟩

instance : Inhabited InsertClauses := ⟨{}⟩

instance : Inhabited UpdateClauses := ⟨{}⟩

instance : Inhabited DeleteClauses := ⟨{}⟩

/-- The body of a statement of which nothing has been read. -/
def Body.empty {κ : Type} [Inhabited κ] : Body κ where
  clauses := default

/-! ## Statements of any kind -/

/-- A statement. -/
inductive Statement where
  | select (body : Body SelectClauses)
  | insert (body : Body InsertClauses)
  | update (body : Body UpdateClauses)
  | delete (body : Body DeleteClauses)
  deriving DecidableEq, Repr

namespace Statement

/-- The routing part of the statement. -/
def routing : Statement → Routing
  | select body => body.toRouting
  | insert body => body.toRouting
  | update body => body.toRouting
  | delete body => body.toRouting

/-- The keyword that the statement starts with. -/
def keyword : Statement → Keyword
  | select _ => .SELECT
  | insert _ => .INSERT
  | update _ => .UPDATE
  | delete _ => .DELETE

/-- The limit of a select. -/
def limit? : Statement → Option Limit
  | select body => body.clauses.limit
  | insert _ | update _ | delete _ => none

end Statement

/-! ## Questions about a select -/

namespace SelectClauses

/-- The alias of the first select item written as `expression`. -/
def aliasOf? (s : SelectClauses) (expression : String) : Option String :=
  (s.items.find? (·.isWritten expression)).bind SelectItem.asName?

/-- The aggregations of the select list. -/
def aggregations (s : SelectClauses) : List Aggregation :=
  s.items.filterMap SelectItem.aggregation?

/-- There is a `GROUP BY`, and `ORDER BY` has the same keys in the same order. -/
def isSortedByGroup (s : SelectClauses) : Bool :=
  !s.groupBy.isEmpty && s.groupBy.length = s.orderBy.length &&
    (s.groupBy.zip s.orderBy).all fun (group, order) => group.key.isSame order.key

end SelectClauses

end SqlRouting
