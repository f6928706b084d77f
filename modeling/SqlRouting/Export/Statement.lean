import SqlRouting.Decimal.Shortest
import SqlRouting.Export.Json
import SqlRouting.Statement

/-!
# Statements as JSON

The JSON text of a statement. Conditions are kept by column, and a column is no string, which a JSON
object needs for a key: a statement with conditions has no JSON text.
-/

namespace SqlRouting

open Json

/-- Why a statement has no JSON text. -/
inductive ExportError where
  /-- There is a condition, whose key is a column. -/
  | keyNotString
  deriving DecidableEq, Repr

/-- The wording of the error. -/
def ExportError.message : ExportError → String
  | keyNotString => "key must be a string"

/-- The keyword with capitals at the start of its words only. -/
def Keyword.capitalized : Keyword → String
  | .DISTINCTROW => "DistinctRow"
  | k => String.join ((k.text.splitOn "_").map fun w =>
      String.ofList (w.toList.take 1 ++ (w.toList.drop 1).map Char.toLower))

namespace Export

/-- One of several alternatives, by its name. -/
def tagged (name value : String) : String :=
  object [(name, value)]

/-- A table: its name, and its alias if it has one. -/
def ofTable (t : Table) : String :=
  object [("name", string t.name), ("alias", option string t.asName)]

/-- A column: its name, and the table it belongs to if that is known. -/
def ofColumn (c : Column) : String :=
  object [("name", string c.name), ("table_name", option string c.table)]

/-- A number, by its kind. -/
def ofNumber : Number → String
  | .integer value => tagged "Integer" (toString value)
  | .double bits => tagged "Float" (Decimal.textOfBits bits)

/-- An expression, by its kind. -/
def ofExpression : Expression → String
  | .placeholder index => tagged "Placeholder" (toString index)
  | .text content => tagged "Text" (string content)
  | .number value => tagged "Number" (ofNumber value)
  | .identifier name => tagged "Identifier" (string name)
  | .property owner name =>
    tagged "Property" (object [("owner", string owner), ("name", string name)])
  | .other spelling => tagged "Ignore" (string spelling)

/-- A mark: its kind, its position, and what belongs to it. -/
def ofMark : Mark → String
  | .table start spelling => tagged "Table" <| object
      [("begin_position", toString start), ("original_literals", string spelling)]
  | .items start texts => tagged "Items" <| object
      [("begin_position", toString start), ("items", array (texts.map string))]
  | .orderBy start => tagged "OrderBy" <| object [("begin_position", toString start)]
  | .insertValues start table => tagged "InsertValues" <| object
      [("begin_position", toString start), ("table_name", string table)]
  | .offset start value => tagged "Offset" <| object
      [("begin_position", toString start), ("offset", toString value)]
  | .rowCount start value => tagged "RowCount" <| object
      [("begin_position", toString start), ("row_count", toString value)]

/-- Conditions, of which there must be none. -/
def ofConditions (cs : Conditions) : Except ExportError String :=
  if cs.isEmpty then .ok (object [("conditions", object [])]) else .error .keyNotString

/-- The routing part of a statement. Tables are kept by their names in lower case. -/
def ofRouting (r : Routing) : Except ExportError String := do
  let conditions ← ofConditions r.conditions
  return object [
    ("tables", object [("tables",
      object (r.tables.toList.map fun t => (Text.lower t.name, ofTable t)))]),
    ("conditions", conditions),
    ("sql_tokens", array (r.marks.map ofMark)),
    ("parameters_index", toString r.parameters)]

/-- The name of an aggregate function. -/
def ofFunction : AggregateFunction → String
  | .max => string "Max"
  | .min => string "Min"
  | .sum => string "Sum"
  | .count => string "Count"
  | .avg => string "Avg"

/-- An aggregation, and those derived from it. -/
def ofAggregation (call : Aggregation) (derived : List String) : String :=
  object [
    ("aggregation_type", ofFunction call.function),
    ("inner_expression", string call.inner),
    ("alias", option string call.asName),
    ("derived", array derived)]

/-- A select item, by its kind. An aggregation derived from another one has none
    derived from itself. -/
def ofSelectItem : SelectItem → String
  | .star owner => tagged "Star" (object [("owner", option string owner)])
  | .aggregation call derived =>
    tagged "Aggregation" (ofAggregation call (derived.map (ofAggregation · [])))
  | .plain expression asName => tagged "Common" <| object
      [("expression", string expression), ("alias", option string asName)]

/-- The name of a direction. -/
def ofDirection : Direction → String
  | .ascending => string "Asc"
  | .descending => string "Desc"

/-- A sort item: its key, a column or a position, and how it sorts. -/
def ofSortItem (item : SortItem) : String :=
  let key := match item.key with
    | .column owner name =>
      [("owner", option string owner), ("name", string name), ("index", "null")]
    | .position index => [("owner", "null"), ("name", "null"), ("index", toString index)]
  object (key ++ [
    ("order_direction", ofDirection item.direction),
    ("null_order_direction", ofDirection item.nulls),
    ("alias", option string item.asName)])

/-- One of the two values of a limit: where it comes from, and which one it is. -/
def ofLimitValue (isOffset : Bool) (value : LimitValue) : String :=
  let source := match value with
    | .literal n => tagged "Literal" (toString n)
    | .parameter index => tagged "Parameter" (toString index)
  object [("source", source), ("is_offset", toString isOffset)]

/-- A limit: the database it is meant for, and its values if they are there. -/
def ofLimit (l : Limit) : String :=
  let database := match l.database with
    | .mySql => "MySql"
    | .h2 => "H2"
  object [
    ("database_type", string database),
    ("offset", option (ofLimitValue true) l.offset),
    ("row_count", option (ofLimitValue false) l.rowCount)]

/-- A row of an insert, without what it says about its columns. -/
def ofRow (row : InsertedRow) : String :=
  object [
    ("keyword", string row.keyword.capitalized),
    ("expression", string row.text),
    ("parameters_count", toString row.parameters)]

/-- The clauses of a `SELECT`, as the fields behind its routing part. -/
def ofSelectClauses (s : SelectClauses) : List (String × String) :=
  [("contains_star", toString s.containsStar),
    ("select_list_last_position", toString s.selectListStop),
    ("group_by_last_position", toString s.groupByStop),
    ("items", array (s.items.map ofSelectItem)),
    ("group_by_items", array (s.groupBy.map ofSortItem)),
    ("order_by_items", array (s.orderBy.map ofSortItem)),
    ("limit", option ofLimit s.limit)]

/-- The clauses of an `INSERT`, as the fields behind its routing part. -/
def ofInsertClauses (i : InsertClauses) : Except ExportError (List (String × String)) := do
  let rowConditions ← i.rows.mapM fun row => ofConditions row.conditions
  return [
    ("columns", array (i.columns.map ofColumn)),
    ("insert_values", array (i.rows.map ofRow)),
    ("row_conditions", array rowConditions),
    ("columns_list_last_position", option toString i.columnsStop),
    ("values_list_last_position", option toString i.rowsStop),
    ("duplicate_key_update_columns", array (i.duplicateKeyColumns.map ofColumn))]

/-- The clauses of an `UPDATE`, as the fields behind its routing part. -/
def ofUpdateClauses (u : UpdateClauses) : List (String × String) :=
  [("assignments", array (u.assignments.map fun (column, value) =>
    array [ofColumn column, ofExpression value]))]

end Export

/-- The JSON text of the statement. -/
def Statement.toJson (s : Statement) : Except ExportError String := do
  let base ← Export.ofRouting s.routing
  let (tag, fields) ← match s with
    | .select body => pure ("Select", Export.ofSelectClauses body.clauses)
    | .insert body => pure ("Insert", ← Export.ofInsertClauses body.clauses)
    | .update body => pure ("Update", Export.ofUpdateClauses body.clauses)
    | .delete _ => pure ("Delete", [])
  return Export.tagged tag (object (("base", base) :: fields))

end SqlRouting
