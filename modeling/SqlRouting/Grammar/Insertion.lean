import SqlRouting.Grammar.Tables

/-!
# Insertions

The clauses of an `INSERT`. Its rows are given as lists of values behind `VALUES`, or one row as
assignments behind `SET`. Every row has conditions of its own: its values are those of the columns.
-/

namespace SqlRouting.Grammar

open SqlRouting.Parser

/-- The table inserted into, if it is known. -/
def insertTable : Parser InsertClauses (Option String) :=
  return (← routing).tables.firstName?

/-- `INTO` and a table, the modifiers before and the partition behind it
    skipped. -/
def insertInto : Parser InsertClauses Unit := do
  let d ← dialect
  skipAll d.skippedBeforeInto
  accept Keyword.INTO
  let name ← tableName
  recordTable name none
  loop do
    if ← skipKeyword d.skippedBeforeValues then
      let _ ← skipParentheses
      return true
    else return false

/-- Records a column of the insert. -/
def addColumn (column : Column) : Parser InsertClauses Unit :=
  modifyClauses fun i => { i with columns := i.columns ++ [column] }

/-- Records a row. -/
def addRow (row : InsertedRow) : Parser InsertClauses Unit :=
  modifyClauses fun i => { i with rows := i.rows ++ [row] }

/-- Records where the rows end. -/
def setRowsStop (stop : Nat) : Parser InsertClauses Unit :=
  modifyClauses fun i => { i with rowsStop := some stop }

/-- A list of columns in parentheses, which may be missing. -/
def insertColumns : Parser InsertClauses Unit := do
  if ← skipSymbol .leftParen then
    let table ← insertTable
    let _ ← commaSeparated do
      if !(← cursor).isName then unexpected
      addColumn ⟨Text.unquoted (← current).literal, table⟩
      advance
    let stop := (← current).start
    modifyClauses fun i => { i with columnsStop := some stop }
    accept Symbol.rightParen

/-- The condition that a column has a value, if it is one. -/
def valueCondition? (column : Column) (value : Expression) : Option Condition :=
  if value.isValue then some ⟨column, .equal, [value]⟩ else none

/-- What a row says about its columns: for each value that it is equal to the
    column. -/
def rowConditions (row : List (Column × Expression)) : Conditions :=
  Conditions.ofList (row.filterMap fun (column, value) => valueCondition? column value)

/-- A row of values in parentheses. -/
def insertRow (keyword : Keyword) : Parser InsertClauses Unit := do
  let start := (← current).start
  let before := (← routing).parameters
  accept Symbol.leftParen
  let values ← commaSeparated operand
  let stop := (← current).stop
  accept Symbol.rightParen
  -- Without a column list the row says nothing about columns, whatever its length.
  let columns := (← clauses).columns
  if !columns.isEmpty && columns.length ≠ values.length then throw (.unsupported .rowLength)
  addRow {
    keyword
    text := ← slice start stop
    parameters := ← placeholdersSince before
    conditions := rowConditions (columns.zip values) }
  setRowsStop stop

/-- Takes the conditions of the first row for those of the statement. -/
def adoptFirstRow : Parser InsertClauses Unit := do
  match (← clauses).rows.head? with
  | some row => modifyRouting fun r => { r with conditions := row.conditions }
  | none => return ()

/-- Marks the rows behind the cursor. -/
def markRows : Parser InsertClauses Unit := do
  let start := (← current).start
  addMark (.insertValues start ((← insertTable).getD ""))

/-- Rows of values, which may be missing. -/
def insertValues : Parser InsertClauses Unit := do
  match (← current).kind with
  | .keyword k =>
    if k ∈ .VALUES :: (← dialect).valuesSynonyms then
      advance
      markRows
      let _ ← commaSeparated (insertRow k)
      adoptFirstRow
  | _ => return ()

/-- The column that an expression names, as one of the table inserted into. -/
def columnOfTable (table : Option String) (target : Expression) : Parser InsertClauses Column := do
  match target.columnName? with
  | some name => return ⟨name, table⟩
  | none => unexpected

/-- An assignment of an insert. -/
def insertAssignment (table : Option String) : Parser InsertClauses (Column × Expression) := do
  if !(← cursor).isName then unexpected
  let column ← columnOfTable table (← operand)
  accept Symbol.equal
  let value ← operand
  addColumn column
  return (column, value)

/-- A row of assignments, which may be missing. -/
def insertSet : Parser InsertClauses Unit := do
  if ← skipKeyword (← dialect).insertSet then
    let start := (← current).start
    let before := (← routing).parameters
    markRows
    let table ← insertTable
    let row ← commaSeparated (insertAssignment table)
    let text ← textSince start
    let conditions := rowConditions row
    setRowsStop (start + Text.byteLength text.toList)
    addRow ⟨.SET, text, ← placeholdersSince before, conditions⟩
    modifyRouting fun r => { r with conditions }

/-- An assignment of `ON DUPLICATE KEY UPDATE`; `VALUES(column)` is the value of the
    new row. -/
def duplicateKeyAssignment (table : Option String) : Parser InsertClauses Unit := do
  let column ← columnOfTable table (← operand)
  modifyClauses fun i => { i with duplicateKeyColumns := i.duplicateKeyColumns ++ [column] }
  accept Symbol.equal
  if ← skipKeyword [.VALUES] then
    accept Symbol.leftParen
    let _ ← operand
    accept Symbol.rightParen
  else
    let _ ← operand

/-- `ON DUPLICATE KEY UPDATE` and its assignments, which may be missing. -/
def duplicateKeyUpdate : Parser InsertClauses Unit := do
  if ← skipKeyword (← dialect).duplicateKeyUpdate then
    accept Keyword.DUPLICATE
    accept Keyword.KEY
    accept Keyword.UPDATE
    let table ← insertTable
    let _ ← commaSeparated (duplicateKeyAssignment table)

end SqlRouting.Grammar
