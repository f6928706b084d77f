import SqlRouting.Grammar.Alias
import SqlRouting.Grammar.Operand

/-!
# Table references

The tables of a statement, with their aliases, hints and joins. Every mention of a table is marked.
-/

namespace SqlRouting.Grammar

open SqlRouting.Parser

variable {κ : Type}

/-- The keywords that make up a join in every dialect. -/
def joinTypes : List Keyword :=
  [.INNER, .OUTER, .LEFT, .RIGHT, .FULL, .CROSS, .NATURAL, .JOIN]

/-- The keywords that may follow the one that starts an index hint. -/
def indexHintTargets : List Keyword :=
  [.INDEX, .KEY, .FOR, .JOIN, .ORDER, .GROUP, .BY]

/-- The name of a table, without a schema. -/
def tableName : Parser κ Token := do
  let token ← current
  if !(← cursor).isName then unexpected
  advance
  if (← cursor).isSymbol .dot then throw (.unsupported .schemaQualifiedTable)
  return token

/-- Records a mention of a table. -/
def recordTable (mention : Token) (asName : Option String) : Parser κ Unit := do
  addTable ⟨Text.unquoted mention.literal, asName⟩
  addMark (.table mention.start mention.literal)

/-- A table with its alias. -/
def tableFactor : Parser κ Unit := do
  if (← cursor).isSymbol .leftParen then throw (.unsupported .subquery)
  let name ← tableName
  recordTable name (← tableAlias)

/-- Skips the partition list and the index hints behind a table. -/
def tableHints : Parser κ Unit := do
  let d ← dialect
  if ← skipKeyword d.tablePartition then
    let _ ← skipParentheses
  loop do
    if ← skipKeyword d.indexHint then
      skipAll indexHintTargets
      let _ ← skipParentheses
      return true
    else return false

/-- Consumes the keywords of a join, and tells whether there were any. -/
def joinType : Parser κ Bool := do
  let keywords := joinTypes ++ (← dialect).joinTypes
  let found := (← cursor).isKeyword keywords
  loop (skipKeyword keywords)
  return found

/-- The condition of a join: equations joined by `AND`, or a list of columns. -/
def joinCondition : Parser κ Unit := do
  if ← skipKeyword [.ON] then
    let _ ← separatedBy (skipKeyword [.AND]) do
      let _ ← operand
      accept Symbol.equal
      let _ ← operand
  else if ← skipKeyword [.USING] then
    let _ ← skipParentheses

/-- A join with its table and its condition, and whether there was one. -/
def joinedTable : Parser κ Bool := do
  if ← joinType then
    if (← cursor).isSymbol .leftParen then throw (.unsupported .joinedSubquery)
    tableFactor
    tableHints
    joinCondition
    return true
  else return false

/-- A table and those joined to it. -/
def tableReference : Parser κ Unit := do
  tableFactor
  tableHints
  loop joinedTable

/-- Table references with commas between them. If only a single table is allowed,
    others are refused once they have been read. -/
def tableReferences (single : Bool) : Parser κ Unit := do
  let _ ← commaSeparated tableReference
  if single && 1 < (← routing).tables.size then throw (.unsupported .severalTables)

end SqlRouting.Grammar
