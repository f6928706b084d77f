import SqlRouting.Grammar.Assignments
import SqlRouting.Grammar.Insertion
import SqlRouting.Grammar.Limit
import SqlRouting.Grammar.Selection
import SqlRouting.Grammar.Sorting
import SqlRouting.Grammar.Where
import SqlRouting.Select.Derived

/-!
# Statements

A statement of each kind is its clauses in a fixed order. What follows a complete statement is
skipped, but its placeholders are counted.
-/

namespace SqlRouting.Grammar

open SqlRouting.Parser

/-- Refuses what may not follow a select: operators on sets of rows, and what the
    dialect refuses. -/
def selectRest {κ : Type} : Parser κ Unit := do
  refuse [.UNION, .INTERSECT, .EXCEPT, .MINUS]
  refuse (← dialect).refusedBehindSelect

/-- The tables of a select, which may be missing. -/
def fromClause {κ : Type} : Parser κ Unit := do
  refuse [.INTO]
  if ← skipKeyword [.FROM] then tableReferences false

/-- `SELECT` and the select list. The result is the owners in the list. -/
def selectHead : Parser SelectClauses (List Token) := do
  accept Keyword.SELECT
  distinct
  selectOptions
  selectList

/-- The clauses of a select behind its select list, in which there are `owners`. -/
def selectClauses (owners : List Token) : Parser SelectClauses Unit := do
  fromClause
  -- Only now are the tables known that the owners in the select list may be.
  markTables owners
  whereClause
  groupBy
  having
  orderBy
  limit
  selectRest

/-- A `SELECT`. -/
def select : Parser SelectClauses Unit := do
  selectClauses (← selectHead)
  skipRest
  modify fun s => { s with body := s.body.deriveColumns.deriveOrder }

/-- An `INSERT`. -/
def insert : Parser InsertClauses Unit := do
  accept Keyword.INSERT
  insertInto
  insertColumns
  let c ← cursor
  if c.isKeyword [.SELECT] || c.isSymbol .leftParen then throw (.unsupported .insertFromSelect)
  insertValues
  insertSet
  duplicateKeyUpdate
  skipRest

/-- What comes before the `WHERE` of an `UPDATE`. -/
def updateHead : Parser UpdateClauses Unit := do
  accept Keyword.UPDATE
  skipAll (← dialect).skippedBehindUpdate
  tableReferences true
  assignments
  skipUntil [Keyword.WHERE]

/-- An `UPDATE`. -/
def update : Parser UpdateClauses Unit := do
  updateHead
  whereClause
  skipRest

/-- What comes before the `WHERE` of a `DELETE`. -/
def deleteHead : Parser DeleteClauses Unit := do
  accept Keyword.DELETE
  skipAll (← dialect).skippedBehindDelete
  let _ ← skipKeyword [.FROM]
  tableReferences true
  skipUntil [Keyword.WHERE]

/-- A `DELETE`. -/
def delete : Parser DeleteClauses Unit := do
  deleteHead
  whereClause
  skipRest

end SqlRouting.Grammar
