import SqlRouting.Direction
import SqlRouting.Keyword

/-!
# Dialects

The grammar is one for all dialects. A dialect is data: for each place where dialects differ, a
*hook*, the list of the keywords that the dialect allows there, and some switches for reading
tokens. With an empty hook the standard grammar alone holds at its place, and a keyword in a hook is
allowed there in addition; the exceptions are the two hooks of keywords that a dialect refuses,
`distinctSynonyms` and `refusedBehindSelect`.
-/

namespace SqlRouting

/-- A dialect: its hooks in the grammar and its switches for reading tokens. By
    default, every hook is empty and every switch off. -/
structure Dialect where
  name : String
  /-- The keywords known beside the standard ones. -/
  keywords : List Keyword := []
  /-- Synonyms of `DISTINCT`, refused like it. -/
  distinctSynonyms : List Keyword := []
  /-- Options skipped between `SELECT` and the select list. -/
  selectOptions : List Keyword := []
  /-- Join types beside the standard ones. -/
  joinTypes : List Keyword := []
  /-- Keywords that start a partition list behind a table name. -/
  tablePartition : List Keyword := []
  /-- Keywords that start an index hint behind a table name. -/
  indexHint : List Keyword := []
  /-- Keywords that may be an alias of a select item without `AS`. -/
  selectItemAlias : List Keyword := []
  /-- Keywords that may be an alias of a table without `AS`. -/
  tableAlias : List Keyword := []
  /-- Comparison operators beside the standard ones. -/
  comparisons : List Keyword := []
  /-- Keywords skipped behind the items of `GROUP BY`. -/
  skippedBehindGroupBy : List Keyword := []
  /-- Where nulls are sorted. -/
  nullDirection : Direction := .ascending
  /-- Keywords refused behind a complete `SELECT`. -/
  refusedBehindSelect : List Keyword := []
  /-- Modifiers skipped between `INSERT` and `INTO`. -/
  skippedBeforeInto : List Keyword := []
  /-- Keywords skipped between the table of an insert and its values. -/
  skippedBeforeValues : List Keyword := []
  /-- Synonyms of `VALUES`. -/
  valuesSynonyms : List Keyword := []
  /-- Keywords that start the assignments of an insert. -/
  insertSet : List Keyword := []
  /-- Keywords that start `ON DUPLICATE KEY UPDATE`. -/
  duplicateKeyUpdate : List Keyword := []
  /-- Modifiers skipped between `UPDATE` and the table. -/
  skippedBehindUpdate : List Keyword := []
  /-- Modifiers skipped between `DELETE` and the table. -/
  skippedBehindDelete : List Keyword := []
  /-- `#` starts a comment. -/
  hashComments : Bool := false
  /-- Backticks quote names. -/
  backtickNames : Bool := false
  /-- Double quotes enclose strings rather than names. -/
  doubleQuotedStrings : Bool := false
  /-- A backslash in a string takes the next character's meaning away. -/
  backslashEscapes : Bool := false
  /-- `@name` and `@@name` are variables. -/
  atVariables : Bool := false
  deriving DecidableEq, Repr

namespace Dialect

/-- The grammar alone: all hooks empty, all switches off. -/
def standard : Dialect where
  name := "Standard"

/-- The dialect of MySQL. -/
def mySql : Dialect where
  name := "MySQL"
  keywords := [.LOW_PRIORITY, .HIGH_PRIORITY, .DELAYED, .IGNORE, .QUICK, .STRAIGHT_JOIN,
    .SQL_SMALL_RESULT, .SQL_BIG_RESULT, .SQL_BUFFER_RESULT, .SQL_CACHE, .SQL_NO_CACHE,
    .SQL_CALC_FOUND_ROWS, .DISTINCTROW, .PARTITION, .FORCE, .VALUE, .DUPLICATE, .ROLLUP, .REGEXP,
    .DESCRIBE]
  distinctSynonyms := [.DISTINCTROW]
  selectOptions := [.HIGH_PRIORITY, .STRAIGHT_JOIN, .SQL_SMALL_RESULT, .SQL_BIG_RESULT,
    .SQL_BUFFER_RESULT, .SQL_CACHE, .SQL_NO_CACHE, .SQL_CALC_FOUND_ROWS]
  joinTypes := [.STRAIGHT_JOIN]
  tablePartition := [.PARTITION]
  indexHint := [.USE, .IGNORE, .FORCE]
  tableAlias := [.LENGTH]
  comparisons := [.REGEXP]
  skippedBehindGroupBy := [.WITH, .ROLLUP]
  refusedBehindSelect := [.PROCEDURE, .INTO]
  skippedBeforeInto := [.LOW_PRIORITY, .DELAYED, .HIGH_PRIORITY, .IGNORE]
  skippedBeforeValues := [.PARTITION]
  valuesSynonyms := [.VALUE]
  insertSet := [.SET]
  duplicateKeyUpdate := [.ON]
  skippedBehindUpdate := [.LOW_PRIORITY, .IGNORE]
  skippedBehindDelete := [.LOW_PRIORITY, .QUICK, .IGNORE]
  hashComments := true
  backtickNames := true
  doubleQuotedStrings := true
  backslashEscapes := true
  atVariables := true

end Dialect

end SqlRouting
