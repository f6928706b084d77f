import SqlRouting.Dialect
import SqlRouting.Text.Case

/-!
# Databases

A statement is parsed for a database, which decides the dialect unless another one is asked for.
-/

namespace SqlRouting

/-- The databases statements are routed for. -/
inductive Database where
  | mySql
  | h2
  deriving DecidableEq, Repr

namespace Database

/-- The name of the database. -/
def name : Database → String
  | mySql => "MySQL"
  | h2 => "H2"

/-- The dialect of the database: H2 is read like MySQL. -/
def dialect : Database → Dialect
  | mySql => Dialect.mySql
  | h2 => Dialect.mySql

/-- The database of the given name, in upper or lower case. -/
def ofName? (name : String) : Option Database :=
  [mySql, h2].find? fun d => Text.sameLetters name d.name

/-- What is reported of a name that is no database's. -/
def unknownName (name : String) : String :=
  "Unsupported database type: " ++ name

end Database

end SqlRouting
