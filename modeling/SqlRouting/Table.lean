import SqlRouting.Text.Case

/-!
# Tables

The tables of a statement, in the order in which they first appear. Two names that differ only in
case are the same table, and the first mention of a table is the one that is kept.
-/

namespace SqlRouting

/-- A table, perhaps with an alias. -/
structure Table where
  name : String
  asName : Option String := none
  deriving DecidableEq, Repr

/-- The table is named `name`, in upper or lower case. -/
def Table.isNamed (t : Table) (name : String) : Bool :=
  Text.sameLetters t.name name

/-- The table has the alias `name`, in upper or lower case. -/
def Table.isAliased (t : Table) (name : String) : Bool :=
  t.asName.any (Text.sameLetters · name)

/-- The tables of a statement. -/
structure Tables where
  toList : List Table := []
  deriving DecidableEq, Repr

namespace Tables

/-- One of the tables has this name; aliases do not count. -/
def contains (ts : Tables) (name : String) : Bool :=
  ts.toList.any (·.isNamed name)

/-- The tables with one more, unless there is one of that name already. -/
def add (ts : Tables) (t : Table) : Tables :=
  if ts.contains t.name then ts else ⟨ts.toList ++ [t]⟩

theorem toList_add_of_contains {ts : Tables} {t : Table} (h : ts.contains t.name = true) :
    (ts.add t).toList = ts.toList := by
  simp [add, h]

theorem toList_add_of_not_contains {ts : Tables} {t : Table} (h : ts.contains t.name = false) :
    (ts.add t).toList = ts.toList ++ [t] := by
  simp [add, h]

/-- Adding a table adds its name, whether the table itself is kept or not. -/
theorem contains_add (ts : Tables) (t : Table) (name : String) :
    (ts.add t).contains name = (ts.contains name || t.isNamed name) := by
  cases h : ts.contains t.name with
  | false => simp [contains, toList_add_of_not_contains h]
  | true =>
    rw [contains, toList_add_of_contains h, ← contains]
    cases hn : t.isNamed name with
    | false => simp
    | true =>
      obtain ⟨u, hu, hut⟩ := List.any_eq_true.1 h
      have hun : u.isNamed name = true := (Text.sameLetters_congr hut name).trans hn
      simpa [contains] using ⟨u, hu, hun⟩

/-- The table of that name, or else the first with that alias. -/
def find? (ts : Tables) (name : String) : Option Table :=
  ts.toList.find? (·.isNamed name) <|> ts.toList.find? (·.isAliased name)

/-- The number of tables. -/
def size (ts : Tables) : Nat :=
  ts.toList.length

/-- There is no table. -/
def isEmpty (ts : Tables) : Bool :=
  ts.toList.isEmpty

/-- The names of the tables. -/
def names (ts : Tables) : List String :=
  ts.toList.map Table.name

/-- The name of the first table, the only one of a statement on a single table. -/
def firstName? (ts : Tables) : Option String :=
  ts.names.head?

end Tables

end SqlRouting
