import SqlRouting.Direction

/-!
# Sort items

The items of `ORDER BY` and `GROUP BY`.
-/

namespace SqlRouting

/-- What rows are sorted or grouped by. -/
inductive SortKey where
  /-- A column or expression, perhaps with the table that owns it. -/
  | column (owner : Option String) (name : String)
  /-- A place in the select list, counted from one. -/
  | position (index : Nat)
  deriving DecidableEq, Repr

/-- `owner.name` or `name`; a position has no name. -/
def SortKey.qualifiedName? : SortKey → Option String
  | column none name => some name
  | column (some owner) name => some (owner ++ "." ++ name)
  | position _ => none

/-- An item of `ORDER BY` or `GROUP BY`. -/
structure SortItem where
  key : SortKey
  direction : Direction
  /-- Where nulls are sorted. -/
  nulls : Direction
  /-- The alias of the select item that holds the key. -/
  asName : Option String := none
  deriving DecidableEq, Repr

/-- `owner.name` or `name` of the key. -/
def SortItem.qualifiedName? (item : SortItem) : Option String :=
  item.key.qualifiedName?

/-- The two keys name the same column or the same position. -/
def SortKey.isSame (j k : SortKey) : Bool :=
  match j, k with
  | position m, position n => m = n
  | column _ _, column _ _ => j.qualifiedName? = k.qualifiedName?
  | _, _ => false

end SqlRouting
