import SqlRouting.Statement

/-!
# Derived columns

The results of a select from several shards have to be merged. For this a select may need columns
that it does not list: the count and the sum behind an average, and the columns that rows are sorted
or grouped by. They are *derived*: given an alias and, by a mark behind the select list, added to
the text. A select that groups but does not sort is sorted by its groups, so that the rows to merge
come in order.
-/

namespace SqlRouting

/-- A select item in a mark: an expression and its alias. -/
def derivedText (expression asName : String) : String :=
  expression ++ " AS " ++ asName

namespace SelectItem

/-- The `k`-th average's count and sum. -/
def averageParts (k : Nat) (inner : String) : List Aggregation :=
  [⟨.count, inner, some s!"AVG_DERIVED_COUNT_{k}"⟩, ⟨.sum, inner, some s!"AVG_DERIVED_SUM_{k}"⟩]

/-- The items with the parts that every average needs, `k` averages having come
    before. -/
def deriveAverages : Nat → List SelectItem → List SelectItem
  | _, [] => []
  | k, aggregation ⟨.avg, inner, asName⟩ derived :: items =>
    aggregation ⟨.avg, inner, asName⟩ (derived ++ averageParts k inner) ::
      deriveAverages (k + 1) items
  | k, item :: items => item :: deriveAverages k items

/-- The texts of the columns derived from an item. -/
def derivedTexts : SelectItem → List String
  | aggregation _ derived => derived.map fun d => derivedText d.expression d.label
  | star _ | plain _ _ => []

/-- The item is the column of a sort item: their aliases agree, or, if the item
    has no alias, it is written like the key. -/
def holds (item : SelectItem) (sort : SortItem) : Bool :=
  match item.asName?, sort.asName with
  | some asName, some sortAlias => Text.sameLetters asName sortAlias
  | some _, none => false
  | none, _ => sort.qualifiedName?.any item.isWritten

end SelectItem

namespace SortItem

/-- The column of the sort item has to be derived: it is a column, and neither a
    star nor an item of the select list holds it. -/
def isMissing (s : SelectClauses) (item : SortItem) : Bool :=
  item.qualifiedName?.isSome && !s.containsStar && !s.items.any (·.holds item)

/-- The sort items with an alias for every missing column, and the texts of these
    columns. An alias consists of a stem and a number; `k` columns have come
    before. -/
def deriveMissing (s : SelectClauses) (stem : String) :
    Nat → List SortItem → List SortItem × List String
  | _, [] => ([], [])
  | k, item :: items =>
    match item.qualifiedName? with
    | some name =>
      if item.isMissing s then
        let asName := stem ++ toString k
        let (items, texts) := deriveMissing s stem (k + 1) items
        ({ item with asName := some asName } :: items, derivedText name asName :: texts)
      else
        let (items, texts) := deriveMissing s stem k items
        (item :: items, texts)
    | none =>
      let (items, texts) := deriveMissing s stem k items
      (item :: items, texts)

end SortItem

namespace Body

/-- The select with its derived columns, marked behind the select list. -/
def deriveColumns (b : Body SelectClauses) : Body SelectClauses :=
  let items := SelectItem.deriveAverages 0 b.clauses.items
  let (orderBy, orderTexts) :=
    SortItem.deriveMissing b.clauses "ORDER_BY_DERIVED_" 0 b.clauses.orderBy
  let (groupBy, groupTexts) :=
    SortItem.deriveMissing b.clauses "GROUP_BY_DERIVED_" 0 b.clauses.groupBy
  let texts := items.flatMap SelectItem.derivedTexts ++ orderTexts ++ groupTexts
  { b with
    marks := if texts.isEmpty then b.marks
      else (Mark.items b.clauses.selectListStop texts).insert b.marks
    clauses := { b.clauses with items, orderBy, groupBy } }

/-- The select sorted by its groups if it groups without sorting, marked behind
    `GROUP BY`. -/
def deriveOrder (b : Body SelectClauses) : Body SelectClauses :=
  if b.clauses.groupBy.isEmpty || !b.clauses.orderBy.isEmpty then b
  else
    { b with
      marks := (Mark.orderBy b.clauses.groupByStop).insert b.marks
      clauses := { b.clauses with orderBy := b.clauses.groupBy } }

end Body

end SqlRouting
