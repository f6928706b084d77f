import SqlRouting.Grammar.Operand

/-!
# Grouping and sorting

The items of `GROUP BY` and `ORDER BY`. An item takes over the alias of the select item that it
names, if there is one.
-/

namespace SqlRouting

/-- The alias under which `name` is found in the select list: that of an item
    written as `name`, or `name` itself if it is an alias. The first item that
    fits either way decides. -/
def SelectClauses.aliasFor? (s : SelectClauses) (name : String) : Option String :=
  if s.containsStar then none
  else
    (s.items.find? fun item => item.isWritten name || item.isAliased name).bind fun item =>
      if item.isWritten name then item.asName? else some name

namespace Grammar

open SqlRouting.Parser

/-- `ASC`, `DESC` or neither. -/
def direction {κ : Type} : Parser κ Direction := do
  if ← skipKeyword [.DESC] then return .descending
  else
    let _ ← skipKeyword [.ASC]
    return .ascending

/-- The column that an expression sorts by; values are no columns. -/
def sortColumn? : Expression → Option SortKey
  | .property owner name => some (.column (some owner) name)
  | .identifier name | .other name => some (.column none name)
  | .placeholder _ | .text _ | .number _ => none

/-- The item with a given key. -/
def sortItem (key : SortKey) (direction : Direction) : Parser SelectClauses SortItem := do
  let asName := key.qualifiedName?.bind (← clauses).aliasFor?
  return ⟨key, direction, (← dialect).nullDirection, asName⟩

/-- An item of `GROUP BY`. One that is a value is passed over. -/
def groupItem : Parser SelectClauses Unit := do
  refuseEnd
  let expression ← operand
  let direction ← direction
  match sortColumn? expression with
  | some key =>
    let item ← sortItem key direction
    modifyClauses fun s => { s with groupBy := s.groupBy ++ [item] }
  | none => return ()

/-- The items of `GROUP BY`, from `BY` on, and what the dialect allows behind
    them. -/
def groupItems : Parser SelectClauses Unit := do
  accept Keyword.BY
  let _ ← commaSeparated groupItem
  skipAll (← dialect).skippedBehindGroupBy
  let stop := (← current).start
  modifyClauses fun s => { s with groupByStop := stop }

/-- A `GROUP BY`, which may be missing. -/
def groupBy : Parser SelectClauses Unit := do
  if ← skipKeyword [.GROUP] then groupItems

/-- Refuses `HAVING`. -/
def having {κ : Type} : Parser κ Unit :=
  refuse [.HAVING]

/-- The key of an item of `ORDER BY`: a column, or a position in the select
    list. -/
def orderKey (expression : Expression) : Parser SelectClauses SortKey := do
  match expression, sortColumn? expression with
  | .number (.integer index), _ =>
    if 0 < index then return .position index.toNat
    else throw (.unsupported .orderPosition)
  | _, some key => return key
  | _, none => unexpected

/-- An item of `ORDER BY`. -/
def orderItem : Parser SelectClauses Unit := do
  refuseEnd
  let expression ← operand
  let direction ← direction
  let item ← sortItem (← orderKey expression) direction
  modifyClauses fun s => { s with orderBy := s.orderBy ++ [item] }

/-- The items of `ORDER BY`, from `BY` on. -/
def orderItems : Parser SelectClauses Unit := do
  accept Keyword.BY
  let _ ← commaSeparated orderItem

/-- An `ORDER BY`, which may be missing. -/
def orderBy : Parser SelectClauses Unit := do
  if ← skipKeyword [.ORDER] then orderItems

end Grammar

end SqlRouting
