import SqlRouting.Grammar.Alias
import SqlRouting.Grammar.Operand

/-!
# Select lists

What stands between `SELECT` and `FROM`. The tables are not known while the select list is read, so
the owners of columns in it are handed back: those that turn out to be tables are marked once the
tables are known (`markTables`).
-/

namespace SqlRouting.Grammar

open SqlRouting.Parser

/-- Refuses `DISTINCT` and its synonyms, and skips `ALL`. -/
def distinct {κ : Type} : Parser κ Unit := do
  skipAll [.ALL]
  refuse [.DISTINCT]
  refuse (← dialect).distinctSynonyms

/-- Skips the options of the dialect. -/
def selectOptions {κ : Type} : Parser κ Unit := do
  skipAll (← dialect).selectOptions

/-- What has been read of an item: the owners in it, and whether it is
    `owner.*`. -/
structure ItemPart where
  owners : List Token := []
  isStar : Bool := false

/-- An operand of a select item: a group, a call, a column with its owner,
    `owner.*`, or a single token. -/
def itemPart {κ : Type} : Parser κ ItemPart := do
  refuseEnd
  if (← cursor).isSymbol .leftParen then
    let _ ← skipParentheses
    return {}
  else
    countPlaceholder
    let first ← current
    advance
    if (← cursor).isSymbol .leftParen then
      let _ ← skipParentheses
      return {}
    else if ← skipSymbol .dot then
      let owners := if first.kind = .literal .identifier then [first] else []
      let name ← takeName
      return { owners, isStar := name.kind = .symbol .star }
    else return {}

/-- The operands that operators join to an item, and the owners in them. At most
    `n` operators are looked at. -/
def joinedParts {κ : Type} : Nat → Parser κ (List Token)
  | 0 => return []
  | n + 1 => do
    if (← cursor).isOperator then
      advance
      let part ← itemPart
      return part.owners ++ (← joinedParts n)
    else return []

/-- The rest of an item that starts at `start` and is neither a star nor a lone
    aggregation. -/
def plainItem (start : Nat) (owners : List Token) :
    Parser SelectClauses (SelectItem × List Token) := do
  let more ← joinedParts (← cursor).movesLeft
  let expression := Text.unquoted (← textSince start)
  return (.plain expression (← selectItemAlias), owners ++ more)

/-- Records that the select list has a star. -/
def noteStar : Parser SelectClauses Unit :=
  modifyClauses fun s => { s with containsStar := true }

/-- The item `*` or `owner.*`; an alias behind it is dropped. -/
def starItem (owner : Option String) : Parser SelectClauses SelectItem := do
  let _ ← selectItemAlias
  return .star owner

/-- The item that starts with the name of an aggregation function, which has
    been consumed as `first`. -/
def aggregationItem (function : AggregateFunction) (first : Token) :
    Parser SelectClauses (SelectItem × List Token) := do
  if (← cursor).isSymbol .leftParen then
    let inner ← skipParentheses
    if (← cursor).isOperator then plainItem first.start []
    else return (.aggregation ⟨function, inner, ← selectItemAlias⟩ [], [])
  else plainItem first.start []

/-- The aggregation function that a token names. -/
def aggregateFunction? (t : Token) : Option AggregateFunction :=
  match t.kind with
  | .keyword k => AggregateFunction.ofKeyword? k
  | _ => none

/-- An item of the select list, and the owners in it. -/
def selectItem : Parser SelectClauses (SelectItem × List Token) := do
  let first ← current
  if (← cursor).isSymbol .star then
    noteStar
    advance
    return (← starItem none, [])
  else
    match aggregateFunction? first with
    | some function =>
      advance
      aggregationItem function first
    | none =>
      let part ← itemPart
      if part.isStar then
        noteStar
        return (← starItem (some (Text.unquoted first.literal)), part.owners)
      else plainItem first.start part.owners

/-- The select list. The result is the owners in it. -/
def selectList : Parser SelectClauses (List Token) := do
  let owners ← commaSeparated do
    let (item, owners) ← selectItem
    modifyClauses fun s => { s with items := s.items ++ [item] }
    return owners
  let stop := (← current).start
  modifyClauses fun s => { s with selectListStop := stop }
  return owners.flatten

/-- Marks those names that are tables of the statement. -/
def markTables {κ : Type} (names : List Token) : Parser κ Unit :=
  names.forM markOwner

end SqlRouting.Grammar
