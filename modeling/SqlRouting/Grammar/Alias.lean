import SqlRouting.Parser
import SqlRouting.Text.Unquoted

/-!
# Aliases

A table or a select item may have an alias, with or without `AS`. Without it, only names, strings
and some keywords are taken for an alias; behind it, anything but a symbol.
-/

namespace SqlRouting.Grammar

open SqlRouting.Parser

variable {κ : Type}

/-- The token under the cursor taken for an alias. -/
def takeAlias : Parser κ String := do
  let token ← current
  advance
  return Text.unquoted token.literal

/-- An alias, if there is one. Without `AS` it may also be one of the given
    keywords. -/
def aliasOr (keywords : List Keyword) : Parser κ (Option String) := do
  if ← skipKeyword [.AS] then
    match (← current).kind with
    | .endOfText | .symbol _ => return none
    | _ => return some (← takeAlias)
  else if (← cursor).isAny [LiteralClass.identifier, LiteralClass.chars] ||
      (← cursor).isKeyword keywords then
    return some (← takeAlias)
  else return none

/-- The alias of a select item: names of functions are allowed. -/
def selectItemAlias : Parser κ (Option String) := do
  aliasOr ([.COUNT, .SUM, .AVG, .MAX, .MIN, .LENGTH] ++ (← dialect).selectItemAlias)

/-- The alias of a table. -/
def tableAlias : Parser κ (Option String) := do
  aliasOr (← dialect).tableAlias

end SqlRouting.Grammar
