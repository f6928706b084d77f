import SqlRouting.Keyword
import SqlRouting.Text.Case

/-!
# Select items

The items of a select list. Aggregations are told apart from other expressions, since their results
from several shards have to be combined; an average is combined from the count and the sum that are
derived from it.
-/

namespace SqlRouting

/-- The aggregation functions whose results can be combined. -/
inductive AggregateFunction where
  | max
  | min
  | sum
  | count
  | avg
  deriving DecidableEq, Repr

namespace AggregateFunction

/-- The function as it is written, in upper case. -/
def text : AggregateFunction → String
  | max => "MAX"
  | min => "MIN"
  | sum => "SUM"
  | count => "COUNT"
  | avg => "AVG"

/-- The function that a keyword names. -/
def ofKeyword? : Keyword → Option AggregateFunction
  | .MAX => some max
  | .MIN => some min
  | .SUM => some sum
  | .COUNT => some count
  | .AVG => some avg
  | _ => none

end AggregateFunction

/-- A call of an aggregation function; `inner` is the argument in its
    parentheses. -/
structure Aggregation where
  function : AggregateFunction
  inner : String
  asName : Option String := none
  deriving DecidableEq, Repr

namespace Aggregation

/-- The call as it is written. -/
def expression (a : Aggregation) : String :=
  a.function.text ++ a.inner

/-- The name of the column in the result: the alias, or else the call. -/
def label (a : Aggregation) : String :=
  a.asName.getD a.expression

end Aggregation

/-- An item of a select list. -/
inductive SelectItem where
  /-- `*` or `owner.*`. -/
  | star (owner : Option String)
  /-- An aggregation, and the aggregations needed to combine it over shards. -/
  | aggregation (call : Aggregation) (derived : List Aggregation)
  /-- Any other expression, as written. -/
  | plain (expression : String) (asName : Option String)
  deriving DecidableEq, Repr

namespace SelectItem

/-- The item as written, without its alias. -/
def expression : SelectItem → String
  | star none => "*"
  | star (some owner) => owner ++ ".*"
  | aggregation call _ => call.expression
  | plain expression _ => expression

/-- The alias of the item. -/
def asName? : SelectItem → Option String
  | star _ => none
  | aggregation call _ => call.asName
  | plain _ asName => asName

/-- The aggregation that the item is, if it is one. -/
def aggregation? : SelectItem → Option Aggregation
  | aggregation call _ => some call
  | star _ | plain _ _ => none

/-- The item is written as `name`, in upper or lower case. -/
def isWritten (item : SelectItem) (name : String) : Bool :=
  Text.sameLetters item.expression name

/-- The alias of the item is `name`, in upper or lower case. -/
def isAliased (item : SelectItem) (name : String) : Bool :=
  item.asName?.any (Text.sameLetters · name)

end SelectItem

end SqlRouting
