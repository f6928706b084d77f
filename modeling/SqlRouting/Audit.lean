import SqlRouting.Number
import SqlRouting.Parse

/-!
# Audits

An audit holds the marks of a statement against its text: the marks have to be in order, every mark
has to lie in the text, and those of tables and limits have to stand where the text says the same.
-/

namespace SqlRouting

/-- What an audit can find wrong. -/
inductive Finding where
  /-- There are more placeholders than question marks in the text. -/
  | placeholders
  /-- The marks other than those of the limit are not in order. -/
  | order
  /-- The marks of the limit are not the last ones, or the row count comes before
      the offset. -/
  | limit
  /-- A mark lies behind the text or inside of a character. -/
  | outside
  /-- A table is not spelled as its mark says. -/
  | table
  /-- A number of the limit is not the one that its mark says. -/
  | number
  deriving DecidableEq, Repr

namespace Mark

/-- What is wrong with the place of a mark in a text. -/
def misplaced? (text : List Char) (m : Mark) : Option Finding :=
  match Text.splitBytes? m.start text, m with
  | none, _ => some .outside
  | some (_, rest), table _ spelling =>
    if spelling.toList.isPrefixOf rest then none else some .table
  | some (_, rest), offset _ value | some (_, rest), rowCount _ value =>
    if Number.integer? 10 (rest.takeWhile Char.isDigit) = some value then none else some .number
  | some _, _ => none

/-- The positions never decrease. -/
def isSorted : List Mark → Bool
  | m :: n :: ms => m.start ≤ n.start && isSorted (n :: ms)
  | _ => true

/-- The last marks are all of a limit, and the offset comes first. -/
def areOfLimit : List Mark → Bool
  | [rowCount _ _, offset _ _] => false
  | ms => ms.all isOfLimit

/-- The first thing that is wrong with the marks of a text. -/
def audit (text : List Char) (ms : List Mark) : Option Finding :=
  let (others, ofLimit) := ms.splitAt (prefixLength (!·.isOfLimit) ms)
  if !isSorted others then some .order
  else if !areOfLimit ofLimit then some .limit
  else ms.findSome? (misplaced? text)

end Mark

/-- The first thing that is wrong with the statement that is made of a text;
    nothing is if the text is refused. -/
def Statement.audit (database : Database) (dialect : Dialect) (text : String) : Option Finding :=
  match parse database dialect text with
  | .ok s =>
    if text.toList.count '?' < s.routing.parameters then some .placeholders
    else Mark.audit text.toList s.routing.marks
  | .error _ => none

end SqlRouting
