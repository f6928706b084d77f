/-!
# Names without their quotes

A name may be written in backticks, double quotes or brackets. The quotes are no part of the name
it stands for: two spellings are the same name if they agree after `unquoted`.
-/

namespace SqlRouting.Text

/-- The characters that quote a name. -/
def isNameQuote (c : Char) : Bool :=
  c = '\x60' || c = '"' || c = '[' || c = ']'

/-- The name behind a spelling: all quoting characters removed. -/
def unquoted (s : String) : String :=
  String.ofList (s.toList.filter fun c => !isNameQuote c)

@[simp] theorem unquoted_unquoted (s : String) : unquoted (unquoted s) = unquoted s := by
  simp [unquoted]

end SqlRouting.Text
