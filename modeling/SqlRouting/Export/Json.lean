/-!
# JSON texts

The JSON text of strings, arrays and objects, without blanks.
-/

namespace SqlRouting.Json

/-- A character inside of a string. Only quotes, backslashes and control
    characters are escaped. -/
def escape (c : Char) : List Char :=
  if c = '"' then ['\\', '"']
  else if c = '\\' then ['\\', '\\']
  else if c = '\x08' then ['\\', 'b']
  else if c = '\x0c' then ['\\', 'f']
  else if c = '\n' then ['\\', 'n']
  else if c = '\r' then ['\\', 'r']
  else if c = '\t' then ['\\', 't']
  else if c.toNat < 0x20 then
    ['\\', 'u', '0', '0', Nat.digitChar (c.toNat / 16), Nat.digitChar (c.toNat % 16)]
  else [c]

/-- A string in quotes. -/
def string (s : String) : String :=
  String.ofList ('"' :: s.toList.flatMap escape ++ ['"'])

/-- An array of texts. -/
def array (items : List String) : String :=
  "[" ++ String.intercalate "," items ++ "]"

/-- An object of names and texts. -/
def object (fields : List (String × String)) : String :=
  "\x7b" ++ String.intercalate "," (fields.map fun (name, value) => string name ++ ":" ++ value) ++
    "\x7d"

/-- A value that may be missing. -/
def option {α : Type} (f : α → String) : Option α → String
  | some a => f a
  | none => "null"

end SqlRouting.Json
