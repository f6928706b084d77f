import SqlRouting.Token

/-!
# Errors

Why a text cannot be read as a statement. Each error is a cause; its wording is `message`.
-/

namespace SqlRouting

/-- Why a text cannot be cut into tokens. Positions are those of the character
    in question, for what is left open that of its first character. -/
inductive LexicalError where
  | unexpectedChar (char : Char) (position : Nat)
  | unterminatedString (position : Nat)
  | unterminatedName (position : Nat)
  | unterminatedComment (position : Nat)
  | invalidHexDigit (char : Char) (position : Nat)
  deriving DecidableEq, Repr

/-- The wording of the error. -/
def LexicalError.message : LexicalError → String
  | unexpectedChar c p => s!"Unexpected character '{c}' at position {p}"
  | unterminatedString p => s!"Unterminated string literal starting at position {p}"
  | unterminatedName p => s!"Unterminated quoted identifier starting at position {p}"
  | unterminatedComment p => s!"Unterminated block comment starting at position {p}"
  | invalidHexDigit c p => s!"Invalid hex digit '{c}' at position {p}"

/-- What a statement may ask for that a sharded database cannot do. -/
inductive Unsupported where
  | subquery
  | joinedSubquery
  | schemaQualifiedTable
  | severalTables
  | insertFromSelect
  | rowLength
  | orderPosition
  deriving DecidableEq, Repr

/-- The wording of what is not supported. -/
def Unsupported.text : Unsupported → String
  | subquery => "Cannot support subquery."
  | joinedSubquery => "Cannot support sub query for join table."
  | schemaQualifiedTable => "Cannot support SQL for \x60schema.table\x60"
  | severalTables => "Cannot support Multiple-Table."
  | insertFromSelect => "Cannot INSERT SELECT"
  | rowLength => "Column count doesn't match value count."
  | orderPosition => "ORDER BY position must be a positive integer."

/-- A promise that parsing keeps to itself and that would be broken. -/
inductive Fault where
  /-- A piece of the text is cut out between two of its character boundaries. -/
  | slice (start stop : Nat)
  /-- The number of placeholders never decreases. -/
  | count (before after : Nat)
  deriving DecidableEq, Repr

/-- The wording of the broken promise. -/
def Fault.message : Fault → String
  | slice start stop => s!"No text between the positions {start} and {stop}"
  | count before after => s!"No placeholders from number {before} to {after}"

/-- Why a text is not accepted as a statement. -/
inductive ParseError where
  /-- The next token cannot be read. -/
  | lexical (cause : LexicalError)
  /-- The token at `position` is none of those allowed there. -/
  | unexpectedToken (kind : TokenKind) (literal : String) (position : Nat)
  /-- A token is not the only one allowed at its place. -/
  | unmatchedToken (expected actual : TokenKind) (literal : String)
  /-- A keyword is known but refused. -/
  | unsupportedToken (kind : TokenKind)
  /-- The grammar allows what cannot be routed. -/
  | unsupported (cause : Unsupported)
  /-- Parsing broke a promise of its own. It never does. -/
  | fault (cause : Fault)
  deriving DecidableEq, Repr

/-- The wording of the error. -/
def ParseError.message : ParseError → String
  | lexical e => "Lexer error: " ++ e.message
  | unexpectedToken kind literal _ =>
    s!"SQL syntax error, token is '{kind.name}', literals is '{literal}'."
  | unmatchedToken expected actual literal =>
    s!"SQL syntax error, expected token is {expected.name}, actual token is {actual.name}, " ++
      s!"literals is '{literal}'."
  | unsupportedToken kind => s!"Not supported token {kind.name}"
  | unsupported cause => "Unsupported operation: " ++ cause.text
  | fault cause => cause.message

end SqlRouting
