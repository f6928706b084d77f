import SqlRouting.Keyword
import SqlRouting.Symbol
import SqlRouting.Text.Bytes

/-!
# Tokens

A token is a piece of a text together with its kind: a keyword, a literal, a symbol, or the end of
the text. It knows where it stops; where it starts follows from its literal (`Token.start`).
-/

namespace SqlRouting

/-- The classes of literals. -/
inductive LiteralClass where
  /-- An integer in decimal digits. -/
  | int
  /-- A number with a fraction or an exponent. -/
  | float
  /-- A number in hexadecimal digits: `0x1F` or `X'1F'`. -/
  | hex
  /-- A quoted string. -/
  | chars
  /-- A name, quoted or not. -/
  | identifier
  /-- A user or system variable: `@name` or `@@name`. -/
  | atVariable
  deriving DecidableEq, Repr

/-- The name of the class in messages. -/
def LiteralClass.name : LiteralClass → String
  | int => "INT"
  | float => "FLOAT"
  | hex => "HEX"
  | chars => "CHARS"
  | identifier => "IDENTIFIER"
  | atVariable => "VARIABLE"

/-- What a token is. -/
inductive TokenKind where
  | keyword (k : Keyword)
  | literal (c : LiteralClass)
  | symbol (s : Symbol)
  | endOfText
  deriving DecidableEq, Repr

namespace TokenKind

instance : Coe Keyword TokenKind := ⟨keyword⟩

instance : Coe LiteralClass TokenKind := ⟨literal⟩

instance : Coe Symbol TokenKind := ⟨symbol⟩

/-- The kind as shown in messages. -/
def name : TokenKind → String
  | keyword k => k.text
  | literal c => c.name
  | symbol s => s.name
  | endOfText => "END"

/-- The number of bytes by which a token of this kind is longer than its
    literal: the two quotes of a string, which its literal leaves out. -/
def quotes : TokenKind → Nat
  | literal .chars => 2
  | _ => 0

end TokenKind

/-- A piece of a text. The literal is the text of the token, for a string the
    text between its quotes; `stop` is the position behind the token. -/
structure Token where
  kind : TokenKind
  literal : String
  stop : Nat
  deriving DecidableEq, Repr

/-- The position of the first character of the token, a string's opening quote
    included. -/
def Token.start (t : Token) : Nat :=
  t.stop - (Text.byteLength t.literal.toList + t.kind.quotes)

/-- The token at the end of a text of the given length. -/
def Token.final (length : Nat) : Token :=
  ⟨.endOfText, "", length⟩

end SqlRouting
