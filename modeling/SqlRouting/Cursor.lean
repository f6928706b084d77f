import SqlRouting.Database
import SqlRouting.TokenStream

/-!
# Cursors

A cursor stands on a token of a text. Parsing sees the text only through the cursor: it looks at the
token under it, moves it forward, and cuts pieces out of the text behind it.
-/

namespace SqlRouting

/-- A place in a token stream, with the text and how it is read. -/
structure Cursor where
  text : List Char
  /-- The token under the cursor. -/
  current : Token
  /-- The tokens behind the current one. -/
  ahead : List Token
  /-- Why there are no more tokens, if they do not end at the end of the text. -/
  failure : Option LexicalError
  database : Database
  dialect : Dialect
  deriving DecidableEq, Repr

namespace Cursor

/-- The cursor on the first token of a text. -/
def ofText (database : Database) (dialect : Dialect) (text : String) :
    Except LexicalError Cursor :=
  let stream := TokenStream.ofText dialect text.toList
  match stream.tokens, stream.failure with
  | current :: ahead, failure =>
    .ok ⟨text.toList, current, ahead, failure, database, dialect⟩
  | [], some e => .error e
  | [], none => .ok ⟨text.toList, Token.final 0, [], none, database, dialect⟩

/-- The cursor on the next token. Behind the end of the text is its end again. -/
def next (c : Cursor) : Except LexicalError Cursor :=
  match c.ahead, c.failure with
  | current :: ahead, _ => .ok { c with current, ahead }
  | [], some e => .error e
  | [], none => .ok c

/-- The tokens from the cursor on. -/
def tokens (c : Cursor) : List Token :=
  c.current :: c.ahead

/-- The token under the cursor is of one of these kinds. -/
def isAny (c : Cursor) (kinds : List TokenKind) : Bool :=
  c.current.kind ∈ kinds

/-- The token under the cursor is one of these keywords. -/
def isKeyword (c : Cursor) (keywords : List Keyword) : Bool :=
  match c.current.kind with
  | .keyword k => k ∈ keywords
  | _ => false

/-- The token under the cursor is this symbol. -/
def isSymbol (c : Cursor) (s : Symbol) : Bool :=
  c.current.kind = .symbol s

/-- The token under the cursor is an arithmetic, bitwise or logical operator. -/
def isOperator (c : Cursor) : Bool :=
  Symbol.operators.any c.isSymbol

/-- The token under the cursor is a name. -/
def isName (c : Cursor) : Bool :=
  c.current.kind = .literal .identifier

/-- The cursor is at the end of the text. -/
def isEnd (c : Cursor) : Bool :=
  c.current.kind = .endOfText

/-- A bound on the number of moves that the cursor can still make. -/
def movesLeft (c : Cursor) : Nat :=
  c.ahead.length + 1

/-- That the token under the cursor is not allowed where it stands. -/
def unexpected (c : Cursor) : ParseError :=
  .unexpectedToken c.current.kind c.current.literal c.current.start

end Cursor

end SqlRouting
