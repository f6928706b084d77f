import SqlRouting.Dictionary
import SqlRouting.Error
import SqlRouting.Text.Blank

/-!
# The token at the start of a text

A *lexeme* is the kind and the spelling of the token that a text starts with; the spelling is a
part of the text, so what is left is the text behind it. Every class of tokens has a rule, which
reads the lexeme if the text opens as the class asks. `Lexeme.read` takes the first rule that
applies.
-/

namespace SqlRouting

/-- The kind of a token and the text it is written as. -/
structure Lexeme where
  kind : TokenKind
  spelling : List Char
  deriving DecidableEq, Repr

namespace Lexeme

/-- What the token keeps of its spelling: all of it, for a string without the
    first and the last character, its quotes. -/
def literal (l : Lexeme) : String :=
  if l.kind = .literal .chars then String.ofList (l.spelling.drop 1).dropLast
  else String.ofList l.spelling

/-- The token that is written at the position `start`. -/
def toToken (l : Lexeme) (start : Nat) : Token :=
  ⟨l.kind, l.literal, start + Text.byteLength l.spelling⟩

/-! ## Rules -/

/-- A rule for a class of tokens: given the words read as keywords and a text at
    a position, `none` if the text does not open like a token of the class, and
    otherwise the lexeme or the reason why it cannot be read. -/
abbrev Rule :=
  Dialect → Dictionary → Nat → List Char → Option (Except LexicalError Lexeme)

/-- The text up to and with the next quote that stands alone: a doubled quote is
    a quote inside, and so is one behind a backslash if backslashes escape. -/
def upToQuote? (quote : Char) (escapes : Bool) : List Char → Option (List Char)
  | [] => none
  | [c] => if c = quote then some [c] else none
  | c :: d :: cs =>
    if c = '\\' && escapes then (upToQuote? quote escapes cs).map (c :: d :: ·)
    else if c = quote then
      if d = quote then (upToQuote? quote escapes cs).map (c :: d :: ·) else some [c]
    else (upToQuote? quote escapes (d :: cs)).map (c :: ·)

/-- What a character quotes: strings or names. -/
def quoted? (d : Dialect) (c : Char) : Option LiteralClass :=
  if c = '\'' then some .chars
  else if c = '"' then some (if d.doubleQuotedStrings then .chars else .identifier)
  else if c = '\x60' && d.backtickNames then some .identifier
  else none

/-- Quoted strings and quoted names. -/
def quotation : Rule
  | d, _, start, c :: cs => (quoted? d c).map fun cls =>
      match upToQuote? c (cls = LiteralClass.chars && d.backslashEscapes) cs with
      | some body => .ok ⟨.literal cls, c :: body⟩
      | none =>
        .error (if cls = LiteralClass.chars then .unterminatedString start
          else .unterminatedName start)
  | _, _, _, [] => none

/-- A hexadecimal digit. -/
def isHexDigit (c : Char) : Bool :=
  c.isDigit || ('a' ≤ c && c ≤ 'f') || ('A' ≤ c && c ≤ 'F')

/-- `0x1F`, with at least one digit. -/
def hexNumber : Rule
  | _, _, start, '0' :: x :: cs =>
    if x = 'x' || x = 'X' then
      let digits := cs.takeWhile isHexDigit
      some <|
        if digits.isEmpty then .error (.invalidHexDigit (cs.head?.getD ' ') (start + 2))
        else .ok ⟨LiteralClass.hex, '0' :: x :: digits⟩
    else none
  | _, _, _, _ => none

/-- `X'1F'`, with any number of digits. -/
def hexString : Rule
  | _, _, start, x :: '\'' :: cs =>
    if x = 'x' || x = 'X' then
      let digits := cs.takeWhile isHexDigit
      some <|
        match cs.dropWhile isHexDigit with
        | '\'' :: _ => .ok ⟨LiteralClass.hex, x :: '\'' :: digits ++ ['\'']⟩
        | c :: _ => .error (.invalidHexDigit c (start + 2 + digits.length))
        | [] => .error (.unterminatedString start)
    else none
  | _, _, _, _ => none

/-- The first character of a word: a letter, an underscore, a dollar sign, or any
    character outside of ASCII. -/
def startsWord (c : Char) : Bool :=
  c.isAlpha || c = '_' || c = '$' || 0x80 ≤ c.toNat

/-- A further character of a word: also a digit. -/
def continuesWord (c : Char) : Bool :=
  c.isAlphanum || c = '_' || c = '$' || 0x80 ≤ c.toNat

/-- `@name` and `@@name`, the name with dots. -/
def variableName : Rule
  | d, _, _, '@' :: cs =>
    if d.atVariables then
      let isNamed := fun c => continuesWord c || c = '.'
      some <| .ok <|
        match cs with
        | '@' :: ds => ⟨LiteralClass.atVariable, '@' :: '@' :: ds.takeWhile isNamed⟩
        | _ => ⟨LiteralClass.atVariable, '@' :: cs.takeWhile isNamed⟩
    else none
  | _, _, _, _ => none

/-- The fraction that a text starts with: a point and the digits behind it. -/
def fraction : List Char → List Char
  | '.' :: cs => '.' :: cs.takeWhile Char.isDigit
  | _ => []

/-- The sign that a text starts with, if any. -/
def sign : List Char → List Char
  | c :: _ => if c = '+' || c = '-' then [c] else []
  | [] => []

/-- The exponent that a text starts with: an `e`, perhaps a sign, and at least one
    digit. -/
def exponent : List Char → List Char
  | e :: cs =>
    let digits := (cs.drop (sign cs).length).takeWhile Char.isDigit
    if (e = 'e' || e = 'E') && !digits.isEmpty then e :: sign cs ++ digits else []
  | [] => []

/-- Numbers in decimal digits: whole ones, and those with a fraction, which may
    have no digit before or behind the point, or with an exponent. -/
def number : Rule
  | _, _, _, cs =>
    let opens := match cs with
      | '.' :: c :: _ => c.isDigit
      | c :: _ => c.isDigit
      | [] => false
    if opens then
      let whole := cs.takeWhile Char.isDigit
      let rest := cs.dropWhile Char.isDigit
      let behind := fraction rest ++ exponent (rest.drop (fraction rest).length)
      some (.ok ⟨if behind.isEmpty then LiteralClass.int else LiteralClass.float, whole ++ behind⟩)
    else none

/-- The word `BY` follows, behind blanks if any. -/
def isFollowedByBy (cs : List Char) : Bool :=
  match Text.trimStart cs with
  | b :: y :: rest =>
    b.toUpper = 'B' && y.toUpper = 'Y' && !(rest.head?.any continuesWord)
  | _ => false

/-- The kind of a word with a given text behind it. `ORDER` and `GROUP` are
    keywords only before `BY`; elsewhere they are names. -/
def wordKind (dict : Dictionary) (word rest : List Char) : TokenKind :=
  match dict.find? (String.ofList word) with
  | some k =>
    if (k = .ORDER || k = .GROUP) && !isFollowedByBy rest then LiteralClass.identifier else k
  | none => LiteralClass.identifier

/-- Keywords and names without quotes. -/
def word : Rule
  | _, dict, _, c :: cs =>
    if startsWord c then
      let spelling := c :: cs.takeWhile continuesWord
      some (.ok ⟨wordKind dict spelling (cs.dropWhile continuesWord), spelling⟩)
    else none
  | _, _, _, [] => none

/-- Symbols, the longest that fits. -/
def symbol : Rule
  | _, _, _, cs => (Symbol.starting? cs).map fun s : Symbol => .ok ⟨s, s.text.toList⟩

/-- The rules in the order in which they are tried. -/
def rules : List Rule :=
  [quotation, hexNumber, hexString, variableName, number, word, symbol]

/-- The lexeme at the start of the text `c :: cs`, which stands at the position
    `start`. -/
def read (d : Dialect) (dict : Dictionary) (start : Nat) (c : Char) (cs : List Char) :
    Except LexicalError Lexeme :=
  (rules.findSome? fun rule => rule d dict start (c :: cs)).getD
    (.error (.unexpectedChar c start))

end Lexeme

end SqlRouting
