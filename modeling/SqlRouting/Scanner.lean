import SqlRouting.Text.Octets
import SqlRouting.TokenStream

/-!
# Scanning the bytes of a text

A token stream is defined by the characters of a text. A scanner has only the bytes of the text and
a position among them: it compares bytes, moves on by numbers of bytes, and then cuts the text
between two positions, where the cut may fail (`Scanner.cut`). The rules are those of `Lexeme`, one
by one and in the same order. That no cut fails, and that a scanner finds the tokens of the stream,
is not apparent from them: a backslash takes the meaning away from one byte, which may be the first
of several that make up a character.
-/

namespace SqlRouting

/-- The text up to and with the next `*/`. -/
def Gap.upToClose? : List Char → Option (List Char)
  | '*' :: '/' :: _ => some ['*', '/']
  | c :: cs => (upToClose? cs).map (c :: ·)
  | [] => none

/-- A scanner of a text: it reads in a dialect, with the words of a dictionary as
    keywords. -/
structure Scanner where
  text : List Char
  dialect : Dialect
  dictionary : Dictionary
  deriving DecidableEq, Repr

namespace Scanner

/-- The scanner of a text in a dialect. -/
def ofText (d : Dialect) (text : List Char) : Scanner where
  text
  dialect := d
  dictionary := Dictionary.ofDialect d

/-- The number of bytes of the text. -/
def length (s : Scanner) : Nat :=
  (Text.bytes s.text).length

/-- The bytes of the text from a position on. -/
def bytesFrom (s : Scanner) (pos : Nat) : List Char :=
  (Text.bytes s.text).drop pos

/-- The text between two positions. -/
def cut (s : Scanner) (start stop : Nat) : Except ParseError (List Char) :=
  match Text.slice? s.text start stop with
  | some part => .ok part
  | none => .error (.fault (.slice start stop))

/-- The text from a position on. -/
def cutFrom (s : Scanner) (start : Nat) : Except ParseError (List Char) :=
  s.cut start s.length

/-- The character at a position, to be shown in an error; a space at the end of
    the text. -/
def charAt (s : Scanner) (pos : Nat) : Except ParseError Char := do
  let rest ← s.cutFrom pos
  return rest.head?.getD ' '

/-- The token that is spelled between two positions. -/
def token (s : Scanner) (kind : TokenKind) (start stop : Nat) : Except ParseError Token := do
  let part ← s.cut start stop
  return ⟨kind, String.ofList part, stop⟩

/-! ## Gaps -/

/-- The position behind the blanks and comments that start at `pos`, from where on
    there are these bytes. -/
def skipGap (d : Dialect) (pos : Nat) (bytes : List Char) : Except LexicalError Nat :=
  match bytes with
  | [] => .ok pos
  | b :: bs =>
    if Text.isAsciiBlank b then skipGap d (pos + 1) bs
    else if (b = '-' && bs.head? = some '-') || (b = '#' && d.hashComments) then
      let line := bs.takeWhile (· ≠ '\n')
      skipGap d (pos + 1 + line.length) (bs.drop line.length)
    else if b = '/' && bs.head? = some '*' then
      match Gap.upToClose? (bs.drop 1) with
      | some body => skipGap d (pos + 2 + body.length) (bs.drop (1 + body.length))
      | none => .error (.unterminatedComment pos)
    else .ok pos
  termination_by bytes.length

/-! ## Rules -/

/-- A rule for a class of tokens: given a position and the bytes from there on,
    `none` if they do not open like a token of the class, and otherwise the token
    or the reason why it cannot be read. -/
abbrev Rule :=
  Scanner → Nat → List Char → Option (Except ParseError Token)

/-- Quoted strings and quoted names. -/
def quotation : Rule
  | s, pos, b :: bs => (Lexeme.quoted? s.dialect b).map fun cls =>
      let escapes := cls = LiteralClass.chars && s.dialect.backslashEscapes
      match Lexeme.upToQuote? b escapes bs with
      | some body =>
        let stop := pos + 1 + body.length
        if cls = LiteralClass.chars then do
          -- The literal of a string is what stands between its quotes.
          let literal ← s.cut (pos + 1) (stop - 1)
          return ⟨.literal .chars, String.ofList literal, stop⟩
        else s.token (.literal cls) pos stop
      | none =>
        .error (.lexical (if cls = LiteralClass.chars then .unterminatedString pos
          else .unterminatedName pos))
  | _, _, [] => none

/-- `0x1F`, with at least one digit. -/
def hexNumber : Rule
  | s, pos, '0' :: x :: bs =>
    if x = 'x' || x = 'X' then
      let stop := pos + 2 + (bs.takeWhile Lexeme.isHexDigit).length
      some <|
        if stop = pos + 2 then do
          throw (.lexical (.invalidHexDigit (← s.charAt stop) stop))
        else s.token LiteralClass.hex pos stop
    else none
  | _, _, _ => none

/-- `X'1F'`, with any number of digits. -/
def hexString : Rule
  | s, pos, x :: '\'' :: bs =>
    if x = 'x' || x = 'X' then
      let stop := pos + 2 + (bs.takeWhile Lexeme.isHexDigit).length
      some <|
        match bs.dropWhile Lexeme.isHexDigit with
        | '\'' :: _ => s.token LiteralClass.hex pos (stop + 1)
        | _ :: _ => do throw (.lexical (.invalidHexDigit (← s.charAt stop) stop))
        | [] => .error (.lexical (.unterminatedString pos))
    else none
  | _, _, _ => none

/-- `@name` and `@@name`, the name with dots. -/
def variableName : Rule
  | s, pos, '@' :: bs =>
    if s.dialect.atVariables then
      let isNamed := fun c => Lexeme.continuesWord c || c = '.'
      let name := if bs.head? = some '@' then pos + 2 else pos + 1
      let spelled := (s.bytesFrom name).takeWhile isNamed
      some (s.token LiteralClass.atVariable pos (name + spelled.length))
    else none
  | _, _, _ => none

/-- These bytes open like a number: with a digit, or with a point and a digit. -/
def opensNumber : List Char → Bool
  | '.' :: b :: _ => b.isDigit
  | b :: _ => b.isDigit
  | [] => false

/-- Numbers in decimal digits: whole ones, and those with a fraction or with an
    exponent. -/
def number : Rule
  | s, pos, bs =>
    if opensNumber bs then
      let whole := pos + (bs.takeWhile Char.isDigit).length
      let fraction := whole + (Lexeme.fraction (s.bytesFrom whole)).length
      let stop := fraction + (Lexeme.exponent (s.bytesFrom fraction)).length
      some (s.token (if stop = whole then LiteralClass.int else LiteralClass.float) pos stop)
    else none

/-- These bytes open like the word `BY`. -/
def opensWithBy : List Char → Bool
  | b :: y :: more =>
    b.toUpper = 'B' && y.toUpper = 'Y' && !(more.head?.any Lexeme.continuesWord)
  | _ => false

/-- The word `BY` follows at a position, behind blanks if any. -/
def isFollowedByBy (s : Scanner) (pos : Nat) : Except ParseError Bool := do
  let rest ← s.cutFrom pos
  return opensWithBy (Text.bytes (Text.trimStart rest))

/-- The kind of the word that stops at a position. -/
def wordKind (s : Scanner) (word : String) (stop : Nat) : Except ParseError TokenKind := do
  match s.dictionary.find? word with
  | some k =>
    if k = .ORDER || k = .GROUP then
      return if ← s.isFollowedByBy stop then k else LiteralClass.identifier
    else return k
  | none => return LiteralClass.identifier

/-- Keywords and names without quotes. -/
def word : Rule
  | s, pos, b :: bs =>
    if Lexeme.startsWord b then
      let stop := pos + 1 + (bs.takeWhile Lexeme.continuesWord).length
      some do
        let spelling ← s.cut pos stop
        let kind ← s.wordKind (String.ofList spelling) stop
        s.token kind pos stop
    else none
  | _, _, [] => none

/-- Symbols, the longest that fits. -/
def symbol : Rule
  | s, pos, bs => (Symbol.starting? bs).map fun x : Symbol =>
      s.token x pos (pos + x.text.toList.length)

/-- The rules in the order in which they are tried. -/
def rules : List Rule :=
  [quotation, hexNumber, hexString, variableName, number, word, symbol]

/-- The token that starts at a position, where there are still bytes. -/
def tokenAt (s : Scanner) (pos : Nat) : Except ParseError Token :=
  (rules.findSome? fun rule => rule s pos (s.bytesFrom pos)).getD do
    throw (.lexical (.unexpectedChar (← s.charAt pos) pos))

/-- The next token from a position on, behind blanks and comments. At the end of
    the text it is the token at its end. -/
def next (s : Scanner) (pos : Nat) : Except ParseError Token := do
  match skipGap s.dialect pos (s.bytesFrom pos) with
  | .error e => throw (.lexical e)
  | .ok pos => if pos < s.length then s.tokenAt pos else return Token.final s.length

/-- At most `n` tokens from a position on, up to the one at the end of the text,
    and the error that comes instead if there is one. -/
def tokensFrom (s : Scanner) : (n pos : Nat) → List Token × Option ParseError
  | 0, _ => ([], none)
  | n + 1, pos =>
    match s.next pos with
    | .error e => ([], some e)
    | .ok t =>
      if t.kind = .endOfText then ([t], none)
      else
        let (more, failure) := s.tokensFrom n t.stop
        (t :: more, failure)

/-- All tokens of the text, and the error that comes before its end if there is
    one. A text has at most one token for each character and the one at its
    end. -/
def tokens (s : Scanner) : List Token × Option ParseError :=
  s.tokensFrom (s.text.length + 1) 0

end Scanner

end SqlRouting
