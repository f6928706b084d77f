import SqlRouting.Cursor
import SqlRouting.Statement
import SqlRouting.Trace

/-!
# Parsers

A parser moves the cursor over a text and fills in the body of a statement. When it fails, what it
has consumed and recorded until then stays: a failure carries the state in which it arose.
-/

namespace SqlRouting

/-- The state of a parse: the cursor, the statement as far as it has been read,
    and what has been traced. -/
structure ParseState (κ : Type) where
  cursor : Cursor
  body : Body κ
  events : List TraceEvent := []
  /-- The placeholders that were read as names; they have no index. -/
  unnumbered : List Token := []
  deriving DecidableEq, Repr

/-- The state in which a parse starts. -/
def ParseState.start {κ : Type} [Inhabited κ] (cursor : Cursor) : ParseState κ where
  cursor
  body := Body.empty

/-- A parser of a part of a statement with clauses `κ`. -/
abbrev Parser (κ : Type) : Type → Type :=
  EStateM ParseError (ParseState κ)

namespace Parser

variable {κ α : Type}

/-! ## The cursor -/

/-- The cursor. -/
def cursor : Parser κ Cursor :=
  return (← get).cursor

/-- The token under the cursor. -/
def current : Parser κ Token :=
  return (← cursor).current

/-- The dialect. -/
def dialect : Parser κ Dialect :=
  return (← cursor).dialect

/-- Moves the cursor to the next token. -/
def advance : Parser κ Unit := do
  let s ← get
  match s.cursor.next with
  | .ok cursor => set { s with cursor }
  | .error e => throw (.lexical e)

/-- Refuses the token under the cursor. -/
def unexpected : Parser κ α := do
  throw (← cursor).unexpected

/-- Refuses the end of the text. -/
def refuseEnd : Parser κ Unit := do
  if (← cursor).isEnd then unexpected

/-- Consumes the token under the cursor if it is of one of these kinds, and tells
    whether it did. -/
def skipIf (kinds : List TokenKind) : Parser κ Bool := do
  if (← cursor).isAny kinds then
    advance
    return true
  else return false

/-- Consumes the token under the cursor if it is one of these keywords, and tells
    whether it did. -/
def skipKeyword (keywords : List Keyword) : Parser κ Bool := do
  if (← cursor).isKeyword keywords then
    advance
    return true
  else return false

/-- Consumes the token under the cursor if it is this symbol, and tells whether it
    did. -/
def skipSymbol (s : Symbol) : Parser κ Bool :=
  skipIf [s]

/-- Consumes the token under the cursor, which has to be of this kind. -/
def accept (kind : TokenKind) : Parser κ Unit := do
  let token ← current
  if token.kind = kind then advance
  else throw (.unmatchedToken kind token.kind token.literal)

/-- Refuses these keywords. -/
def refuse (keywords : List Keyword) : Parser κ Unit := do
  let c ← cursor
  if c.isKeyword keywords then throw (.unsupportedToken c.current.kind)

/-- The text between two positions. -/
def slice (start stop : Nat) : Parser κ String := do
  match Text.slice? (← cursor).text start stop with
  | some part => return String.ofList part
  | none => throw (.fault (.slice start stop))

/-- The text from the position `start` to the token under the cursor, without the
    blanks at its end. -/
def textSince (start : Nat) : Parser κ String := do
  let text ← slice start (max (← current).start start)
  return String.ofList (Text.trimEnd text.toList)

/-! ## The statement -/

/-- The routing part of the statement. -/
def routing : Parser κ Routing :=
  return (← get).body.toRouting

/-- The clauses of the statement. -/
def clauses : Parser κ κ :=
  return (← get).body.clauses

/-- Changes the routing part of the statement. -/
def modifyRouting (f : Routing → Routing) : Parser κ Unit :=
  modify fun s => { s with body := { s.body with toRouting := f s.body.toRouting } }

/-- Changes the clauses of the statement. -/
def modifyClauses (f : κ → κ) : Parser κ Unit :=
  modify fun s => { s with body := { s.body with clauses := f s.body.clauses } }

/-- Records a mark in its place. -/
def addMark (m : Mark) : Parser κ Unit :=
  modifyRouting fun r => { r with marks := m.insert r.marks }

/-- Records a table. -/
def addTable (t : Table) : Parser κ Unit :=
  modifyRouting fun r => { r with tables := r.tables.add t }

/-- Records a condition. -/
def addCondition (c : Condition) : Parser κ Unit :=
  modifyRouting fun r => { r with conditions := r.conditions.add c }

/-- Counts a placeholder and gives its index. -/
def takePlaceholder : Parser κ Nat := do
  let index := (← routing).parameters
  modifyRouting fun r => { r with parameters := r.parameters + 1 }
  return index

/-- The number of placeholders counted since there were `before` of them. -/
def placeholdersSince (before : Nat) : Parser κ Nat := do
  let after := (← routing).parameters
  if before ≤ after then return after - before
  else throw (.fault (.count before after))

/-- Counts the token under the cursor if it is a placeholder. -/
def countPlaceholder : Parser κ Unit := do
  if (← cursor).isSymbol .question then
    let _ ← takePlaceholder

/-- Takes the token under the cursor for a name. A placeholder is no exception: it
    gets no index. -/
def takeName : Parser κ Token := do
  let name ← current
  if (← cursor).isSymbol .question then
    modify fun s => { s with unnumbered := s.unnumbered ++ [name] }
  advance
  return name

/-- Traces an event. -/
def trace (e : TraceEvent) : Parser κ Unit :=
  modify fun s => { s with events := s.events ++ [e] }

/-! ## Repetition

Every round consumes a token, so the tokens ahead of the cursor bound the number of rounds. -/

/-- Repeats `step` until it answers `false`, at most `n` times. -/
def iterate (step : Parser κ Bool) : Nat → Parser κ Unit
  | 0 => return ()
  | n + 1 => do if ← step then iterate step n

/-- Repeats `step`, which consumes a token whenever it answers `true`, until it
    answers `false`. -/
def loop (step : Parser κ Bool) : Parser κ Unit := do
  iterate step (← cursor).movesLeft

/-- At least one and at most `n` items, until no separator follows. -/
def collect (item : Parser κ α) (separator : Parser κ Bool) : Nat → Parser κ (List α)
  | 0 => return []
  | n + 1 => do
    let a ← item
    if ← separator then
      return a :: (← collect item separator n)
    else return [a]

/-- One or more items with a separator between them, which consumes a token
    whenever it answers `true`. -/
def separatedBy (separator : Parser κ Bool) (item : Parser κ α) : Parser κ (List α) := do
  collect item separator (← cursor).movesLeft

/-- One or more items with commas between them. -/
def commaSeparated (item : Parser κ α) : Parser κ (List α) :=
  separatedBy (skipSymbol .comma) item

/-! ## Skipping -/

/-- Consumes all keywords of the list that follow one another. -/
def skipAll (keywords : List Keyword) : Parser κ Unit :=
  loop do
    let c ← cursor
    if c.isKeyword keywords then
      trace (.skippedKeyword c.current.literal)
      advance
      return true
    else return false

/-- Moves the cursor to the next token of one of these kinds, or to the end of the
    text. Placeholders on the way are counted. -/
def skipUntil (kinds : List TokenKind) : Parser κ Unit :=
  loop do
    let c ← cursor
    if c.isEnd || c.isAny kinds then return false
    else
      countPlaceholder
      advance
      return true

/-- Moves the cursor to the end of the text. -/
def skipRest : Parser κ Unit := do
  let c ← cursor
  if !c.isEnd then
    trace (.skippedRest (← slice c.current.start (Text.byteLength c.text)))
    skipUntil []

/-- Moves the cursor to the parenthesis that closes a group, `depth` groups being
    open inside of it. At most `n` tokens are looked at. -/
def skipToClosing : (n depth : Nat) → Parser κ Unit
  | 0, _ => unexpected
  | n + 1, depth => do
    match (← current).kind, depth with
    | .endOfText, _ => unexpected
    | .symbol .rightParen, 0 => return ()
    | .symbol .rightParen, depth + 1 => advance; skipToClosing n depth
    | .symbol .leftParen, depth => advance; skipToClosing n (depth + 1)
    | _, depth => countPlaceholder; advance; skipToClosing n depth

/-- Skips a group in parentheses and gives its text, the empty text if there is no
    group under the cursor. Placeholders inside are counted. -/
def skipParentheses : Parser κ String := do
  let c ← cursor
  if c.isSymbol .leftParen then
    advance
    skipToClosing c.movesLeft 0
    let text ← slice c.current.start (← current).stop
    advance
    return text
  else return ""

end Parser

end SqlRouting
