import SqlRouting.Grammar.Statement

/-!
# Sessions

A session applies parsers one by one, in any order, to one cursor and one statement. A step that
fails leaves behind what it has consumed and recorded, and the session goes on from there; only a
token that cannot be read ends it (`Session.run`).
-/

namespace SqlRouting

/-- What a step of a session answers. -/
inductive Answer where
  | nothing
  | flag (value : Bool)
  | text (value : String)
  | asName (value : Option String)
  | expression (value : Expression)
  /-- The owners of columns in a select list, which may turn out to be tables. -/
  | owners (tokens : List Token)
  deriving DecidableEq, Repr

/-- A step for statements of any kind. -/
inductive CursorStep where
  /-- Nothing is done: the state is looked at. -/
  | look
  | isEnd
  | isAny (kinds : List TokenKind)
  | isKeyword (keywords : List Keyword)
  | isSymbol (s : Symbol)
  /-- The token under the cursor is refused. -/
  | unexpected
  | advance
  | skipIf (kinds : List TokenKind)
  | skipKeyword (keywords : List Keyword)
  | skipSymbol (s : Symbol)
  | skipAll (keywords : List Keyword)
  | skipUntil (kinds : List TokenKind)
  | skipRest
  | skipParentheses
  | accept (kind : TokenKind)
  | refuse (keywords : List Keyword)
  | operand
  | selectItemAlias
  | tableAlias
  deriving DecidableEq, Repr

/-- The parser of the step. -/
def CursorStep.parser {κ : Type} : CursorStep → Parser κ Answer
  | look => return .nothing
  | isEnd => return .flag (← Parser.cursor).isEnd
  | isAny kinds => return .flag ((← Parser.cursor).isAny kinds)
  | isKeyword keywords => return .flag ((← Parser.cursor).isKeyword keywords)
  | isSymbol s => return .flag ((← Parser.cursor).isSymbol s)
  | unexpected => Parser.unexpected
  | advance => do Parser.advance; return .nothing
  | skipIf kinds => .flag <$> Parser.skipIf kinds
  | skipKeyword keywords => .flag <$> Parser.skipKeyword keywords
  | skipSymbol s => .flag <$> Parser.skipSymbol s
  | skipAll keywords => do Parser.skipAll keywords; return .nothing
  | skipUntil kinds => do Parser.skipUntil kinds; return .nothing
  | skipRest => do Parser.skipRest; return .nothing
  | skipParentheses => .text <$> Parser.skipParentheses
  | accept kind => do Parser.accept kind; return .nothing
  | refuse keywords => do Parser.refuse keywords; return .nothing
  | operand => .expression <$> Grammar.operand
  | selectItemAlias => .asName <$> Grammar.selectItemAlias
  | tableAlias => .asName <$> Grammar.tableAlias

/-- A clause of a `SELECT`. -/
inductive SelectStep where
  | distinct
  | options
  | list
  | tables (single : Bool)
  | conditions
  | groupBy
  | having
  | orderBy
  | limit
  | rest
  deriving DecidableEq, Repr

/-- The parser of the clause. -/
def SelectStep.parser : SelectStep → Parser SelectClauses Answer
  | distinct => do Grammar.distinct; return .nothing
  | options => do Grammar.selectOptions; return .nothing
  | list => .owners <$> Grammar.selectList
  | tables single => do Grammar.tableReferences single; return .nothing
  | conditions => do Grammar.whereClause; return .nothing
  | groupBy => do Grammar.groupBy; return .nothing
  | having => do Grammar.having; return .nothing
  | orderBy => do Grammar.orderBy; return .nothing
  | limit => do Grammar.limit; return .nothing
  | rest => do Grammar.selectRest; return .nothing

/-- A clause of an `INSERT`. -/
inductive InsertStep where
  | into
  | columns
  | values
  | assignments
  | duplicateKeyUpdate
  deriving DecidableEq, Repr

/-- The parser of the clause. -/
def InsertStep.parser : InsertStep → Parser InsertClauses Answer
  | into => do Grammar.insertInto; return .nothing
  | columns => do Grammar.insertColumns; return .nothing
  | values => do Grammar.insertValues; return .nothing
  | assignments => do Grammar.insertSet; return .nothing
  | duplicateKeyUpdate => do Grammar.duplicateKeyUpdate; return .nothing

/-- A clause of an `UPDATE`. -/
inductive UpdateStep where
  | tables (single : Bool)
  | assignments
  | conditions
  deriving DecidableEq, Repr

/-- The parser of the clause. -/
def UpdateStep.parser : UpdateStep → Parser UpdateClauses Answer
  | tables single => do Grammar.tableReferences single; return .nothing
  | assignments => do Grammar.assignments; return .nothing
  | conditions => do Grammar.whereClause; return .nothing

/-- A clause of a `DELETE`. -/
inductive DeleteStep where
  | tables (single : Bool)
  | conditions
  deriving DecidableEq, Repr

/-- The parser of the clause. -/
def DeleteStep.parser : DeleteStep → Parser DeleteClauses Answer
  | tables single => do Grammar.tableReferences single; return .nothing
  | conditions => do Grammar.whereClause; return .nothing

/-- A kind of statement: its clauses `κ`, the steps `σ` that read one of them, and
    the parser of a whole statement. -/
class StatementKind (κ : Type) (σ : outParam Type) extends Inhabited κ where
  clause : σ → Parser κ Answer
  whole : Parser κ Unit
  statement : Body κ → Statement

instance : StatementKind SelectClauses SelectStep where
  clause := SelectStep.parser
  whole := Grammar.select
  statement := .select

instance : StatementKind InsertClauses InsertStep where
  clause := InsertStep.parser
  whole := Grammar.insert
  statement := .insert

instance : StatementKind UpdateClauses UpdateStep where
  clause := UpdateStep.parser
  whole := Grammar.update
  statement := .update

instance : StatementKind DeleteClauses DeleteStep where
  clause := DeleteStep.parser
  whole := Grammar.delete
  statement := .delete

/-- A step of a session. -/
inductive Step (σ : Type) where
  | cursor (step : CursorStep)
  | clause (step : σ)
  /-- A whole statement, which takes the place of the session's when it is
      complete. -/
  | whole
  deriving DecidableEq, Repr

namespace Session

variable {κ σ : Type} [StatementKind κ σ]

/-- Runs a parser on a statement of its own, which is kept only if the parser
    succeeds. -/
def afresh (parser : Parser κ Unit) : Parser κ Unit := fun s =>
  match parser { s with body := Body.empty } with
  | .ok _ s' => .ok () s'
  | .error e s' => .error e { s' with body := s.body }

/-- The parser of a step. -/
def parser : Step σ → Parser κ Answer
  | .cursor step => step.parser
  | .clause step => StatementKind.clause step
  | .whole => do afresh StatementKind.whole; return .nothing

/-- The state in which a session starts. -/
def start (cursor : Cursor) : ParseState κ :=
  ParseState.start cursor

/-- What a step answers, or why it fails, and the state behind it. -/
def step (st : Step σ) (s : ParseState κ) : Except ParseError Answer × ParseState κ :=
  match parser st s with
  | .ok answer s' => (.ok answer, s')
  | .error e s' => (.error e, s')

/-- The session ends with this outcome of a step. -/
def isLast : Except ParseError Answer → Bool
  | .error (.lexical _) => true
  | _ => false

/-- What the steps of a session answer one after the other, and the state behind
    each of them. -/
def run : List (Step σ) → ParseState κ → List (Except ParseError Answer × ParseState κ)
  | [], _ => []
  | st :: steps, s =>
    let outcome := step st s
    if isLast outcome.1 then [outcome] else outcome :: run steps outcome.2

end Session

end SqlRouting
