import SqlRouting.Grammar.Statement
import SqlRouting.Proofs.Alike

/-!
# Notes on runs

The outcome of a parse does not tell what was decided on the way to it. For that, parsers have
notes: those on a parser (`Notes`) say for every state what is noted on the run that starts there.
They are put together as the parser is, with nothing noted where nothing is of interest. Of interest
are the tokens that a hook has declined, since more keywords in the hook might have made the run
another one.
-/

namespace SqlRouting

/-- What may be noted on a run: a token that a hook has declined, as it was none of those that the
    hook was asked for. -/
structure Note where
  hook : Hook
  token : Token
  deriving DecidableEq, Repr

/-- What is noted on a run of the parser, by the state in which it starts. -/
def Notes {κ α : Type} (_ : Parser κ α) : Type :=
  ParseState κ → List Note

namespace Notes

open SqlRouting.Parser

variable {κ α β : Type} {p q : Parser κ α}

/-! ## Combinations -/

/-- Nothing is noted. -/
def silent : Notes p :=
  fun _ => []

/-- What is noted on two runs one after the other, on the second one if there is one. -/
def bind {f : α → Parser κ β} (x : Notes p) (y : ∀ a, Notes (f a)) : Notes (p >>= f) :=
  fun s => x s ++ match p s with
    | .ok a s' => y a s'
    | .error _ _ => []

/-- What is noted on a run that takes one of two branches. -/
def ite {c : Prop} [Decidable c] (x : Notes p) (y : Notes q) : Notes (if c then p else q) :=
  fun s => if c then x s else y s

/-- The notes on the rounds of an iteration. -/
def iterate {step : Parser κ Bool} (x : Notes step) : (n : Nat) → Notes (Parser.iterate step n)
  | 0 => silent
  | n + 1 => bind x fun _ => ite (iterate x n) silent

/-- The notes on the rounds of a loop. -/
def loop {step : Parser κ Bool} (x : Notes step) : Notes (Parser.loop step) :=
  bind silent fun c => iterate x c.movesLeft

/-- The notes on items that are collected. -/
def collect {item : Parser κ α} {separator : Parser κ Bool} (x : Notes item) :
    (n : Nat) → Notes (Parser.collect item separator n)
  | 0 => silent
  | n + 1 => bind x fun _ => bind silent fun _ => ite (bind (collect x n) fun _ => silent) silent

/-- The notes on items with separators between them. -/
def separatedBy {item : Parser κ α} {separator : Parser κ Bool} (x : Notes item) :
    Notes (Parser.separatedBy separator item) :=
  bind silent fun c => collect x c.movesLeft

/-! ## What is noted -/

/-- Unless the token under the cursor is found, the hook has declined it. -/
def ask (hook : Hook) (found : Cursor → Bool) : Notes p :=
  fun s => if found s.cursor then [] else [⟨hook, s.cursor.current⟩]

/-- The hook is asked for keywords, of which one may be consumed. -/
def askKeyword (hook : Hook) (keywords : List Keyword) :
    Notes (skipKeyword (κ := κ) keywords) :=
  ask hook (·.isKeyword keywords)

/-- The hook is asked for tokens of some kinds, of which one may be consumed. -/
def askKind (hook : Hook) (kinds : List TokenKind) : Notes (skipIf (κ := κ) kinds) :=
  ask hook (·.isAny kinds)

/-- The hook is asked for keywords, of which all that follow one another are consumed; it declines
    the token behind them. -/
def askAll (hook : Hook) (keywords : List Keyword) : Notes (skipAll (κ := κ) keywords) :=
  fun s => match skipAll keywords s with
    | .ok _ s' => [⟨hook, s'.cursor.current⟩]
    | .error _ _ => []

end Notes

namespace Grammar

open SqlRouting.Parser

/-!
## The grammar

Notes on those parsers of the grammar that ask hooks. All the others are silent.
-/

section

variable {κ : Type}

/-- Only without `AS` is the hook asked, and only if the token is no name and no string. -/
def aliasOrNotes (hook : Hook) (keywords : List Keyword) :
    Notes (aliasOr (κ := κ) keywords) :=
  .bind .silent fun _ => .ite .silent <| .ask hook fun c =>
    c.isAny [LiteralClass.identifier, LiteralClass.chars] || c.isKeyword keywords

def selectItemAliasNotes : Notes (selectItemAlias (κ := κ)) :=
  .bind .silent fun _ => aliasOrNotes .selectItemAlias _

def tableAliasNotes : Notes (tableAlias (κ := κ)) :=
  .bind .silent fun _ => aliasOrNotes .tableAlias _

/-! ### Tables -/

def tableFactorNotes : Notes (tableFactor (κ := κ)) :=
  .bind .silent fun _ => .ite .silent <| .bind .silent fun _ => .bind tableAliasNotes fun _ =>
    .silent

def tableHintsNotes : Notes (tableHints (κ := κ)) :=
  .bind .silent fun _ => .bind (.askKeyword .tablePartition _) fun _ =>
    .ite (.bind .silent fun _ => .loop (.bind (.askKeyword .indexHint _) fun _ => .silent))
      (.loop (.bind (.askKeyword .indexHint _) fun _ => .silent))

def joinTypeNotes : Notes (joinType (κ := κ)) :=
  .bind .silent fun _ => .bind .silent fun _ => .bind (.loop (.askKeyword .joinTypes _)) fun _ =>
    .silent

def joinedTableNotes : Notes (joinedTable (κ := κ)) :=
  .bind joinTypeNotes fun _ => .ite
    (.bind .silent fun _ => .ite .silent <| .bind tableFactorNotes fun _ =>
      .bind tableHintsNotes fun _ => .silent)
    .silent

def tableReferenceNotes : Notes (tableReference (κ := κ)) :=
  .bind tableFactorNotes fun _ => .bind tableHintsNotes fun _ => .loop joinedTableNotes

def tableReferencesNotes (single : Bool) : Notes (tableReferences (κ := κ) single) :=
  .bind (.separatedBy tableReferenceNotes) fun _ => .silent

/-! ### Comparisons -/

def negatedComparisonNotes : Notes (negatedComparison (κ := κ)) :=
  .bind .silent fun _ => .bind .silent fun _ => .ite .silent <| .bind .silent fun _ =>
    .ite .silent <| .bind (.askKeyword .comparisons _) fun _ => .silent

/-- The hook is asked when no other comparison has been found. -/
def predicateNotes (left : Expression) : Notes (predicate (κ := κ) left) :=
  .bind .silent fun _ => .bind .silent fun _ => .ite .silent <| .bind .silent fun _ =>
    .ite .silent <| .bind .silent fun _ => .ite .silent <| .bind .silent fun _ =>
    .ite negatedComparisonNotes <| .bind .silent fun _ => .ite .silent <|
    .bind (.askKind .comparisons _) fun _ => .silent

def comparisonNotes : Notes (comparison (κ := κ)) :=
  .bind .silent fun _ => .bind .silent fun _ => .bind .silent fun left =>
    .bind (predicateNotes left) fun _ => .silent

def comparisonsNotes : Notes (comparisons (κ := κ)) :=
  .bind (.separatedBy comparisonNotes) fun _ => .silent

def whereClauseNotes : Notes (whereClause (κ := κ)) :=
  .bind tableAliasNotes fun _ => .bind .silent fun _ =>
    .ite (.bind comparisonsNotes fun _ => .silent) .silent

def selectOptionsNotes : Notes (selectOptions (κ := κ)) :=
  .bind .silent fun _ => .askAll .selectOptions _

def fromClauseNotes : Notes (fromClause (κ := κ)) :=
  .bind .silent fun _ => .bind .silent fun _ => .ite (tableReferencesNotes false) .silent

end

/-! ### Selects -/

def plainItemNotes (start : Nat) (owners : List Token) : Notes (plainItem start owners) :=
  .bind .silent fun _ => .bind .silent fun _ => .bind .silent fun _ =>
    .bind selectItemAliasNotes fun _ => .silent

def starItemNotes (owner : Option String) : Notes (starItem owner) :=
  .bind selectItemAliasNotes fun _ => .silent

def aggregationItemNotes (function : AggregateFunction) (first : Token) :
    Notes (aggregationItem function first) :=
  .bind .silent fun _ => .ite
    (.bind .silent fun _ => .bind .silent fun _ => .ite (plainItemNotes _ _)
      (.bind selectItemAliasNotes fun _ => .silent))
    (plainItemNotes _ _)

def selectItemNotes : Notes selectItem :=
  .bind .silent fun first => .bind .silent fun _ => .ite
    (.bind .silent fun _ => .bind .silent fun _ => .bind (starItemNotes _) fun _ => .silent)
    (match aggregateFunction? first with
      | some function => .bind .silent fun _ => aggregationItemNotes function first
      | none => .bind .silent fun _ => .ite
          (.bind .silent fun _ => .bind (starItemNotes _) fun _ => .silent) (plainItemNotes _ _))

def selectListNotes : Notes selectList :=
  .bind (.separatedBy (.bind selectItemNotes fun _ => .silent)) fun _ => .silent

def groupItemsNotes : Notes groupItems :=
  .bind .silent fun _ => .bind .silent fun _ => .bind .silent fun _ =>
    .bind (.askAll .skippedBehindGroupBy _) fun _ => .silent

def groupByNotes : Notes groupBy :=
  .bind .silent fun _ => .ite groupItemsNotes .silent

def selectHeadNotes : Notes selectHead :=
  .bind .silent fun _ => .bind .silent fun _ => .bind selectOptionsNotes fun _ => selectListNotes

def selectClausesNotes (owners : List Token) : Notes (selectClauses owners) :=
  .bind fromClauseNotes fun _ => .bind .silent fun _ => .bind whereClauseNotes fun _ =>
    .bind groupByNotes fun _ => .silent

def selectNotes : Notes select :=
  .bind selectHeadNotes fun owners => .bind (selectClausesNotes owners) fun _ => .silent

/-! ### Insertions -/

def insertIntoNotes : Notes insertInto :=
  .bind .silent fun _ => .bind (.askAll .skippedBeforeInto _) fun _ => .bind .silent fun _ =>
    .bind .silent fun _ => .bind .silent fun _ =>
    .loop (.bind (.askKeyword .skippedBeforeValues _) fun _ => .silent)

def insertValuesNotes : Notes insertValues :=
  .ask .valuesSynonyms fun c => c.isKeyword (.VALUES :: c.dialect.valuesSynonyms)

def insertSetNotes : Notes insertSet :=
  .bind .silent fun _ => .bind (.askKeyword .insertSet _) fun _ => .silent

def duplicateKeyUpdateNotes : Notes duplicateKeyUpdate :=
  .bind .silent fun _ => .bind (.askKeyword .duplicateKeyUpdate _) fun _ => .silent

def insertNotes : Notes insert :=
  .bind .silent fun _ => .bind insertIntoNotes fun _ => .bind .silent fun _ =>
    .bind .silent fun _ => .ite .silent <| .bind insertValuesNotes fun _ =>
    .bind insertSetNotes fun _ => .bind duplicateKeyUpdateNotes fun _ => .silent

/-! ### Updates and deletions -/

def updateHeadNotes : Notes updateHead :=
  .bind .silent fun _ => .bind .silent fun _ => .bind (.askAll .skippedBehindUpdate _) fun _ =>
    .bind (tableReferencesNotes true) fun _ => .silent

def updateNotes : Notes update :=
  .bind updateHeadNotes fun _ => .bind whereClauseNotes fun _ => .silent

def deleteHeadNotes : Notes deleteHead :=
  .bind .silent fun _ => .bind .silent fun _ => .bind (.askAll .skippedBehindDelete _) fun _ =>
    .bind .silent fun _ => .bind (tableReferencesNotes true) fun _ => .silent

def deleteNotes : Notes delete :=
  .bind deleteHeadNotes fun _ => .bind whereClauseNotes fun _ => .silent

end Grammar

/-! ## Texts -/

namespace Statement

/-- What is noted on the run of the parser that the first token decides on. -/
def cursorNotes (c : Cursor) : List Note :=
  match c.current.kind with
  | .keyword .SELECT => Grammar.selectNotes (ParseState.start c)
  | .keyword .INSERT => Grammar.insertNotes (ParseState.start c)
  | .keyword .UPDATE => Grammar.updateNotes (ParseState.start c)
  | .keyword .DELETE => Grammar.deleteNotes (ParseState.start c)
  | _ => []

/-- What is noted on the parse of a text. -/
def notes (database : Database) (dialect : Dialect) (text : String) : List Note :=
  match Cursor.ofText database dialect text with
  | .ok cursor => cursorNotes cursor
  | .error _ => []

end Statement

end SqlRouting
