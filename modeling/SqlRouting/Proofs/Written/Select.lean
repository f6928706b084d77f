import SqlRouting.Proofs.Written.Where

/-!
# Written selects

A `SELECT *` from tables with aliases, by conditions on their columns and perhaps with a limit, is
parsed back: every table, condition and number comes out as it was written, every mark at the place
where it was written (`parse_star_select`).
-/

namespace SqlRouting

open Text (byteLength)

/-! ## Limits -/

/-- A number of a limit: a placeholder or a whole number. -/
inductive Slot where
  | placeholder
  | integer (n : Nat) (le : n ≤ Number.maxInteger)

namespace Slot

/-- The number as a value. -/
def asValue : Slot → Value
  | placeholder => .placeholder
  | integer n le => .integer n le

/-- The number as it is written. -/
def written (s : Slot) : String :=
  s.asValue.written

/-- The number of placeholders: one or none. -/
def questions (s : Slot) : Nat :=
  s.asValue.questions

/-- The number as it is recorded, `index` placeholders having come before. -/
def limitValue (index : Nat) : Slot → LimitValue
  | placeholder => .parameter index
  | integer n _ => .literal n

/-- The mark at a number that is written out. -/
def mark (mark : Nat → Int → Mark) (pos : Nat) : Slot → List Mark
  | placeholder => []
  | integer n _ => [mark pos n]

end Slot

/-- A limit as it is written. -/
inductive WrittenLimit where
  /-- `LIMIT count` -/
  | rows (count : Slot)
  /-- `LIMIT offset, count` -/
  | offsetRows (offset count : Slot)
  /-- `LIMIT count OFFSET offset` -/
  | rowsOffset (count offset : Slot)

namespace WrittenLimit

/-- The limit as it is written. -/
def written : WrittenLimit → String
  | rows count => "LIMIT " ++ count.written
  | offsetRows offset count => "LIMIT " ++ (offset.written ++ ", " ++ count.written)
  | rowsOffset count offset => "LIMIT " ++ (count.written ++ " OFFSET " ++ offset.written)

/-- The number of placeholders. -/
def questions : WrittenLimit → Nat
  | rows count => count.questions
  | offsetRows first second | rowsOffset first second => first.questions + second.questions

/-- The limit that is recorded, `index` placeholders having come before. -/
def clause (index : Nat) : WrittenLimit → Limit
  | rows count => ⟨.mySql, none, some (count.limitValue index)⟩
  | offsetRows offset count =>
    ⟨.mySql, some (offset.limitValue index),
      some (count.limitValue (index + offset.questions))⟩
  | rowsOffset count offset =>
    ⟨.mySql, some (offset.limitValue (index + count.questions)), some (count.limitValue index)⟩

/-- The marks of a limit at the position `pos`. The mark of the offset comes first, wherever it is
    written. -/
def marks (pos : Nat) : WrittenLimit → List Mark
  | rows count => count.mark .rowCount (pos + 6)
  | offsetRows offset count =>
    offset.mark .offset (pos + 6) ++
      count.mark .rowCount (pos + 6 + byteLength offset.written.toList + 2)
  | rowsOffset count offset =>
    offset.mark .offset (pos + 6 + byteLength count.written.toList + 8) ++
      count.mark .rowCount (pos + 6)

/-- The pieces of the limit. -/
def pieces : WrittenLimit → List Written
  | rows count => [(Piece.keyword .LIMIT).spaced, count.asValue.piece.spaced]
  | offsetRows offset count =>
    [(Piece.keyword .LIMIT).spaced, offset.asValue.piece.spaced, (Piece.symbol .comma).tight,
      count.asValue.piece.spaced]
  | rowsOffset count offset =>
    [(Piece.keyword .LIMIT).spaced, count.asValue.piece.spaced, (Piece.keyword .OFFSET).spaced,
      offset.asValue.piece.spaced]

theorem pieces_prints (l : WrittenLimit) : Written.Prints l.pieces l.written := by
  cases l with
  | rows count =>
    exact ((Written.Prints.keyword .LIMIT (by decide)).cons count.asValue.prints).of_eq
      (by simp [Keyword.text, written, Slot.written])
  | offsetRows offset count =>
    have hlist := Value.list_prints (List.cons_ne_nil offset.asValue [count.asValue])
    refine ((Written.Prints.keyword .LIMIT (by decide)).cons hlist).of_eq ?_
    simp [Keyword.text, written, Slot.written]
  | rowsOffset count offset =>
    exact ((Written.Prints.keyword .LIMIT (by decide)).cons (count.asValue.prints.cons
      ((Written.Prints.keyword .OFFSET (by decide)).cons offset.asValue.prints))).of_eq
      (by simp [Keyword.text, written, Slot.written])

end WrittenLimit

/-- The body with a limit recorded that stands at the position `pos`. -/
def Body.limited (pos : Nat) (l : WrittenLimit) (b : Body SelectClauses) : Body SelectClauses :=
  { b with
    marks := b.marks ++ l.marks pos
    parameters := b.parameters + l.questions
    clauses := { b.clauses with limit := some (l.clause b.parameters) } }

namespace Written

open SqlRouting.Parser SqlRouting.Grammar

variable {before : List Char} {ws : List Written}

section Limit

variable {body : Body SelectClauses}

/-- A number of a limit is read with its position. -/
theorem run_limitValue (s : Slot) :
    limitValue (standing before (s.asValue.piece.spaced :: ws) body) =
      .ok (s.limitValue body.parameters, byteLength before + 1)
        (standing (before ++ s.asValue.piece.spaced.text) ws (body.counted s.questions)) := by
  cases s with
  | placeholder =>
    simp only [limitValue, run_bind, run_current, current_kind, nextKind_cons, Slot.asValue,
      Value.piece, Piece.kind_symbol, run_takePlaceholder, run_pure, run_advance, current_start]
    simp [blank, Slot.limitValue, Slot.questions, Slot.asValue, Value.questions]
  | integer n le =>
    simp only [limitValue, run_bind, run_current, current_kind, nextKind_cons, Slot.asValue,
      Value.piece, Piece.kind_integer, current_literal, Piece.literal, Number.integer?_repr le,
      run_pure, run_advance, current_start]
    simp [blank, Slot.limitValue, Slot.questions, Slot.asValue, Value.questions]

/-- A number that is written out is marked. -/
theorem run_markLimitValue {mark : Nat → Int → Mark} {s : Slot} {index pos : Nat} :
    markLimitValue mark (s.limitValue index, pos) (standing before ws body) =
      .ok () (standing before ws { body with marks := body.marks ++ s.mark mark pos }) := by
  cases s with
  | placeholder => simp [markLimitValue, Slot.limitValue, Slot.mark, run_pure]
  | integer n le => rfl

theorem run_limit_none (hws : nextKind ws ≠ .keyword .LIMIT) :
    Grammar.limit (standing before ws body) = .ok () (standing before ws body) := by
  have hlimit : nextKind ws ∉ [Keyword.LIMIT].map TokenKind.keyword := by simpa using hws
  simp only [Grammar.limit, run_bind, run_skipKeyword_none hlimit, Bool.false_eq_true, if_false,
    run_pure]

/-- A limit is read and recorded as a whole. -/
theorem run_limit (l : WrittenLimit) :
    Grammar.limit (standing before l.pieces body) =
      .ok () (standing (before ++ layout l.pieces) []
        (body.limited (byteLength before + 1) l)) := by
  have hfirst : byteLength (before ++ (Piece.keyword .LIMIT).spaced.text) + 1 =
      byteLength before + 1 + 6 := by
    rw [Text.byteLength_append, Nat.add_right_comm]
    rfl
  have hslot (s : Slot) : byteLength s.asValue.piece.spaced.text =
      byteLength s.written.toList + 1 := by
    simp [Value.spelling_piece, Slot.written, Nat.add_comm]
  cases l with
  | rows count =>
    simp +decide only [Grammar.limit, limitRange, WrittenLimit.pieces, run_bind, run_skipKeyword,
      Piece.kind_keyword, if_true, run_limitValue, run_skipSymbol_none, run_skipKeyword_none,
      nextKind_nil, if_false, run_pure, run_markLimitValue, run_cursor, run_modifyClauses,
      cursor_database, hfirst]
    simp [Body.limited, WrittenLimit.marks, WrittenLimit.clause, WrittenLimit.questions]
  | offsetRows offset count =>
    have hsecond : byteLength (before ++ (Piece.keyword .LIMIT).spaced.text ++
        offset.asValue.piece.spaced.text ++ (Piece.symbol .comma).tight.text) + 1 =
          byteLength before + 1 + 6 + byteLength offset.written.toList + 2 := by
      have hcomma : byteLength (Piece.symbol .comma).tight.text = 1 := rfl
      rw [Text.byteLength_append, Text.byteLength_append, hslot, hcomma]
      omega
    simp +decide only [Grammar.limit, limitRange, WrittenLimit.pieces, run_bind, run_skipKeyword,
      Piece.kind_keyword, if_true, run_limitValue, run_skipSymbol, Piece.kind_symbol, run_pure,
      run_markLimitValue, run_cursor, run_modifyClauses, cursor_database, hfirst, hsecond]
    simp [Body.limited, WrittenLimit.marks, WrittenLimit.clause, WrittenLimit.questions]
  | rowsOffset count offset =>
    have hsecond : byteLength (before ++ (Piece.keyword .LIMIT).spaced.text ++
        count.asValue.piece.spaced.text ++ (Piece.keyword .OFFSET).spaced.text) + 1 =
          byteLength before + 1 + 6 + byteLength count.written.toList + 8 := by
      have hoffset : byteLength (Piece.keyword .OFFSET).spaced.text = 7 := rfl
      rw [Text.byteLength_append, Text.byteLength_append, hslot, hoffset]
      omega
    simp +decide only [Grammar.limit, limitRange, WrittenLimit.pieces, run_bind, run_skipKeyword,
      Piece.kind_keyword, if_true, run_limitValue, run_skipSymbol_none, nextKind_cons, if_false,
      run_pure, run_markLimitValue, run_cursor, run_modifyClauses, cursor_database, hfirst, hsecond]
    simp [Body.limited, WrittenLimit.marks, WrittenLimit.clause, WrittenLimit.questions]

end Limit

theorem run_groupBy_none {body : Body SelectClauses} (hws : nextKind ws ≠ .keyword .GROUP) :
    groupBy (standing before ws body) = .ok () (standing before ws body) := by
  have hgroup : nextKind ws ∉ [Keyword.GROUP].map TokenKind.keyword := by simpa using hws
  simp only [groupBy, run_bind, run_skipKeyword_none hgroup, Bool.false_eq_true, if_false,
    run_pure]

theorem run_orderBy_none {body : Body SelectClauses} (hws : nextKind ws ≠ .keyword .ORDER) :
    orderBy (standing before ws body) = .ok () (standing before ws body) := by
  have horder : nextKind ws ∉ [Keyword.ORDER].map TokenKind.keyword := by simpa using hws
  simp only [orderBy, run_bind, run_skipKeyword_none horder, Bool.false_eq_true, if_false,
    run_pure]

end Written

/-! ## Selects -/

/-- A table with an alias. -/
structure Aliased where
  name : Word
  asName : Word
  deriving DecidableEq

/-- The table as it is mentioned. -/
def Aliased.mention (t : Aliased) : Mention :=
  ⟨t.name, some t.asName⟩

/-- A predicate on the column of a table that is named by its alias. -/
structure OwnedPredicate where
  owner : Aliased
  name : Word
  test : Test
  deriving DecidableEq

namespace OwnedPredicate

/-- The predicate as it is written. -/
def written (p : OwnedPredicate) : String :=
  p.owner.asName.text ++ "." ++ p.name.text ++ " " ++ p.test.written

/-- The column: that of the table, not of the alias. -/
def column (p : OwnedPredicate) : Column :=
  ⟨p.name.text, some p.owner.name.text⟩

/-- The predicate as a comparison. -/
def compared (p : OwnedPredicate) : Compared where
  left :=
    [(Piece.name p.owner.asName).spaced, (Piece.symbol .dot).tight, (Piece.name p.name).tight]
  column := p.column
  test := p.test

theorem pieces_prints (p : OwnedPredicate) : Written.Prints p.compared.pieces p.written :=
  (Written.Prints.property p.owner.asName p.name).append p.test.pieces_prints

end OwnedPredicate

/-- A select of everything from tables with aliases. All names and all aliases are different, and
    every predicate is on one of the tables. -/
structure StarSelect where
  tables : List Aliased
  predicates : List OwnedPredicate
  limit : Option WrittenLimit
  tables_ne_nil : tables ≠ [] := by simp
  predicates_ne_nil : predicates ≠ [] := by simp
  names_nodup : (tables.map Aliased.name).Nodup := by decide
  aliases_nodup : (tables.map Aliased.asName).Nodup := by decide
  alias_not_name : ∀ t ∈ tables, t.asName ∉ tables.map Aliased.name := by decide
  owner_mem : ∀ p ∈ predicates, p.owner ∈ tables := by decide

namespace StarSelect

variable (q : StarSelect)

/-- The mentions of the tables. -/
def mentions : List Mention :=
  q.tables.map Aliased.mention

theorem mentions_ne_nil : q.mentions ≠ [] := by
  simpa [mentions] using q.tables_ne_nil

/-- The columns with their tests. -/
def tests : List (Column × Test) :=
  q.predicates.map fun p => (p.column, p.test)

/-- The select without its limit. -/
def core : String :=
  "SELECT * FROM " ++ ", ".intercalate (q.mentions.map Mention.written) ++ " WHERE " ++
    " AND ".intercalate (q.predicates.map OwnedPredicate.written)

/-- The select as it is written. -/
def written : String :=
  match q.limit with
  | none => q.core
  | some l => q.core ++ " " ++ l.written

/-- The number of placeholders. -/
def questions : Nat :=
  Test.count q.tests + (q.limit.map WrittenLimit.questions).getD 0

/-- What is parsed. -/
def body : Body SelectClauses where
  tables := ⟨q.mentions.map Mention.table⟩
  conditions := ⟨Conditions.kept (Test.conditions 0 q.tests)⟩
  marks := Mention.marks 14 q.mentions ++
    (q.limit.map (WrittenLimit.marks (byteLength q.core.toList + 1))).getD []
  parameters := q.questions
  clauses := {
    containsStar := true
    selectListStop := 9
    items := [.star none]
    limit := q.limit.map (WrittenLimit.clause (Test.count q.tests)) }

/-- The pieces of the predicates. -/
def comparisons : List Compared :=
  q.predicates.map OwnedPredicate.compared

/-- The pieces of the select without its limit. -/
def corePieces : List Written :=
  (Piece.keyword .SELECT).spaced :: (Piece.symbol .star).spaced :: (Piece.keyword .FROM).spaced ::
    (Mention.list q.mentions ++ (Piece.keyword .WHERE).spaced :: Compared.list q.comparisons)

/-- The pieces of the limit. -/
def limitPieces : List Written :=
  (q.limit.map WrittenLimit.pieces).getD []

theorem corePieces_prints : Written.Prints q.corePieces q.core := by
  have htables := Mention.list_prints q.mentions_ne_nil
  have hpredicates : Written.Prints (Compared.list q.comparisons)
      (" AND ".intercalate (q.predicates.map OwnedPredicate.written)) := by
    rw [Compared.list, comparisons, List.map_map]
    exact .intercalate (.spaced (by simp)) rfl q.predicates_ne_nil fun p _ => p.pieces_prints
  refine ((Written.Prints.keyword .SELECT (by decide)).cons ((Written.Prints.symbol .star).cons
    ((Written.Prints.keyword .FROM (by decide)).cons (htables.append
      ((Written.Prints.keyword .WHERE (by decide)).cons hpredicates))))).of_eq ?_
  simp [core, Keyword.text, Symbol.text, String.toList_intercalate]

theorem pieces_prints : Written.Prints (q.corePieces ++ q.limitPieces) q.written := by
  unfold limitPieces written
  cases q.limit with
  | none => simpa using q.corePieces_prints
  | some l => exact q.corePieces_prints.append l.pieces_prints

end StarSelect

namespace Written

open SqlRouting.Parser SqlRouting.Grammar

variable {ws : List Written}

/-- What is known of a select once its star has been read. -/
def starBody : Body SelectClauses :=
  { (Body.empty : Body SelectClauses) with
    clauses := { containsStar := true, selectListStop := 9, items := [.star none] } }

/-- A star before `FROM` is an item. -/
theorem run_selectItem_star {before : List Char} {body : Body SelectClauses} :
    selectItem (standing before
        ((Piece.symbol .star).spaced :: (Piece.keyword .FROM).spaced :: ws) body) =
      .ok (.star none, [])
        (standing (before ++ (Piece.symbol .star).spaced.text) ((Piece.keyword .FROM).spaced :: ws)
          { body with clauses := { body.clauses with containsStar := true } }) := by
  have halias (body : Body SelectClauses) : selectItemAlias
      (standing (before ++ (Piece.symbol .star).spaced.text) ((Piece.keyword .FROM).spaced :: ws)
        body) = .ok none (standing (before ++ (Piece.symbol .star).spaced.text)
          ((Piece.keyword .FROM).spaced :: ws) body) := by
    simp only [selectItemAlias, run_bind, run_dialect, cursor_dialect]
    exact run_aliasOr_none (by rw [nextKind_cons, Piece.kind_keyword]; decide)
  simp only [selectItem, run_bind, run_current, run_cursor, isSymbol_standing, nextKind_cons,
    Piece.kind_symbol, decide_true, if_true, noteStar, run_modifyClauses, run_advance, starItem,
    halias, run_pure]

/-- A star is the whole select list. -/
theorem run_selectHead :
    selectHead (standing [] ((Piece.keyword .SELECT).tight :: (Piece.symbol .star).spaced ::
        (Piece.keyword .FROM).spaced :: ws) Body.empty) =
      .ok [] (standing "SELECT *".toList ((Piece.keyword .FROM).spaced :: ws) starBody) := by
  simp +decide only [selectHead, distinct, selectOptions, selectList, run_bind, run_accept,
    Piece.kind_keyword, run_skipAll_none, nextKind_cons, Piece.kind_symbol, run_refuse, run_dialect,
    cursor_dialect, commaSeparated]
  rw [skipSymbol, run_separatedBy_one
    (by simp only [run_bind, run_selectItem_star, run_modifyClauses, run_pure]; rfl)
    (by simp [Piece.kind])]
  simp only [run_current, current_start, run_modifyClauses, run_pure]
  rfl

end Written

namespace StarSelect

open Written SqlRouting.Parser SqlRouting.Grammar

variable (q : StarSelect)

/-- What is known once the tables have been read. -/
def tablesBody : Body SelectClauses :=
  { starBody with
    tables := ⟨q.mentions.map Mention.table⟩
    marks := Mention.marks 14 q.mentions }

/-- What is known before the limit. -/
def coreBody : Body SelectClauses :=
  { q.tablesBody with
    conditions := ⟨Conditions.kept (Test.conditions 0 q.tests)⟩
    parameters := Test.count q.tests }

/-- The alias of a table leads to it. -/
theorem names_compared {p : OwnedPredicate} (hp : p ∈ q.predicates) :
    Names ⟨q.mentions.map Mention.table⟩ p.compared.left p.column := by
  have howner : p.owner.mention ∈ q.mentions := List.mem_map_of_mem (q.owner_mem p hp)
  have hnames : q.mentions.map Mention.name = q.tables.map Aliased.name := by
    simp [mentions, Aliased.mention]
  have haliases : q.mentions.filterMap Mention.asName = q.tables.map Aliased.asName := by
    simp [mentions, List.filterMap_map, Function.comp_def, Aliased.mention]
  have halias : p.owner.asName ∉ q.mentions.map Mention.name :=
    hnames ▸ q.alias_not_name _ (q.owner_mem p hp)
  have htable := Tables.find?_alias howner rfl halias (haliases ▸ q.aliases_nodup)
  exact names_property htable (Tables.contains_mentions halias) p.name

/-- All tables are kept. -/
theorem mentioning_mentions : starBody.mentioning 14 q.mentions = q.tablesBody := by
  have hnames : (q.mentions.map Mention.name).Nodup := by
    simpa [mentions, Aliased.mention, Function.comp_def] using q.names_nodup
  rw [Body.mentioning_eq hnames (fun _ _ => rfl) (by simp [starBody, Body.empty])]
  rfl

theorem narrowed_tests : q.tablesBody.narrowed q.tests = q.coreBody := by
  rw [Body.narrowed_eq rfl]
  simp [coreBody, tablesBody, starBody, Body.empty]

/-- The tables are read up to the predicates. -/
theorem run_fromClause {ws : List Written} :
    fromClause (standing "SELECT *".toList ((Piece.keyword .FROM).spaced ::
        (Mention.list q.mentions ++ (Piece.keyword .WHERE).spaced :: ws)) starBody) =
      .ok () (standing ("SELECT * FROM".toList ++ layout (Mention.list q.mentions))
        ((Piece.keyword .WHERE).spaced :: ws) q.tablesBody) := by
  have hwhere : nextKind ((Piece.keyword .WHERE).spaced :: ws) ∈ TokenKind.behindTable ∧
      nextKind ((Piece.keyword .WHERE).spaced :: ws) ≠ .symbol .comma := by
    simp [Piece.kind, TokenKind.behindTable]
  have htables := run_tableReferences "SELECT * FROM".toList starBody q.mentions_ne_nil hwhere.1
    hwhere.2 fun h : false = true => absurd h Bool.false_ne_true
  have hpos : byteLength "SELECT * FROM".toList + 1 = 14 := rfl
  have hbefore : "SELECT *".toList ++ (Piece.keyword .FROM).spaced.text =
      "SELECT * FROM".toList := rfl
  rw [hpos, mentioning_mentions] at htables
  simp +decide only [fromClause, run_bind, run_refuse, nextKind_cons, Piece.kind_keyword,
    run_skipKeyword, if_true, hbefore, htables]

/-- The predicates are read up to the limit. -/
theorem run_whereClause {ws : List Written} (hws : nextKind ws ∈ TokenKind.behindWhere) :
    whereClause (standing ("SELECT * FROM".toList ++ layout (Mention.list q.mentions))
        ((Piece.keyword .WHERE).spaced :: (Compared.list q.comparisons ++ ws)) q.tablesBody) =
      .ok () (standing q.core.toList ws q.coreBody) := by
  have hnames : ∀ c ∈ q.comparisons, Names q.tablesBody.tables c.left c.column := by
    intro c hc
    obtain ⟨p, hp, rfl⟩ := List.mem_map.1 hc
    exact q.names_compared hp
  have htests : Compared.tests q.comparisons = q.tests := by
    simp [Compared.tests, comparisons, tests, OwnedPredicate.compared]
  have hcore : "SELECT * FROM".toList ++ layout (Mention.list q.mentions) ++
      layout ((Piece.keyword .WHERE).spaced :: Compared.list q.comparisons) = q.core.toList := by
    simp [← q.corePieces_prints.layout_flush, corePieces, Piece.spelling, Keyword.text, Symbol.text]
  have hne : q.comparisons ≠ [] := by simpa [comparisons] using q.predicates_ne_nil
  rw [Written.run_whereClause _ _ hne hnames hws, hcore, htests, narrowed_tests]

/-- A star has no derived columns. -/
theorem derive_star {b : Body SelectClauses} (hitems : b.clauses.items = [.star none])
    (hgroup : b.clauses.groupBy = []) (horder : b.clauses.orderBy = []) :
    b.deriveColumns.deriveOrder = b := by
  obtain ⟨routing, clauses⟩ := b
  obtain ⟨containsStar, selectListStop, groupByStop, items, groupBy, orderBy, limit⟩ := clauses
  subst hitems hgroup horder
  rfl

/-- The limit is read at the end of the text. -/
theorem run_limit :
    Grammar.limit (standing q.core.toList q.limitPieces q.coreBody) =
      .ok () (standing q.written.toList [] q.body) := by
  unfold limitPieces written body questions
  cases q.limit with
  | none =>
    rw [Option.map_none, Option.getD_none, run_limit_none (by simp)]
    simp [coreBody, tablesBody, starBody, Body.empty]
  | some l =>
    rw [Option.map_some, Option.getD_some, Written.run_limit, l.pieces_prints.layout_eq]
    simp [coreBody, tablesBody, starBody, Body.empty, Body.limited]

/-- The whole text is read. -/
theorem run_select :
    select (standing [] (flush (q.corePieces ++ q.limitPieces)) Body.empty) =
      .ok () (standing q.written.toList [] q.body) := by
  have hlimit : nextKind q.limitPieces ∈ TokenKind.behindWhere := by
    unfold limitPieces
    cases q.limit with
    | none => simp [TokenKind.behindWhere]
    | some l => cases l <;> simp [WrittenLimit.pieces, Piece.kind, TokenKind.behindWhere]
  have hbehind : ∀ kind ∈ TokenKind.behindWhere, kind ≠ .keyword .GROUP ∧
      kind ∉ [Keyword.HAVING].map TokenKind.keyword ∧ kind ≠ .keyword .ORDER := by decide
  obtain ⟨hgroup, hhaving, horder⟩ := hbehind _ hlimit
  have hflush : flush (q.corePieces ++ q.limitPieces) =
      (Piece.keyword .SELECT).tight :: (Piece.symbol .star).spaced ::
        (Piece.keyword .FROM).spaced :: (Mention.list q.mentions ++
          (Piece.keyword .WHERE).spaced :: (Compared.list q.comparisons ++ q.limitPieces)) := by
    simp [corePieces]
  have hmark {s : ParseState SelectClauses} : markTables [] s = .ok () s := rfl
  rw [hflush]
  simp only [select, selectClauses, run_bind, run_selectHead, run_fromClause, hmark,
    q.run_whereClause hlimit, run_groupBy_none hgroup, having, run_refuse hhaving,
    run_orderBy_none horder, run_limit, selectRest, run_dialect]
  simp +decide only [run_refuse, nextKind_nil, cursor_dialect, run_skipRest_none]
  change EStateM.Result.ok () (standing q.written.toList [] q.body.deriveColumns.deriveOrder) = _
  rw [derive_star rfl rfl rfl]

end StarSelect

/-- A select of everything from tables with aliases is parsed to what is written in it. -/
theorem parse_star_select (q : StarSelect) :
    Statement.parse .mySql .mySql q.written = .ok (.select q.body) := by
  rw [Written.parse_eq Grammar.select .select q.pieces_prints rfl, q.run_select]
  rfl

/-- A select from two tables: the third predicate replaces the condition of the first, the second is
    only passed, and the offset is written behind the count. -/
def StarSelect.replacing : StarSelect where
  tables := [⟨{ text := "t" }, { text := "a" }⟩, ⟨{ text := "s" }, { text := "b" }⟩]
  predicates := [
    ⟨⟨{ text := "t" }, { text := "a" }⟩, { text := "id" }, .equal .placeholder⟩,
    ⟨⟨{ text := "s" }, { text := "b" }⟩, { text := "c" },
      .greater (.text { quote := '\'', content := "ß" })⟩,
    ⟨⟨{ text := "t" }, { text := "a" }⟩, { text := "id" },
      .isIn (.integer 7 (by decide)) [.placeholder]⟩]
  limit := some (.rowsOffset .placeholder (.integer 9 (by decide)))

theorem parse_star_select_replacing :
    Statement.parse .mySql .mySql
        "SELECT * FROM t a, s b WHERE a.id = ? AND b.c > 'ß' AND a.id IN (7, ?) LIMIT ? OFFSET 9" =
      .ok (.select {
        tables := ⟨[⟨"t", some "a"⟩, ⟨"s", some "b"⟩]⟩
        conditions := ⟨[⟨⟨"id", some "t"⟩, .isIn, [.number (.integer 7), .placeholder 1]⟩]⟩
        marks := [.table 14 "t", .table 19 "s", .offset 87 9]
        parameters := 3
        clauses := {
          containsStar := true
          selectListStop := 9
          items := [.star none]
          limit := some ⟨.mySql, some (.literal 9), some (.parameter 2)⟩ } }) := by
  have hwritten : StarSelect.replacing.written =
      "SELECT * FROM t a, s b WHERE a.id = ? AND b.c > 'ß' AND a.id IN (7, ?) LIMIT ? OFFSET 9" :=
    by decide +kernel
  rw [← hwritten, parse_star_select]
  decide +kernel

end SqlRouting
