import SqlRouting.Grammar.Tables
import SqlRouting.Proofs.Written.Runs

/-!
# Written tables

A table is mentioned by its name, with or without an alias. Every table of a list is recorded and
marked where it is mentioned (`Written.run_tableReferences`); of tables with different names, all
are kept (`Body.mentioning_eq`), and an alias that is no name leads to the table that has it
(`Tables.find?_alias`).
-/

namespace SqlRouting

open Text (byteLength)

/-- Tokens that end a table: they are no part of an alias, a hint or a join. -/
def TokenKind.behindTable : List TokenKind :=
  [.symbol .comma, .symbol .leftParen, .keyword .WHERE, .keyword .SET]

/-- A table as it is mentioned. -/
structure Mention where
  name : Word
  asName : Option Word := none
  deriving DecidableEq

namespace Mention

/-- The table as it is written. -/
def written (m : Mention) : String :=
  match m.asName with
  | none => m.name.text
  | some a => m.name.text ++ " " ++ a.text

/-- The table that is recorded. -/
def table (m : Mention) : Table :=
  ⟨m.name.text, m.asName.map Word.text⟩

/-- The marks of tables with commas between them, the first one at the position `pos`. -/
def marks : Nat → List Mention → List Mark
  | _, [] => []
  | pos, m :: ms => .table pos m.name.text :: marks (pos + byteLength m.written.toList + 2) ms

/-- The pieces of the alias. -/
def aliasPieces (m : Mention) : List Written :=
  m.asName.toList.map fun a => (Piece.name a).spaced

/-- The pieces of the table. -/
def pieces (m : Mention) : List Written :=
  (Piece.name m.name).spaced :: m.aliasPieces

theorem pieces_prints (m : Mention) : Written.Prints m.pieces m.written := by
  obtain ⟨name, asName⟩ := m
  cases asName with
  | none => exact .name name
  | some a => exact (Written.Prints.name name).cons (.name a)

/-- Tables with commas between them. -/
def list (ms : List Mention) : List Written :=
  [(Piece.symbol .comma).tight].intercalate (ms.map pieces)

theorem list_prints {ms : List Mention} (hne : ms ≠ []) :
    Written.Prints (list ms) (", ".intercalate (ms.map written)) :=
  .intercalate .comma rfl hne fun m _ => m.pieces_prints

end Mention

/-- The body with tables mentioned one after the other, the first one at the position `pos`. -/
def Body.mentioning {κ : Type} : Nat → List Mention → Body κ → Body κ
  | _, [], b => b
  | pos, m :: ms, b => Body.mentioning (pos + byteLength m.written.toList + 2) ms
    { b with
      tables := b.tables.add m.table
      marks := (Mark.table pos m.name.text).insert b.marks }

namespace Body

variable {κ : Type} {b : Body κ}

/-- Of tables with different names all are kept, and their marks are in order. -/
theorem mentioning_eq {pos : Nat} {ms : List Mention} (hnames : (ms.map Mention.name).Nodup)
    (hnew : ∀ m ∈ ms, b.tables.contains m.name.text = false)
    (hmarks : ∀ mark ∈ b.marks, mark.start ≤ pos) :
    b.mentioning pos ms = { b with
      tables := ⟨b.tables.toList ++ ms.map Mention.table⟩
      marks := b.marks ++ Mention.marks pos ms } := by
  induction ms generalizing pos b with
  | nil => simp [mentioning, Mention.marks]
  | cons m ms ih =>
    rw [List.map_cons, List.nodup_cons] at hnames
    have hm : b.tables.contains m.table.name = false := hnew m (by simp)
    have hadd : (b.tables.add m.table).toList = b.tables.toList ++ [m.table] :=
      Tables.toList_add_of_not_contains hm
    have hinsert : (Mark.table pos m.name.text).insert b.marks =
        b.marks ++ [.table pos m.name.text] := by
      simpa using Mark.insert_append hmarks (List.forall_mem_nil _)
    rw [mentioning, ih hnames.2]
    · simp [hadd, hinsert, Mention.marks]
    · intro n hn
      have hne : m.name ≠ n.name := by
        intro h
        exact hnames.1 (h ▸ List.mem_map_of_mem hn)
      rw [Tables.contains_add, hnew n (by simp [hn]), Bool.false_or, Table.isNamed, Mention.table,
        Word.sameLetters_text, decide_eq_false hne]
    · intro mark hmark
      simp only [hinsert, List.mem_append, List.mem_singleton] at hmark
      rcases hmark with h | rfl
      · have := hmarks mark h
        omega
      · change pos ≤ _
        omega

end Body

namespace Tables

/-- No table is called like the word, unless one is mentioned by it. -/
theorem contains_mentions {ms : List Mention} {w : Word} (h : w ∉ ms.map Mention.name) :
    contains ⟨ms.map Mention.table⟩ w.text = false := by
  rw [contains, List.any_map, List.any_eq_false]
  intro m hm
  have hne : m.name ≠ w := by
    rintro rfl
    exact h (List.mem_map_of_mem hm)
  simpa [Table.isNamed, Mention.table] using hne

theorem isAliased_mention {m : Mention} {a : Word} :
    m.table.isAliased a.text = decide (m.asName = some a) := by
  obtain ⟨name, asName⟩ := m
  cases asName <;> simp [Table.isAliased, Mention.table]

/-- Of mentions with different aliases, the first one with a given alias is the only one. -/
theorem find?_asName {ms : List Mention} {m : Mention} {a : Word} (hm : m ∈ ms)
    (ha : m.asName = some a) (haliases : (ms.filterMap Mention.asName).Nodup) :
    ms.find? (·.asName = some a) = some m := by
  induction ms with
  | nil => simp at hm
  | cons n ms ih =>
    rcases List.mem_cons.1 hm with rfl | hm
    · simp [ha]
    · have hmem : a ∈ ms.filterMap Mention.asName := List.mem_filterMap.2 ⟨m, hm, ha⟩
      cases hn : n.asName with
      | none =>
        rw [List.filterMap_cons_none hn] at haliases
        rw [List.find?_cons_of_neg (by simp [hn]), ih hm haliases]
      | some c =>
        rw [List.filterMap_cons_some hn, List.nodup_cons] at haliases
        have hne : c ≠ a := by
          rintro rfl
          exact haliases.1 hmem
        rw [List.find?_cons_of_neg (by simpa [hn] using hne), ih hm haliases.2]

/-- An alias that no table has for a name leads to the table that has it for an alias. -/
theorem find?_alias {ms : List Mention} {m : Mention} {a : Word} (hm : m ∈ ms)
    (ha : m.asName = some a) (hnames : a ∉ ms.map Mention.name)
    (haliases : (ms.filterMap Mention.asName).Nodup) :
    find? ⟨ms.map Mention.table⟩ a.text = some m.table := by
  have hnone : (ms.map Mention.table).find? (·.isNamed a.text) = none := by
    simpa [contains] using contains_mentions hnames
  have hsome : (ms.map Mention.table).find? (·.isAliased a.text) = some m.table := by
    rw [List.find?_map]
    simp only [Function.comp_def, isAliased_mention, find?_asName hm ha haliases, Option.map_some]
  rw [find?, hnone, hsome]
  rfl

end Tables

namespace Written

open SqlRouting.Parser SqlRouting.Grammar

variable {κ : Type} {before : List Char} {ws : List Written} {body : Body κ}

/-! ## Aliases -/

theorem run_aliasOr_none {keywords : List Keyword}
    (h : nextKind ws ∉ TokenKind.keyword .AS :: TokenKind.literal .identifier ::
      TokenKind.literal .chars :: keywords.map TokenKind.keyword) :
    aliasOr keywords (standing before ws body) = .ok none (standing before ws body) := by
  simp only [List.mem_cons, not_or] at h
  simp +decide only [aliasOr, run_bind, run_skipKeyword_none, List.map_cons, List.map_nil,
    List.mem_cons, List.not_mem_nil, h, if_false, run_cursor, isAny_standing, isKeyword_standing,
    run_pure]

theorem run_aliasOr_name {keywords : List Keyword} {w : Written} {a : Word}
    (hw : w.piece = .name a) :
    aliasOr keywords (standing before (w :: ws) body) =
      .ok (some a.text) (standing (before ++ w.text) ws body) := by
  simp +decide only [aliasOr, run_bind, run_skipKeyword_none, nextKind_cons, hw, Piece.kind_name,
    if_false, run_cursor, isAny_standing, decide_true, Bool.true_or, if_true, takeAlias,
    run_current, run_advance, current_literal, run_pure, Piece.literal, Word.unquoted_text]

/-! ## Tables -/

/-- The name of a table is read and recorded. -/
theorem run_tableName {w : Written} {x : Word} (hw : w.piece = .name x)
    (hws : nextKind ws ≠ .symbol .dot) :
    tableName (standing before (w :: ws) body) =
      .ok (standing before (w :: ws) body).cursor.current
        (standing (before ++ w.text) ws body) := by
  have hkind : w.piece.kind = .literal .identifier := by rw [hw, Piece.kind_name]
  simp only [tableName, run_bind, run_current, run_cursor, isName_standing, nextKind_cons, hkind,
    decide_true, Bool.not_true, Bool.false_eq_true, if_false, run_advance, isSymbol_standing, hws,
    decide_false, run_pure]

theorem run_recordTable {w : Written} {x : Word} {asName : Option String} {before' : List Char}
    {ws' : List Written} (hw : w.piece = .name x) :
    recordTable (standing before (w :: ws) body).cursor.current asName
        (standing before' ws' body) =
      .ok () (standing before' ws' { body with
        tables := body.tables.add ⟨x.text, asName⟩
        marks := (Mark.table (byteLength (before ++ w.blank)) x.text).insert body.marks }) := by
  simp only [recordTable, run_bind, run_addTable, run_addMark, current_literal, current_start,
    position_cons, hw, Piece.literal, Word.unquoted_text]

/-- Behind a table there is no alias left. -/
theorem run_tableAlias_none (before : List Char) (body : Body κ)
    (hws : nextKind ws ∈ TokenKind.behindTable) :
    tableAlias (standing before ws body) = .ok none (standing before ws body) := by
  have hnone : ∀ kind ∈ TokenKind.behindTable, kind ∉ TokenKind.keyword .AS ::
      TokenKind.literal .identifier :: TokenKind.literal .chars ::
        Dialect.mySql.tableAlias.map TokenKind.keyword := by decide
  simp only [tableAlias, run_bind, run_dialect, cursor_dialect, run_aliasOr_none (hnone _ hws)]

/-- Nor is there a hint. -/
theorem run_tableHints_none (hws : nextKind ws ∈ TokenKind.behindTable) :
    tableHints (standing before ws body) = .ok () (standing before ws body) := by
  have hpartition : ∀ kind ∈ TokenKind.behindTable,
      kind ∉ Dialect.mySql.tablePartition.map TokenKind.keyword := by decide
  have hhint : ∀ kind ∈ TokenKind.behindTable,
      kind ∉ Dialect.mySql.indexHint.map TokenKind.keyword := by decide
  simp only [tableHints, run_bind, run_dialect, cursor_dialect,
    run_skipKeyword_none (hpartition _ hws), Bool.false_eq_true, if_false]
  refine run_loop_none ?_
  simp only [run_bind, run_skipKeyword_none (hhint _ hws), Bool.false_eq_true, if_false, run_pure]

/-- Nor is another table joined. -/
theorem run_joinedTable_none (hws : nextKind ws ∈ TokenKind.behindTable) :
    joinedTable (standing before ws body) = .ok false (standing before ws body) := by
  have hjoin : ∀ kind ∈ TokenKind.behindTable,
      kind ∉ (joinTypes ++ Dialect.mySql.joinTypes).map TokenKind.keyword := by decide
  have hloop : loop (skipKeyword (joinTypes ++ Dialect.mySql.joinTypes))
      (standing before ws body) = .ok () (standing before ws body) :=
    run_loop_none (run_skipKeyword_none (hjoin _ hws))
  simp only [joinedTable, joinType, run_bind, run_dialect, cursor_dialect, run_cursor,
    isKeyword_standing, hjoin _ hws, decide_false, hloop, run_pure, Bool.false_eq_true, if_false]

/-- A table is read with its alias, and it is recorded and marked. -/
theorem run_tableReference (m : Mention) (hws : nextKind ws ∈ TokenKind.behindTable) :
    tableReference (standing before (m.pieces ++ ws) body) =
      .ok () (standing (before ++ layout m.pieces) ws
        (body.mentioning (byteLength before + 1) [m])) := by
  have hnodot : ∀ kind ∈ TokenKind.behindTable, kind ≠ .symbol .dot := by decide
  have hdot : nextKind (m.aliasPieces ++ ws) ≠ .symbol .dot := by
    cases hm : m.asName with
    | none => simpa [Mention.aliasPieces, hm] using hnodot _ hws
    | some a => simp [Mention.aliasPieces, hm, Piece.kind]
  have halias {before : List Char} {body : Body κ} :
      tableAlias (standing before (m.aliasPieces ++ ws) body) =
        .ok (m.asName.map Word.text) (standing (before ++ layout m.aliasPieces) ws body) := by
    cases hm : m.asName with
    | none => simpa [Mention.aliasPieces, hm] using run_tableAlias_none _ _ hws
    | some a =>
      simpa [Mention.aliasPieces, hm, tableAlias, run_bind, run_dialect] using
        run_aliasOr_name (w := (Piece.name a).spaced) rfl
  simp +decide only [tableReference, tableFactor, Mention.pieces, List.cons_append, run_bind,
    run_cursor, isSymbol_standing, nextKind_cons, Piece.kind_name, if_false,
    run_tableName (w := (Piece.name m.name).spaced) rfl hdot, halias,
    run_recordTable (w := (Piece.name m.name).spaced) rfl, run_tableHints_none hws,
    run_loop_none (run_joinedTable_none hws)]
  simp [Body.mentioning, Mention.table, blank]

/-- Tables with commas between them are read one by one. -/
theorem run_tables {ms : List Mention} (hne : ms ≠ []) (hws : nextKind ws ∈ TokenKind.behindTable)
    (hcomma : nextKind ws ≠ .symbol .comma) :
    commaSeparated tableReference (standing before (Mention.list ms ++ ws) body) =
      .ok (ms.map fun _ => ()) (standing (before ++ layout (Mention.list ms)) ws
        (body.mentioning (byteLength before + 1) ms)) := by
  refine run_separatedBy before ws body [Symbol.comma] tableReference (Piece.symbol .comma).tight
    Mention.pieces (fun before ms b => b.mentioning (byteLength before + 1) ms)
    (fun _ => True) hne (by simp [Piece.kind]) (by simpa using hcomma) ?_ ?_ trivial
  · intro before m n ms b
    have hpos : byteLength (before ++ layout m.pieces ++ (Piece.symbol .comma).tight.text) + 1 =
        byteLength before + 1 + byteLength m.written.toList + 2 := by
      simp [m.pieces_prints.layout_eq, Piece.spelling, Symbol.text]
      omega
    rw [hpos]
    rfl
  · intro m _ before vs b _ hvs
    refine ⟨run_tableReference m ?_, trivial⟩
    rcases hvs with h | h
    · simp [h, Piece.kind, TokenKind.behindTable]
    · exact h ▸ hws

/-- Tables are read and recorded; where only one is allowed, there has to be only one. -/
theorem run_tableReferences (before : List Char) (body : Body κ) {single : Bool}
    {ms : List Mention} (hne : ms ≠ [])
    (hws : nextKind ws ∈ TokenKind.behindTable) (hcomma : nextKind ws ≠ .symbol .comma)
    (hsingle : single = true →
      (body.mentioning (byteLength before + 1) ms).tables.size ≤ 1) :
    tableReferences single (standing before (Mention.list ms ++ ws) body) =
      .ok () (standing (before ++ layout (Mention.list ms)) ws
        (body.mentioning (byteLength before + 1) ms)) := by
  have hnot : ¬((single && decide (1 < (body.mentioning (byteLength before + 1) ms).tables.size)) =
      true) := by
    intro h
    rw [Bool.and_eq_true, decide_eq_true_eq] at h
    exact absurd (hsingle h.1) (by omega)
  simp only [tableReferences, run_bind, run_tables hne hws hcomma, run_routing, standing_body,
    if_neg hnot, run_pure]

end Written

end SqlRouting
