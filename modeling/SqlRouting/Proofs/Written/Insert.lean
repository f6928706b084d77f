import SqlRouting.Grammar.Statement
import SqlRouting.Proofs.Written.Where

/-!
# Written inserts

An `INSERT` of rows of values and calls, whose arguments may be calls again, into columns of a table
is parsed back: every row comes out with its text, its number of placeholders and what it says about
the columns. If a row has more or fewer entries than there are columns, the statement is refused
(`parse_table_insert`).
-/

namespace SqlRouting

open Text (byteLength)

/-! ## Entries -/

mutual

/-- An entry of a row: a value, or a call whose arguments are entries as well. -/
inductive Entry where
  | value (v : Value)
  | call (f : Word) (arguments : Arguments)

/-- The arguments of a call. -/
inductive Arguments where
  | one (e : Entry)
  | more (e : Entry) (es : Arguments)

end

mutual

/-- The entry as it is written. -/
def Entry.written : Entry → String
  | .value v => v.written
  | .call f es => f.text ++ "(" ++ es.written ++ ")"

/-- The arguments as they are written. -/
def Arguments.written : Arguments → String
  | .one e => e.written
  | .more e es => e.written ++ ", " ++ es.written

end

mutual

/-- The number of placeholders in the entry. -/
def Entry.questions : Entry → Nat
  | .value v => v.questions
  | .call _ es => es.questions

/-- The number of placeholders in the arguments. -/
def Arguments.questions : Arguments → Nat
  | .one e => e.questions
  | .more e es => e.questions + es.questions

end

mutual

/-- The pieces of the entry. -/
def Entry.pieces : Entry → List Written
  | .value v => [v.piece.spaced]
  | .call f es => (Piece.name f).spaced :: (Piece.symbol .leftParen).tight ::
      (Written.flush es.pieces ++ [(Piece.symbol .rightParen).tight])

/-- The pieces of the arguments. -/
def Arguments.pieces : Arguments → List Written
  | .one e => e.pieces
  | .more e es => e.pieces ++ (Piece.symbol .comma).tight :: es.pieces

end

mutual

theorem Entry.pieces_prints : ∀ e : Entry, Written.Prints e.pieces e.written
  | .value v => by rw [Entry.pieces, Entry.written]; exact v.prints
  | .call f es => by rw [Entry.pieces, Entry.written]; exact .call f es.pieces_prints

theorem Arguments.pieces_prints : ∀ es : Arguments, Written.Prints es.pieces es.written
  | .one e => by rw [Arguments.pieces, Arguments.written]; exact e.pieces_prints
  | .more e es => by
    rw [Arguments.pieces, Arguments.written]
    exact e.pieces_prints.separated .comma rfl es.pieces_prints

end

mutual

theorem Entry.questions_pieces : ∀ e : Entry, Written.questions e.pieces = e.questions
  | .value v => by simp [Entry.pieces, Entry.questions, v.questions_piece]
  | .call f es => by
    simp [Entry.pieces, Entry.questions, Piece.questions, es.questions_pieces]

theorem Arguments.questions_pieces : ∀ es : Arguments, Written.questions es.pieces = es.questions
  | .one e => by rw [Arguments.pieces, Arguments.questions, e.questions_pieces]
  | .more e es => by
    simp [Arguments.pieces, Arguments.questions, Piece.questions, e.questions_pieces,
      es.questions_pieces]

end

mutual

theorem Entry.balanced : ∀ e : Entry, Written.Balanced e.pieces
  | .value v => by rw [Entry.pieces]; exact v.balanced
  | .call f es => by
    rw [Entry.pieces]
    exact .cons (by simp) (.group rfl rfl es.balanced.flush .nil)

theorem Arguments.balanced : ∀ es : Arguments, Written.Balanced es.pieces
  | .one e => by rw [Arguments.pieces]; exact e.balanced
  | .more e es => by
    rw [Arguments.pieces]
    exact e.balanced.append (.cons (by simp) es.balanced)

end

namespace Entry

/-- What the entry is, `index` placeholders having come before: a call is kept as it is written. -/
def expression (index : Nat) : Entry → Expression
  | value v => v.expression index
  | call f es => .other (call f es).written

/-- What the entry says about its column, if it is a value. -/
def condition? (index : Nat) (column : Column) : Entry → Option Condition
  | value v => some ⟨column, .equal, [v.expression index]⟩
  | call _ _ => none

/-- The number of placeholders in entries. -/
def count (es : List Entry) : Nat :=
  (es.map questions).sum

/-- What entries say about their columns, `index` placeholders having come before. -/
def conditions : Nat → List Column → List Entry → List Condition
  | index, column :: columns, e :: es =>
    (e.condition? index column).toList ++ conditions (index + e.questions) columns es
  | _, _, _ => []

/-- The entry is read as what it is, behind a blank or not. -/
theorem readsAs {e : Entry} {us : List Written}
    (hus : us = e.pieces ∨ us = Written.flush e.pieces) :
    Written.ReadsAs us (e.expression ·) := by
  have htext : String.ofList (Written.layout (Written.flush e.pieces)) = e.written := by
    rw [e.pieces_prints.layout_flush, String.ofList_toList]
  cases e with
  | value v =>
    rw [pieces] at hus
    rcases hus with rfl | rfl
    · exact Written.readsAs_value rfl
    · exact Written.readsAs_value rfl
  | call f es =>
    have hread {w : Written} (hw : w.piece = .name f) :=
      Written.readsAs_call hw (l := (Piece.symbol .leftParen).tight)
        (r := (Piece.symbol .rightParen).tight) rfl rfl es.balanced.flush
    simp only [expression, ← htext]
    rw [pieces] at hus ⊢
    rcases hus with rfl | rfl
    · exact hread (w := (Piece.name f).spaced) rfl
    · exact hread (w := (Piece.name f).tight) rfl

/-- Entries with commas between them. -/
def list (es : List Entry) : List Written :=
  [(Piece.symbol .comma).tight].intercalate (es.map pieces)

theorem balanced_list (es : List Entry) : Written.Balanced (list es) := by
  refine .intercalate (by simp) fun us hus => ?_
  obtain ⟨e, -, rfl⟩ := List.mem_map.1 hus
  exact e.balanced

theorem questions_list (es : List Entry) : Written.questions (list es) = count es := by
  rw [list, Written.questions_intercalate rfl, List.map_map, count]
  congr 1
  exact List.map_congr_left fun e _ => e.questions_pieces

/-- What entries are, one after the other. -/
def expressions : Nat → List Entry → List Expression
  | _, [] => []
  | index, e :: es => e.expression index :: expressions (index + e.questions) es

theorem length_expressions (index : Nat) (es : List Entry) :
    (expressions index es).length = es.length := by
  induction es generalizing index with
  | nil => rfl
  | cons e es ih => simp [expressions, ih]

/-- What a row says about its columns is what its entries say. -/
theorem conditions_eq (index : Nat) (columns : List Column) (es : List Entry) :
    (columns.zip (expressions index es)).filterMap
        (fun (column, e) => Grammar.valueCondition? column e) =
      conditions index columns es := by
  induction es generalizing index columns with
  | nil => cases columns <;> simp [expressions, conditions]
  | cons e es ih =>
    cases columns with
    | nil => simp [conditions]
    | cons column columns =>
      have hcondition : Grammar.valueCondition? column (e.expression index) =
          e.condition? index column := by
        cases e with
        | value v => cases v <;> rfl
        | call f es => rfl
      rw [expressions, List.zip_cons_cons, conditions, ← ih]
      cases h : e.condition? index column <;> simp [hcondition, h]

/-- Every column is spoken of at most once. -/
theorem columns_conditions_sublist (index : Nat) (columns : List Column) (es : List Entry) :
    ((conditions index columns es).map Condition.column).Sublist columns := by
  induction es generalizing index columns with
  | nil => cases columns <;> simp [conditions]
  | cons e es ih =>
    cases columns with
    | nil => simp [conditions]
    | cons column columns =>
      have ih := ih (index + e.questions) columns
      cases e with
      | value v => simpa [conditions, condition?] using ih
      | call f es => simpa [conditions, condition?] using ih.cons column

end Entry

/-! ## Rows -/

/-- Conditions on different columns are all kept. -/
theorem Conditions.toList_ofList_of_nodup {cs : List Condition}
    (h : (cs.map Condition.column).Nodup) : (ofList cs).toList = cs := by
  induction cs using List.reverseRecOn with
  | nil => rfl
  | append_singleton cs c ih =>
    rw [List.map_append, List.map_singleton, List.nodup_append] at h
    have hnew : (last? cs c.column).isSome = false := by
      rw [Bool.eq_false_iff, ne_eq, isSome_last?]
      exact fun hc => h.2.2 _ hc _ (by simp) rfl
    rw [ofList_append, add, get?_ofList, hnew, ih h.1]
    rfl

/-- What a row says about different columns. -/
theorem rowConditions_entries {columns : List Column} (hcolumns : columns.Nodup) (index : Nat)
    (es : List Entry) : Grammar.rowConditions (columns.zip (Entry.expressions index es)) =
      ⟨Entry.conditions index columns es⟩ := by
  rw [Grammar.rowConditions, Entry.conditions_eq]
  have hlist := Conditions.toList_ofList_of_nodup
    ((Entry.columns_conditions_sublist index columns es).nodup hcolumns)
  exact congrArg Conditions.mk hlist

/-- A row of entries. -/
structure EntryRow where
  entries : List Entry

namespace EntryRow

/-- The row as it is written. -/
def written (r : EntryRow) : String :=
  "(" ++ ", ".intercalate (r.entries.map Entry.written) ++ ")"

/-- The number of placeholders in the row. -/
def questions (r : EntryRow) : Nat :=
  Entry.count r.entries

/-- The row that is recorded, `index` placeholders having come before. -/
def inserted (columns : List Column) (index : Nat) (r : EntryRow) : InsertedRow where
  keyword := .VALUES
  text := r.written
  parameters := r.questions
  conditions := ⟨Entry.conditions index columns r.entries⟩

/-- The rows that are recorded, one after the other. -/
def insertedAll (columns : List Column) : Nat → List EntryRow → List InsertedRow
  | _, [] => []
  | index, r :: rs => r.inserted columns index :: insertedAll columns (index + r.questions) rs

/-- The number of placeholders in rows. -/
def count (rs : List EntryRow) : Nat :=
  (rs.map questions).sum

/-- Why rows are refused where there are `n` columns: the first row with more or fewer entries has
    the wrong length or, if it is empty, no end. -/
def fault? (n : Nat) (rs : List EntryRow) : Option ParseError :=
  (rs.find? (·.entries.length ≠ n)).map fun r =>
    if r.entries.isEmpty then .unmatchedToken (.symbol .rightParen) .endOfText ""
    else .unsupported .rowLength

/-- The pieces of the row. -/
def pieces (r : EntryRow) : List Written :=
  (Piece.symbol .leftParen).spaced ::
    (Written.flush (Entry.list r.entries) ++ [(Piece.symbol .rightParen).tight])

theorem pieces_prints (r : EntryRow) : Written.Prints r.pieces r.written := by
  obtain ⟨entries⟩ := r
  cases entries with
  | nil => exact ⟨.parentheses rfl rfl fun _ _ => trivial, rfl, rfl⟩
  | cons e es =>
    exact .group (.intercalate .comma rfl (by simp) fun e _ => e.pieces_prints)

/-- The row is read as a group where an operand is due. -/
theorem readsAs (r : EntryRow) : Written.ReadsAs r.pieces fun _ =>
    .other (String.ofList (Written.layout (Written.flush r.pieces))) :=
  Written.readsAs_group rfl rfl (Entry.balanced_list r.entries).flush

/-- Rows with commas between them. -/
def list (rs : List EntryRow) : List Written :=
  [(Piece.symbol .comma).tight].intercalate (rs.map pieces)

theorem list_prints {rs : List EntryRow} (hne : rs ≠ []) :
    Written.Prints (list rs) (", ".intercalate (rs.map written)) :=
  .intercalate .comma rfl hne fun r _ => r.pieces_prints

end EntryRow

/-- The body with rows recorded that are written behind the text `before`. -/
def Body.inserting (before : List Char) (rs : List EntryRow) (b : Body InsertClauses) :
    Body InsertClauses :=
  { b with
    parameters := b.parameters + EntryRow.count rs
    clauses := { b.clauses with
      rows := b.clauses.rows ++ EntryRow.insertedAll b.clauses.columns b.parameters rs
      rowsStop := some (byteLength (before ++ Written.layout (EntryRow.list rs))) } }

namespace Written

open SqlRouting.Parser SqlRouting.Grammar

variable {before : List Char} {ws : List Written} {body : Body InsertClauses}

/-- Entries with commas between them are read one by one. -/
theorem run_entries {es : List Entry} (hne : es ≠ []) :
    commaSeparated operand (standing before
        (flush (Entry.list es) ++ (Piece.symbol .rightParen).tight :: ws) body) =
      .ok (Entry.expressions body.parameters es)
        (standing (before ++ layout (flush (Entry.list es)))
          ((Piece.symbol .rightParen).tight :: ws) (body.counted (Entry.count es))) := by
  have hend : (nextKind ((Piece.symbol .rightParen).tight :: ws)).endsOperand = true := rfl
  have hcomma : nextKind ((Piece.symbol .rightParen).tight :: ws) ≠ .symbol .comma := by
    simp [Piece.kind]
  have hread := run_listed before body hne (fun e => e.pieces_prints.ne_nil)
    (fun e => ⟨Entry.readsAs (.inl rfl), Entry.readsAs (.inr rfl)⟩) hend hcomma
  have hexpressions (index : Nat) (es : List Entry) :
      expressions index (es.map fun e => (e.pieces, (e.expression ·))) =
        Entry.expressions index es := by
    induction es generalizing index with
    | nil => rfl
    | cons e es ih => simp [expressions, Entry.expressions, e.questions_pieces, ih]
  rwa [hexpressions, ← Entry.list, Entry.questions_list] at hread

/-- A row is read and recorded if it has as many entries as there are columns; otherwise it is
    refused. -/
theorem run_insertRow (before : List Char) (ws : List Written) {r : EntryRow}
    (hne : r.entries ≠ []) (hcolumns : body.clauses.columns ≠ [])
    (hnodup : body.clauses.columns.Nodup) :
    insertRow .VALUES (standing before (r.pieces ++ ws) body) =
      if r.entries.length = body.clauses.columns.length then
        .ok () (standing (before ++ layout r.pieces) ws (body.inserting before [r]))
      else
        .error (.unsupported .rowLength)
          (standing (before ++ layout r.pieces) ws (body.counted r.questions)) := by
  have hpieces : r.pieces ++ ws = (Piece.symbol .leftParen).spaced ::
      (flush (Entry.list r.entries) ++ (Piece.symbol .rightParen).tight :: ws) := by
    simp [EntryRow.pieces]
  have hbehind : before ++ (Piece.symbol .leftParen).spaced.text ++
      layout (flush (Entry.list r.entries)) ++ (Piece.symbol .rightParen).tight.text =
        before ++ layout r.pieces := by
    simp [EntryRow.pieces]
  have hslice := run_slice_pieces before r.pieces ws (body.counted r.questions)
  rw [r.pieces_prints.layout_flush, String.ofList_toList] at hslice
  have hlength : (!body.clauses.columns.isEmpty && decide (body.clauses.columns.length ≠
      (Entry.expressions body.parameters r.entries).length)) =
        !decide (r.entries.length = body.clauses.columns.length) := by
    simp [Entry.length_expressions, List.isEmpty_eq_false_iff.2 hcolumns, eq_comm]
  have hposition : position before ((Piece.symbol .leftParen).spaced ::
      (flush (Entry.list r.entries) ++ (Piece.symbol .rightParen).tight :: ws)) =
        position before r.pieces := rfl
  have hquestions : Entry.count r.entries = r.questions := rfl
  simp only [insertRow, hpieces, run_bind, run_current, run_routing, run_accept, Piece.kind_symbol,
    run_entries hne, run_clauses, current_start, current_stop, hbehind, standing_body,
    Body.clauses_counted, hlength, hposition, hquestions]
  by_cases h : r.entries.length = body.clauses.columns.length
  · simp only [h, decide_true, Bool.not_true, Bool.false_eq_true, if_false, if_true, run_bind,
      hslice, run_placeholdersSince, addRow, run_modifyClauses, setRowsStop,
      rowConditions_entries hnodup]
    simp [Body.inserting, Body.counted, EntryRow.count, EntryRow.insertedAll, EntryRow.inserted,
      EntryRow.list]
  · simp only [h, decide_false, Bool.not_false, if_true, if_false, run_bind, run_throw]

/-- A row without entries takes its closing parenthesis, and all rows behind it, for entries. -/
theorem run_insertRow_nil (before : List Char) (body : Body InsertClauses) (rs : List EntryRow) :
    ∃ s, insertRow .VALUES (standing before (EntryRow.list (⟨[]⟩ :: rs)) body) =
      .error (.unmatchedToken (.symbol .rightParen) .endOfText "") s := by
  have hlist : EntryRow.list (⟨[]⟩ :: rs) = (Piece.symbol .leftParen).spaced ::
      [(Piece.symbol .comma).tight].intercalate
        ([(Piece.symbol .rightParen).tight] :: rs.map EntryRow.pieces) := by
    have hnil : EntryRow.pieces ⟨[]⟩ =
        [(Piece.symbol .leftParen).spaced, (Piece.symbol .rightParen).tight] := rfl
    cases rs <;> simp [EntryRow.list, hnil, List.intercalate_cons_cons]
  have hparts : ∀ part ∈ ([(Piece.symbol .rightParen).tight],
      (Piece.expression · (.symbol .rightParen))) :: rs.map fun r => (r.pieces, fun _ =>
        .other (String.ofList (layout (flush r.pieces)))), ReadsAs part.1 part.2 := by
    intro part hpart
    rw [List.mem_cons, List.mem_map] at hpart
    rcases hpart with rfl | ⟨r, -, rfl⟩
    · exact readsAs_lone rfl
    · exact r.readsAs
  have hlast : (nextKind []).endsOperand = true ∧ nextKind [] ≠ .symbol .comma := by decide
  have hread (before : List Char) := run_operands before body (σ := (Piece.symbol .comma).tight)
    rfl (List.cons_ne_nil _ _) hparts hlast.1 hlast.2
  simp only [List.map_cons, List.map_map, Function.comp_def, List.append_nil] at hread
  have hclosing : TokenKind.symbol .rightParen ≠ .endOfText := by decide
  rw [hlist]
  simp only [insertRow, run_bind, run_current, run_routing, run_accept, Piece.kind_symbol, hread,
    run_accept_end _ _ hclosing]
  exact ⟨_, rfl⟩

/-- Rows of the right length are read one by one. -/
theorem run_rows (before : List Char) (body : Body InsertClauses) {columns : List Column}
    {rs : List EntryRow} (hne : rs ≠ []) (hcolumns : columns ≠ []) (hnodup : columns.Nodup)
    (hlength : ∀ r ∈ rs, r.entries.length = columns.length)
    (hbody : body.clauses.columns = columns) :
    commaSeparated (insertRow .VALUES) (standing before (EntryRow.list rs) body) =
      .ok (rs.map fun _ => ())
        (standing (before ++ layout (EntryRow.list rs)) [] (body.inserting before rs)) := by
  have hread := run_separatedBy before [] body [Symbol.comma] (insertRow .VALUES)
    (Piece.symbol .comma).tight EntryRow.pieces (fun before rs b => b.inserting before rs)
    (fun b => b.clauses.columns = columns) hne (by simp [Piece.kind]) (by simp) ?_ ?_ hbody
  · simpa [commaSeparated, skipSymbol, EntryRow.list] using hread
  · intro before r r' rs b
    simp [Body.inserting, EntryRow.count, EntryRow.insertedAll, EntryRow.list,
      List.intercalate_cons_cons, Nat.add_assoc]
  · intro r hr before vs b hb hvs
    have hr := hlength r hr
    have hentries : r.entries ≠ [] := by
      intro h
      exact hcolumns (List.eq_nil_of_length_eq_zero (by rw [← hr, h, List.length_nil]))
    refine ⟨?_, hb⟩
    rw [run_insertRow _ _ hentries (hb ▸ hcolumns) (hb ▸ hnodup), if_pos (by rw [hr, hb])]

/-- A row of the wrong length is refused. -/
theorem run_rows_fault (before : List Char) (body : Body InsertClauses) {columns : List Column}
    {rs : List EntryRow} {e : ParseError}
    (hcolumns : columns ≠ []) (hnodup : columns.Nodup)
    (hfault : EntryRow.fault? columns.length rs = some e) (hbody : body.clauses.columns = columns) :
    ∃ s, commaSeparated (insertRow .VALUES) (standing before (EntryRow.list rs) body) =
      .error e s := by
  refine Refuses.separatedBy ?_
  induction rs generalizing before body with
  | nil => simp [EntryRow.fault?] at hfault
  | cons r rs ih =>
    by_cases hr : r.entries.length = columns.length
    · -- This row is read, and the one refused is among the others.
      have hne : r.entries ≠ [] := by
        intro h
        exact hcolumns (List.eq_nil_of_length_eq_zero (by rw [← hr, h, List.length_nil]))
      have hfault : EntryRow.fault? columns.length rs = some e := by
        simpa [EntryRow.fault?, hr] using hfault
      obtain ⟨r', rs, rfl⟩ : ∃ r' rs', rs = r' :: rs' := by
        refine List.exists_cons_of_ne_nil ?_
        rintro rfl
        simp [EntryRow.fault?] at hfault
      have hrow := run_insertRow before
        ((Piece.symbol .comma).tight :: EntryRow.list (r' :: rs)) hne (hbody ▸ hcolumns)
        (hbody ▸ hnodup)
      rw [if_pos (by rw [hr, hbody])] at hrow
      have hlist : EntryRow.list (r :: r' :: rs) =
          r.pieces ++ (Piece.symbol .comma).tight :: EntryRow.list (r' :: rs) := by
        simp [EntryRow.list, List.intercalate_cons_cons]
      rw [hlist]
      refine .more hrow (run_skipSymbol (Piece.kind_symbol _)) (by simp; omega)
        (ih _ _ hfault ?_)
      exact hbody
    · rw [EntryRow.fault?, List.find?_cons_of_pos (by simpa using hr), Option.map_some,
        Option.some.injEq] at hfault
      subst hfault
      obtain ⟨ws, hlist⟩ : ∃ ws, EntryRow.list (r :: rs) = r.pieces ++ ws := by
        cases rs with
        | nil => exact ⟨[], by simp [EntryRow.list]⟩
        | cons r' rs => exact ⟨_, by rw [EntryRow.list, List.map_cons, List.map_cons,
            List.intercalate_cons_cons, List.append_assoc]⟩
      by_cases hnil : r.entries = []
      · obtain ⟨entries⟩ := r
        obtain rfl : entries = [] := hnil
        obtain ⟨s, hs⟩ := run_insertRow_nil before body rs
        exact .item hs
      · have hrow := run_insertRow before ws hnil (hbody ▸ hcolumns) (hbody ▸ hnodup)
        rw [if_neg (by rwa [hbody])] at hrow
        rw [hlist, if_neg (by simpa using hnil)]
        exact .item hrow

end Written

/-! ## Inserts -/

/-- An insert of rows into columns of a table. -/
structure TableInsert where
  table : Word
  columns : List Word
  rows : List EntryRow
  columns_ne_nil : columns ≠ [] := by simp
  columns_nodup : columns.Nodup := by decide
  rows_ne_nil : rows ≠ [] := by simp

namespace TableInsert

variable (i : TableInsert)

/-- The insert up to its last column. -/
def upToColumns : String :=
  "INSERT INTO " ++ i.table.text ++ " (" ++ ", ".intercalate (i.columns.map Word.text)

/-- The insert up to its rows. -/
def upToRows : String :=
  i.upToColumns ++ ") VALUES "

/-- The insert as it is written. -/
def written : String :=
  i.upToRows ++ ", ".intercalate (i.rows.map EntryRow.written)

/-- The columns as those of the table. -/
def tableColumns : List Column :=
  i.columns.map fun c => ⟨c.text, some i.table.text⟩

/-- What is parsed if every row has an entry for every column. -/
def body : Body InsertClauses where
  tables := ⟨[⟨i.table.text, none⟩]⟩
  conditions := ⟨i.rows.head?.toList.flatMap fun r => Entry.conditions 0 i.tableColumns r.entries⟩
  marks :=
    [.table 12 i.table.text, .insertValues (byteLength i.upToRows.toList) i.table.text]
  parameters := EntryRow.count i.rows
  clauses := {
    columns := i.tableColumns
    rows := EntryRow.insertedAll i.tableColumns 0 i.rows
    columnsStop := some (byteLength i.upToColumns.toList)
    rowsStop := some (byteLength i.written.toList) }

/-- The pieces of the column list without its parentheses. -/
def columnPieces : List Written :=
  [(Piece.symbol .comma).tight].intercalate (i.columns.map fun c => [(Piece.name c).spaced])

/-- The pieces before the rows. -/
def head : List Written :=
  (Piece.keyword .INSERT).spaced :: (Piece.keyword .INTO).spaced :: (Piece.name i.table).spaced ::
    ((Piece.symbol .leftParen).spaced ::
      (Written.flush i.columnPieces ++ [(Piece.symbol .rightParen).tight]) ++
        [(Piece.keyword .VALUES).spaced])

theorem columnPieces_prints :
    Written.Prints i.columnPieces (", ".intercalate (i.columns.map Word.text)) :=
  .intercalate .comma rfl i.columns_ne_nil fun c _ => .name c

theorem pieces_prints : Written.Prints (i.head ++ EntryRow.list i.rows) i.written := by
  refine ((Written.Prints.keyword .INSERT (by decide)).cons ((Written.Prints.keyword .INTO
    (by decide)).cons ((Written.Prints.name i.table).cons ((Written.Prints.group
      i.columnPieces_prints).append (.keyword .VALUES (by decide)))))).append
        (EntryRow.list_prints i.rows_ne_nil) |>.of_eq ?_
  simp [written, upToRows, upToColumns, Keyword.text]

open Written SqlRouting.Parser SqlRouting.Grammar

/-- What is known once the table has been read. -/
def tableBody : Body InsertClauses :=
  { (Body.empty : Body InsertClauses) with
    tables := ⟨[⟨i.table.text, none⟩]⟩
    marks := [.table 12 i.table.text] }

/-- What is known once the columns have been read. -/
def columnsBody : Body InsertClauses :=
  { i.tableBody with
    clauses := {
      columns := i.tableColumns
      columnsStop := some (byteLength i.upToColumns.toList) } }

/-- What is known before the rows. -/
def headBody : Body InsertClauses :=
  { i.columnsBody with
    marks := [.table 12 i.table.text, .insertValues (byteLength i.upToRows.toList) i.table.text] }

/-- The table is read. -/
theorem run_insertInto {ws : List Written} (hws : nextKind ws = .symbol .leftParen) :
    insertInto (standing "INSERT".toList
        ((Piece.keyword .INTO).spaced :: (Piece.name i.table).spaced :: ws) Body.empty) =
      .ok () (standing ("INSERT INTO ".toList ++ i.table.text.toList) ws i.tableBody) := by
  have hloop (before : List Char) : loop (do
      if ← skipKeyword Dialect.mySql.skippedBeforeValues then
        let _ ← skipParentheses
        return true
      else return false) (standing before ws i.tableBody) =
        .ok () (standing before ws i.tableBody) := by
    refine run_loop_none ?_
    simp +decide only [run_bind, run_skipKeyword_none, hws, if_false, run_pure]
  simp +decide only [insertInto, run_bind, run_dialect, cursor_dialect, run_skipAll_none,
    nextKind_cons, Piece.kind_keyword, run_accept,
    run_tableName (w := (Piece.name i.table).spaced) rfl, hws,
    run_recordTable (w := (Piece.name i.table).spaced) (x := i.table) rfl]
  exact (hloop _).trans (by simp [Piece.spelling, Keyword.text])

/-- The columns are read one by one. -/
theorem run_columns {before : List Char} {ws : List Written} :
    commaSeparated (do
        if !(← Parser.cursor).isName then unexpected
        addColumn ⟨Text.unquoted (← current).literal, some i.table.text⟩
        advance)
      (standing before
        (Written.flush i.columnPieces ++ (Piece.symbol .rightParen).tight :: ws) i.tableBody) =
      .ok (i.columns.map fun _ => ())
        (standing (before ++ layout (Written.flush i.columnPieces))
          ((Piece.symbol .rightParen).tight :: ws)
          { i.tableBody with clauses := { columns := i.tableColumns } }) := by
  obtain ⟨ps, hps, hflush⟩ : ∃ ps : List (Bool × Word), ps.map Prod.snd = i.columns ∧
      Written.flush i.columnPieces = [(Piece.symbol .comma).tight].intercalate
        (ps.map fun p => [⟨p.1, .name p.2⟩]) := by
    obtain ⟨c, cs, hcs⟩ := List.exists_cons_of_ne_nil i.columns_ne_nil
    refine ⟨(false, c) :: cs.map fun c => (true, c), by simp [hcs, Function.comp_def], ?_⟩
    rw [columnPieces, hcs, List.map_cons, flush_intercalate (by simp), List.map_cons, List.map_map]
    rfl
  have hne : ps ≠ [] := by
    rintro rfl
    exact i.columns_ne_nil hps.symm
  have hread := run_separatedBy before ((Piece.symbol .rightParen).tight :: ws) i.tableBody
    [Symbol.comma]
    (do
      if !(← Parser.cursor).isName then unexpected
      addColumn ⟨Text.unquoted (← current).literal, some i.table.text⟩
      advance)
    (Piece.symbol .comma).tight (fun p => [⟨p.1, .name p.2⟩])
    (fun _ ps b => { b with clauses := { b.clauses with
      columns := b.clauses.columns ++
        (ps.map Prod.snd).map fun c => ⟨c.text, some i.table.text⟩ } })
    (fun _ => True) hne (by simp [Piece.kind]) (by simp [Piece.kind]) (by simp) ?_ trivial
  · have hunits : (ps.map fun _ => ()) = i.columns.map fun _ => () := by
      rw [← hps, List.map_map]
    rw [commaSeparated, skipSymbol, hflush, hread, hps, hunits]
    rfl
  · rintro ⟨spaced, c⟩ - before vs b - -
    simp +decide only [List.singleton_append, run_bind, run_cursor, isName_standing, nextKind_cons,
      Piece.kind_name, if_false, addColumn, run_current, current_literal, Piece.literal,
      Word.unquoted_text, run_modifyClauses, run_advance]
    simp

/-- The column list is read. -/
theorem run_insertColumns {ws : List Written} :
    insertColumns (standing ("INSERT INTO ".toList ++ i.table.text.toList)
        ((Piece.symbol .leftParen).spaced :: (Written.flush i.columnPieces ++
          (Piece.symbol .rightParen).tight :: ws)) i.tableBody) =
      .ok () (standing (i.upToColumns ++ ")").toList ws i.columnsBody) := by
  have htable : i.tableBody.toRouting.tables.firstName? = some i.table.text := rfl
  have htext : "INSERT INTO ".toList ++ i.table.text.toList ++
      (Piece.symbol .leftParen).spaced.text ++ layout (Written.flush i.columnPieces) =
        i.upToColumns.toList := by
    simp [i.columnPieces_prints.layout_flush, upToColumns, Piece.spelling, Symbol.text]
  simp only [insertColumns, run_bind, run_skipSymbol, Piece.kind_symbol, if_true, insertTable,
    run_routing, run_pure, standing_body, htable, run_columns, htext, run_current, run_accept,
    run_modifyClauses, current_start]
  simp [columnsBody, Piece.spelling, Symbol.text, blank]

/-- The place of the rows is marked. -/
theorem run_markRows :
    markRows (standing (i.upToColumns ++ ") VALUES").toList (EntryRow.list i.rows) i.columnsBody) =
      .ok () (standing (i.upToColumns ++ ") VALUES").toList (EntryRow.list i.rows) i.headBody) := by
  have hposition : position (i.upToColumns ++ ") VALUES").toList (EntryRow.list i.rows) =
      byteLength i.upToRows.toList := by
    rw [position, (EntryRow.list_prints i.rows_ne_nil).lead_eq]
    simp [upToRows]
  have hle : 12 ≤ byteLength i.upToRows.toList := by
    have hinto : byteLength "INSERT INTO ".toList = 12 := rfl
    simp only [upToRows, upToColumns, String.toList_append, Text.byteLength_append, hinto]
    omega
  have hinsert : (Mark.insertValues (byteLength i.upToRows.toList) i.table.text).insert
      i.columnsBody.marks = i.headBody.marks := by
    change _ = [Mark.table 12 i.table.text] ++ Mark.insertValues _ _ :: []
    rw [← Mark.insert_append (by simpa [Mark.start] using hle) (List.forall_mem_nil _)]
    rfl
  have htable : i.columnsBody.tables.firstName? = some i.table.text := rfl
  simp only [markRows, run_bind, run_current, current_start, hposition, insertTable, run_routing,
    standing_body, htable, run_pure, Option.getD_some, run_addMark, hinsert]
  rfl

/-- Up to the rows nothing can go wrong. -/
theorem run_insertValues_head :
    insertValues (standing (i.upToColumns ++ ")").toList
        ((Piece.keyword .VALUES).spaced :: EntryRow.list i.rows) i.columnsBody) =
      (do
        let _ ← commaSeparated (insertRow .VALUES)
        adoptFirstRow)
        (standing (i.upToColumns ++ ") VALUES").toList (EntryRow.list i.rows) i.headBody) := by
  have htext : (i.upToColumns ++ ")").toList ++ (Piece.keyword .VALUES).spaced.text =
      (i.upToColumns ++ ") VALUES").toList := by
    simp [Piece.spelling, Keyword.text]
  simp +decide only [insertValues, run_bind, run_current, current_kind, nextKind_cons,
    Piece.kind_keyword, run_dialect, cursor_dialect, if_true, run_advance, htext, run_markRows]

theorem tableColumns_ne_nil : i.tableColumns ≠ [] := by
  simpa [tableColumns] using i.columns_ne_nil

theorem tableColumns_nodup : i.tableColumns.Nodup := by
  refine List.pairwise_map.2 (i.columns_nodup.imp fun hne h => hne (Word.text_injective ?_))
  exact congrArg Column.name h

theorem written_eq : (i.upToColumns ++ ") VALUES").toList ++ layout (EntryRow.list i.rows) =
    i.written.toList := by
  rw [(EntryRow.list_prints i.rows_ne_nil).layout_eq]
  simp [written, upToRows]

/-- The rows add all but the conditions. -/
theorem inserting_rows :
    i.headBody.inserting (i.upToColumns ++ ") VALUES").toList i.rows =
      { i.body with conditions := {} } := by
  rw [Body.inserting, written_eq]
  simp [headBody, columnsBody, tableBody, body, Body.empty]

/-- The rows are read, and the conditions of the first are adopted. -/
theorem run_insertValues (h : EntryRow.fault? i.columns.length i.rows = none) :
    insertValues (standing (i.upToColumns ++ ")").toList
        ((Piece.keyword .VALUES).spaced :: EntryRow.list i.rows) i.columnsBody) =
      .ok () (standing i.written.toList [] i.body) := by
  have hlength : ∀ r ∈ i.rows, r.entries.length = i.tableColumns.length := by
    simpa [EntryRow.fault?, tableColumns] using h
  have hread := run_rows (i.upToColumns ++ ") VALUES").toList i.headBody i.rows_ne_nil
    i.tableColumns_ne_nil i.tableColumns_nodup hlength rfl
  obtain ⟨r, rs, hrs⟩ := List.exists_cons_of_ne_nil i.rows_ne_nil
  have hhead : i.body.clauses.rows.head? = some (r.inserted i.tableColumns 0) := by
    simp [body, hrs, EntryRow.insertedAll]
  rw [written_eq, inserting_rows] at hread
  simp only [run_insertValues_head, run_bind, hread, adoptFirstRow, run_clauses, standing_body,
    hhead, run_modifyRouting]
  simp [body, hrs, EntryRow.inserted]

/-- A row of the wrong length is refused. -/
theorem run_insertValues_fault {e : ParseError}
    (h : EntryRow.fault? i.columns.length i.rows = some e) :
    ∃ s, insertValues (standing (i.upToColumns ++ ")").toList
        ((Piece.keyword .VALUES).spaced :: EntryRow.list i.rows) i.columnsBody) =
      .error e s := by
  have hfault : EntryRow.fault? i.tableColumns.length i.rows = some e := by
    simpa [tableColumns] using h
  obtain ⟨s, hs⟩ := run_rows_fault (i.upToColumns ++ ") VALUES").toList i.headBody
    i.tableColumns_ne_nil i.tableColumns_nodup hfault rfl
  exact ⟨s, by simp only [run_insertValues_head, run_bind, hs]⟩

/-- Up to the rows nothing can go wrong: the outcome of the insert is that of its rows. -/
theorem run_insert_head :
    Grammar.insert (standing [] (flush (i.head ++ EntryRow.list i.rows)) Body.empty) =
      (do
        insertValues
        insertSet
        duplicateKeyUpdate
        skipRest)
        (standing (i.upToColumns ++ ")").toList
          ((Piece.keyword .VALUES).spaced :: EntryRow.list i.rows) i.columnsBody) := by
  have hflush : flush (i.head ++ EntryRow.list i.rows) = (Piece.keyword .INSERT).tight ::
      (Piece.keyword .INTO).spaced :: (Piece.name i.table).spaced ::
        (Piece.symbol .leftParen).spaced :: (flush i.columnPieces ++
          (Piece.symbol .rightParen).tight ::
            ((Piece.keyword .VALUES).spaced :: EntryRow.list i.rows)) := by
    simp [head]
  have hbefore : [] ++ (Piece.keyword .INSERT).tight.text = "INSERT".toList := rfl
  have hopens {ws : List Written} :
      nextKind ((Piece.symbol .leftParen).spaced :: ws) = .symbol .leftParen := Piece.kind_symbol _
  simp +decide only [hflush, Grammar.insert, run_bind, run_accept, Piece.kind_keyword, hbefore,
    i.run_insertInto hopens, run_insertColumns, run_cursor, isKeyword_standing, isSymbol_standing,
    nextKind_cons, if_false]

/-- The whole text is read. -/
theorem run_insert (h : EntryRow.fault? i.columns.length i.rows = none) :
    Grammar.insert (standing [] (flush (i.head ++ EntryRow.list i.rows)) Body.empty) =
      .ok () (standing i.written.toList [] i.body) := by
  rw [run_insert_head]
  simp +decide only [run_bind, i.run_insertValues h, insertSet, duplicateKeyUpdate, run_dialect,
    cursor_dialect, run_skipKeyword_none, nextKind_nil, if_false, run_pure, run_skipRest_none]

/-- A row of the wrong length is refused. -/
theorem run_insert_fault {e : ParseError} (h : EntryRow.fault? i.columns.length i.rows = some e) :
    ∃ s, Grammar.insert (standing [] (flush (i.head ++ EntryRow.list i.rows)) Body.empty) =
      .error e s := by
  obtain ⟨s, hs⟩ := i.run_insertValues_fault h
  exact ⟨s, by simp only [run_insert_head, run_bind, hs]⟩

end TableInsert

/-- An insert is parsed to what is written in it, or refused for its first row that has not as many
    entries as there are columns. -/
theorem parse_table_insert (i : TableInsert) :
    Statement.parse .mySql .mySql i.written =
      match EntryRow.fault? i.columns.length i.rows with
      | none => .ok (.insert i.body)
      | some e => .error e := by
  rw [Written.parse_eq Grammar.insert .insert i.pieces_prints rfl]
  cases h : EntryRow.fault? i.columns.length i.rows with
  | none =>
    rw [i.run_insert h]
    rfl
  | some e =>
    obtain ⟨s, hs⟩ := i.run_insert_fault h
    rw [hs]

/-- An insert of rows into two columns. -/
def TableInsert.ofRows (rows : List EntryRow) (rows_ne_nil : rows ≠ []) : TableInsert where
  table := { text := "prices" }
  columns := [{ text := "item" }, { text := "price" }]
  rows
  rows_ne_nil

theorem parse_table_insert_rows :
    Statement.parse .mySql .mySql
        "INSERT INTO prices (item, price) VALUES (?, round(abs(?), 2)), ('ä', ?)" = .ok (.insert {
      tables := ⟨[⟨"prices", none⟩]⟩
      conditions := ⟨[⟨⟨"item", some "prices"⟩, .equal, [.placeholder 0]⟩]⟩
      marks := [.table 12 "prices", .insertValues 40 "prices"]
      parameters := 3
      clauses := {
        columns := [⟨"item", some "prices"⟩, ⟨"price", some "prices"⟩]
        rows := [
          ⟨.VALUES, "(?, round(abs(?), 2))", 2,
            ⟨[⟨⟨"item", some "prices"⟩, .equal, [.placeholder 0]⟩]⟩⟩,
          ⟨.VALUES, "('ä', ?)", 1,
            ⟨[⟨⟨"item", some "prices"⟩, .equal, [.text "ä"]⟩,
              ⟨⟨"price", some "prices"⟩, .equal, [.placeholder 2]⟩]⟩⟩]
        columnsStop := some 31
        rowsStop := some 72 } }) ∧
    Statement.parse .mySql .mySql "INSERT INTO prices (item, price) VALUES (1, ?), (2)" =
      .error (.unsupported .rowLength) := by
  constructor
  · have h := parse_table_insert (.ofRows [
      ⟨[.value .placeholder, .call { text := "round" }
        (.more (.call { text := "abs" } (.one (.value .placeholder)))
          (.one (.value (.integer 2 (by decide)))))]⟩,
      ⟨[.value (.text { quote := '\'', content := "ä" }), .value .placeholder]⟩]
        (List.cons_ne_nil _ _))
    refine Eq.trans ?_ (h.trans ?_)
    · exact congrArg (Statement.parse .mySql .mySql) (by decide +kernel)
    · decide +kernel
  · have h := parse_table_insert (.ofRows [
      ⟨[.value (.integer 1 (by decide)), .value .placeholder]⟩,
      ⟨[.value (.integer 2 (by decide))]⟩] (List.cons_ne_nil _ _))
    refine Eq.trans ?_ (h.trans ?_)
    · exact congrArg (Statement.parse .mySql .mySql) (by decide +kernel)
    · decide +kernel

end SqlRouting
