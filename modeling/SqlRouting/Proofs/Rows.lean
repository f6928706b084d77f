import Mathlib.Algebra.GroupWithZero.Nat
import SqlRouting.Proofs.Resolved

/-!
# Rows

An insert tells of each of its rows how many placeholders it has, and whoever splits the insert
splits its parameters by these numbers. So the numbers have to fit the indices: the rows take
consecutive stretches of the parameters, each as long as its row has placeholders, and the indices
that occur in the conditions of a row lie in its stretch. No parameter belongs to two rows
(`parse_rows`).

A row is recorded with the difference of two values of a counter that runs through the whole
statement. Between two rows there is nothing that could be counted, whether they are given by
`VALUES` or by `SET`, so while the rows are read, the last stretch ends where the counter stands
(`Partitioned`). What follows the rows only counts further.
-/

namespace SqlRouting

/-! ## Stretches -/

/-- The indices of the placeholders in the conditions. -/
def Conditions.indices (cs : Conditions) : List Nat :=
  cs.toList.flatMap Condition.indices

/-- The numbers of placeholders in the rows of an insert. -/
def InsertClauses.counts (i : InsertClauses) : List Nat :=
  i.rows.map InsertedRow.parameters

/-- The conditions of the rows of an insert. -/
def InsertClauses.rowConditions (i : InsertClauses) : List Conditions :=
  i.rows.map InsertedRow.conditions

/-- The indices that a row may use if `low` placeholders are counted before it. -/
def InsertedRow.InStretch (low : Nat) (row : InsertedRow) : Prop :=
  ∀ i ∈ row.conditions.indices, low ≤ i ∧ i < low + row.parameters

/-- The rows take consecutive stretches of the parameters, from `first` on and below `last`. -/
inductive Consecutive (first : Nat) : List InsertedRow → Nat → Prop
  | nil : Consecutive first [] first
  | snoc {rows last row} (h : Consecutive first rows last) (hrow : row.InStretch last) :
    Consecutive first (rows ++ [row]) (last + row.parameters)

namespace Consecutive

variable {first last : Nat} {rows : List InsertedRow} {row : InsertedRow}

theorem last_eq (h : Consecutive first rows last) :
    last = first + (rows.map InsertedRow.parameters).sum := by
  induction h with
  | nil => rfl
  | snoc _ _ ih => simp [ih, Nat.add_assoc]

/-- The stretch of a row starts behind those of the rows before it. -/
theorem inStretch (h : Consecutive first rows last) {n : Nat} (hn : rows[n]? = some row) :
    row.InStretch (first + ((rows.map InsertedRow.parameters).take n).sum) := by
  induction h with
  | nil => simp at hn
  | @snoc rows last new h hnew ih =>
    rcases Nat.lt_or_ge n rows.length with hlt | hge
    · rw [List.getElem?_append_left hlt] at hn
      rw [List.map_append, List.take_append_of_le_length (by simpa using Nat.le_of_lt hlt)]
      exact ih hn
    · obtain rfl : n = rows.length := by
        have := (List.getElem?_eq_some_iff.1 hn).1
        simp only [List.length_append, List.length_singleton] at this
        omega
      obtain rfl : new = row := by simpa using hn
      rw [List.map_append, List.take_append_of_le_length (by simp),
        List.take_of_length_le (by simp), ← h.last_eq]
      exact hnew

theorem lt_last (h : Consecutive first rows last) (hrow : row ∈ rows) {i : Nat}
    (hi : i ∈ row.conditions.indices) : i < last := by
  induction h with
  | nil => simp at hrow
  | snoc h hnew ih =>
    rcases List.mem_append.1 hrow with hrow | hrow
    · exact Nat.lt_add_right _ (ih hrow)
    · obtain rfl := List.mem_singleton.1 hrow
      exact (hnew i hi).2

/-- No two rows share a parameter. -/
theorem disjoint (h : Consecutive first rows last) :
    (rows.map InsertedRow.conditions).Pairwise fun cs cs' => ∀ i ∈ cs.indices, i ∉ cs'.indices := by
  refine List.pairwise_map.2 ?_
  induction h with
  | nil => exact .nil
  | snoc h hnew ih =>
    refine List.pairwise_append.2 ⟨ih, List.pairwise_singleton .., ?_⟩
    rintro row hrow new hmem i hi hi'
    obtain rfl := List.mem_singleton.1 hmem
    exact Nat.not_lt.2 (hnew i hi').1 (h.lt_last hrow hi)

end Consecutive

/-- A run that may not change the rows leaves them as they are. -/
theorem Run.rows_eq {E : Scope InsertClauses} {stream : List Token}
    {s s' : ParseState InsertClauses} (h : Run E stream s s') (hs : s.On stream)
    (hE : ∀ t c c', E.clauses t c c' → c'.rows = c.rows) :
    s'.body.clauses.rows = s.body.clauses.rows := by
  refine h.rel (R := fun s s' => s'.body.clauses.rows = s.body.clauses.rows) (fun _ => rfl)
    ?_ ?_ hs
  · exact fun h₁ h₂ => h₂.trans h₁
  · intro s s' _ hmove
    cases hmove with
    | clauses h => exact hE _ _ _ h
    | _ => rfl

/-- The scope in which an insert keeps its rows. -/
def Scope.sameRows : Scope InsertClauses :=
  ⟨True, True, fun _ c c' => c'.rows = c.rows⟩

namespace Grammar

open SqlRouting.Parser

variable {stream : List Token} {s s₁ s' : ParseState InsertClauses} {first : Nat}

/-! ## The conditions of a row -/

/-- The conditions of a row have no indices but those of its values. -/
theorem mem_indices_of_rowConditions {row : List (Column × Expression)} {i : Nat}
    (hi : i ∈ (rowConditions row).indices) : i ∈ indices (row.map Prod.snd) := by
  obtain ⟨c, hc, hi⟩ := List.mem_flatMap.1 hi
  refine (Conditions.All.ofList (P := fun c => ∀ i ∈ c.indices, i ∈ indices (row.map Prod.snd))
    (fun c hc i hi => ?_)).all c hc i hi
  obtain ⟨⟨column, value⟩, hmem, hvalue⟩ := List.mem_filterMap.1 hc
  simp only [valueCondition?, Option.ite_none_right_eq_some, Option.some.injEq] at hvalue
  obtain ⟨_, rfl⟩ := hvalue
  have hsubset : [value] ⊆ row.map Prod.snd := by
    simpa using List.mem_map_of_mem (f := Prod.snd) hmem
  exact List.filterMap_subset _ hsubset hi

/-! ## Adding rows -/

/-- A row has been added, for the placeholders that have been counted. -/
def AddsRow (s s' : ParseState InsertClauses) : Prop :=
  ∃ row, s'.body.clauses.rows = s.body.clauses.rows ++ [row] ∧
    s'.body.parameters = s.body.parameters + row.parameters ∧ row.InStretch s.body.parameters

/-- The rows take all parameters from `first` on. -/
def Partitioned (first : Nat) (s : ParseState InsertClauses) : Prop :=
  Consecutive first s.body.clauses.rows s.body.parameters

theorem Partitioned.addsRow (h : AddsRow s s') (hpart : Partitioned first s) :
    Partitioned first s' := by
  obtain ⟨row, hrows, hparameters, hrow⟩ := h
  rw [Partitioned, hrows, hparameters]
  exact hpart.snoc hrow

/-- What counts nothing and leaves the rows as they are keeps their stretches. -/
theorem partitioned_of_moves {α : Type} {p : Parser InsertClauses α} (hp : Moves Scope.sameRows p)
    (hcount : ∀ {s a s'}, p s = .ok a s' → s'.body.parameters = s.body.parameters) :
    Preserves (Partitioned first) p := by
  intro stream s a s' h hs
  refine ⟨(hp h).on hs, fun hpart => ?_⟩
  rw [Partitioned, (hp h).rows_eq hs fun _ _ _ => id, hcount h]
  exact hpart

/-- Moving the cursor counts nothing. -/
theorem parameters_of_advance {u : Unit} (h : advance s = .ok u s') :
    s'.body.parameters = s.body.parameters := by
  obtain ⟨c, _, rfl⟩ := advance_eq_ok.1 h
  rfl

theorem parameters_of_accept {kind : TokenKind} {u : Unit} (h : accept kind s = .ok u s') :
    s'.body.parameters = s.body.parameters :=
  parameters_of_advance (accept_eq_ok.1 h).2

theorem parameters_of_skipIf {kinds : List TokenKind} {found : Bool}
    (h : skipIf kinds s = .ok found s') : s'.body.parameters = s.body.parameters := by
  obtain ⟨_, h⟩ := skipIf_eq_ok.1 h
  cases found with
  | true => exact parameters_of_advance h
  | false => exact h ▸ rfl

theorem parameters_of_markRows {u : Unit} (h : markRows s = .ok u s') :
    s'.body.parameters = s.body.parameters := by
  simp only [markRows, insertTable, current_bind, routing_bind, bind_eq_ok, pure_eq_ok] at h
  obtain ⟨_, _, ⟨rfl, rfl⟩, h⟩ := h
  obtain rfl := addMark_eq_ok.1 h
  rfl

/-- A row that is recorded takes what has been counted since it started. -/
theorem addsRow_of_addRow {row : InsertedRow} {u : Unit} (h : addRow row s₁ = .ok u s')
    (hrows : s₁.body.clauses.rows = s.body.clauses.rows)
    (hparameters : s₁.body.parameters = s.body.parameters + row.parameters)
    (hrow : row.InStretch s.body.parameters) : AddsRow s s' := by
  obtain rfl := modifyClauses_eq_ok.1 h
  exact ⟨row, congrArg (· ++ [row]) hrows, hparameters, hrow⟩

theorem placeholdersSince_eq_ok {before count : Nat}
    (h : placeholdersSince before s = .ok count s') :
    s = s' ∧ s.body.parameters = before + count := by
  simp only [placeholdersSince, routing_bind, ite_eq_ok, pure_eq_ok, throw_eq_ok, and_false,
    or_false] at h
  obtain ⟨hle, rfl, rfl⟩ := h
  exact ⟨rfl, (Nat.add_sub_of_le hle).symm⟩

theorem insertRow_addsRow {keyword : Keyword} {u : Unit} (h : insertRow keyword s = .ok u s')
    (hs : s.On stream) : AddsRow s s' := by
  simp only [insertRow, current_bind, routing_bind, bind_eq_ok, ite_eq_ok, throw_eq_ok, false_and,
    and_false, exists_false, false_or] at h
  obtain ⟨_, s₁, hopen, values, s₂, hvalues, _, s₃, hclose, _, _, hclauses, _, text, s₄, hslice,
    count, s₅, hcount, _, s₆, hrow, hstop⟩ := h
  obtain ⟨rfl, rfl⟩ := pure_eq_ok.1 hclauses
  obtain ⟨_, rfl⟩ := slice_eq_ok.1 hslice
  obtain ⟨rfl, hsum⟩ := placeholdersSince_eq_ok hcount
  have hrun : Run Scope.sameRows stream s s₃ := ((accept_moves (by decide) hopen).trans
    (commaSeparated_moves operand_moves hvalues)).trans (accept_moves (by decide) hclose)
  have hs₁ := (accept_moves (E := Scope.sameRows) (by decide) hopen).on hs
  have hadds : AddsRow s s₆ := by
    refine addsRow_of_addRow hrow (hrun.rows_eq hs fun _ _ _ => id) hsum fun i hi => ?_
    -- Only the values that have a column are in conditions.
    have hi : i ∈ indices values := by
      refine List.filterMap_subset _ (fun value hvalue => ?_) (mem_indices_of_rowConditions hi)
      obtain ⟨entry, hentry, rfl⟩ := List.mem_map.1 hvalue
      exact (List.of_mem_zip hentry).2
    have hbounds := (operands_ascending hvalues hs₁).bounds i hi
    rwa [parameters_of_accept hopen, ← parameters_of_accept hclose, hsum] at hbounds
  obtain rfl := modifyClauses_eq_ok.1 hstop
  exact hadds

/-- The value of an assignment is a placeholder with a new index, or no placeholder. -/
theorem insertAssignment_ascending {table : Option String} {entry : Column × Expression}
    (h : insertAssignment table s = .ok entry s') (hs : s.On stream) :
    Ascending s.body.parameters s'.body.parameters (indices [entry.2]) := by
  simp only [insertAssignment, cursor_bind, bind_eq_ok, ite_eq_ok, pure_eq_ok, unexpected_eq_ok,
    false_and, and_false, exists_false, false_or] at h
  obtain ⟨_, target, s₁, htarget, column, s₂, hcolumn, _, s₃, hequal, value, s₄, hvalue, _, s₅,
    hadd, rfl, rfl⟩ := h
  have hrun : Run Scope.sameRows stream s s₃ := ((operand_moves htarget).trans
    (columnOfTable_moves _ _ hcolumn)).trans (accept_moves (by decide) hequal)
  obtain rfl := modifyClauses_eq_ok.1 hadd
  exact (operand_ascending hvalue (hrun.on hs)).mono (hrun.parameters_le hs) (Nat.le_refl _)

/-- A row of assignments is missing, or it is read behind its keyword and recorded, as the last
    row and with its conditions for those of the statement. -/
theorem insertSet_reads {u : Unit} (h : insertSet s = .ok u s') (hs : s.On stream) :
    s.cursor.isKeyword s.cursor.dialect.insertSet = false ∧ s = s' ∨
      ∃ (s₁ s₂ s₃ : ParseState InsertClauses) (row : List (Column × Expression)) (text : String)
        (count : Nat),
        advance s = .ok () s₁ ∧ markRows s₁ = .ok () s₂ ∧ Run Scope.sameRows stream s s₂ ∧
        commaSeparated (insertAssignment s₂.body.tables.firstName?) s₂ = .ok row s₃ ∧
        textSince s₁.cursor.current.start s₃ = .ok text s₃ ∧
        s₃.body.parameters = s₁.body.parameters + count ∧
        s' = { s₃ with body := { s₃.body with
          conditions := rowConditions row
          clauses := { s₃.body.clauses with
            rows := s.body.clauses.rows ++ [⟨.SET, text, count, rowConditions row⟩]
            rowsStop := some (s₁.cursor.current.start + Text.byteLength text.toList) } } } := by
  simp only [insertSet, dialect_bind, skipKeyword_then_eq_ok, current_bind, routing_bind] at h
  rcases h with hmissing | ⟨hkeyword, s₁, hadvance, h⟩
  · exact .inl hmissing
  simp only [bind_eq_ok] at h
  obtain ⟨_, s₂, hmark, table, _, htable, row, s₃, hrow, text, _, htext, _, s₅, hstop, count, _,
    hcount, _, s₆, hadd, hmodify⟩ := h
  obtain ⟨rfl, rfl⟩ := pure_eq_ok.1 htable
  have hmarked : Run Scope.sameRows stream s s₂ := by
    obtain ⟨k, hkind⟩ := Cursor.exists_of_isKeyword hkeyword
    exact (advance_run hadvance (by simp [hkind])).trans (markRows_moves hmark)
  have hlist : Run Scope.sameRows stream s₂ s₃ :=
    commaSeparated_moves (insertAssignment_moves (fun _ _ _ => id) _) hrow
  obtain rfl := eq_of_textSince htext
  obtain rfl := modifyClauses_eq_ok.1 hstop
  obtain ⟨rfl, hsum⟩ := placeholdersSince_eq_ok hcount
  obtain rfl := modifyClauses_eq_ok.1 hadd
  obtain rfl := modifyRouting_eq_ok.1 hmodify
  refine .inr ⟨s₁, s₂, s₃, row, text, count, hadvance, hmark, hmarked, hrow, htext, hsum, ?_⟩
  rw [← (hmarked.trans hlist).rows_eq hs fun _ _ _ => id]

/-- A row of assignments is missing, or it is added. -/
theorem insertSet_eq_ok {u : Unit} (h : insertSet s = .ok u s') (hs : s.On stream) :
    s = s' ∨ AddsRow s s' := by
  rcases insertSet_reads h hs with ⟨_, rfl⟩ |
    ⟨s₁, s₂, s₃, row, text, count, hadvance, hmark, hmarked, hrow, _, hsum, rfl⟩
  · exact .inl rfl
  have hsum : s₃.body.parameters = s.body.parameters + count :=
    parameters_of_advance hadvance ▸ hsum
  refine .inr ⟨⟨.SET, text, count, rowConditions row⟩, rfl, hsum, fun i hi => ?_⟩
  have hbounds := (commaSeparated_ascending
    (insertAssignment_moves (E := Scope.sameRows) (fun _ _ _ => id) _)
    insertAssignment_ascending hrow (hmarked.on hs)).bounds i (mem_indices_of_rowConditions hi)
  rwa [hsum, parameters_of_markRows hmark, parameters_of_advance hadvance] at hbounds

/-! ## The rows of an insert -/

theorem insertRow_partitioned (keyword : Keyword) :
    Preserves (Partitioned first) (insertRow keyword) := fun _ _ _ _ h hs =>
  ⟨(insertRow_moves (E := Scope.all _) (fun _ _ _ => trivial) keyword h).on hs,
    .addsRow (insertRow_addsRow h hs)⟩

theorem insertSet_partitioned : Preserves (Partitioned first) insertSet := by
  intro stream s u s' h hs
  refine ⟨(insertSet_moves (E := Scope.all _) (fun _ _ _ => trivial) trivial h).on hs, ?_⟩
  rcases insertSet_eq_ok h hs with rfl | hadds
  · exact id
  · exact .addsRow hadds

theorem adoptFirstRow_partitioned : Preserves (Partitioned first) adoptFirstRow := by
  refine partitioned_of_moves (adoptFirstRow_moves trivial) fun {s u s'} h => ?_
  obtain ⟨i, _, hclauses, h⟩ := bind_eq_ok.1 h
  obtain ⟨rfl, rfl⟩ := pure_eq_ok.1 hclauses
  cases hrow : s.body.clauses.rows.head? with
  | none =>
    rw [hrow] at h
    exact (pure_eq_ok.1 h).2 ▸ rfl
  | some row =>
    rw [hrow] at h
    obtain rfl := modifyRouting_eq_ok.1 h
    rfl

theorem insertValues_partitioned : Preserves (Partitioned first) insertValues := by
  intro stream s u s' h hs
  simp only [insertValues, current_bind] at h
  generalize hkind : s.cursor.current.kind = kind at h
  split at h
  case h_2 =>
    obtain ⟨_, rfl⟩ := pure_eq_ok.1 h
    exact ⟨hs, id⟩
  case h_1 k =>
    simp only [dialect_bind, ite_eq_ok, pure_eq_ok] at h
    rcases h with ⟨_, h⟩ | ⟨_, _, rfl⟩
    · obtain ⟨_, s₁, hadvance, h⟩ := bind_eq_ok.1 h
      have hrun : Run Scope.sameRows stream s s₁ := advance_run hadvance (by simp [hkind])
      have hrows : Preserves (Partitioned first) (markRows >>= fun _ =>
          commaSeparated (insertRow k) >>= fun _ => adoptFirstRow) :=
        (partitioned_of_moves markRows_moves parameters_of_markRows).bind fun _ =>
          (Preserves.separatedBy (partitioned_of_moves (skipSymbol_moves (by decide))
            parameters_of_skipIf) (insertRow_partitioned k)).bind fun _ => adoptFirstRow_partitioned
      obtain ⟨hs', hkeeps⟩ := hrows h (hrun.on hs)
      refine ⟨hs', fun hpart => hkeeps ?_⟩
      rw [Partitioned, hrun.rows_eq hs fun _ _ _ => id, parameters_of_advance hadvance]
      exact hpart
    · exact ⟨hs, id⟩

/-- The rows of an insert take consecutive stretches of its parameters. -/
theorem insert_consecutive {c : Cursor} (hc : c.Closed) {s : ParseState InsertClauses}
    (h : insert (ParseState.start c) = .ok () s) :
    ∃ first last, Consecutive first s.body.clauses.rows last ∧ last ≤ s.body.parameters := by
  have hs := ParseState.On.start (κ := InsertClauses) hc
  simp only [insert, bind_eq_ok, cursor_bind, ite_eq_ok, throw_eq_ok, false_and, and_false,
    exists_false, false_or] at h
  obtain ⟨_, s₁, haccept, _, s₂, hinto, _, s₃, hcolumns, _, _, s₄, hvalues, _, s₅, hset, _, s₆,
    hupdate, hskip⟩ := h
  have hhead : Run Scope.sameRows c.tokens (ParseState.start c) s₃ :=
    ((accept_moves (by decide) haccept).trans (insertInto_moves trivial hinto)).trans
      (insertColumns_moves (fun _ _ _ => id) hcolumns)
  have hs₃ := hhead.on hs
  have hnone : s₃.body.clauses.rows = [] := hhead.rows_eq hs fun _ _ _ => id
  obtain ⟨hs₄, hvalues⟩ := insertValues_partitioned hvalues hs₃
  obtain ⟨hs₅, hset⟩ := insertSet_partitioned hset hs₄
  have hpart : Partitioned s₃.body.parameters s₅ := by
    refine hset (hvalues ?_)
    rw [Partitioned, hnone]
    exact .nil
  have htail : Run Scope.sameRows c.tokens s₅ s :=
    (duplicateKeyUpdate_moves (fun _ _ _ => id) hupdate).trans (skipRest_moves hskip)
  refine ⟨s₃.body.parameters, s₅.body.parameters, ?_, htail.parameters_le hs₅⟩
  rw [htail.rows_eq hs₅ fun _ _ _ => id]
  exact hpart

end Grammar

/-- *Rows partition the placeholders.* In every accepted insert there are as many counts of
    placeholders as there are conditions of rows. From some `first` on, every row takes as many
    parameters as its count says, one row behind the other, and none of them is above the number of
    parameters. The indices in the conditions of a row are among those that it takes, so that no two
    rows share one. -/
theorem parse_rows {database : Database} {d : Dialect} {text : String} {body : Body InsertClauses}
    (h : Statement.parse database d text = .ok (.insert body)) :
    let counts := body.clauses.counts
    let conditions := body.clauses.rowConditions
    conditions.length = counts.length ∧
    (∃ first, (∀ n cs count, conditions[n]? = some cs → counts[n]? = some count →
        ∀ i ∈ cs.indices, first + (counts.take n).sum ≤ i ∧
          i < first + (counts.take n).sum + count) ∧
      first + counts.sum ≤ body.parameters) ∧
    conditions.Pairwise fun cs cs' => ∀ i ∈ cs.indices, i ∉ cs'.indices := by
  obtain ⟨cursor, hc, hread⟩ := Statement.parse_eq_ok h
  obtain ⟨_, hclosed, _⟩ := Cursor.ofText_eq_ok hc
  cases hread with
  | insert _ hread =>
    obtain ⟨first, last, hrows, hle⟩ := Grammar.insert_consecutive hclosed hread
    refine ⟨by simp [InsertClauses.counts, InsertClauses.rowConditions], ⟨first, ?_, ?_⟩,
      hrows.disjoint⟩
    · intro n cs count hcs hcount
      simp only [InsertClauses.rowConditions, InsertClauses.counts, List.getElem?_map,
        Option.map_eq_some_iff] at hcs hcount
      obtain ⟨row, hn, rfl⟩ := hcs
      obtain ⟨row', hn', rfl⟩ := hcount
      obtain rfl := Option.some.inj (hn.symm.trans hn')
      exact hrows.inStretch hn
    · exact hrows.last_eq ▸ hle

/-- The rows of `VALUES` and the one of `SET` follow one another, behind a placeholder of the
    partition and before one of the update. -/
theorem parse_rows_values_set : ∃ body,
    Statement.parse .mySql .mySql ("INSERT INTO t PARTITION (?) (a, b) VALUES (?, f(?)), (?, ?) " ++
      "SET c = ? ON DUPLICATE KEY UPDATE a = ?") = .ok (.insert body) ∧
    body.clauses.counts = [2, 2, 1] ∧
    body.clauses.rowConditions.map Conditions.indices = [[1], [3, 4], [5]] ∧
    body.parameters = 7 ∧
    (∃ first, (∀ n cs count, body.clauses.rowConditions[n]? = some cs →
        body.clauses.counts[n]? = some count → ∀ i ∈ cs.indices,
          first + (body.clauses.counts.take n).sum ≤ i ∧
            i < first + (body.clauses.counts.take n).sum + count) ∧
      first + body.clauses.counts.sum ≤ body.parameters) ∧
    body.clauses.rowConditions.Pairwise fun cs cs' => ∀ i ∈ cs.indices, i ∉ cs'.indices := by
  have hmap : (Statement.parse .mySql .mySql
      ("INSERT INTO t PARTITION (?) (a, b) VALUES (?, f(?)), (?, ?) " ++
        "SET c = ? ON DUPLICATE KEY UPDATE a = ?")).map (fun s => (s.keyword,
          s.insertedRows.map InsertedRow.parameters,
          (s.insertedRows.map InsertedRow.conditions).map Conditions.indices,
          s.routing.parameters)) =
            .ok (.INSERT, [2, 2, 1], [[1], [3, 4], [5]], 7) := by decide +kernel
  obtain ⟨s, hparse, hs⟩ := Statement.exists_of_map hmap
  simp only [Prod.mk.injEq] at hs
  obtain ⟨hkeyword, hcounts, hindices, hparameters⟩ := hs
  cases s with
  | insert body =>
    obtain ⟨_, hstretches, hdisjoint⟩ := parse_rows hparse
    exact ⟨body, hparse, hcounts, hindices, hparameters, hstretches, hdisjoint⟩
  | _ => cases hkeyword

end SqlRouting
