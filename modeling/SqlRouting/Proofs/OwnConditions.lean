import SqlRouting.Proofs.Rows

/-!
# The conditions of an insert

Besides the conditions of its rows, an insert has conditions of its own, as every statement has:
those of one of its rows. Rows that are listed behind `VALUES` are read first, and the insert takes
the conditions of the first one. A row of assignments behind `SET` comes last, and the insert takes
its conditions, whatever it had before. Nothing else that an insert is read from records conditions,
so a text with both forms is the only one that gives an insert the conditions of a row that is not
its first (`parse_ownConditions`).
-/

namespace SqlRouting

/-- The conditions of a row; there are none if there is no row. -/
def Conditions.ofRow (row : Option InsertedRow) : Conditions :=
  (row.map InsertedRow.conditions).getD {}

namespace Grammar

open SqlRouting.Parser

variable {stream : List Token} {s s' : ParseState InsertClauses}

/-! ## The forms of rows -/

/-- Rows that start with one of the keywords are added behind those there are. -/
def Lists (keywords : List Keyword) (s s' : ParseState InsertClauses) : Prop :=
  ∃ added : List InsertedRow, s'.body.clauses.rows = s.body.clauses.rows ++ added ∧
    ∀ row ∈ added, row.keyword ∈ keywords

theorem Lists.refl {keywords : List Keyword} : Lists keywords s s :=
  ⟨[], by simp⟩

theorem Lists.trans {keywords : List Keyword} {s₁ : ParseState InsertClauses}
    (h : Lists keywords s s₁) (h' : Lists keywords s₁ s') : Lists keywords s s' := by
  obtain ⟨added, hrows, hadded⟩ := h
  obtain ⟨added', hrows', hadded'⟩ := h'
  refine ⟨added ++ added', by rw [hrows', hrows, List.append_assoc], fun row hrow => ?_⟩
  exact (List.mem_append.1 hrow).elim (hadded row) (hadded' row)

theorem Lists.mono {keyword : Keyword} {keywords : List Keyword} (h : Lists [keyword] s s')
    (hmem : keyword ∈ keywords) : Lists keywords s s' := by
  obtain ⟨added, hrows, hadded⟩ := h
  exact ⟨added, hrows, fun row hrow => List.mem_singleton.1 (hadded row hrow) ▸ hmem⟩

/-- What keeps the rows lists none. -/
theorem Lists.of_run {keywords : List Keyword} (h : Run Scope.sameRows stream s s')
    (hs : s.On stream) : Lists keywords s s' :=
  ⟨[], by simpa using h.rows_eq hs fun _ _ _ => id, by simp⟩

theorem insertRow_lists {keyword : Keyword} {u : Unit} (h : insertRow keyword s = .ok u s')
    (hs : s.On stream) : Lists [keyword] s s' := by
  simp only [insertRow, current_bind, routing_bind, bind_eq_ok, ite_eq_ok, throw_eq_ok, false_and,
    and_false, exists_false, false_or] at h
  obtain ⟨_, s₁, hopen, values, s₂, hvalues, _, s₃, hclose, _, _, hclauses, _, text, s₄, hslice,
    count, s₅, hcount, _, s₆, hrow, hstop⟩ := h
  obtain ⟨rfl, rfl⟩ := pure_eq_ok.1 hclauses
  obtain ⟨_, rfl⟩ := slice_eq_ok.1 hslice
  obtain ⟨rfl, _⟩ := placeholdersSince_eq_ok hcount
  obtain rfl := modifyClauses_eq_ok.1 hrow
  obtain rfl := modifyClauses_eq_ok.1 hstop
  have hrun : Run Scope.sameRows stream s s₃ := ((accept_moves (by decide) hopen).trans
    (commaSeparated_moves operand_moves hvalues)).trans (accept_moves (by decide) hclose)
  exact ⟨[_], congrArg (· ++ [_]) (hrun.rows_eq hs fun _ _ _ => id), by simp⟩

theorem insertRows_lists {keyword : Keyword} {us : List Unit}
    (h : commaSeparated (insertRow keyword) s = .ok us s') (hs : s.On stream) :
    Lists [keyword] s s' := by
  refine (separatedBy_rel (R := fun s s' => s.On stream → s'.On stream ∧ Lists [keyword] s s')
    (fun s hs => ⟨hs, .refl⟩) (fun h₁ h₂ hs => ?_) (fun h hs => ?_) (fun h hs => ?_) h hs).2
  · obtain ⟨hs₁, hlists⟩ := h₁ hs
    exact (h₂ hs₁).imp_right hlists.trans
  · exact ⟨(insertRow_moves (E := Scope.all _) (fun _ _ _ => trivial) keyword h).on hs,
      insertRow_lists h hs⟩
  · have hrun : Run Scope.sameRows stream _ _ := skipSymbol_moves (by decide) h
    exact ⟨hrun.on hs, .of_run hrun hs⟩

/-- The first row there is gives the insert its conditions. -/
theorem adoptFirstRow_eq_ok {u : Unit} (h : adoptFirstRow s = .ok u s') :
    s'.body.clauses = s.body.clauses ∧ s'.body.conditions =
      (s.body.clauses.rows.head?.map InsertedRow.conditions).getD s.body.conditions := by
  obtain ⟨i, _, hclauses, h⟩ := bind_eq_ok.1 h
  obtain ⟨rfl, rfl⟩ := pure_eq_ok.1 hclauses
  cases hrow : s.body.clauses.rows.head? with
  | none =>
    rw [hrow] at h
    obtain rfl := (pure_eq_ok.1 h).2
    exact ⟨rfl, rfl⟩
  | some row =>
    rw [hrow] at h
    obtain rfl := modifyRouting_eq_ok.1 h
    exact ⟨rfl, rfl⟩

/-- Listed rows give an insert that has no conditions those of the first of them. -/
theorem insertValues_lists {u : Unit} (h : insertValues s = .ok u s') (hs : s.On stream)
    (hrows : s.body.clauses.rows = []) (hconditions : s.body.conditions = {}) :
    Lists (.VALUES :: s.cursor.dialect.valuesSynonyms) s s' ∧
      s'.body.conditions = .ofRow s'.body.clauses.rows.head? := by
  have hmissing : s.body.conditions = .ofRow s.body.clauses.rows.head? := by
    rw [hrows, hconditions]
    rfl
  simp only [insertValues, current_bind] at h
  generalize hkind : s.cursor.current.kind = kind at h
  split at h
  case h_2 =>
    obtain ⟨_, rfl⟩ := pure_eq_ok.1 h
    exact ⟨.refl, hmissing⟩
  case h_1 k =>
    simp only [dialect_bind, ite_eq_ok, pure_eq_ok, bind_eq_ok] at h
    rcases h with ⟨hk, _, s₁, hadvance, _, s₂, hmark, us, s₃, hlist, hadopt⟩ | ⟨_, _, rfl⟩
    · have hhead : Run Scope.sameRows stream s s₂ :=
        (advance_run hadvance (by simp [hkind])).trans (markRows_moves hmark)
      have hlists := (Lists.of_run hhead hs).trans (insertRows_lists hlist (hhead.on hs) |>.mono hk)
      have hrun : Run (Scope.all _).withoutConditions stream s s₃ :=
        ((advance_run hadvance (by simp [hkind])).trans (markRows_moves hmark)).trans
          (commaSeparated_moves (insertRow_moves (fun _ _ _ => trivial) k) hlist)
      obtain ⟨hclauses, hadopted⟩ := adoptFirstRow_eq_ok hadopt
      refine ⟨?_, ?_⟩
      · rw [Lists, hclauses]
        exact hlists
      · rw [hadopted, hrun.conditions_eq hs id, hconditions, hclauses]
        rfl
    · exact ⟨.refl, hmissing⟩

/-- A row of assignments is the last one, and gives the insert its conditions. -/
theorem insertSet_assigns {u : Unit} (h : insertSet s = .ok u s') (hs : s.On stream) :
    ∃ assigned : Option InsertedRow,
      s'.body.clauses.rows = s.body.clauses.rows ++ assigned.toList ∧
      (∀ row ∈ assigned, row.keyword = .SET) ∧
      s'.body.conditions = (assigned.map InsertedRow.conditions).getD s.body.conditions := by
  rcases insertSet_reads h hs with ⟨_, rfl⟩ | ⟨_, _, _, row, text, count, _, _, _, _, _, _, rfl⟩
  · exact ⟨none, by simp⟩
  · exact ⟨some ⟨.SET, text, count, rowConditions row⟩, rfl, by simp, rfl⟩

/-! ## The whole insert -/

/-- The rows of an insert are the listed ones and the one of assignments. Its conditions are those
    of the latter, else of the first one listed. -/
theorem insert_conditions {c : Cursor} (hc : c.Closed) {s : ParseState InsertClauses} {u : Unit}
    (h : insert (ParseState.start c) = .ok u s) :
    ∃ (listed : List InsertedRow) (assigned : Option InsertedRow),
      s.body.clauses.rows = listed ++ assigned.toList ∧
      (∀ row ∈ listed, row.keyword ∈ Keyword.VALUES :: c.dialect.valuesSynonyms) ∧
      (∀ row ∈ assigned, row.keyword = .SET) ∧
      s.body.conditions = .ofRow (assigned.or listed.head?) := by
  have hs := ParseState.On.start (κ := InsertClauses) hc
  simp only [insert, bind_eq_ok, cursor_bind, ite_eq_ok, throw_eq_ok, false_and, and_false,
    exists_false, false_or] at h
  obtain ⟨_, s₁, haccept, _, s₂, hinto, _, s₃, hcolumns, _, _, s₄, hvalues, _, s₅, hset, _, s₆,
    hupdate, hskip⟩ := h
  have hhead : Run (Scope.mk True False fun _ c c' => c'.rows = c.rows) c.tokens
      (ParseState.start c) s₃ :=
    ((accept_moves (by decide) haccept).trans (insertInto_moves trivial hinto)).trans
      (insertColumns_moves (fun _ _ _ => id) hcolumns)
  have hs₃ := hhead.on hs
  have hnone : s₃.body.clauses.rows = [] := hhead.rows_eq hs fun _ _ _ => id
  obtain ⟨⟨listed, hlisted, hkeywords⟩, hfirst⟩ :=
    insertValues_lists hvalues hs₃ hnone (hhead.conditions_eq hs id)
  rw [hhead.dialect_eq hs] at hkeywords
  have hs₄ : s₄.On c.tokens :=
    (insertValues_moves (E := Scope.all _) (fun _ _ _ => trivial) trivial hvalues).on hs₃
  obtain ⟨assigned, hassigned, hset', hconditions⟩ := insertSet_assigns hset hs₄
  have hs₅ : s₅.On c.tokens :=
    (insertSet_moves (E := Scope.all _) (fun _ _ _ => trivial) trivial hset).on hs₄
  have htail : Run (Scope.mk True False fun _ c c' => c'.rows = c.rows) c.tokens s₅ s :=
    (duplicateKeyUpdate_moves (fun _ _ _ => id) hupdate).trans (skipRest_moves hskip)
  obtain rfl : s₄.body.clauses.rows = listed := by simpa [hnone] using hlisted
  refine ⟨_, assigned, ?_, hkeywords, hset', ?_⟩
  · rw [htail.rows_eq hs₅ fun _ _ _ => id, hassigned]
  · rw [htail.conditions_eq hs₅ id, hconditions, hfirst]
    cases assigned with
    | none => rfl
    | some row => rfl

end Grammar

/-- *An insert has the conditions of one of its rows.* In every accepted insert the rows are those
    listed behind `VALUES` or a synonym, and behind them the one of assignments, if there is one.
    The conditions of the insert are those of the row of assignments, else those of the first row,
    and there are none if there are no rows. So they are those of the first row exactly if the
    insert has only one of the two forms, or if both forms say the same. -/
theorem parse_ownConditions {database : Database} {d : Dialect} {text : String}
    {body : Body InsertClauses} (h : Statement.parse database d text = .ok (.insert body)) :
    ∃ (listed : List InsertedRow) (assigned : Option InsertedRow),
      body.clauses.rows = listed ++ assigned.toList ∧
      (∀ row ∈ listed, row.keyword ∈ Keyword.VALUES :: d.valuesSynonyms) ∧
      (∀ row ∈ assigned, row.keyword = .SET) ∧
      body.conditions = .ofRow (assigned.or listed.head?) ∧
      ∀ first ∈ body.clauses.rows.head?, body.conditions = first.conditions ↔
        listed = [] ∨ ∀ row ∈ assigned, row.conditions = first.conditions := by
  obtain ⟨cursor, hc, hread⟩ := Statement.parse_eq_ok h
  obtain ⟨_, hclosed, rfl⟩ := Cursor.ofText_eq_ok hc
  cases hread with
  | insert _ hread =>
    obtain ⟨listed, assigned, hrows, hlisted, hassigned, hconditions⟩ :=
      Grammar.insert_conditions hclosed hread
    refine ⟨listed, assigned, hrows, hlisted, hassigned, hconditions, fun first hfirst => ?_⟩
    rw [hrows] at hfirst
    rw [hconditions]
    cases listed with
    | nil =>
      -- The row of assignments is the only one, and the first.
      obtain rfl : assigned = some first := by cases assigned <;> simp_all
      simp [Conditions.ofRow]
    | cons row rows =>
      obtain rfl : row = first := by simpa using hfirst
      cases assigned <;> simp [Conditions.ofRow]

/-- The rows of one form, and the conditions of the first of them. -/
theorem parse_ownConditions_values : ∃ body,
    Statement.parse .mySql .mySql ("INSERT INTO t (a, b) VALUES (1, 'x'), (2, ?) " ++
      "ON DUPLICATE KEY UPDATE a = 3") = .ok (.insert body) ∧
    body.clauses.rows.map InsertedRow.keyword = [.VALUES, .VALUES] ∧
    ∀ first ∈ body.clauses.rows.head?, body.conditions = first.conditions := by
  have hmap : (Statement.parse .mySql .mySql ("INSERT INTO t (a, b) VALUES (1, 'x'), (2, ?) " ++
      "ON DUPLICATE KEY UPDATE a = 3")).map (fun s => (s.keyword,
        s.insertedRows.map InsertedRow.keyword)) =
          .ok (.INSERT, [.VALUES, .VALUES]) := by decide +kernel
  obtain ⟨s, hparse, hs⟩ := Statement.exists_of_map hmap
  simp only [Prod.mk.injEq] at hs
  obtain ⟨hkeyword, hkeywords⟩ := hs
  cases s with
  | insert body =>
    obtain ⟨listed, assigned, hrows, _, hset, _, hown⟩ := parse_ownConditions hparse
    -- A row of assignments would have another keyword than the rows there are.
    have hnone : assigned = none := by
      refine Option.eq_none_iff_forall_not_mem.2 fun row hrow => ?_
      have hmem : row.keyword ∈ body.clauses.rows.map InsertedRow.keyword :=
        List.mem_map_of_mem (by simp [hrows, Option.mem_toList.2 hrow])
      rw [show body.clauses.rows.map InsertedRow.keyword = [.VALUES, .VALUES] from hkeywords,
        hset row hrow] at hmem
      exact absurd hmem (by decide)
    exact ⟨body, hparse, hkeywords, fun first hfirst =>
      (hown first hfirst).2 (.inr (by simp [hnone]))⟩
  | _ => cases hkeyword

/-- With both forms of rows, the conditions of the insert are not those of its first row. -/
theorem ownConditions_values_set : ∃ body first,
    Statement.parse .mySql .mySql "INSERT INTO t (a) VALUES (1) SET a = 2" = .ok (.insert body) ∧
    body.clauses.rows.head? = some first ∧
    first.conditions = ⟨[⟨⟨"a", some "t"⟩, .equal, [.number (.integer 1)]⟩]⟩ ∧
    body.conditions = ⟨[⟨⟨"a", some "t"⟩, .equal, [.number (.integer 2)]⟩]⟩ ∧
    body.conditions ≠ first.conditions := by
  refine ⟨{
    tables := ⟨[⟨"t", none⟩]⟩
    conditions := ⟨[⟨⟨"a", some "t"⟩, .equal, [.number (.integer 2)]⟩]⟩
    marks := [.table 12 "t", .insertValues 25 "t", .insertValues 33 "t"]
    clauses := {
      columns := [⟨"a", some "t"⟩, ⟨"a", some "t"⟩]
      rows := [
        ⟨.VALUES, "(1)", 0, ⟨[⟨⟨"a", some "t"⟩, .equal, [.number (.integer 1)]⟩]⟩⟩,
        ⟨.SET, "a = 2", 0, ⟨[⟨⟨"a", some "t"⟩, .equal, [.number (.integer 2)]⟩]⟩⟩]
      columnsStop := some 16
      rowsStop := some 38 } }, _, by decide +kernel, rfl, rfl, rfl, by decide⟩

end SqlRouting
