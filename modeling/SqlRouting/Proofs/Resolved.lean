import SqlRouting.Proofs.Indices

/-!
# Resolved conditions

Whoever routes a statement takes its conditions as they are. They come from three places: the
comparisons of a `WHERE`, the rows of an insert, and its assignments. Wherever a condition comes
from, its column is resolved to a table of the statement, it is stored under this column, and it
has as many values as its comparison takes, each a literal or a placeholder that has been counted
(`parse_conditions`).

Only what records a condition has to look at it. All else keeps it well-formed, since tables are
only added and placeholders only counted.
-/

namespace SqlRouting

/-- The condition compares a column of one of the tables with values, as many as its comparison
    takes, and the placeholders among them are below the number of parameters. -/
structure Condition.WellFormed (tables : Tables) (parameters : Nat) (c : Condition) : Prop where
  table : ∃ name ∈ tables.names, c.column.table = some name
  takes : c.comparison.Takes c.values.length
  areValues : ∀ e ∈ c.values, e.isValue = true
  counted : ∀ i ∈ c.indices, i < parameters

theorem Condition.WellFormed.mono {tables tables' : Tables} {parameters parameters' : Nat}
    {c : Condition} (h : c.WellFormed tables parameters) (htables : tables.names ⊆ tables'.names)
    (hle : parameters ≤ parameters') : c.WellFormed tables' parameters' where
  table := h.table.imp fun _ hname => ⟨htables hname.1, hname.2⟩
  takes := h.takes
  areValues := h.areValues
  counted := fun i hi => Nat.lt_of_lt_of_le (h.counted i hi) hle

/-- Every condition is stored under its own column and is one of those that meet `P`. -/
structure Conditions.All (P : Condition → Prop) (cs : Conditions) : Prop where
  stored : ∀ c ∈ cs.toList, cs.get? c.column = some c
  all : ∀ c ∈ cs.toList, P c

namespace Conditions

variable {P Q : Condition → Prop} {cs : Conditions} {c : Condition}

/-- A condition that is added replaces the one on its column. -/
theorem mem_add {c' : Condition} (h : c' ∈ (cs.add c).toList) :
    c' = c ∨ c' ∈ cs.toList ∧ c'.column ≠ c.column := by
  unfold add at h
  split at h
  case isTrue =>
    obtain ⟨old, hmem, rfl⟩ := List.mem_map.1 h
    unfold replace
    split
    case isTrue => exact .inl rfl
    case isFalse hne => exact .inr ⟨hmem, hne⟩
  case isFalse hnone =>
    have hnone : ∀ old ∈ cs.toList, old.column ≠ c.column := by simpa [get?] using hnone
    rcases List.mem_append.1 h with hmem | hmem
    · exact .inr ⟨hmem, hnone c' hmem⟩
    · exact .inl (List.mem_singleton.1 hmem)

namespace All

theorem empty : All P {} :=
  ⟨by simp, by simp⟩

theorem mono (h : cs.All P) (hPQ : ∀ c ∈ cs.toList, P c → Q c) : cs.All Q :=
  ⟨h.stored, fun c hc => hPQ c hc (h.all c hc)⟩

theorem add (h : cs.All P) (hc : P c) : (cs.add c).All P where
  stored := by
    intro c' hc'
    rcases mem_add hc' with rfl | ⟨hmem, hne⟩
    · exact get?_add_self cs c'
    · rw [get?_add_of_ne hne]
      exact h.stored c' hmem
  all := by
    intro c' hc'
    rcases mem_add hc' with rfl | ⟨hmem, _⟩
    · exact hc
    · exact h.all c' hmem

/-- A list of conditions may be added one by one. -/
theorem ofList {conditions : List Condition} (h : ∀ c ∈ conditions, P c) :
    (Conditions.ofList conditions).All P := by
  suffices hfold : ∀ cs : Conditions, cs.All P → (conditions.foldl Conditions.add cs).All P from
    hfold {} empty
  induction conditions with
  | nil => exact fun _ hcs => hcs
  | cons c conditions ih =>
    exact fun cs hcs => ih (fun c' hc' => h c' (List.mem_cons_of_mem _ hc'))
      (cs.add c) (hcs.add (h c (List.mem_cons_self ..)))

end All

end Conditions

/-! ## Tables -/

namespace Tables

theorem names_add_subset (ts : Tables) (t : Table) : ts.names ⊆ (ts.add t).names := by
  unfold add
  split
  · exact fun _ h => h
  · simp [names]

theorem exists_mem_names_add (ts : Tables) (t : Table) : ∃ name, name ∈ (ts.add t).names := by
  cases h : ts.contains t.name with
  | true =>
    obtain ⟨u, hu, _⟩ := List.any_eq_true.1 h
    exact ⟨u.name, names_add_subset ts t (List.mem_map_of_mem hu)⟩
  | false => exact ⟨t.name, by simp [names, toList_add_of_not_contains h]⟩

theorem mem_names_of_firstName? {ts : Tables} {name : String} (h : ts.firstName? = some name) :
    name ∈ ts.names :=
  List.mem_of_mem_head? h

/-- A column that is found belongs to one of the tables. -/
theorem exists_of_column? {ts : Tables} {e : Expression} {column : Column}
    (h : ts.column? e = some column) : ∃ name ∈ ts.names, column.table = some name := by
  unfold column? at h
  split at h
  case h_1 owner name =>
    obtain ⟨t, ht, rfl⟩ := Option.map_eq_some_iff.1 h
    refine ⟨t.name, List.mem_map_of_mem ?_, rfl⟩
    rcases Option.or_eq_some_iff.1 ((Option.or_eq_orElse ..).trans ht) with ht | ⟨_, ht⟩
    · exact List.mem_of_find?_eq_some ht
    · exact List.mem_of_find?_eq_some ht
  case h_2 name =>
    split at h
    case isTrue hsize =>
      obtain ⟨t, ht⟩ := List.length_eq_one_iff.1 hsize
      obtain rfl := Option.some.inj h
      exact ⟨t.name, by simp [names, ht], by simp [firstName?, names, ht]⟩
    case isFalse => cases h
  case h_3 => cases h

end Tables

/-- Tables are never forgotten. -/
theorem Run.names_subset {κ : Type} {E : Scope κ} {stream : List Token} {s s' : ParseState κ}
    (h : Run E stream s s') (hs : s.On stream) : s.body.tables.names ⊆ s'.body.tables.names := by
  refine h.rel (R := fun s s' => s.body.tables.names ⊆ s'.body.tables.names)
    (fun _ => List.Subset.refl _) (fun h₁ h₂ => List.Subset.trans h₁ h₂) ?_ hs
  intro s s' _ hmove
  cases hmove with
  | table _ t => exact Tables.names_add_subset _ t
  | _ => exact List.Subset.refl _

namespace Grammar

open SqlRouting.Parser

variable {κ : Type} {stream : List Token}

/-! ## Comparisons -/

/-- The conditions of the statement are well-formed. -/
def ConditionsWellFormed (s : ParseState κ) : Prop :=
  s.body.conditions.All (·.WellFormed s.body.tables s.body.parameters)

theorem ConditionsWellFormed.of_run {E : Scope κ} {s s' : ParseState κ} (hE : ¬E.conditions)
    (h : Run E stream s s') (hs : s.On stream) (hn : ConditionsWellFormed s) :
    ConditionsWellFormed s' := by
  rw [ConditionsWellFormed, h.conditions_eq hs hE]
  exact hn.mono fun c _ hc => hc.mono (h.names_subset hs) (h.parameters_le hs)

/-- A condition is recorded on a column that has been found and with values that have just been
    read. -/
theorem recordCondition_wellFormed {α : Type} {comparison : Comparison} {p : Parser κ α}
    {f : α → List Expression} (hp : ReadsValues comparison p f) (left : Expression) :
    Preserves ConditionsWellFormed (p >>= fun a => recordCondition left comparison (f a)) := by
  intro stream s u s' h hs
  obtain ⟨a, s₁, h₁, h⟩ := bind_eq_ok.1 h
  have hrun : Run (Scope.marksOnly κ) stream s s₁ := hp.moves h₁
  have hs₁ := hrun.on hs
  have hascending := hp.ascending h₁ hs
  have htakes := hp.takes h₁
  have hold : ConditionsWellFormed s → ConditionsWellFormed s₁ := .of_run id hrun hs
  rcases recordCondition_eq_ok h with rfl | ⟨column, hcolumn, hvalues, rfl⟩
  · exact ⟨hs₁, hold⟩
  · refine ⟨⟨hs₁.tokens, hs₁.closed⟩, fun hn => (hold hn).add ?_⟩
    exact ⟨Tables.exists_of_column? hcolumn, htakes, hvalues, fun i hi =>
      (hascending.bounds i hi).2⟩

theorem whereClause_wellFormed : Preserves (ConditionsWellFormed (κ := κ)) whereClause :=
  whereClause_preserves (fun hp => .of_moves hp (.of_run id)) recordCondition_wellFormed

/-! ## Insertions -/

/-- What an insert says about its columns: one of them is equal to a value. -/
structure Entered (s : ParseState InsertClauses) (c : Condition) : Prop where
  wellFormed : c.WellFormed s.body.tables s.body.parameters
  comparison : c.comparison = .equal
  column : c.column ∈ s.body.clauses.columns

/-- An insert into the table is read: all of its columns are columns of the table, and its
    conditions and those of its rows are entered in these columns. -/
structure Filling (table : Option String) (s : ParseState InsertClauses) : Prop where
  known : table.isSome
  first : s.body.tables.firstName? = table
  columns : ∀ column ∈ s.body.clauses.columns, column.table = table
  rows : ∀ row ∈ s.body.clauses.rows, row.conditions.All (Entered s)
  conditions : s.body.conditions.All (Entered s)

/-- Columns are added, placeholders are counted, and tables stay the same. -/
structure Fills (s s' : ParseState InsertClauses) : Prop where
  tables : s'.body.tables = s.body.tables
  parameters : s.body.parameters ≤ s'.body.parameters
  columns : s.body.clauses.columns ⊆ s'.body.clauses.columns

section

variable {s s₁ s' : ParseState InsertClauses} {table : Option String}

theorem Fills.trans (h : Fills s s₁) (h' : Fills s₁ s') : Fills s s' where
  tables := h'.tables.trans h.tables
  parameters := Nat.le_trans h.parameters h'.parameters
  columns := List.Subset.trans h.columns h'.columns

theorem Entered.mono {c : Condition} (h : Entered s c) (hfills : Fills s s') : Entered s' c where
  wellFormed := h.wellFormed.mono (hfills.tables ▸ List.Subset.refl _) hfills.parameters
  comparison := h.comparison
  column := hfills.columns h.column

/-- While only columns of the table are added, what has been entered stays so. -/
theorem Filling.mono (h : Filling table s) (hfills : Fills s s')
    (hcolumns : ∀ column ∈ s'.body.clauses.columns, column ∈ s.body.clauses.columns ∨
      column.table = table)
    (hrows : s'.body.clauses.rows = s.body.clauses.rows)
    (hconditions : s'.body.conditions = s.body.conditions) : Filling table s' where
  known := h.known
  first := hfills.tables ▸ h.first
  columns := fun column hmem => (hcolumns column hmem).elim (h.columns column) id
  rows := fun row hmem => (h.rows row (hrows ▸ hmem)).mono fun _ _ hc => hc.mono hfills
  conditions := hconditions ▸ h.conditions.mono fun _ _ hc => hc.mono hfills

end

end Grammar

/-- The scope in which an insert keeps its columns, its rows and their conditions. -/
def Scope.rowsKept : Scope InsertClauses :=
  ⟨False, False, fun _ c c' => c'.columns = c.columns ∧ c'.rows = c.rows⟩

theorem Run.rows_kept {stream : List Token} {s s' : ParseState InsertClauses}
    (h : Run Scope.rowsKept stream s s') (hs : s.On stream) :
    s'.body.clauses.columns = s.body.clauses.columns ∧
      s'.body.clauses.rows = s.body.clauses.rows := by
  refine h.rel (R := fun s s' => s'.body.clauses.columns = s.body.clauses.columns ∧
    s'.body.clauses.rows = s.body.clauses.rows) (fun _ => ⟨rfl, rfl⟩) ?_ ?_ hs
  · exact fun h₁ h₂ => ⟨h₂.1.trans h₁.1, h₂.2.trans h₁.2⟩
  · intro s s' _ hmove
    cases hmove with
    | clauses hE => exact hE
    | _ => exact ⟨rfl, rfl⟩

namespace Grammar

open SqlRouting.Parser

section

variable {α : Type} {stream : List Token} {s s₁ s' : ParseState InsertClauses}
  {table : Option String}

theorem Fills.of_run (h : Run Scope.rowsKept stream s s') (hs : s.On stream) : Fills s s' where
  tables := h.tables_eq hs id
  parameters := h.parameters_le hs
  columns := (h.rows_kept hs).1 ▸ List.Subset.refl _

theorem Filling.of_run (h : Run Scope.rowsKept stream s s') (hs : s.On stream)
    (hf : Filling table s) : Filling table s' :=
  hf.mono (.of_run h hs) (fun _ hmem => .inl ((h.rows_kept hs).1 ▸ hmem)) (h.rows_kept hs).2
    (h.conditions_eq hs id)

theorem filling_of_moves {p : Parser InsertClauses α} (hp : Moves Scope.rowsKept p) :
    Preserves (Filling table) p :=
  .of_moves hp .of_run

/-- The table inserted into is the one that the columns belong to. -/
theorem insertTable_preserves {f : Option String → Parser InsertClauses α}
    (hf : ∀ table, Preserves (Filling table) (f table)) :
    Preserves (Filling table) (insertTable >>= f) := by
  intro stream s a s' h hs
  have h : f s.body.tables.firstName? s = .ok a s' := h
  obtain ⟨hs', hkeeps⟩ := hf _ h hs
  refine ⟨hs', fun hfilling => ?_⟩
  have heq := hfilling.first
  rw [heq] at hkeeps
  exact hkeeps hfilling

theorem addColumn_preserves (name : String) :
    Preserves (Filling table) (addColumn ⟨name, table⟩) := by
  intro stream s u s' h hs
  obtain rfl := modifyClauses_eq_ok.1 h
  refine ⟨⟨hs.tokens, hs.closed⟩, fun hfilling => hfilling.mono ⟨rfl, Nat.le_refl _, ?_⟩ ?_ rfl rfl⟩
  · exact List.subset_append_left _ _
  · intro column hmem
    rcases List.mem_append.1 hmem with hmem | hmem
    · exact .inl hmem
    · exact .inr (congrArg Column.table (List.mem_singleton.1 hmem))

/-- A change of the clauses that leaves columns and rows as they are. -/
theorem modifyClauses_filling {f : InsertClauses → InsertClauses}
    (hf : ∀ i, (f i).columns = i.columns ∧ (f i).rows = i.rows) :
    Preserves (Filling table) (modifyClauses f) :=
  filling_of_moves (modifyClauses_moves fun _ i => hf i)

theorem setRowsStop_rowsKept (stop : Nat) : Moves Scope.rowsKept (setRowsStop stop) :=
  modifyClauses_moves fun _ _ => ⟨rfl, rfl⟩

theorem insertColumns_preserves : Preserves (Filling table) insertColumns := by
  refine (filling_of_moves (skipSymbol_moves (by decide))).bind fun _ => .ite ?_ (.pure _)
  refine insertTable_preserves fun table => .bind (.separatedBy
    (filling_of_moves (skipSymbol_moves (by decide))) ?_) fun _ =>
      (filling_of_moves current_moves).bind fun _ =>
        .bind ?_ fun _ => filling_of_moves (accept_moves (by decide))
  case refine_2 => exact modifyClauses_filling fun _ => ⟨rfl, rfl⟩
  intro stream s u s' h hs
  simp only [cursor_bind, current_bind, ite_eq_ok, bind_eq_ok, unexpected_eq_ok, false_and,
    and_false, exists_false, false_or] at h
  obtain ⟨hname, _, s₁, hcolumn, hadvance⟩ := h
  obtain ⟨hs₁, hkeeps⟩ := addColumn_preserves _ hcolumn hs
  obtain rfl := modifyClauses_eq_ok.1 hcolumn
  have hrun : Run Scope.rowsKept stream _ s' := advance_run hadvance fun hq => by
    have hq : s.cursor.current.kind = .symbol .question := hq
    simp [Cursor.isName, hq] at hname
  exact ⟨hrun.on hs₁, fun hfilling => .of_run hrun hs₁ (hkeeps hfilling)⟩

/-! ### Rows -/

/-- The value is one for a column of the insert, and its placeholder has been counted. -/
def IsEntry (s : ParseState InsertClauses) (entry : Column × Expression) : Prop :=
  entry.1 ∈ s.body.clauses.columns ∧ ∀ i ∈ indices [entry.2], i < s.body.parameters

theorem IsEntry.mono {entry : Column × Expression} (h : IsEntry s entry) (hfills : Fills s s') :
    IsEntry s' entry :=
  ⟨hfills.columns h.1, fun i hi => Nat.lt_of_lt_of_le (h.2 i hi) hfills.parameters⟩

theorem rowConditions_entered {row : List (Column × Expression)} (hs : Filling table s)
    (hrow : ∀ entry ∈ row, IsEntry s entry) : (rowConditions row).All (Entered s) := by
  refine .ofList fun c hc => ?_
  obtain ⟨⟨column, value⟩, hmem, hvalue⟩ := List.mem_filterMap.1 hc
  obtain ⟨hcolumn, hcounted⟩ := hrow _ hmem
  simp only [valueCondition?, Option.ite_none_right_eq_some, Option.some.injEq] at hvalue
  obtain ⟨hvalue, rfl⟩ := hvalue
  obtain ⟨name, hname⟩ := Option.isSome_iff_exists.1 hs.known
  refine ⟨⟨⟨name, ?_, (hs.columns column hcolumn).trans hname⟩, rfl, by simpa using hvalue,
    hcounted⟩, rfl, hcolumn⟩
  exact Tables.mem_names_of_firstName? (hs.first.trans hname)

/-- A row may be added whose conditions are entered. -/
theorem addRow_filling {row : InsertedRow} {u : Unit} (h : addRow row s = .ok u s')
    (hf : Filling table s) (hrow : row.conditions.All (Entered s)) : Filling table s' := by
  obtain rfl := modifyClauses_eq_ok.1 h
  refine ⟨hf.known, hf.first, hf.columns, fun row' hmem => ?_, ?_⟩
  · have hmem : row' ∈ s.body.clauses.rows ++ [row] := hmem
    rcases List.mem_append.1 hmem with hmem | hmem
    · exact (hf.rows row' hmem).mono fun _ _ hc => hc.mono ⟨rfl, Nat.le_refl _, fun _ h => h⟩
    · rw [List.mem_singleton.1 hmem]
      exact hrow.mono fun _ _ hc => hc.mono ⟨rfl, Nat.le_refl _, fun _ h => h⟩
  · exact hf.conditions.mono fun _ _ hc => hc.mono ⟨rfl, Nat.le_refl _, fun _ h => h⟩

/-- The conditions of a row may be taken for those of the statement. -/
theorem modifyConditions_filling {cs : Conditions} {u : Unit}
    (h : modifyRouting (fun r => { r with conditions := cs }) s = .ok u s')
    (hf : Filling table s) (hcs : cs.All (Entered s)) : Filling table s' := by
  obtain rfl := modifyRouting_eq_ok.1 h
  have hentered {c : Condition} (hc : Entered s c) : Entered { s with body := { s.body with
      conditions := cs } } c := hc.mono ⟨rfl, Nat.le_refl _, fun _ h => h⟩
  exact ⟨hf.known, hf.first, hf.columns, fun row hmem =>
    (hf.rows row hmem).mono fun _ _ => hentered, hcs.mono fun _ _ => hentered⟩

theorem insertRow_preserves (keyword : Keyword) :
    Preserves (Filling table) (insertRow keyword) := by
  intro stream s u s' h hs
  simp only [insertRow, current_bind, routing_bind, bind_eq_ok, ite_eq_ok, throw_eq_ok, false_and,
    and_false, exists_false, false_or] at h
  obtain ⟨_, s₁, hopen, values, s₂, hvalues, _, s₃, hclose, _, _, hclauses, _, text, s₄, hslice,
    count, s₅, hcount, _, s₆, hrow, hstop⟩ := h
  obtain ⟨rfl, rfl⟩ := pure_eq_ok.1 hclauses
  have hopen : Run Scope.rowsKept stream s s₁ := accept_moves (by decide) hopen
  have hlist : Run Scope.rowsKept stream s₁ s₂ := commaSeparated_moves operand_moves hvalues
  have hclose : Run Scope.rowsKept stream s₂ s₃ := accept_moves (by decide) hclose
  have hcut : Run Scope.rowsKept stream s₃ s₅ :=
    (slice_moves _ _ hslice).trans (placeholdersSince_moves _ hcount)
  have hs₁ := hopen.on hs
  have hs₂ := hlist.on hs₁
  have hs₃ := hclose.on hs₂
  have hentry : ∀ entry ∈ s₃.body.clauses.columns.zip values, IsEntry s₅ entry := by
    rintro ⟨column, value⟩ hmem
    refine IsEntry.mono ⟨(List.of_mem_zip hmem).1, fun i hi => ?_⟩ (.of_run hcut hs₃)
    have hi : i ∈ indices values :=
      List.filterMap_subset _ (by simpa using (List.of_mem_zip hmem).2) hi
    have hlt := ((operands_ascending hvalues hs₁).bounds i hi).2
    exact Nat.lt_of_lt_of_le hlt (hclose.parameters_le hs₂)
  have hs₆ : s₆.On stream := by
    obtain rfl := modifyClauses_eq_ok.1 hrow
    exact ⟨(hcut.on hs₃).tokens, (hcut.on hs₃).closed⟩
  have hstop : Run Scope.rowsKept stream s₆ s' := setRowsStop_rowsKept _ hstop
  refine ⟨hstop.on hs₆, fun hfilling => .of_run hstop hs₆ ?_⟩
  have hread : Filling table s₅ :=
    .of_run (((hopen.trans hlist).trans hclose).trans hcut) hs hfilling
  exact addRow_filling hrow hread (rowConditions_entered hread hentry)

theorem adoptFirstRow_preserves : Preserves (Filling table) adoptFirstRow := by
  intro stream s u s' h hs
  obtain ⟨c, _, hclauses, h⟩ := bind_eq_ok.1 h
  obtain ⟨rfl, rfl⟩ := pure_eq_ok.1 hclauses
  cases hrow : s.body.clauses.rows.head? with
  | none =>
    rw [hrow] at h
    obtain ⟨_, rfl⟩ := pure_eq_ok.1 h
    exact ⟨hs, id⟩
  | some row =>
    rw [hrow] at h
    have hmodify := h
    obtain rfl := modifyRouting_eq_ok.1 h
    exact ⟨⟨hs.tokens, hs.closed⟩, fun hf =>
      modifyConditions_filling hmodify hf (hf.rows row (List.mem_of_mem_head? hrow))⟩

theorem insertValues_preserves : Preserves (Filling table) insertValues := by
  intro stream s u s' h hs
  simp only [insertValues, current_bind] at h
  generalize hkind : s.cursor.current.kind = kind at h
  split at h
  case h_2 =>
    obtain ⟨_, rfl⟩ := pure_eq_ok.1 h
    exact ⟨hs, id⟩
  case h_1 k =>
    simp only [dialect_bind, ite_eq_ok, pure_eq_ok] at h
    rcases h with ⟨_, h⟩ | ⟨_, _, rfl⟩
    · obtain ⟨_, s₁, hadvance, h⟩ := bind_eq_ok.1 h
      have hrun : Run Scope.rowsKept stream s s₁ := advance_run hadvance (by simp [hkind])
      have hrows : Preserves (Filling table) (markRows >>= fun _ =>
          commaSeparated (insertRow k) >>= fun _ => adoptFirstRow) :=
        (filling_of_moves markRows_moves).bind fun _ => (Preserves.separatedBy
          (filling_of_moves (skipSymbol_moves (by decide))) (insertRow_preserves k)).bind
            fun _ => adoptFirstRow_preserves
      obtain ⟨hs', hkeeps⟩ := hrows h (hrun.on hs)
      exact ⟨hs', fun hf => hkeeps (.of_run hrun hs hf)⟩
    · exact ⟨hs, id⟩

/-! ### Assignments -/

theorem columnOfTable_eq_ok {target : Expression} {column : Column}
    (h : columnOfTable table target s = .ok column s') :
    ∃ name, ⟨name, table⟩ = column ∧ s = s' := by
  rw [columnOfTable] at h
  cases hname : target.columnName? with
  | some name =>
    rw [hname] at h
    exact ⟨name, pure_eq_ok.1 h⟩
  | none =>
    rw [hname] at h
    exact (unexpected_eq_ok.1 h).elim

/-- An assignment adds its column and gives it a value. -/
theorem insertAssignment_entry {entry : Column × Expression}
    (h : insertAssignment table s = .ok entry s') (hs : s.On stream) :
    s'.On stream ∧ Fills s s' ∧ IsEntry s' entry ∧ (Filling table s → Filling table s') := by
  simp only [insertAssignment, cursor_bind, bind_eq_ok, ite_eq_ok, pure_eq_ok, unexpected_eq_ok,
    false_and, and_false, exists_false, false_or] at h
  obtain ⟨_, target, s₁, htarget, column, s₂, hcolumn, _, s₃, hequal, value, s₄, hvalue, _, s₅,
    hadd, rfl, rfl⟩ := h
  have htarget : Run Scope.rowsKept stream s s₁ := operand_moves htarget
  have hequal : Run Scope.rowsKept stream s₂ s₃ := accept_moves (by decide) hequal
  have hread : Run Scope.rowsKept stream s₃ s₄ := operand_moves hvalue
  obtain ⟨name, rfl, rfl⟩ := columnOfTable_eq_ok hcolumn
  have hs₃ := (htarget.trans hequal).on hs
  have hs₄ := hread.on hs₃
  have hrun := (htarget.trans hequal).trans hread
  have hascending := operand_ascending hvalue hs₃
  obtain ⟨hs₅, hkeeps⟩ : s₅.On stream ∧ (Filling table s₄ → Filling table s₅) :=
    addColumn_preserves name hadd hs₄
  obtain rfl := modifyClauses_eq_ok.1 hadd
  refine ⟨hs₅, (Fills.of_run hrun hs).trans ⟨rfl, Nat.le_refl _, List.subset_append_left _ _⟩,
    ⟨by simp, fun i hi => (hascending.bounds i hi).2⟩, fun hf => hkeeps (.of_run hrun hs hf)⟩

/-- Every assignment of a row is an entry. -/
theorem insertAssignments_entries {row : List (Column × Expression)}
    (h : commaSeparated (insertAssignment table) s = .ok row s') (hs : s.On stream) :
    s'.On stream ∧ Fills s s' ∧ (∀ entry ∈ row, IsEntry s' entry) ∧
      (Filling table s → Filling table s') := by
  rw [commaSeparated, separatedBy, cursor_bind] at h
  generalize s.cursor.movesLeft = n at h
  induction n generalizing s row with
  | zero =>
    obtain ⟨rfl, rfl⟩ := pure_eq_ok.1 h
    exact ⟨hs, ⟨rfl, Nat.le_refl _, List.Subset.refl _⟩, by simp, id⟩
  | succ n ih =>
    simp only [collect, bind_eq_ok, ite_eq_ok, pure_eq_ok] at h
    obtain ⟨entry, s₁, hitem, more, s₂, hmore, h⟩ := h
    obtain ⟨hs₁, hfills, hentry, hkeeps⟩ := insertAssignment_entry hitem hs
    have hcomma : Run Scope.rowsKept stream s₁ s₂ := skipSymbol_moves (by decide) hmore
    have hfills' : Fills s₁ s₂ := .of_run hcomma hs₁
    rcases h with ⟨_, row', s₃, h, rfl, rfl⟩ | ⟨_, rfl, rfl⟩
    · obtain ⟨hs', hfills'', hentries, hkeeps'⟩ := ih (hcomma.on hs₁) h
      refine ⟨hs', (hfills.trans hfills').trans hfills'', ?_, fun hf =>
        hkeeps' (.of_run hcomma hs₁ (hkeeps hf))⟩
      exact List.forall_mem_cons.2 ⟨hentry.mono (hfills'.trans hfills''), hentries⟩
    · exact ⟨hcomma.on hs₁, hfills.trans hfills', by simpa using hentry.mono hfills',
        fun hf => .of_run hcomma hs₁ (hkeeps hf)⟩

theorem insertSet_preserves : Preserves (Filling table) insertSet := by
  refine (filling_of_moves dialect_moves).bind fun _ =>
    (filling_of_moves (skipKeyword_moves _)).bind fun _ => .ite ?_ (.pure _)
  refine (filling_of_moves current_moves).bind fun _ => (filling_of_moves routing_moves).bind
    fun _ => (filling_of_moves markRows_moves).bind fun _ => insertTable_preserves fun table => ?_
  intro stream s u s' h hs
  simp only [bind_eq_ok] at h
  obtain ⟨row, s₁, hrow, text, s₂, htext, _, s₃, hstop, count, s₄, hcount, _, s₅, hadd,
    hmodify⟩ := h
  obtain ⟨hs₁, _, hentries, hkeeps⟩ := insertAssignments_entries hrow hs
  have hcut : Run Scope.rowsKept stream s₁ s₄ :=
    ((textSince_moves _ htext).trans (setRowsStop_rowsKept _ hstop)).trans
      (placeholdersSince_moves _ hcount)
  have hs₄ := hcut.on hs₁
  have hentries : ∀ entry ∈ row, IsEntry s₄ entry := fun entry hmem =>
    (hentries entry hmem).mono (.of_run hcut hs₁)
  have hadded := hadd
  obtain rfl := modifyClauses_eq_ok.1 hadd
  have hs' : s'.On stream := by
    obtain rfl := modifyRouting_eq_ok.1 hmodify
    exact ⟨hs₄.tokens, hs₄.closed⟩
  refine ⟨hs', fun hf => ?_⟩
  have hread : Filling table s₄ := .of_run hcut hs₁ (hkeeps hf)
  have hrow := rowConditions_entered hread hentries
  exact modifyConditions_filling hmodify (addRow_filling hadded hread hrow)
    (hrow.mono fun _ _ hc => hc.mono ⟨rfl, Nat.le_refl _, List.Subset.refl _⟩)

theorem duplicateKeyUpdate_preserves : Preserves (Filling table) duplicateKeyUpdate := by
  refine (filling_of_moves dialect_moves).bind fun _ =>
    (filling_of_moves (skipKeyword_moves _)).bind fun _ => .ite ?_ (.pure _)
  refine (filling_of_moves (accept_moves (by decide))).bind fun _ =>
    (filling_of_moves (accept_moves (by decide))).bind fun _ =>
      (filling_of_moves (accept_moves (by decide))).bind fun _ =>
        insertTable_preserves fun table => (Preserves.separatedBy
          (filling_of_moves (skipSymbol_moves (by decide))) ?_).bind fun _ => .pure _
  refine (filling_of_moves operand_moves).bind fun _ =>
    (filling_of_moves (columnOfTable_moves ..)).bind fun _ => .bind ?_ fun _ => ?_
  · exact modifyClauses_filling fun _ => ⟨rfl, rfl⟩
  · exact filling_of_moves ((accept_moves (by decide)).bind fun _ =>
      (skipKeyword_moves _).bind fun _ => .ite
        ((accept_moves (by decide)).bind fun _ => operand_moves.bind fun _ =>
          accept_moves (by decide))
        (operand_moves.bind fun _ => .pure _))

/-- The table inserted into is recorded before anything else. -/
theorem insertInto_filling {u : Unit} (h : insertInto s = .ok u s') (hs : s.On stream)
    (hclauses : s.body.clauses = {}) (hconditions : s.body.conditions = {}) :
    Filling s'.body.tables.firstName? s' := by
  have hrun : Run ⟨True, False, fun _ _ _ => False⟩ stream s s' := insertInto_moves trivial h
  have hclauses' := (hrun.clauses_eq hs fun _ _ _ => id).trans hclauses
  have hconditions' := (hrun.conditions_eq hs id).trans hconditions
  refine ⟨?_, rfl, by simp [hclauses'], by simp [hclauses'], hconditions' ▸ .empty⟩
  simp only [insertInto, dialect_bind, bind_eq_ok, recordTable, addTable, modifyRouting_eq_ok,
    addMark_eq_ok] at h
  obtain ⟨_, s₁, hskip, _, s₂, haccept, t, s₃, hname, _, _, ⟨_, _, rfl, rfl⟩, h⟩ := h
  have hread : Run (Scope.all _) stream s s₂ :=
    (skipAll_moves _ hskip).trans (accept_moves (by decide) haccept)
  have hs₃ := (tableName_run (E := Scope.all _) hname (hread.on hs)).1.on (hread.on hs)
  have hrest : Run (Scope.all _) stream _ s' := loop_moves ((skipKeyword_moves _).bind fun _ =>
    .ite (skipParentheses_moves.bind fun _ => .pure _) (.pure _)) h
  obtain ⟨name, hname⟩ := Tables.exists_mem_names_add s₃.body.tables
    ⟨Text.unquoted t.literal, none⟩
  have hmem := hrest.names_subset ⟨hs₃.tokens, hs₃.closed⟩ hname
  exact List.isSome_head?.2 (List.ne_nil_of_mem hmem)

end

theorem insert_filling {c : Cursor} (hc : c.Closed) {s : ParseState InsertClauses}
    (h : insert (ParseState.start c) = .ok () s) : ∃ table, Filling table s := by
  have hs := ParseState.On.start (κ := InsertClauses) hc
  simp only [insert, bind_eq_ok, cursor_bind, ite_eq_ok, throw_eq_ok, false_and, and_false,
    exists_false, false_or] at h
  obtain ⟨_, s₁, haccept, _, s₂, hinto, _, s₃, hcolumns, _, _, s₄, hvalues, _, s₅, hset, _, s₆,
    hupdate, hskip⟩ := h
  have haccept : Run (Scope.marksOnly _) c.tokens _ s₁ := accept_moves (by decide) haccept
  have hs₁ := haccept.on hs
  have hs₂ := (insertInto_moves (E := Scope.all _) trivial hinto).on hs₁
  have hfilling := insertInto_filling hinto hs₁ (haccept.clauses_eq hs fun _ _ _ => id)
    (haccept.conditions_eq hs id)
  obtain ⟨hs₃, hcolumns⟩ := insertColumns_preserves hcolumns hs₂
  obtain ⟨hs₄, hvalues⟩ := insertValues_preserves hvalues hs₃
  obtain ⟨hs₅, hset⟩ := insertSet_preserves hset hs₄
  obtain ⟨hs₆, hupdate⟩ := duplicateKeyUpdate_preserves hupdate hs₅
  obtain ⟨_, hskip⟩ := filling_of_moves skipRest_moves hskip hs₆
  exact ⟨_, hskip (hupdate (hset (hvalues (hcolumns hfilling))))⟩

/-! ## Statements -/

/-- In a select only the `WHERE` records conditions. -/
theorem select_wellFormed {c : Cursor} (hc : c.Closed) {s : ParseState SelectClauses}
    (h : select (ParseState.start c) = .ok () s) : ConditionsWellFormed s := by
  obtain ⟨r, rfl⟩ := select_eq_ok h
  have hs := ParseState.On.start (κ := SelectClauses) hc
  have hE : ∀ t c c', SelectClauses.Step t c c' → Scope.select.withoutConditions.clauses t c c' :=
    fun _ _ _ h => h
  obtain ⟨hhead, howners⟩ := selectHead_run hE r.selectHead hs
  have hmarked := (hhead.trans (fromClause_moves trivial r.fromClause)).trans
    (markTables_run r.markTables howners)
  have hnone : ConditionsWellFormed r.marked := by
    rw [ConditionsWellFormed, hmarked.conditions_eq hs id]
    exact .empty
  obtain ⟨hnarrowed, hkeeps⟩ := whereClause_wellFormed r.whereClause (hmarked.on hs)
  have hordered := r.run.on hs
  have hwell := (hkeeps hnone).of_run (E := Scope.select.withoutConditions) id
    (r.run_ordered hE) hnarrowed
  -- The limit only counts placeholders, and so does what is skipped.
  have hlimit := (limit_fresh r.limit hordered (limit_eq_of_run r.run hs)).1
  have hskip : Run (Scope.marksOnly _) c.tokens r.limited r.skipped := skipRest_moves r.skipRest
  have hle := Nat.le_trans hlimit (hskip.parameters_le (limit_on r.limit hordered))
  have hparameters : r.skipped.body.deriveColumns.deriveOrder.parameters =
      r.skipped.body.parameters := congrArg (·.parameters) (derive_routing _)
  obtain ⟨htables, hconditions⟩ := r.routing_eq hordered
  rw [ConditionsWellFormed, htables, hconditions, hparameters]
  exact hwell.mono fun _ _ hc => hc.mono (List.Subset.refl _) hle

theorem update_wellFormed {c : Cursor} (hc : c.Closed) {s : ParseState UpdateClauses}
    (h : update (ParseState.start c) = .ok () s) : ConditionsWellFormed s := by
  obtain ⟨s₁, s₂, hhead, hwhere, hskip⟩ := update_eq_ok h
  have hs := ParseState.On.start (κ := UpdateClauses) hc
  have hrun : Run (Scope.all _).withoutConditions c.tokens (ParseState.start c) s₁ :=
    updateHead_moves trivial (fun _ _ _ => trivial) hhead
  obtain ⟨hs₂, hkeeps⟩ := whereClause_wellFormed hwhere (hrun.on hs)
  have hskip : Run (Scope.marksOnly _) c.tokens s₂ s := skipRest_moves hskip
  exact .of_run id hskip hs₂ (hkeeps (.of_run id hrun hs .empty))

theorem delete_wellFormed {c : Cursor} (hc : c.Closed) {s : ParseState DeleteClauses}
    (h : delete (ParseState.start c) = .ok () s) : ConditionsWellFormed s := by
  obtain ⟨s₁, s₂, hhead, hwhere, hskip⟩ := delete_eq_ok h
  have hs := ParseState.On.start (κ := DeleteClauses) hc
  have hrun : Run (Scope.all _).withoutConditions c.tokens (ParseState.start c) s₁ :=
    deleteHead_moves trivial hhead
  obtain ⟨hs₂, hkeeps⟩ := whereClause_wellFormed hwhere (hrun.on hs)
  have hskip : Run (Scope.marksOnly _) c.tokens s₂ s := skipRest_moves hskip
  exact .of_run id hskip hs₂ (hkeeps (.of_run id hrun hs .empty))

end Grammar

namespace Statement

/-- The columns of an insert. -/
def insertedColumns : Statement → List Column
  | insert body => body.clauses.columns
  | select _ | update _ | delete _ => []

/-- The rows of an insert. -/
def insertedRows : Statement → List InsertedRow
  | insert body => body.clauses.rows
  | select _ | update _ | delete _ => []

/-- The conditions of the statement, and those of each of its rows. -/
def conditionSets (s : Statement) : List Conditions :=
  s.routing.conditions :: s.insertedRows.map InsertedRow.conditions

/-- In a statement without rows there are no conditions but its own. -/
theorem conditionSets_all {P : Condition → Prop} {s : Statement}
    (hconditions : s.routing.conditions.All P)
    (hrows : ∀ row ∈ s.insertedRows, row.conditions.All P) : ∀ cs ∈ s.conditionSets, cs.All P := by
  intro cs hcs
  rcases List.mem_cons.1 hcs with rfl | hcs
  · exact hconditions
  · obtain ⟨row, hrow, rfl⟩ := List.mem_map.1 hcs
    exact hrows row hrow

end Statement

/-- *Conditions are well-formed and resolved.* In every accepted statement, each condition, and each
    condition of one of its rows, is stored under its own column, is on a column of one of the
    tables, has as many values as its comparison takes, and has no values but literals and
    placeholders below the number of parameters. In an insert it says that one of the columns is
    equal to a value. -/
theorem parse_conditions {database : Database} {d : Dialect} {text : String} {s : Statement}
    (h : Statement.parse database d text = .ok s) :
    (∀ cs ∈ s.conditionSets, ∀ c ∈ cs.toList, cs.get? c.column = some c ∧
      c.WellFormed s.routing.tables s.routing.parameters) ∧
    (s.keyword = .INSERT → ∀ cs ∈ s.conditionSets, ∀ c ∈ cs.toList,
      c.comparison = .equal ∧ c.column ∈ s.insertedColumns) := by
  obtain ⟨cursor, hc, hread⟩ := Statement.parse_eq_ok h
  obtain ⟨_, hclosed, _⟩ := Cursor.ofText_eq_ok hc
  -- Only an insert has rows, and only there is more to say about the conditions.
  have hplain {P : Condition → Prop} {s : Statement} (hrows : s.insertedRows = [])
      (hconditions : s.routing.conditions.All P) :
      ∀ cs ∈ s.conditionSets, ∀ c ∈ cs.toList, cs.get? c.column = some c ∧ P c :=
    fun cs hcs c hc => by
      have hall := Statement.conditionSets_all hconditions (by simp [hrows]) cs hcs
      exact ⟨hall.stored c hc, hall.all c hc⟩
  cases hread with
  | select _ hs => exact ⟨hplain rfl (Grammar.select_wellFormed hclosed hs), by rintro ⟨⟩⟩
  | update _ hs => exact ⟨hplain rfl (Grammar.update_wellFormed hclosed hs), by rintro ⟨⟩⟩
  | delete _ hs => exact ⟨hplain rfl (Grammar.delete_wellFormed hclosed hs), by rintro ⟨⟩⟩
  | @insert s _ hs =>
    obtain ⟨table, hfilling⟩ := Grammar.insert_filling hclosed hs
    have hall := Statement.conditionSets_all (s := .insert s.body) hfilling.conditions hfilling.rows
    refine ⟨fun cs hcs c hc => ⟨(hall cs hcs).stored c hc, ((hall cs hcs).all c hc).wellFormed⟩,
      fun _ cs hcs c hc => ?_⟩
    exact ⟨((hall cs hcs).all c hc).comparison, ((hall cs hcs).all c hc).column⟩

/-- A value that is no literal leaves no condition behind, and the statement has those of its first
    row. -/
theorem parse_conditions_rows :
    ∃ s, Statement.parse .mySql .mySql "INSERT INTO t (a, b) VALUES (?, b + 1), (2, ?)" = .ok s ∧
      s.keyword = .INSERT ∧
      s.conditionSets.map (·.toList.map Condition.indices) = [[[0]], [[0]], [[], [1]]] ∧
      (∀ cs ∈ s.conditionSets, ∀ c ∈ cs.toList, cs.get? c.column = some c ∧
        c.WellFormed s.routing.tables s.routing.parameters) ∧
      ∀ cs ∈ s.conditionSets, ∀ c ∈ cs.toList,
        c.comparison = .equal ∧ c.column ∈ s.insertedColumns := by
  have hmap : (Statement.parse .mySql .mySql
      "INSERT INTO t (a, b) VALUES (?, b + 1), (2, ?)").map (fun s =>
        (s.keyword, s.conditionSets.map (·.toList.map Condition.indices))) =
          .ok (.INSERT, [[[0]], [[0]], [[], [1]]]) := by decide +kernel
  obtain ⟨s, hparse, hs⟩ := Statement.exists_of_map hmap
  obtain ⟨hkeyword, hindices⟩ := Prod.mk.inj hs
  obtain ⟨hwell, hinsert⟩ := parse_conditions hparse
  exact ⟨s, hparse, hkeyword, hindices, hwell, hinsert hkeyword⟩

end SqlRouting
