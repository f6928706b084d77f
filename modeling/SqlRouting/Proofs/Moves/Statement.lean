import SqlRouting.Parse
import SqlRouting.Proofs.Moves.Select

/-!
# Moves of statements

Tables, assignments and insertions only make moves, and so do the statements made of them, up to
where a limit or the columns derived from a select are recorded.
-/

namespace SqlRouting

namespace Grammar

open SqlRouting.Parser

variable {κ : Type} {stream : List Token}

/-! ## Tables -/

section

variable {E : Scope κ} {s s' : ParseState κ}

/-- The name of a table is a token of the stream. -/
theorem tableName_run {t : Token} (h : tableName s = .ok t s') (hs : s.On stream) :
    Run E stream s s' ∧ t ∈ stream ∧ t.kind = LiteralClass.identifier := by
  simp only [tableName, current_bind, cursor_bind, ite_eq_ok, bind_eq_ok, pure_eq_ok,
    unexpected_eq_ok, throw_eq_ok, false_and, and_false, exists_false, false_or] at h
  obtain ⟨hname, _, s₁, hadvance, _, rfl, rfl⟩ := h
  have hkind : s.cursor.current.kind = LiteralClass.identifier := by
    simpa [Cursor.isName] using hname
  exact ⟨advance_run hadvance (by simp [hkind]), hs.current_mem, hkind⟩

variable (hT : E.tables)

include hT

/-- A table is recorded and marked where it is mentioned. -/
theorem recordTable_run {t : Token} {asName : Option String} {u : Unit}
    (h : recordTable t asName s = .ok u s') (ht : t ∈ stream)
    (hkind : t.kind = LiteralClass.identifier) : Run E stream s s' := by
  obtain ⟨_, s₁, htable, hmark⟩ := bind_eq_ok.1 h
  obtain rfl := modifyRouting_eq_ok.1 htable
  obtain rfl := addMark_eq_ok.1 hmark
  exact (Run.of_move (.table hT _)).trans (.of_move (.mark ht (.table hkind)))

theorem tableFactor_moves : Moves E (tableFactor (κ := κ)) := by
  intro stream s u s' h hs
  simp only [tableFactor, cursor_bind, ite_eq_ok, bind_eq_ok, throw_eq_ok, false_and, and_false,
    exists_false, false_or] at h
  obtain ⟨_, t, s₁, hname, asName, s₂, halias, hrecord⟩ := h
  obtain ⟨hrun, ht, hkind⟩ := tableName_run (E := E) hname hs
  exact ((hrun.trans (tableAlias_moves halias)).trans (recordTable_run hT hrecord ht hkind)) hs

omit hT in
theorem tableHints_moves : Moves E (tableHints (κ := κ)) := by
  refine dialect_moves.bind fun d => (skipKeyword_moves _).bind fun _ =>
    .ite (skipParentheses_moves.bind fun _ => ?_) ?_
  all_goals
    exact loop_moves <| (skipKeyword_moves _).bind fun _ => .ite
      ((skipAll_moves _).bind fun _ => skipParentheses_moves.bind fun _ => .pure _) (.pure _)

omit hT in
theorem joinType_moves : Moves E (joinType (κ := κ)) :=
  dialect_moves.bind fun _ => cursor_moves.bind fun _ =>
    (loop_moves (skipKeyword_moves _)).bind fun _ => .pure _

omit hT in
theorem joinCondition_moves : Moves E (joinCondition (κ := κ)) :=
  (skipKeyword_moves _).bind fun _ => .ite
    ((separatedBy_moves (operand_moves.bind fun _ => (accept_moves (by decide)).bind fun _ =>
      operand_moves.bind fun _ => .pure _) (skipKeyword_moves _)).bind fun _ => .pure _) <|
    (skipKeyword_moves _).bind fun _ => .ite (skipParentheses_moves.bind fun _ => .pure _) (.pure _)

theorem joinedTable_moves : Moves E (joinedTable (κ := κ)) :=
  joinType_moves.bind fun _ => .ite
    (cursor_moves.bind fun _ => .ite (.throw_bind ..) <|
      (tableFactor_moves hT).bind fun _ => tableHints_moves.bind fun _ =>
        joinCondition_moves.bind fun _ => .pure _)
    (.pure _)

theorem tableReference_moves : Moves E (tableReference (κ := κ)) :=
  (tableFactor_moves hT).bind fun _ => tableHints_moves.bind fun _ =>
    loop_moves (joinedTable_moves hT)

theorem tableReferences_moves (single : Bool) : Moves E (tableReferences (κ := κ) single) :=
  (commaSeparated_moves (tableReference_moves hT)).bind fun _ => routing_moves.bind fun _ =>
    .ite (.throw _) (.pure _)

end

/-! ## Assignments -/

section

variable {E : Scope UpdateClauses} (hE : ∀ t c c', E.clauses t c c')

include hE

theorem assignment_moves : Moves E assignment :=
  refuseEnd_moves.bind fun _ => operand_moves.bind fun target =>
    (skipIf_moves (by decide)).bind fun _ => refuseEnd_moves.bind fun _ =>
      operand_moves.bind fun value => routing_moves.bind fun r => by
        cases r.tables.column? target with
        | some column => exact modifyClauses_moves fun _ _ => hE ..
        | none => exact .pure _

theorem assignments_moves : Moves E assignments :=
  (accept_moves (by decide)).bind fun _ =>
    (commaSeparated_moves (assignment_moves hE)).bind fun _ => .pure _

end

/-! ## Insertions -/

section

variable {E : Scope InsertClauses} {s s' : ParseState InsertClauses}

theorem insertTable_moves : Moves E insertTable :=
  routing_moves.bind fun _ => .pure _

theorem insertInto_moves (hT : E.tables) : Moves E insertInto := by
  intro stream s u s' h hs
  simp only [insertInto, dialect_bind, bind_eq_ok] at h
  obtain ⟨_, s₁, hskip, _, s₂, haccept, t, s₃, hname, _, s₄, hrecord, h⟩ := h
  have hrun : Run E stream s s₂ :=
    (skipAll_moves _ hskip).trans (accept_moves (by decide) haccept)
  obtain ⟨hrun', ht, hkind⟩ := tableName_run (E := E) hname (hrun.on hs)
  refine (((hrun.trans hrun').trans (recordTable_run hT hrecord ht hkind)).trans ?_) hs
  exact loop_moves ((skipKeyword_moves _).bind fun _ =>
    .ite (skipParentheses_moves.bind fun _ => .pure _) (.pure _)) h

theorem columnOfTable_moves (table : Option String) (target : Expression) :
    Moves E (columnOfTable table target) := by
  unfold columnOfTable
  split
  · exact .pure _
  · exact unexpected_moves

theorem markRows_moves : Moves E markRows := by
  intro stream s u s' h hs
  simp only [markRows, insertTable, current_bind, routing_bind, bind_eq_ok, pure_eq_ok] at h
  obtain ⟨_, _, ⟨rfl, rfl⟩, h⟩ := h
  obtain rfl := addMark_eq_ok.1 h
  exact .single (.mark hs.current_mem (.insertValues _))

theorem modifyConditions_moves (hC : E.conditions) (cs : Conditions) :
    Moves E (modifyRouting (κ := InsertClauses) fun r => { r with conditions := cs }) := by
  intro stream s u s' h
  obtain rfl := modifyRouting_eq_ok.1 h
  exact .of_move (.conditions hC cs)

theorem adoptFirstRow_moves (hC : E.conditions) : Moves E adoptFirstRow :=
  clauses_moves.bind fun i => by
    cases i.rows.head? with
    | some row => exact modifyConditions_moves hC _
    | none => exact .pure _

end

/-! ### What keeps the rows -/

section

variable {E : Scope InsertClauses} {s s' : ParseState InsertClauses}
  (hE : ∀ t c c', c'.rows = c.rows → E.clauses t c c')

include hE

theorem addColumn_moves (column : Column) : Moves E (addColumn column) :=
  modifyClauses_moves fun _ _ => hE _ _ _ rfl

theorem setRowsStop_moves (stop : Nat) : Moves E (setRowsStop stop) :=
  modifyClauses_moves fun _ _ => hE _ _ _ rfl

theorem insertColumns_moves : Moves E insertColumns := by
  refine (skipSymbol_moves (by decide)).bind fun _ => .ite ?_ (.pure _)
  refine insertTable_moves.bind fun table => (commaSeparated_moves ?_).bind fun _ =>
    current_moves.bind fun _ => (modifyClauses_moves fun _ _ => hE _ _ _ (by rfl)).bind fun _ =>
      accept_moves (by decide)
  intro stream s u s' h
  simp only [cursor_bind, current_bind, ite_eq_ok, bind_eq_ok, unexpected_eq_ok, false_and,
    and_false, exists_false, false_or] at h
  obtain ⟨hname, _, s₁, hcolumn, hadvance⟩ := h
  have hrun : Run E stream s s₁ := addColumn_moves hE _ hcolumn
  obtain rfl := modifyClauses_eq_ok.1 hcolumn
  -- A column is recorded while the cursor is still on its name.
  refine hrun.trans (advance_run hadvance fun hq => ?_)
  have hq : s.cursor.current.kind = .symbol .question := hq
  simp [Cursor.isName, hq] at hname

theorem insertAssignment_moves (table : Option String) : Moves E (insertAssignment table) :=
  cursor_moves.bind fun _ => .ite (unexpected_bind_moves _) <|
    operand_moves.bind fun _ => (columnOfTable_moves ..).bind fun _ =>
      (accept_moves (by decide)).bind fun _ => operand_moves.bind fun _ =>
        (addColumn_moves hE _).bind fun _ => .pure _

theorem duplicateKeyAssignment_moves (table : Option String) :
    Moves E (duplicateKeyAssignment table) :=
  operand_moves.bind fun _ => (columnOfTable_moves ..).bind fun _ =>
    (modifyClauses_moves fun _ _ => hE _ _ _ (by rfl)).bind fun _ =>
      (accept_moves (by decide)).bind fun _ => (skipKeyword_moves _).bind fun _ => .ite
        ((accept_moves (by decide)).bind fun _ => operand_moves.bind fun _ =>
          accept_moves (by decide))
        (operand_moves.bind fun _ => .pure _)

theorem duplicateKeyUpdate_moves : Moves E duplicateKeyUpdate :=
  dialect_moves.bind fun _ => (skipKeyword_moves _).bind fun _ => .ite
    ((accept_moves (by decide)).bind fun _ => (accept_moves (by decide)).bind fun _ =>
      (accept_moves (by decide)).bind fun _ => insertTable_moves.bind fun _ =>
        (commaSeparated_moves (duplicateKeyAssignment_moves hE _)).bind fun _ => .pure _)
    (.pure _)

end

/-! ### Rows -/

section

variable {E : Scope InsertClauses} (hE : ∀ t c c', E.clauses t c c')

include hE

theorem addRow_moves (row : InsertedRow) : Moves E (addRow row) :=
  modifyClauses_moves fun _ _ => hE ..

theorem insertRow_moves (keyword : Keyword) : Moves E (insertRow keyword) :=
  current_moves.bind fun _ => routing_moves.bind fun _ => (accept_moves (by decide)).bind fun _ =>
    (commaSeparated_moves operand_moves).bind fun _ => current_moves.bind fun _ =>
      (accept_moves (by decide)).bind fun _ => clauses_moves.bind fun _ => .ite (.throw_bind ..) <|
        (slice_moves ..).bind fun _ => (placeholdersSince_moves _).bind fun _ =>
          (addRow_moves hE _).bind fun _ => setRowsStop_moves (fun _ _ _ _ => hE ..) _

theorem insertValues_moves (hC : E.conditions) : Moves E insertValues := by
  intro stream s u s' h
  simp only [insertValues, current_bind] at h
  generalize hkind : s.cursor.current.kind = kind at h
  split at h
  case h_2 => exact (pure_eq_ok.1 h).2 ▸ .refl
  case h_1 k =>
    simp only [dialect_bind, ite_eq_ok, pure_eq_ok] at h
    rcases h with ⟨_, h⟩ | ⟨_, _, rfl⟩
    · obtain ⟨_, s₁, hadvance, h⟩ := bind_eq_ok.1 h
      refine (advance_run hadvance (by simp [hkind])).trans ?_
      exact (markRows_moves.bind fun _ =>
        (commaSeparated_moves (insertRow_moves hE k)).bind fun _ => adoptFirstRow_moves hC) h
    · exact .refl

theorem insertSet_moves (hC : E.conditions) : Moves E insertSet :=
  dialect_moves.bind fun _ => (skipKeyword_moves _).bind fun _ => .ite
    (current_moves.bind fun _ => routing_moves.bind fun _ => markRows_moves.bind fun _ =>
      insertTable_moves.bind fun _ =>
        (commaSeparated_moves (insertAssignment_moves (fun _ _ _ _ => hE ..) _)).bind fun _ =>
          (textSince_moves _).bind fun _ =>
            (setRowsStop_moves (fun _ _ _ _ => hE ..) _).bind fun _ =>
              (placeholdersSince_moves _).bind fun _ => (addRow_moves hE _).bind fun _ =>
                modifyConditions_moves hC _)
    (.pure _)

end

/-! ## Statements -/

/-- An insertion that is read is a run, behind which the rest is skipped. -/
theorem insert_run {s s' : ParseState InsertClauses} {u : Unit} (h : insert s = .ok u s') :
    ∃ s₁, Run (Scope.all _) stream s s₁ ∧ skipRest s₁ = .ok () s' := by
  simp only [insert, bind_eq_ok, cursor_bind, ite_eq_ok, throw_eq_ok, false_and, and_false,
    exists_false, false_or] at h
  obtain ⟨_, s₁, haccept, _, s₂, hinto, _, s₃, hcolumns, _, _, s₄, hvalues, _, s₅, hset, _, s₆,
    hupdate, hskip⟩ := h
  have hinto : Run (Scope.all _) stream s₁ s₂ := insertInto_moves trivial hinto
  have hcolumns : Run (Scope.all _) stream s₂ s₃ :=
    insertColumns_moves (fun _ _ _ _ => trivial) hcolumns
  have hvalues : Run (Scope.all _) stream s₃ s₄ :=
    insertValues_moves (fun _ _ _ => trivial) trivial hvalues
  have hset : Run (Scope.all _) stream s₄ s₅ :=
    insertSet_moves (fun _ _ _ => trivial) trivial hset
  have hupdate : Run (Scope.all _) stream s₅ s₆ :=
    duplicateKeyUpdate_moves (fun _ _ _ _ => trivial) hupdate
  exact ⟨s₆, (((accept_moves (by decide) haccept).trans hinto).trans hcolumns).trans
    ((hvalues.trans hset).trans hupdate), hskip⟩

theorem updateHead_moves {E : Scope UpdateClauses} (hT : E.tables)
    (hE : ∀ t c c', E.clauses t c c') : Moves E updateHead :=
  (accept_moves (by decide)).bind fun _ => dialect_moves.bind fun _ =>
    (skipAll_moves _).bind fun _ => (tableReferences_moves hT _).bind fun _ =>
      (assignments_moves hE).bind fun _ => skipUntil_moves _

theorem deleteHead_moves {E : Scope DeleteClauses} (hT : E.tables) : Moves E deleteHead :=
  (accept_moves (by decide)).bind fun _ => dialect_moves.bind fun _ =>
    (skipAll_moves _).bind fun _ => (skipKeyword_moves _).bind fun _ =>
      (tableReferences_moves hT _).bind fun _ => skipUntil_moves _

/-- An update that is read is what comes before its `WHERE`, this clause, and the rest. -/
theorem update_eq_ok {s s' : ParseState UpdateClauses} {u : Unit} (h : update s = .ok u s') :
    ∃ s₁ s₂, updateHead s = .ok () s₁ ∧ whereClause s₁ = .ok () s₂ ∧ skipRest s₂ = .ok () s' := by
  simp only [update, bind_eq_ok] at h
  obtain ⟨_, s₁, hhead, _, s₂, hwhere, hskip⟩ := h
  exact ⟨s₁, s₂, hhead, hwhere, hskip⟩

theorem update_run {s s' : ParseState UpdateClauses} {u : Unit} (h : update s = .ok u s') :
    ∃ s₁, Run (Scope.all _) stream s s₁ ∧ skipRest s₁ = .ok () s' := by
  obtain ⟨s₁, s₂, hhead, hwhere, hskip⟩ := update_eq_ok h
  have hhead : Run (Scope.all _) stream s s₁ :=
    updateHead_moves trivial (fun _ _ _ => trivial) hhead
  exact ⟨s₂, hhead.trans (whereClause_moves trivial hwhere), hskip⟩

/-- A deletion that is read is what comes before its `WHERE`, this clause, and the rest. -/
theorem delete_eq_ok {s s' : ParseState DeleteClauses} {u : Unit} (h : delete s = .ok u s') :
    ∃ s₁ s₂, deleteHead s = .ok () s₁ ∧ whereClause s₁ = .ok () s₂ ∧ skipRest s₂ = .ok () s' := by
  simp only [delete, bind_eq_ok] at h
  obtain ⟨_, s₁, hhead, _, s₂, hwhere, hskip⟩ := h
  exact ⟨s₁, s₂, hhead, hwhere, hskip⟩

theorem delete_run {s s' : ParseState DeleteClauses} {u : Unit} (h : delete s = .ok u s') :
    ∃ s₁, Run (Scope.all _) stream s s₁ ∧ skipRest s₁ = .ok () s' := by
  obtain ⟨s₁, s₂, hhead, hwhere, hskip⟩ := delete_eq_ok h
  have hhead : Run (Scope.all _) stream s s₁ := deleteHead_moves trivial hhead
  exact ⟨s₂, hhead.trans (whereClause_moves trivial hwhere), hskip⟩

/-! ## Selects -/

/-- Deriving columns and an order adds nothing but marks to the routing of a select. -/
theorem derive_routing (b : Body SelectClauses) : b.deriveColumns.deriveOrder.toRouting =
    { b.toRouting with marks := b.deriveColumns.deriveOrder.marks } := by
  rw [Body.deriveOrder]
  split
  · rfl
  · rfl

theorem derive_limit (b : Body SelectClauses) :
    b.deriveColumns.deriveOrder.clauses.limit = b.clauses.limit := by
  rw [Body.deriveOrder]
  split
  · rfl
  · rfl

theorem selectHead_run {E : Scope SelectClauses}
    (hE : ∀ t c c', SelectClauses.Step t c c' → E.clauses t c c')
    {s s' : ParseState SelectClauses} {owners : List Token} (h : selectHead s = .ok owners s')
    (hs : s.On stream) : Run E stream s s' ∧ ∀ t ∈ owners, t ∈ stream := by
  simp only [selectHead, bind_eq_ok] at h
  obtain ⟨_, s₁, haccept, _, s₂, hdistinct, _, s₃, hoptions, hlist⟩ := h
  have hrun : Run E stream s s₃ := ((accept_moves (by decide) haccept).trans
    (distinct_moves hdistinct)).trans (selectOptions_moves hoptions)
  obtain ⟨hrun', howners⟩ := selectList_run hE hlist (hrun.on hs)
  exact ⟨hrun.trans hrun', howners⟩

theorem fromClause_moves {E : Scope κ} (hT : E.tables) : Moves E (fromClause (κ := κ)) :=
  (refuse_moves _).bind fun _ => (skipKeyword_moves _).bind fun _ =>
    .ite (tableReferences_moves hT _) (.pure _)

theorem markTables_run {E : Scope κ} {s s' : ParseState κ} {names : List Token} {u : Unit}
    (h : markTables names s = .ok u s') (hnames : ∀ t ∈ names, t ∈ stream) :
    Run E stream s s' := by
  induction names generalizing s with
  | nil => exact (pure_eq_ok.1 h).2 ▸ .refl
  | cons t names ih =>
    have h : (markOwner t >>= fun _ => markTables names) s = .ok u s' := h
    obtain ⟨_, s₁, hmark, h⟩ := bind_eq_ok.1 h
    exact (markOwner_run hmark (hnames t (List.mem_cons_self ..))).trans
      (ih h fun t ht => hnames t (List.mem_cons_of_mem _ ht))

/-- A run of a select: the states between its clauses, and the one behind the tokens
    that are skipped at its end. -/
structure SelectRun (start : ParseState SelectClauses) where
  owners : List Token
  asName : Option String
  (listed joined marked aliased narrowed grouped ordered limited skipped :
    ParseState SelectClauses)
  selectHead : selectHead start = .ok owners listed
  fromClause : fromClause listed = .ok () joined
  markTables : markTables owners joined = .ok () marked
  tableAlias : tableAlias marked = .ok asName aliased
  whereClause : whereClause marked = .ok () narrowed
  groupBy : groupBy narrowed = .ok () grouped
  having : having grouped = .ok () grouped
  orderBy : orderBy grouped = .ok () ordered
  limit : limit ordered = .ok () limited
  selectRest : selectRest limited = .ok () limited
  skipRest : skipRest limited = .ok () skipped

/-- A select that is read has a run, behind which its columns are derived. -/
theorem select_eq_ok {s s' : ParseState SelectClauses} {u : Unit} (h : select s = .ok u s') :
    ∃ r : SelectRun s, s' = { r.skipped with
      body := r.skipped.body.deriveColumns.deriveOrder } := by
  simp only [select, selectClauses, bind_eq_ok, modify_eq_ok] at h
  obtain ⟨owners, listed, hhead, _, limited', ⟨_, joined, hfrom, _, marked, hmark, _, narrowed,
    hwhere, _, grouped, hgroup, _, grouped', hhaving, _, ordered, horder, _, limited, hlimit,
    hrest⟩, _, skipped, hskip, rfl⟩ := h
  -- What only refuses leaves the state as it is.
  have hgrouped : grouped = grouped' := (refuse_eq_ok.1 hhaving).2
  have hlimited : limited = limited' := by
    simp only [selectRest, bind_eq_ok, dialect_bind] at hrest
    obtain ⟨_, _, h, h'⟩ := hrest
    exact (refuse_eq_ok.1 h).2.trans (refuse_eq_ok.1 h').2
  subst hgrouped hlimited
  obtain ⟨asName, aliased, halias, _⟩ := whereClause_eq_ok hwhere
  exact ⟨⟨owners, asName, listed, joined, marked, aliased, narrowed, grouped, ordered, limited,
    skipped, hhead, hfrom, hmark, halias, hwhere, hgroup, hhaving, horder, hlimit, hrest, hskip⟩,
    rfl⟩

namespace SelectRun

variable {s : ParseState SelectClauses}

/-- Between its `WHERE` and its limit a select only changes its clauses. -/
theorem run_ordered {E : Scope SelectClauses}
    (hE : ∀ t c c', SelectClauses.Step t c c' → E.clauses t c c') (r : SelectRun s) :
    Run E stream r.narrowed r.ordered :=
  (groupBy_moves hE r.groupBy).trans (orderBy_moves hE r.orderBy)

/-- Every clause of a select before its limit is a run. -/
theorem runs (r : SelectRun s) (hs : s.On stream) :
    Run Scope.select stream s r.listed ∧ Run Scope.select stream r.listed r.joined ∧
      Run Scope.select stream r.joined r.marked ∧ Run Scope.select stream r.marked r.narrowed ∧
      Run Scope.select stream r.narrowed r.grouped ∧
      Run Scope.select stream r.grouped r.ordered := by
  have hE : ∀ t c c', SelectClauses.Step t c c' → Scope.select.clauses t c c' := fun _ _ _ h => h
  obtain ⟨hlisted, howners⟩ := selectHead_run hE r.selectHead hs
  exact ⟨hlisted, fromClause_moves trivial r.fromClause, markTables_run r.markTables howners,
    whereClause_moves trivial r.whereClause, groupBy_moves hE r.groupBy, orderBy_moves hE r.orderBy⟩

/-- Up to its limit a select is a run. -/
theorem run (r : SelectRun s) : Run Scope.select stream s r.ordered := by
  intro hs
  obtain ⟨hlisted, hjoined, hmarked, hnarrowed, hgrouped, hordered⟩ := r.runs hs
  exact ((((hlisted.trans hjoined).trans hmarked).trans hnarrowed).trans
    (hgrouped.trans hordered)) hs

/-- From its limit on a select leaves its tables and conditions as they are. -/
theorem routing_eq (r : SelectRun s) (hs : r.ordered.On stream) :
    r.skipped.body.deriveColumns.deriveOrder.tables = r.ordered.body.tables ∧
      r.skipped.body.deriveColumns.deriveOrder.conditions = r.ordered.body.conditions := by
  have hlimited : r.limited.body.tables = r.ordered.body.tables ∧
      r.limited.body.conditions = r.ordered.body.conditions := by
    rcases limit_eq_ok (E := Scope.marksOnly _) r.limit hs with
      ⟨_, heq⟩ | ⟨_, s₁, _, _, _, hrun, _, _, _, heq⟩
    · rw [heq]
      exact ⟨rfl, rfl⟩
    · rw [heq]
      exact ⟨hrun.tables_eq hs id, hrun.conditions_eq hs id⟩
  obtain ⟨n, hskipped⟩ := skipRest_body r.skipRest
  have hderived := derive_routing r.skipped.body
  rw [← hlimited.1, ← hlimited.2]
  exact ⟨(congrArg (·.tables) hderived).trans (congrArg (·.tables) hskipped),
    (congrArg (·.conditions) hderived).trans (congrArg (·.conditions) hskipped)⟩

/-- Behind its `WHERE` a select records no conditions. -/
theorem conditions_eq (r : SelectRun s) (hs : r.narrowed.On stream) :
    r.skipped.body.deriveColumns.deriveOrder.conditions = r.narrowed.body.conditions := by
  have hrun : Run Scope.select.withoutConditions stream r.narrowed r.ordered :=
    r.run_ordered fun _ _ _ h => h
  exact (r.routing_eq (hrun.on hs)).2.trans (hrun.conditions_eq hs id)

end SelectRun

end Grammar

/-! ## Texts -/

/-- The outcomes of parses can be compared. -/
instance decidableEqOutcome {ε α : Type} [DecidableEq ε] [DecidableEq α] :
    DecidableEq (Except ε α)
  | .ok a, .ok b => decidable_of_iff (a = b) (by simp)
  | .error e, .error e' => decidable_of_iff (e = e') (by simp)
  | .ok _, .error _ | .error _, .ok _ => isFalse (by simp)

namespace Statement

/-- The statement is what the parser for the first token has read from the cursor on. -/
inductive Read (c : Cursor) : Statement → Prop
  | select {s} (hkind : c.current.kind = .keyword .SELECT)
    (h : Grammar.select (ParseState.start c) = .ok () s) : Read c (.select s.body)
  | insert {s} (hkind : c.current.kind = .keyword .INSERT)
    (h : Grammar.insert (ParseState.start c) = .ok () s) : Read c (.insert s.body)
  | update {s} (hkind : c.current.kind = .keyword .UPDATE)
    (h : Grammar.update (ParseState.start c) = .ok () s) : Read c (.update s.body)
  | delete {s} (hkind : c.current.kind = .keyword .DELETE)
    (h : Grammar.delete (ParseState.start c) = .ok () s) : Read c (.delete s.body)

theorem ofParser_eq_ok {κ : Type} [Inhabited κ] {parser : Parser κ Unit} {f : Body κ → Statement}
    {c : Cursor} {s : Statement} (h : (ofParser parser f c).1 = .ok s) :
    ∃ s', parser (ParseState.start c) = .ok () s' ∧ s = f s'.body := by
  rw [ofParser] at h
  cases hrun : parser (ParseState.start c) with
  | ok u s' =>
    rw [hrun] at h
    cases h
    exact ⟨s', rfl, rfl⟩
  | error e s' =>
    rw [hrun] at h
    cases h

theorem read_of_ofCursor {c : Cursor} {s : Statement} (h : (ofCursor c).1 = .ok s) :
    Read c s := by
  rw [ofCursor] at h
  split at h
  case h_1 hkind => obtain ⟨_, hrun, rfl⟩ := ofParser_eq_ok h; exact .select hkind hrun
  case h_2 hkind => obtain ⟨_, hrun, rfl⟩ := ofParser_eq_ok h; exact .insert hkind hrun
  case h_3 hkind => obtain ⟨_, hrun, rfl⟩ := ofParser_eq_ok h; exact .update hkind hrun
  case h_4 hkind => obtain ⟨_, hrun, rfl⟩ := ofParser_eq_ok h; exact .delete hkind hrun
  case h_5 => cases h

/-- A statement is of the kind that its first token tells. -/
theorem Read.kind_eq {c : Cursor} {s : Statement} (h : Read c s) :
    c.current.kind = .keyword s.keyword := by
  cases h with
  | select hkind _ => exact hkind
  | insert hkind _ => exact hkind
  | update hkind _ => exact hkind
  | delete hkind _ => exact hkind

/-- A statement that is parsed has been read from the start of its text. -/
theorem parse_eq_ok {database : Database} {d : Dialect} {text : String} {s : Statement}
    (h : parse database d text = .ok s) :
    ∃ c, Cursor.ofText database d text = .ok c ∧ Read c s := by
  rw [parse, parseTraced] at h
  cases hc : Cursor.ofText database d text with
  | error e =>
    rw [hc] at h
    cases h
  | ok c =>
    rw [hc] at h
    exact ⟨c, rfl, read_of_ofCursor h⟩

end Statement

/-- What is known of the outcome of a parse is known of a statement. -/
theorem Statement.exists_of_map {α : Type} {r : Except ParseError Statement} {f : Statement → α}
    {a : α} (h : r.map f = .ok a) : ∃ s, r = .ok s ∧ f s = a := by
  cases r with
  | error e => cases h
  | ok s => exact ⟨s, rfl, Except.ok.inj h⟩

/-- A parse starts on the first of the tokens that it reads. -/
theorem ParseState.On.start {κ : Type} [Inhabited κ] {c : Cursor} (h : c.Closed) :
    (ParseState.start c : ParseState κ).On c.tokens :=
  ⟨List.suffix_rfl, h⟩

/-- The tokens from where a parser has left the cursor. -/
def tokensLeft {κ : Type} : EStateM.Result ParseError (ParseState κ) Unit → List Token
  | .ok _ s => s.cursor.tokens
  | .error _ _ => []

end SqlRouting
