import SqlRouting.Proofs.AtEnd.Where

/-!
# Assignments and rows that the text ends in

The clauses of an update and of an insert in which an operand is due. Only the assignments of an
update look out for the end of the text before they read a value.
-/

namespace SqlRouting.Grammar

open SqlRouting.Parser

variable {text : List Char} {missing : Missing} {place : OperandPlace}

/-! ## Updates -/

theorem assignmentTarget_safe : Safe text assignmentTarget :=
  refuseEnd_safe.bind fun _ => operand_safe.bind fun _ => (skipIf_safe _).bind fun _ => .pure _

theorem AssignmentDue.finishes {s s' : ParseState UpdateClauses} (hs : s.cursor.Stands text)
    (hlacks : Lacks missing s') (h : AssignmentDue place s s') :
    Finishes text (place.failure text missing) s assignments := by
  have hbehind {s₁ s₂ : ParseState UpdateClauses} {failure : Option ParseError}
      (hset : accept Keyword.SET s = .ok () s₁)
      (hbefore : Items (skipSymbol .comma) assignment s₁ s₂)
      (hlast : s₂.cursor.Stands text → Finishes text failure s₂ assignment) :
      Finishes text failure s assignments := by
    have hs₁ := ((accept_safe _).stands hs hset).stands
    have hs₂ := hbefore.stands (assignment_safe.bind fun _ => skipSymbol_safe _) hs₁
    exact .of_bind hset ((commaSeparated_finishes (E := .all _)
      (assignment_moves fun _ _ _ => trivial) hs₁.closed hbefore (hlast hs₂)).bind_none
        fun _ _ _ hend => .pure hend ())
  cases h with
  | target hset hbefore =>
    refine hbehind hset hbefore fun hs' => hlacks.guarded hs' fun _ =>
      (hlacks.finishes hs').bind fun _ _ _ hend => ?_
    exact .of_bind (skipIf_atEnd hend (by simp)) (.bind_some (.of_error (refuseEnd_atEnd hend)))
  | assigned hset hbefore htarget =>
    refine hbehind hset hbefore fun hs₂ => ?_
    have hs' := (assignmentTarget_safe.stands hs₂ htarget).stands
    simp only [assignmentTarget, bind_eq_ok, pure_eq_ok] at htarget
    obtain ⟨_, _, hrefuse, target, _, htarget, _, _, hskip, rfl, rfl⟩ := htarget
    refine .of_bind hrefuse (.of_bind htarget (.of_bind hskip ?_))
    refine hlacks.guarded hs' fun _ => (hlacks.finishes hs').bind fun _ _ _ hend => ?_
    rw [routing_bind_finishes]
    split
    · exact modifyClauses_finishes hend _
    · exact .pure hend ()

/-! ## Rows -/

section

variable {s s' : ParseState InsertClauses}

section

variable (h : s.AtEnd text)
include h

theorem insertSet_atEnd : insertSet s = .ok () s := by
  rw [insertSet, dialect_bind, bind_of_eq_ok (skipKeyword_atEnd h _)]
  rfl

theorem duplicateKeyUpdate_atEnd : duplicateKeyUpdate s = .ok () s := by
  rw [duplicateKeyUpdate, dialect_bind, bind_of_eq_ok (skipKeyword_atEnd h _)]
  rfl

theorem adoptFirstRow_finishes : Finishes text none s adoptFirstRow := by
  refine .of_bind (a := s.body.clauses) rfl ?_
  split
  · exact modifyRouting_finishes h _
  · exact .pure h ()

end

theorem insertedColumn_safe (table : Option String) : Safe text (insertedColumn table) :=
  cursor_bind_safe fun _ _ => .ite (unexpected_bind_safe _) <| operand_safe.bind fun _ =>
    (columnOfTable_safe _ _).bind fun _ => (accept_safe _).bind fun _ => .pure _

theorem duplicateColumn_safe (table : Option String) : Safe text (duplicateColumn table) :=
  operand_safe.bind fun _ => (columnOfTable_safe _ _).bind fun _ =>
    (modifyClauses_safe _).bind fun _ => accept_safe _

/-- An assignment behind `ON DUPLICATE KEY UPDATE` from its value on. -/
theorem duplicateKeyAssignment_finishes {table : Option String} {failure : Option ParseError}
    (hcolumn : duplicateColumn table s = .ok () s')
    (hvalue : Finishes text failure s' (do
      if ← skipKeyword [.VALUES] then
        accept Symbol.leftParen
        let _ ← operand
        accept Symbol.rightParen
      else
        let _ ← operand)) :
    Finishes text failure s (duplicateKeyAssignment table) := by
  simp only [duplicateColumn, bind_eq_ok] at hcolumn
  obtain ⟨e, _, hleft, column, _, hcolumn, _, _, hrecord, hequal⟩ := hcolumn
  exact .of_bind hleft (.of_bind hcolumn (.of_bind hrecord (.of_bind hequal hvalue)))

section

variable (hs : s.cursor.Stands text)
include hs

/-- Only with its owner and without signs a name that is missing names a column. -/
theorem column_finishes {α : Type} {failure : Option ParseError}
    {f : Column → Parser InsertClauses α} (table : Option String) (hlacks : Lacks missing s)
    (hf : ∀ column s₁, s₁.AtEnd text → Finishes text failure s₁ (f column)) :
    Finishes text ((missing.columnFailure text).or failure) s
      (operand >>= fun e => columnOfTable table e >>= f) := by
  have hnone {e : Expression} {s₁ : ParseState InsertClauses} (he : e.columnName? = none)
      (hend : s₁.AtEnd text) :
      Finishes text (some (.atEnd text)) s₁ (columnOfTable table e >>= f) := by
    rw [columnOfTable, he]
    exact .bind_some (.of_error (unexpected_atEnd hend))
  cases missing with
  | operand =>
    cases hlacks with
    | operand hend =>
      exact .of_bind (operand_atEnd ⟨hs, hend⟩) (hnone rfl ⟨hs, hend⟩)
  | signed | joined => exact .bind_some (hlacks.finishes hs)
  | name signed =>
    obtain ⟨e, s₁, hrun, -, hcolumn, hend⟩ := operand_name hs hlacks
    refine .of_bind hrun ?_
    cases signed with
    | true => exact hnone (by simpa using hcolumn) hend
    | false =>
      obtain ⟨name, hname⟩ := Option.isSome_iff_exists.1 hcolumn
      rw [columnOfTable, hname]
      exact .of_bind (a := ⟨name, table⟩) rfl (hf _ _ hend)

end

section

variable (hs : s.cursor.Stands text) (hlacks : Lacks missing s')
include hs hlacks

theorem RowDue.finishes (h : RowDue place s s') (k : Keyword) :
    Finishes text (place.failure text missing) s (insertRow k) := by
  cases h with
  | value hopen hbefore =>
    have hs₁ := ((accept_safe _).stands hs hopen).stands
    have hs' := hbefore.stands (operand_safe.bind fun _ => skipSymbol_safe _) hs₁
    rw [insertRow, current_bind_finishes, routing_bind_finishes]
    refine .of_bind hopen ((commaSeparated_finishes (E := .all _) operand_moves hs₁.closed hbefore
      (hlacks.finishes hs')).bind fun _ _ _ hend => ?_)
    rw [current_bind_finishes]
    exact .bind_some (.of_error (accept_atEnd hend (by simp)))

theorem ValuesDue.finishes (h : ValuesDue place s s') :
    Finishes text (place.failure text missing) s insertValues := by
  cases h with
  | intro hkind hk hmark hbefore hdue =>
    have hs₁ := ((advance_safe.bind fun _ => markRows_safe).stands hs hmark).stands
    have hs₂ := hbefore.stands ((insertRow_safe _).bind fun _ => skipSymbol_safe _) hs₁
    obtain ⟨_, _, hadvance, hmark⟩ := bind_eq_ok.1 hmark
    rw [insertValues, current_bind_finishes, hkind]
    dsimp only
    rw [dialect_bind_finishes, if_pos hk]
    refine .of_bind hadvance (.of_bind hmark ?_)
    exact (commaSeparated_finishes (E := .all _) (insertRow_moves (fun _ _ _ => trivial) _)
      hs₁.closed hbefore (hdue.finishes hs₂ hlacks _)).bind_none fun _ _ _ hend =>
        adoptFirstRow_finishes hend

theorem InsertedDue.finishes {table : Option String} (h : InsertedDue table place s s') :
    Finishes text (place.failure text missing) s (insertAssignment table) := by
  cases h with
  | column hname =>
    rw [insertAssignment, cursor_bind_finishes]
    -- The column starts with a name, or the end of the text is refused at once.
    by_cases hn : s.cursor.isName = true
    · rw [if_neg (by simp [hn])]
      exact column_finishes hs table hlacks fun _ _ hend =>
        .bind_some (.of_error (accept_atEnd hend (by simp)))
    · have hend : s.AtEnd text := ⟨hs, by simpa [hn] using hname⟩
      have hfailure : OperandPlace.column.failure text missing = some (.atEnd text) := by
        cases missing with
        | operand | signed | joined => rfl
        | name signed => exact absurd rfl (hlacks.ne_name hend signed)
      rw [hfailure, if_pos (by simp [hn])]
      exact .bind_some (.of_error (unexpected_atEnd hend))
  | value hcolumn =>
    have hs' := ((insertedColumn_safe _).stands hs hcolumn).stands
    simp only [insertedColumn, cursor_bind, ite_eq_ok, bind_eq_ok, unexpected_eq_ok, false_and,
      and_false, exists_false, false_or, pure_eq_ok] at hcolumn
    obtain ⟨hname, e, _, hleft, column, _, hcolumn, _, _, hequal, rfl, rfl⟩ := hcolumn
    rw [insertAssignment, cursor_bind_finishes, if_neg hname]
    refine .of_bind hleft (.of_bind hcolumn (.of_bind hequal ?_))
    exact (hlacks.finishes hs').bind fun _ _ _ hend =>
      (modifyClauses_finishes hend _).bind_none fun _ _ _ hend => .pure hend _

theorem SetDue.finishes (h : SetDue place s s') :
    Finishes text (place.failure text missing) s insertSet := by
  cases h with
  | @intro s₁ s₂ s₃ _ hfound hmark hbefore hdue =>
    have hs₁ := ((skipKeyword_safe _).stands hs hfound).stands
    have hs₂ := markRows_safe.stands hs₁ hmark
    have hs₃ :=
      hbefore.stands ((insertAssignment_safe _).bind fun _ => skipSymbol_safe _) hs₂.stands
    rw [insertSet, dialect_bind_finishes]
    refine .found hfound ?_
    rw [current_bind_finishes, routing_bind_finishes]
    refine .of_bind hmark (.of_bind (a := s₂.body.tables.firstName?) rfl ?_)
    refine (commaSeparated_finishes (E := .all _)
      (insertAssignment_moves (fun _ _ _ _ => trivial) _) hs₂.stands.closed hbefore
      (hdue.finishes hs₃ hlacks)).bind_none fun row s₄ hrow hend => ?_
    obtain ⟨part, hpart⟩ := textSince_atEnd hend hs₁.current_at.boundaries.1
    have hs₄ := (commaSeparated_safe (insertAssignment_safe _)).stands hs₂.stands hrow
    refine .of_bind hpart ((modifyClauses_finishes hend _).bind_none fun _ s₅ hstop hend => ?_)
    -- No placeholder has been forgotten since the assignments began, so counting them is no fault.
    have hcounted : s₁.body.parameters ≤ s₅.body.parameters := by
      rw [← modifyClauses_eq_ok.1 hstop]
      exact (hs₂.trans hs₄).parameters_le
    exact .of_bind (placeholdersSince_of_le hcounted)
      ((modifyClauses_finishes hend _).bind_none fun _ _ _ hend => modifyRouting_finishes hend _)

theorem DuplicateDue.finishes {table : Option String} (h : DuplicateDue table place s s') :
    Finishes text (place.failure text missing) s (duplicateKeyAssignment table) := by
  cases h with
  | column =>
    exact column_finishes hs table hlacks fun _ _ hend =>
      (modifyClauses_finishes hend _).bind fun _ _ _ hend =>
        .bind_some (.of_error (accept_atEnd hend (by simp)))
  | value hcolumn hvalues =>
    have hs' := ((duplicateColumn_safe _).stands hs hcolumn).stands
    refine duplicateKeyAssignment_finishes hcolumn (.missed (skipKeyword_of_ne hvalues) ?_)
    exact (hlacks.finishes hs').bind fun _ _ _ hend => .pure hend ()
  | reference hcolumn hvalues hopen =>
    have hs' := (((duplicateColumn_safe _).bind fun _ => (skipKeyword_safe _).bind fun _ =>
      accept_safe _).stands hs (by rw [bind_of_eq_ok hcolumn, bind_of_eq_ok hvalues, hopen])).stands
    refine duplicateKeyAssignment_finishes hcolumn (.found hvalues (.of_bind hopen ?_))
    exact (hlacks.finishes hs').bind fun _ _ _ hend => .of_error (accept_atEnd hend (by simp))

theorem DuplicateKeyDue.finishes (h : DuplicateKeyDue place s s') :
    Finishes text (place.failure text missing) s duplicateKeyUpdate := by
  cases h with
  | @intro s₁ s₂ s₃ _ hfound hwords hbefore hdue =>
    have hs₁ := ((skipKeyword_safe _).stands hs hfound).stands
    have hs₂ := (((accept_safe _).bind fun _ => (accept_safe _).bind fun _ => accept_safe _).stands
      hs₁ hwords).stands
    have hs₃ := hbefore.stands ((duplicateKeyAssignment_safe _).bind fun _ => skipSymbol_safe _) hs₂
    simp only [bind_eq_ok] at hwords
    obtain ⟨_, _, hduplicate, _, _, hkey, hupdate⟩ := hwords
    rw [duplicateKeyUpdate, dialect_bind_finishes]
    refine .found hfound (.of_bind hduplicate (.of_bind hkey (.of_bind hupdate ?_)))
    refine .of_bind (a := s₂.body.tables.firstName?) rfl ?_
    exact (commaSeparated_finishes (E := .all _)
      (duplicateKeyAssignment_moves (fun _ _ _ _ => trivial) _) hs₂.closed hbefore
      (hdue.finishes hs₃ hlacks)).bind_none fun _ _ _ hend => .pure hend ()

end

end

end SqlRouting.Grammar
