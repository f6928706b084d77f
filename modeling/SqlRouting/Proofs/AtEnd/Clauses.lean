import SqlRouting.Proofs.AtEnd.Where

/-!
# Tables and sort items that the text ends in

The clauses of a select besides its `WHERE` in which an operand is due: the conditions of joins, and
the keys that rows are grouped and sorted by. The tables of an update or a deletion may have
conditions as well, but then there is more than one of them, unless a table is joined to itself.
-/

namespace SqlRouting.Grammar

open SqlRouting.Parser

variable {κ : Type} {text : List Char} {missing : Missing} {place : OperandPlace}

/-! ## Joins -/

section

variable {s : ParseState κ} (h : s.AtEnd text)
include h

theorem joinType_atEnd : joinType s = .ok false s := by
  rw [joinType, dialect_bind, cursor_bind, bind_of_eq_ok (loop_over (skipKeyword_atEnd h _)),
    h.isKeyword]
  rfl

theorem joinedTable_atEnd : joinedTable s = .ok false s := by
  rw [joinedTable, bind_of_eq_ok (joinType_atEnd h)]
  rfl

end

section

variable {s s' : ParseState κ}

theorem joinEquation_moves {E : Scope κ} : Moves E (joinEquation (κ := κ)) :=
  operand_moves.bind fun _ => (accept_moves (by decide)).bind fun _ => operand_moves.bind fun _ =>
    .pure _

theorem joinEquation_safe : Safe text (joinEquation (κ := κ)) :=
  operand_safe.bind fun _ => (accept_safe _).bind fun _ => operand_safe.bind fun _ => .pure _

theorem hintedTable_safe : Safe text (hintedTable (κ := κ)) :=
  tableFactor_safe.bind fun _ => tableHints_safe

/-- Joins consume at least a keyword. -/
theorem joinType_shrinks (hs : s.cursor.Closed) (h : joinType s = .ok true s') :
    s'.cursor.Closed ∧ s'.cursor.ahead.length < s.cursor.ahead.length := by
  simp only [joinType, dialect_bind, cursor_bind, bind_eq_ok, pure_eq_ok] at h
  obtain ⟨_, _, hloop, hfound, rfl⟩ := h
  rw [loop, cursor_bind, Cursor.movesLeft, iterate] at hloop
  obtain ⟨more, s₁, hskip, hloop⟩ := bind_eq_ok.1 hloop
  obtain rfl : true = more := hfound.symm.trans (skipKeyword_eq_ok.1 hskip).1
  obtain ⟨hclosed, hlt⟩ := skipKeyword_shrinks hs hskip
  rw [if_pos rfl] at hloop
  obtain ⟨hclosed, hle⟩ :=
    (iterate_moves (E := .all κ) (skipKeyword_moves _) _).length_le hclosed hloop
  exact ⟨hclosed, by omega⟩

theorem joinedTable_shrinks (hs : s.cursor.Closed) (h : joinedTable s = .ok true s') :
    s'.cursor.Closed ∧ s'.cursor.ahead.length < s.cursor.ahead.length := by
  obtain ⟨found, s₁, hjoin, h⟩ := bind_eq_ok.1 h
  cases found with
  | false => cases (pure_eq_ok.1 h).1
  | true =>
    obtain ⟨hclosed, hlt⟩ := joinType_shrinks hs hjoin
    have htrivial : (Scope.all κ).tables := trivial
    have hmoves : Moves (Scope.all κ) (do
        tableFactor
        tableHints
        joinCondition
        return true : Parser κ Bool) :=
      (tableFactor_moves htrivial).bind fun _ => tableHints_moves.bind fun _ =>
        joinCondition_moves.bind fun _ => .pure _
    simp only [if_true, cursor_bind, ite_eq_ok] at h
    rcases h with ⟨_, h⟩ | ⟨_, h⟩
    · obtain ⟨_, _, h, _⟩ := bind_eq_ok.1 h
      exact (throw_eq_ok.1 h).elim
    · obtain ⟨hclosed, hle⟩ := hmoves.length_le hclosed h
      exact ⟨hclosed, by omega⟩

end

/-- What becomes of a last join becomes of all the tables. -/
theorem joinedList_finishes {s s₁ s₂ s₃ : ParseState κ} {failure : Option ParseError}
    (hs : s.cursor.Stands text) (hbefore : Items (skipSymbol .comma) tableReference s s₁)
    (hfirst : hintedTable s₁ = .ok () s₂) (hjoined : Rounds joinedTable s₂ s₃)
    (hlast : s₃.cursor.Stands text → Finishes text failure s₃ joinedTable) :
    Finishes text failure s (commaSeparated tableReference) := by
  have hs₁ := hbefore.stands (tableReference_safe.bind fun _ => skipSymbol_safe _) hs
  have hs₂ := (hintedTable_safe.stands hs₁ hfirst).stands
  refine commaSeparated_finishes (E := .all κ) (tableReference_moves trivial) hs.closed hbefore ?_
  obtain ⟨_, _, hfactor, hhints⟩ := bind_eq_ok.1 hfirst
  exact .of_bind hfactor (.of_bind hhints (loop_finishes joinedTable_shrinks joinedTable_atEnd
    hs₂.closed hjoined (hlast (hjoined.stands joinedTable_safe hs₂))))

section

variable {s s' : ParseState κ} (hs : s.cursor.Stands text) (hlacks : Lacks missing s')
include hs hlacks

theorem JoinConditionDue.finishes (h : JoinConditionDue place s s') :
    Finishes text (place.failure text missing) s joinCondition := by
  have hbehind {s₁ s₂ : ParseState κ} {failure : Option ParseError}
      (hfound : skipKeyword [.ON] s = .ok true s₁)
      (hbefore : Items (skipKeyword [.AND]) joinEquation s₁ s₂)
      (hlast : s₂.cursor.Stands text → Finishes text failure s₂ joinEquation) :
      Finishes text failure s joinCondition := by
    have hs₁ := ((skipKeyword_safe _).stands hs hfound).stands
    have hs₂ := hbefore.stands (joinEquation_safe.bind fun _ => skipKeyword_safe _) hs₁
    have hlist := separatedBy_finishes (E := .all κ) joinEquation_moves skipKeyword_shrinks
      (fun hend => skipKeyword_atEnd hend _) hs₁.closed hbefore (hlast hs₂)
    exact .found hfound (hlist.bind_none fun _ _ _ hend => .pure hend ())
  cases h with
  | left hfound hbefore =>
    exact hbehind hfound hbefore fun hs₂ => (hlacks.finishes hs₂).bind fun _ _ _ hend =>
      .bind_some (.of_error (accept_atEnd hend (by simp)))
  | right hfound hbefore hleft hequal =>
    refine hbehind hfound hbefore fun hs₂ => .of_bind hleft (.of_bind hequal ?_)
    have hs' := ((operand_safe.bind fun _ => accept_safe _).stands hs₂
      (by rw [bind_of_eq_ok hleft, hequal])).stands
    exact (hlacks.finishes hs').bind fun _ _ _ hend => .pure hend ()

theorem TablesDue.list_finishes (h : TablesDue place s s') :
    Finishes text (place.failure text missing) s (commaSeparated tableReference) := by
  cases h with
  | intro hbefore hfirst hjoined hjoin htable hdue =>
    refine joinedList_finishes hs hbefore hfirst hjoined fun hs₃ => .found hjoin ?_
    have hs₅ := ((joinType_safe.bind fun _ => hintedTable_safe).stands hs₃
      (by rw [bind_of_eq_ok hjoin, htable])).stands
    obtain ⟨_, _, hfactor, hhints⟩ := bind_eq_ok.1 htable
    rw [cursor_bind_finishes]
    -- A table has been read there, so no parenthesis opens.
    have hopen : ¬_ = true := fun hopen => by
      rw [tableFactor, cursor_bind, if_pos hopen] at hfactor
      obtain ⟨_, _, hthrow, _⟩ := bind_eq_ok.1 hfactor
      exact (throw_eq_ok.1 hthrow).elim
    rw [if_neg hopen]
    exact .of_bind hfactor (.of_bind hhints
      ((hdue.finishes hs₅ hlacks).bind_none fun _ _ _ hend => .pure hend true))

theorem TablesDue.finishes (h : TablesDue place s s') :
    Finishes text (place.failure text missing) s (tableReferences false) :=
  (h.list_finishes hs hlacks).bind_none fun _ _ _ hend => .pure hend ()

/-- Where only a single table is allowed, several may be refused at the end of the text. -/
theorem TablesDue.finishes_single (h : TablesDue place s s') :
    Finishes text (place.failure text missing) s (tableReferences true) ∨
      place.failure text missing = none ∧
        Finishes text (some (.unsupported .severalTables)) s (tableReferences true) := by
  have hlist := h.list_finishes hs hlacks
  cases hfailure : place.failure text missing with
  | some e =>
    rw [hfailure] at hlist
    exact .inl hlist.bind_some
  | none =>
    rw [hfailure] at hlist
    obtain ⟨_, s₁, hrun, hend⟩ := hlist.exists_ok
    -- Whether there are several tables depends on what has been read of them.
    by_cases hseveral : 1 < s₁.body.tables.size
    · refine .inr ⟨rfl, .of_bind hrun ?_⟩
      rw [routing_bind_finishes, if_pos (by simpa using hseveral)]
      exact .of_error (e := .unsupported .severalTables) rfl
    · refine .inl (.of_bind hrun ?_)
      rw [routing_bind_finishes, if_neg (by simpa using hseveral)]
      exact .pure hend ()

end

/-! ## Groups and order -/

section

variable {s : ParseState SelectClauses} (h : s.AtEnd text)
include h

theorem direction_atEnd : direction s = .ok .ascending s := by
  rw [direction, bind_of_eq_ok (skipKeyword_atEnd h _)]
  exact bind_of_eq_ok (skipKeyword_atEnd h _)

theorem groupBy_atEnd : groupBy s = .ok () s := by
  rw [groupBy, bind_of_eq_ok (skipKeyword_atEnd h _)]
  rfl

theorem orderBy_atEnd : orderBy s = .ok () s := by
  rw [orderBy, bind_of_eq_ok (skipKeyword_atEnd h _)]
  rfl

theorem limit_atEnd : limit s = .ok () s := by
  rw [limit, bind_of_eq_ok (skipKeyword_atEnd h _)]
  rfl

theorem selectRest_atEnd : selectRest s = .ok () s := by
  rw [selectRest, bind_of_eq_ok (refuse_atEnd h _), dialect_bind, refuse_atEnd h]

end

/-- Whatever names a column is a key to sort by. -/
theorem orderKey_of_isSome {e : Expression} (h : (sortColumn? e).isSome = true)
    (s : ParseState SelectClauses) : ∃ key, orderKey e s = .ok key s := by
  cases e with
  | identifier name => exact ⟨_, rfl⟩
  | property owner name => exact ⟨_, rfl⟩
  | other text => exact ⟨_, rfl⟩
  | placeholder _ => cases h
  | text _ => cases h
  | number _ => cases h

section

variable {s : ParseState SelectClauses} (hs : s.cursor.Stands text) (hlacks : Lacks missing s)
include hs hlacks

theorem groupItem_finishes :
    Finishes text (OperandPlace.groupKey.failure text missing) s groupItem := by
  refine hlacks.guarded hs fun _ => (hlacks.finishes hs).bind fun e _ _ hend => ?_
  refine .of_bind (direction_atEnd hend) ?_
  cases sortColumn? e with
  | some key => exact .of_bind rfl (modifyClauses_finishes hend _)
  | none => exact .pure hend ()

theorem orderItem_finishes :
    Finishes text (OperandPlace.sortKey.failure text missing) s orderItem := by
  refine hlacks.guarded hs fun hmore => ?_
  cases missing with
  | operand =>
    cases hlacks with
    | operand hend => cases hend.symm.trans hmore
  | signed | joined => exact .bind_some (hlacks.finishes hs)
  | name =>
    obtain ⟨e, s₁, hrun, hcolumn, -, hend⟩ := operand_name hs hlacks
    obtain ⟨key, hkey⟩ := orderKey_of_isSome hcolumn s₁
    exact .of_bind hrun (.of_bind (direction_atEnd hend) (.of_bind hkey
      (.of_bind rfl (modifyClauses_finishes hend _))))

end

section

variable {s s' : ParseState SelectClauses} (hs : s.cursor.Stands text) (hlacks : Lacks missing s')
include hs hlacks

theorem GroupDue.finishes (h : GroupDue place s s') :
    Finishes text (place.failure text missing) s groupBy := by
  cases h with
  | key hfound hby hbefore =>
    have hs₂ := (((skipKeyword_safe _).bind fun _ => accept_safe _).stands hs
      (by rw [bind_of_eq_ok hfound, hby])).stands
    have hs' := hbefore.stands (groupItem_safe.bind fun _ => skipSymbol_safe _) hs₂
    refine .found hfound (.of_bind hby ?_)
    refine (commaSeparated_finishes (E := .all _) (groupItem_moves fun _ _ _ _ => trivial)
      hs₂.closed hbefore (groupItem_finishes hs' hlacks)).bind_none fun _ s₃ _ hend => ?_
    rw [dialect_bind_finishes]
    refine .of_bind (skipAll_atEnd hend _) ?_
    rw [current_bind_finishes]
    exact modifyClauses_finishes hend _

theorem OrderDue.finishes (h : OrderDue place s s') :
    Finishes text (place.failure text missing) s orderBy := by
  cases h with
  | key hfound hby hbefore =>
    have hs₂ := (((skipKeyword_safe _).bind fun _ => accept_safe _).stands hs
      (by rw [bind_of_eq_ok hfound, hby])).stands
    have hs' := hbefore.stands (orderItem_safe.bind fun _ => skipSymbol_safe _) hs₂
    exact .found hfound (.of_bind hby ((commaSeparated_finishes (E := .all _)
      (orderItem_moves fun _ _ _ _ => trivial) hs₂.closed hbefore
        (orderItem_finishes hs' hlacks)).bind_none fun _ _ _ hend => .pure hend ()))

end

end SqlRouting.Grammar
