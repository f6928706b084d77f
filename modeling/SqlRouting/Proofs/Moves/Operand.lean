import SqlRouting.Grammar.Alias
import SqlRouting.Grammar.Where
import SqlRouting.Proofs.Moves

/-!
# Moves of operands and comparisons

Operands, aliases and comparisons only make moves. A placeholder that follows an owner and its dot
is the one that is passed without being counted.
-/

namespace SqlRouting.Grammar

open SqlRouting.Parser

variable {κ : Type} {E : Scope κ} {stream : List Token} {s s' s₁ s₂ : ParseState κ}

/-! ## Operands -/

/-- Reading an atom counts it if it is a placeholder. -/
theorem atom_eq_ok {t : Token} {e : Expression} (h : atom t s = .ok e s') :
    (if t.kind = .symbol .question then s.counted else s) = s' := by
  rw [atom] at h
  generalize hkind : t.kind = kind at h
  split at h
  case h_1 =>
    simp only [bind_eq_ok, takePlaceholder_eq_ok, pure_eq_ok] at h
    obtain ⟨_, _, ⟨_, rfl⟩, _, rfl⟩ := h
    rfl
  -- Only a placeholder changes the state.
  case h_7 _ hq _ _ _ _ _ => rw [if_neg hq]; exact (pure_eq_ok.1 h).2
  all_goals exact (pure_eq_ok.1 h).2

theorem atom_run {e : Expression} {u : Unit} (h : atom s.cursor.current s = .ok e s₁)
    (hadvance : advance s₁ = .ok u s') : Run E stream s s' := by
  refine countPlaceholder_run (u := ()) (countPlaceholder_eq_ok.2 ?_) hadvance
  simpa [Cursor.isSymbol] using atom_eq_ok h

theorem isJoint_bind {α : Type} (f : Bool → Parser κ α) :
    (isJoint >>= f) s = f (s.cursor.isOperator || s.cursor.isSymbol .dot) s := rfl

/-- A joint is an operator or a dot. -/
theorem isJoint_symbol {c : Cursor} (h : (c.isOperator || c.isSymbol .dot) = true) :
    ∃ x ∈ Symbol.dot :: Symbol.operators, c.current.kind = .symbol x := by
  rw [Bool.or_eq_true, Cursor.isOperator, List.any_eq_true] at h
  rcases h with ⟨x, hx, hkind⟩ | hkind
  · exact ⟨x, List.mem_cons_of_mem _ hx, of_decide_eq_true hkind⟩
  · exact ⟨.dot, List.mem_cons_self .., of_decide_eq_true hkind⟩

/-- A joint is no placeholder. -/
theorem isJoint_kind {c : Cursor} (h : (c.isOperator || c.isSymbol .dot) = true) :
    c.current.kind ≠ .symbol .question := by
  obtain ⟨x, hx, hkind⟩ := isJoint_symbol h
  rw [hkind]
  rintro ⟨⟩
  exact absurd hx (by decide)

theorem countPlaceholder_leftParen {u : Unit} (h : countPlaceholder s = .ok u s₁)
    (hopen : s₁.cursor.isSymbol .leftParen = true) : s = s₁ := by
  rw [countPlaceholder_eq_ok] at h
  split at h
  case isTrue hq =>
    subst h
    have hq : s.cursor.current.kind = .symbol .question := of_decide_eq_true hq
    simp [ParseState.counted, Cursor.isSymbol, hq] at hopen
  case isFalse => exact h

theorem skipJoint_moves : Moves E (skipJoint (κ := κ)) := by
  intro stream s found s' h
  simp only [skipJoint, isJoint_bind, cursor_bind, ite_eq_ok, bind_eq_ok, refuseEnd_eq_ok,
    pure_eq_ok] at h
  rcases h with ⟨hjoint, _, s₁, hadvance, _, s₂, hsigns, _, _, ⟨_, rfl⟩, _, s₃, hcount, h⟩ |
    ⟨_, _, rfl⟩
  · have hsigns : Run E stream s₁ s₂ := loop_moves (skipIf_moves (by decide)) hsigns
    refine ((advance_run hadvance (isJoint_kind hjoint)).trans hsigns).trans ?_
    -- Behind the signs stands a token, or a group, whose parenthesis is no placeholder.
    rcases h with ⟨_, _, s₄, hadvance', _, s₅, hparens, _, rfl⟩ | ⟨hopen, _, s₄, hparens, _, rfl⟩
    · exact (countPlaceholder_run hcount hadvance').trans (skipParentheses_moves hparens)
    · obtain rfl := countPlaceholder_leftParen hcount (by simpa using hopen)
      exact skipParentheses_moves hparens
  · exact .refl

theorem skipJoined_moves : Moves E (skipJoined (κ := κ)) :=
  loop_moves skipJoint_moves

theorem skipComposite_moves : Moves E (skipComposite (κ := κ)) :=
  (cursor_moves.bind fun _ => .pure _).bind fun _ => cursor_moves.bind fun _ =>
    .ite (skipParentheses_moves.bind fun _ => skipJoined_moves.bind fun _ => .pure _) (.pure _)

/-- The owner of a column is marked where it stands in the stream. -/
theorem markOwner_run {owner : Token} {u : Unit} (h : markOwner owner s = .ok u s')
    (ho : owner ∈ stream) : Run E stream s s' := by
  simp only [markOwner, routing_bind, ite_eq_ok, addMark_eq_ok, pure_eq_ok] at h
  rcases h with ⟨hname, rfl⟩ | ⟨_, _, rfl⟩
  · rw [Bool.and_eq_true, decide_eq_true_eq] at hname
    exact .of_move (.mark ho (.table hname.1))
  · exact .refl

/-- A dot and the name behind it are passed. -/
theorem takeName_run {t : Token} (hskip : skipSymbol .dot s = .ok true s₁)
    (h : takeName s₁ = .ok t s') : Run E stream s s' := by
  obtain ⟨hdot, hadvance⟩ := skipIf_eq_ok.1 hskip
  obtain ⟨c, hnext, rfl⟩ := advance_eq_ok.1 hadvance
  obtain ⟨rfl, c', hnext', h⟩ := takeName_eq_ok.1 h
  have hdot : s.cursor.current.kind = .symbol .dot := by simpa [Cursor.isAny] using hdot
  split at h
  case isTrue hq =>
    subst h
    exact .of_move (.name hnext hdot hnext' hq)
  case isFalse hq =>
    subst h
    exact (Run.of_move (.pass hnext (by simp [hdot]))).trans (.of_move (.pass hnext' hq))

theorem unsignedOperand_moves : Moves E (unsignedOperand (κ := κ)) := by
  intro stream s e s' h
  -- The owner is marked last, when the cursor has left it, but it is a token of the stream.
  suffices hrun : s.cursor.current ∈ stream → Run E stream s s' from
    fun hs => hrun hs.current_mem hs
  intro hfirst
  simp only [unsignedOperand, current_bind, cursor_bind, ite_eq_ok, bind_eq_ok, pure_eq_ok] at h
  rcases h with ⟨_, _, s₁, hparens, _, s₂, hjoined, _, s₃, htext, _, rfl⟩ |
    ⟨_, value, s₁, hatom, _, s₂, hadvance, dotted, s₃, hdot, h⟩
  · exact ((skipParentheses_moves hparens).trans (skipJoined_moves hjoined)).trans
      (textSince_moves _ htext)
  have hfirst' : Run E stream s s₂ := atom_run hatom hadvance
  rcases h with ⟨rfl, name, s₄, hname, composite, s₅, hcomposite, h⟩ |
    ⟨_, composite, s₄, hcomposite, h⟩
  · have hrun := (hfirst'.trans (takeName_run hdot hname)).trans (skipComposite_moves hcomposite)
    rcases h with ⟨_, _, s₆, htext, _, rfl⟩ | ⟨_, _, s₆, hmark, _, rfl⟩
    · exact hrun.trans (textSince_moves _ htext)
    · exact hrun.trans (markOwner_run hmark hfirst)
  · have hrun := (hfirst'.trans (skipSymbol_moves (by decide) hdot)).trans
      (skipComposite_moves hcomposite)
    rcases h with ⟨_, _, s₅, htext, _, rfl⟩ | ⟨_, _, rfl⟩
    · exact hrun.trans (textSince_moves _ htext)
    · exact hrun

theorem signs_moves (n : Nat) : Moves E (signs (κ := κ) n) := by
  induction n with
  | zero => exact .pure []
  | succ n ih =>
    intro stream s found s' h
    simp only [signs, cursor_bind, ite_eq_ok, bind_eq_ok, refuseEnd_eq_ok, pure_eq_ok] at h
    rcases h with ⟨hsign, _, s₁, hadvance, _, _, ⟨_, rfl⟩, _, s₂, hmore, _, rfl⟩ | ⟨_, _, rfl⟩
    · refine (advance_run hadvance fun hq => ?_).trans (ih hmore)
      simp [Cursor.isSymbol, hq] at hsign
    · exact .refl

theorem operand_moves : Moves E (operand (κ := κ)) :=
  current_moves.bind fun _ => cursor_moves.bind fun _ => (signs_moves _).bind fun _ =>
    unsignedOperand_moves.bind fun value => .ite (.pure _) <| by
      cases value with
      | number n => exact .pure _
      | _ => exact (textSince_moves _).bind fun _ => .pure _

/-! ## Aliases -/

/-- A token that is no placeholder may be taken for an alias. -/
theorem takeAlias_run {name : String} (h : takeAlias s = .ok name s')
    (hq : s.cursor.current.kind ≠ .symbol .question) : Run E stream s s' := by
  simp only [takeAlias, current_bind, bind_eq_ok, pure_eq_ok] at h
  obtain ⟨_, s₁, hadvance, _, rfl⟩ := h
  exact advance_run hadvance hq

theorem aliasOr_moves (keywords : List Keyword) : Moves E (aliasOr (κ := κ) keywords) := by
  intro stream s name s' h
  simp only [aliasOr, cursor_bind, current_bind, ite_eq_ok, bind_eq_ok, pure_eq_ok] at h
  obtain ⟨behindAs, s₁, has, h⟩ := h
  refine (skipKeyword_moves _ has).trans ?_
  rcases h with ⟨_, h⟩ | ⟨_, ⟨hname, name, s₂, halias, _, rfl⟩ | ⟨_, _, rfl⟩⟩
  · generalize hkind : s₁.cursor.current.kind = kind at h
    split at h
    · exact (pure_eq_ok.1 h).2 ▸ .refl
    · exact (pure_eq_ok.1 h).2 ▸ .refl
    · simp only [bind_eq_ok, pure_eq_ok] at h
      obtain ⟨_, s₂, halias, _, rfl⟩ := h
      exact takeAlias_run halias (by simp_all)
  · refine takeAlias_run halias fun hq => ?_
    simp [Cursor.isAny, Cursor.isKeyword, hq] at hname
  · exact .refl

theorem selectItemAlias_moves : Moves E (selectItemAlias (κ := κ)) :=
  dialect_moves.bind fun _ => aliasOr_moves _

theorem tableAlias_moves : Moves E (tableAlias (κ := κ)) :=
  dialect_moves.bind fun _ => aliasOr_moves _

/-! ## Comparisons -/

theorem inValues_moves : Moves E (inValues (κ := κ)) :=
  (accept_moves (by decide)).bind fun _ => cursor_moves.bind fun _ => .ite (.throw_bind ..) <|
    (commaSeparated_moves operand_moves).bind fun _ =>
      (accept_moves (by decide)).bind fun _ => .pure _

theorem betweenBounds_moves : Moves E (betweenBounds (κ := κ)) :=
  operand_moves.bind fun _ => (accept_moves (by decide)).bind fun _ =>
    operand_moves.bind fun _ => .pure _

theorem negatedComparison_moves : Moves E (negatedComparison (κ := κ)) :=
  dialect_moves.bind fun _ => (skipKeyword_moves _).bind fun _ =>
    .ite (inValues_moves.bind fun _ => .pure _) <| (skipKeyword_moves _).bind fun _ =>
      .ite (betweenBounds_moves.bind fun _ => .pure _) <| (skipKeyword_moves _).bind fun _ =>
        .ite (operand_moves.bind fun _ => .pure _) unexpected_moves

theorem recordCondition_moves (hE : E.conditions) (left : Expression) (comparison : Comparison)
    (values : List Expression) :
    Moves E (recordCondition (κ := κ) left comparison values) := by
  intro stream s u s' h
  simp only [recordCondition, routing_bind, ite_eq_ok, pure_eq_ok] at h
  rcases h with ⟨_, h⟩ | ⟨_, _, rfl⟩
  · cases hcolumn : s.body.tables.column? left with
    | none =>
      rw [hcolumn] at h
      exact (pure_eq_ok.1 h).2 ▸ .refl
    | some column =>
      rw [hcolumn] at h
      obtain rfl := modifyRouting_eq_ok.1 h
      exact .of_move (.conditions hE _)
  · exact .refl

theorem predicate_moves (hE : E.conditions) (left : Expression) :
    Moves E (predicate (κ := κ) left) :=
  dialect_moves.bind fun _ => (skipSymbol_moves (by decide)).bind fun _ =>
    .ite (operand_moves.bind fun _ => recordCondition_moves hE ..) <|
    (skipKeyword_moves _).bind fun _ =>
      .ite (inValues_moves.bind fun _ => recordCondition_moves hE ..) <|
    (skipKeyword_moves _).bind fun _ =>
      .ite (betweenBounds_moves.bind fun _ => recordCondition_moves hE ..) <|
    (skipKeyword_moves _).bind fun _ => .ite negatedComparison_moves <|
    (skipKeyword_moves _).bind fun _ =>
      .ite ((skipKeyword_moves _).bind fun _ => operand_moves.bind fun _ => .pure _) <|
    (skipIf_moves (by simp [looseComparisons])).bind fun _ =>
      .ite (operand_moves.bind fun _ => .pure _) (.pure _)

theorem comparison_moves (hE : E.conditions) : Moves E (comparison (κ := κ)) :=
  refuseEnd_moves.bind fun _ => (skipSymbol_moves (by decide)).bind fun _ =>
    operand_moves.bind fun _ => (predicate_moves hE _).bind fun _ =>
      (skipSymbol_moves (by decide)).bind fun _ => .pure _

theorem comparisons_moves (hE : E.conditions) : Moves E (comparisons (κ := κ)) :=
  (separatedBy_moves (comparison_moves hE) (skipKeyword_moves _)).bind fun _ => .pure _

theorem whereClause_moves (hE : E.conditions) : Moves E (whereClause (κ := κ)) :=
  tableAlias_moves.bind fun _ => (skipKeyword_moves _).bind fun _ =>
    .ite ((comparisons_moves hE).bind fun _ => refuse_moves _) (.pure _)

/-- Behind an alias a `WHERE` is read, or there is none. -/
theorem whereClause_eq_ok {u : Unit} (h : whereClause s = .ok u s') :
    ∃ asName s₁, tableAlias s = .ok asName s₁ ∧
      (s₁.cursor.isKeyword [.WHERE] = false ∧ s₁ = s' ∨
        s₁.cursor.isKeyword [.WHERE] = true ∧ s'.cursor.isKeyword [.OR] = false ∧
          ∃ s₂, advance s₁ = .ok () s₂ ∧ comparisons s₂ = .ok () s') := by
  obtain ⟨asName, s₁, halias, h⟩ := bind_eq_ok.1 h
  refine ⟨asName, s₁, halias, ?_⟩
  rcases skipKeyword_then_eq_ok.1 h with hnone | ⟨hkeyword, s₂, hadvance, h⟩
  · exact .inl hnone
  · obtain ⟨_, s₃, hcomparisons, hrefuse⟩ := bind_eq_ok.1 h
    obtain ⟨hor, rfl⟩ := refuse_eq_ok.1 hrefuse
    exact .inr ⟨hkeyword, hor, s₂, hadvance, hcomparisons⟩

/-- The comparisons stop at a token that is no `AND`. -/
theorem comparisons_done {u : Unit} (h : comparisons s = .ok u s') (hs : s.cursor.Closed) :
    s'.cursor.Closed ∧ s'.cursor.isKeyword [.AND] = false := by
  simp only [comparisons, bind_eq_ok, pure_eq_ok] at h
  obtain ⟨_, s₁, h, _, rfl⟩ := h
  have hcomparison : Moves (Scope.all κ) comparison := comparison_moves trivial
  obtain ⟨s₂, hs₂, hnone⟩ := separatedBy_done hcomparison skipKeyword_shrinks hs h
  obtain ⟨hand, heq⟩ := skipKeyword_eq_ok.1 hnone
  have heq : s₂ = s₁ := heq
  exact heq ▸ ⟨hs₂, hand⟩

end SqlRouting.Grammar
