import SqlRouting.Proofs.AtEnd.Clauses

/-!
# Select items that the text ends in

The operands of a select item are read by a parser of their own, which knows no values: it skips
signs and operators alike. It refuses the end of the text where an operand is due, and takes it for
a name behind an owner and a dot.
-/

namespace SqlRouting.Grammar

open SqlRouting.Parser

open Relation (ReflTransGen)

variable {text : List Char} {missing : Missing} {failure : Option ParseError}
  {s s₁ s' : ParseState SelectClauses}

/-- An operator of a select item and the operand behind it, if there is one. -/
def joinedPart : Parser SelectClauses Bool := do
  if (← cursor).isOperator then
    advance
    let _ ← itemPart
    return true
  else return false

/-- An item of the select list with its record. -/
def listedItem : Parser SelectClauses (List Token) := do
  let (item, owners) ← selectItem
  modifyClauses fun s => { s with items := s.items ++ [item] }
  return owners

/-- What a select item starts with has been read, and operators may follow in the state `s'`. -/
inductive ItemOpened : ParseState SelectClauses → ParseState SelectClauses → Prop
  | call {s s₁ s' : ParseState SelectClauses} {function : AggregateFunction} {inner : String}
    (hstar : s.cursor.isSymbol .star = false)
    (hfunction : aggregateFunction? s.cursor.current = some function)
    (hadvance : advance s = .ok () s₁) (hparens : skipParentheses s₁ = .ok inner s') :
    ItemOpened s s'
  | part {s s' : ParseState SelectClauses} {part : ItemPart}
    (hstar : s.cursor.isSymbol .star = false)
    (hfunction : aggregateFunction? s.cursor.current = none)
    (hpart : itemPart s = .ok part s') (hplain : part.isStar = false) : ItemOpened s s'

/-- In a select item an operand is due in the state `s'`. -/
inductive ItemDue : ParseState SelectClauses → ParseState SelectClauses → Prop
  | first {s : ParseState SelectClauses} (hstar : s.cursor.isSymbol .star = false)
    (hfunction : aggregateFunction? s.cursor.current = none) : ItemDue s s
  | joined {s s₁ s₂ s' : ParseState SelectClauses} (hopened : ItemOpened s s₁)
    (hbefore : Rounds joinedPart s₁ s₂) (hoperator : s₂.cursor.isOperator = true)
    (hadvance : advance s₂ = .ok () s') : ItemDue s s'

/-- In a select list an operand is due in the state `s'`. -/
inductive ListDue : ParseState SelectClauses → ParseState SelectClauses → Prop
  | intro {s s₁ s₂ s' : ParseState SelectClauses}
    (hhead : (do accept Keyword.SELECT; distinct; selectOptions) s = .ok () s₁)
    (hbefore : Items (skipSymbol .comma) listedItem s₁ s₂) (hdue : ItemDue s₂ s') : ListDue s s'

theorem joinedPart_safe : Safe text joinedPart :=
  cursor_bind_safe fun _ _ => .ite (advance_safe.bind fun _ => itemPart_safe.bind fun _ => .pure _)
    (.pure _)

theorem listedItem_safe : Safe text listedItem :=
  selectItem_safe.bind fun _ => (modifyClauses_safe _).bind fun _ => .pure _

theorem listedItem_moves : Moves (Scope.all SelectClauses) listedItem := by
  intro stream s a s' h hs
  simp only [listedItem, bind_eq_ok, pure_eq_ok] at h
  obtain ⟨r, s₁, hitem, _, s₂, hrecord, rfl, rfl⟩ := h
  have hrun := (selectItem_run (E := .all _) (fun _ _ _ _ => trivial) hitem hs).1
  exact (hrun.trans (modifyClauses_run hrecord trivial)) hs

theorem joinedPart_shrinks (hs : s.cursor.Closed) (h : joinedPart s = .ok true s') :
    s'.cursor.Closed ∧ s'.cursor.ahead.length < s.cursor.ahead.length := by
  simp only [joinedPart, cursor_bind, ite_eq_ok, bind_eq_ok, pure_eq_ok] at h
  rcases h with ⟨hoperator, _, s₁, hadvance, part, s', hpart, _, rfl⟩ | ⟨_, h, _⟩
  · obtain ⟨x, _, hkind⟩ := isJoint_symbol (by rw [hoperator, Bool.true_or])
    have hon : s.On s.cursor.tokens := ⟨List.suffix_rfl, hs⟩
    have hfirst : Run (Scope.all SelectClauses) s.cursor.tokens s s₁ :=
      advance_run hadvance (isJoint_kind (by rw [hoperator, Bool.true_or]))
    have hon₁ : s₁.On s₁.cursor.tokens := ⟨List.suffix_rfl, (hfirst.on hon).closed⟩
    exact shrinks_of_advance hadvance hs (by simp [hkind]) (itemPart_run (E := .all _) hpart hon₁).1
  · cases h

theorem ItemOpened.stands (h : ItemOpened s s') (hs : s.cursor.Stands text) :
    s'.cursor.Stands text := by
  cases h with
  | call _ _ hadvance hparens =>
    exact (skipParentheses_safe.stands (advance_safe.stands hs hadvance).stands hparens).stands
  | part _ _ hpart _ => exact (itemPart_safe.stands hs hpart).stands

section

variable (h : s.AtEnd text)
include h

theorem selectItemAlias_atEnd : selectItemAlias s = .ok none s := by
  rw [selectItemAlias, dialect_bind, aliasOr_atEnd h]

theorem joinedParts_atEnd (n : Nat) : joinedParts n s = .ok [] s := by
  cases n with
  | zero => rfl
  | succ n =>
    rw [joinedParts, cursor_bind, h.isOperator]
    rfl

end

/-- The first operator behind an item that more are joined to. -/
theorem Rounds.isOperator (h : Rounds joinedPart s s₁) (hoperator : s₁.cursor.isOperator = true) :
    s.cursor.isOperator = true := by
  cases h using ReflTransGen.head_induction_on with
  | refl => exact hoperator
  | head hround _ _ =>
    simp only [joinedPart, cursor_bind, ite_eq_ok, pure_eq_ok, Bool.false_eq_true, false_and,
      and_false, or_false] at hround
    exact hround.1

section

variable (hs : s.cursor.Stands text)
include hs

/-- A part of an item that is missing is refused, but a name that is missing is not. -/
theorem itemPart_finishes (hlacks : Lacks missing s)
    (hmissing : missing = .operand ∨ missing = .name false) :
    Finishes text (missing.failure text true) s itemPart := by
  rcases hmissing with rfl | rfl
  · cases hlacks with
    | operand hend => exact .bind_some (.of_error (refuseEnd_atEnd ⟨hs, hend⟩))
  · obtain ⟨owner, dot, stop, htokens, howner, hdot, hend⟩ := hlacks.tokens_eq
    obtain ⟨hcurrent, hahead⟩ := List.cons.inj htokens
    have hmore : s.cursor.isEnd = false := by
      cases hmore : s.cursor.isEnd with
      | true => exact absurd rfl (hlacks.ne_name ⟨hs, hmore⟩ false)
      | false => rfl
    -- A placeholder may stand for the owner; it is counted before it is passed.
    have hcount : countPlaceholder s =
        .ok () (if s.cursor.isSymbol .question then s.counted else s) :=
      countPlaceholder_eq_ok.2 rfl
    have hcursor := cursor_of_countPlaceholder hcount
    generalize (if s.cursor.isSymbol .question then s.counted else s) = s₁ at hcount hcursor
    obtain ⟨s₂, s₃, hadvance, hcurrent₂, hskip, hs₃⟩ :=
      skipDot_atEnd (hcursor ▸ hs) (hcursor ▸ hahead) hdot hend
    refine .of_bind (refuseEnd_of_ne hmore) ?_
    rw [cursor_bind_finishes, if_neg (by simp [Cursor.isSymbol, hcurrent, howner])]
    refine .of_bind hcount ?_
    rw [current_bind_finishes]
    refine .of_bind hadvance ?_
    rw [cursor_bind_finishes, if_neg (by simp [Cursor.isSymbol, hcurrent₂, hdot])]
    exact .found hskip (.of_bind (takeName_atEnd hs₃) (.pure hs₃ _))

omit hs in
/-- Parts are joined up to the one that the text ends in. -/
theorem joinedParts_finishes {n : Nat} {s₂ : ParseState SelectClauses} (hs : s.cursor.Closed)
    (hn : s.cursor.ahead.length < n) (hbefore : Rounds joinedPart s s₁)
    (hoperator : s₁.cursor.isOperator = true) (hadvance : advance s₁ = .ok () s₂)
    (hlast : Finishes text failure s₂ itemPart) :
    Finishes text failure s (joinedParts n) := by
  induction hbefore using ReflTransGen.head_induction_on generalizing n with
  | refl =>
    obtain ⟨n, rfl⟩ := Nat.exists_eq_add_one.2 (Nat.zero_lt_of_lt hn)
    rw [joinedParts, cursor_bind_finishes, if_pos hoperator]
    exact .of_bind hadvance (hlast.bind_none fun _ _ _ hend =>
      .of_bind (joinedParts_atEnd hend n) (.pure hend _))
  | head hround _ ih =>
    obtain ⟨n, rfl⟩ := Nat.exists_eq_add_one.2 (Nat.zero_lt_of_lt hn)
    obtain ⟨hclosed, hlt⟩ := joinedPart_shrinks hs hround
    simp only [joinedPart, cursor_bind, ite_eq_ok, bind_eq_ok, pure_eq_ok, Bool.false_eq_true,
      false_and, and_false, or_false] at hround
    obtain ⟨hop, _, _, hmove, part, _, hpart, _, rfl⟩ := hround
    rw [joinedParts, cursor_bind_finishes, if_pos hop]
    exact .of_bind hmove (.of_bind hpart
      ((ih hclosed (by omega)).bind_none fun _ _ _ hend => .pure hend _))

omit hs in
theorem plainItem_finishes {start : Nat} (hstart : Text.IsBoundary text start) (owners : List Token)
    (hparts : Finishes text failure s (joinedParts s.cursor.movesLeft)) :
    Finishes text failure s (plainItem start owners) := by
  rw [plainItem, cursor_bind_finishes]
  refine hparts.bind_none fun _ _ _ hend => ?_
  obtain ⟨part, hpart⟩ := textSince_atEnd hend hstart
  exact .of_bind hpart (.of_bind (selectItemAlias_atEnd hend) (.pure hend _))

variable (hlacks : Lacks missing s') (hmissing : missing = .operand ∨ missing = .name false)
include hlacks hmissing

theorem ItemDue.finishes (h : ItemDue s s') :
    Finishes text (missing.failure text true) s selectItem := by
  have hstart := hs.current_at.boundaries.1
  cases h with
  | first hstar hfunction =>
    rw [selectItem, current_bind_finishes, cursor_bind_finishes, if_neg (by simp [hstar]),
      hfunction]
    refine (itemPart_finishes hs hlacks hmissing).bind_none fun part _ _ hend => ?_
    split
    · exact (modifyClauses_finishes hend _).bind_none fun _ _ _ hend =>
        .of_bind (bind_of_eq_ok (selectItemAlias_atEnd hend)) (.pure hend _)
    · exact plainItem_finishes hstart _ (.of_ok (joinedParts_atEnd hend _) hend)
  | @joined s₁ s₂ _ hopened hbefore hoperator hadvance =>
    have hs₁ := hopened.stands hs
    have hs' := (advance_safe.stands (hbefore.stands joinedPart_safe hs₁) hadvance).stands
    have hparts := joinedParts_finishes hs₁.closed (Nat.lt_succ_self _) hbefore hoperator hadvance
      (itemPart_finishes hs' hlacks hmissing)
    have hplain (owners : List Token) : Finishes text (missing.failure text true) s₁
        (plainItem s.cursor.current.start owners) := plainItem_finishes hstart owners hparts
    rw [selectItem, current_bind_finishes, cursor_bind_finishes]
    cases hopened with
    | call hstar hfunction hadvance hparens =>
      rw [if_neg (by simp [hstar]), hfunction]
      refine .of_bind hadvance ?_
      rw [aggregationItem, cursor_bind_finishes]
      split
      · refine .of_bind hparens ?_
        rw [cursor_bind_finishes, if_pos (Rounds.isOperator hbefore hoperator)]
        exact hplain []
      · -- Without a group in parentheses nothing has been skipped.
        rename_i hopen
        rw [skipParentheses, cursor_bind, if_neg hopen] at hparens
        obtain ⟨_, rfl⟩ := pure_eq_ok.1 hparens
        exact hplain []
    | part hstar hfunction hpart hstarless =>
      rw [if_neg (by simp [hstar]), hfunction]
      refine .of_bind hpart ?_
      rw [if_neg (by simp [hstarless])]
      exact hplain _

theorem ListDue.finishes (h : ListDue s s') :
    Finishes text (missing.failure text true) s selectHead := by
  cases h with
  | intro hhead hbefore hdue =>
    have hs₁ := (((accept_safe _).bind fun _ => distinct_safe.bind fun _ =>
      selectOptions_safe).stands hs hhead).stands
    have hs₂ := hbefore.stands (listedItem_safe.bind fun _ => skipSymbol_safe _) hs₁
    simp only [bind_eq_ok] at hhead
    obtain ⟨_, _, haccept, _, _, hdistinct, hoptions⟩ := hhead
    have hlast : Finishes text (missing.failure text true) _ listedItem :=
      (hdue.finishes hs₂ hlacks hmissing).bind_none fun _ _ _ hend =>
        (modifyClauses_finishes hend _).bind_none fun _ _ _ hend => .pure hend _
    refine .of_bind haccept (.of_bind hdistinct (.of_bind hoptions ?_))
    refine (commaSeparated_finishes listedItem_moves hs₁.closed hbefore hlast).bind_none
      fun _ _ _ hend => ?_
    rw [current_bind_finishes]
    exact (modifyClauses_finishes hend _).bind_none fun _ _ _ hend => .pure hend _

end

end SqlRouting.Grammar
