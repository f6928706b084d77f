import SqlRouting.Proofs.AtEnd
import SqlRouting.Proofs.Faults

/-!
# Operands that the text ends in

Where a text ends in an operand, something is missing: the operand as a whole, what a sign is before
or an operator joins, or the name behind an owner and its dot (`Lacks`). Behind signs and operators
the end of the text is refused. But it is read like any token where an operand or a name is due:
as an expression without text, and as a name without letters.
-/

namespace SqlRouting

open SqlRouting.Parser

/-- What is missing where a text ends in an operand. -/
inductive Missing where
  /-- The operand as a whole. -/
  | operand
  /-- What the signs at its start are before. -/
  | signed
  /-- What an operator or a further dot joins to it. -/
  | joined
  /-- The name behind its owner and a dot, signs being before them or not. -/
  | name (signed : Bool)
  deriving DecidableEq, Repr

/-- The error for the missing part, if there is one. Where the end of the text is refused
    beforehand, there is one for a whole operand as well. -/
def Missing.failure (text : List Char) (guarded : Bool) : Missing → Option ParseError
  | operand => if guarded then some (.atEnd text) else none
  | signed | joined => some (.atEnd text)
  | name _ => none

namespace Grammar

variable {κ α : Type} {text : List Char} {s s₁ s' : ParseState κ} {missing : Missing}
  {failure : Option ParseError}

/-- What is read of an operand before others are joined to it. -/
def operandHead : Parser κ Unit := do
  let _ ← signs (← cursor).movesLeft
  if (← cursor).isSymbol .leftParen then
    let _ ← skipParentheses
  else
    let _ ← atom (← current)
    advance
    if ← skipSymbol .dot then
      let _ ← takeName
    let _ ← skipParentheses

/-- The text ends in the operand that starts under the cursor, and this is missing. -/
inductive Lacks : Missing → ParseState κ → Prop
  | operand {s : ParseState κ} (hend : s.cursor.isEnd = true) : Lacks .operand s
  | signed {s s₁ s₂ : ParseState κ} (hsign : skipIf [Symbol.minus, Symbol.plus] s = .ok true s₁)
    (hsigns : Rounds (skipIf [Symbol.minus, Symbol.plus]) s₁ s₂)
    (hend : s₂.cursor.isEnd = true) : Lacks .signed s
  | joined {s s₁ s₂ s₃ : ParseState κ} (hhead : operandHead s = .ok () s₁)
    (hjoints : Rounds skipJoint s₁ s₂)
    (hjoint : (s₂.cursor.isOperator || s₂.cursor.isSymbol .dot) = true)
    (hsigns : (do advance; loop (skipIf [Symbol.minus, Symbol.plus, Symbol.tilde])) s₂ = .ok () s₃)
    (hend : s₃.cursor.isEnd = true) : Lacks .joined s
  | name {s s₁ : ParseState κ} {before : List Symbol} {owner dot stop : Token}
    (hsigns : signs s.cursor.movesLeft s = .ok before s₁)
    (htokens : s₁.cursor.tokens = [owner, dot, stop]) (howner : owner.kind ≠ .symbol .leftParen)
    (hdot : dot.kind = .symbol .dot) (hend : stop.kind = .endOfText) :
    Lacks (.name !before.isEmpty) s

/-! ## At the end -/

section

variable (h : s.AtEnd text)
include h

theorem skipJoint_atEnd : skipJoint s = .ok false s := by
  rw [skipJoint, isJoint_bind, h.isOperator, h.isSymbol]
  rfl

theorem skipComposite_atEnd : skipComposite s = .ok false s := by
  rw [skipComposite, isJoint_bind, cursor_bind, h.isOperator, h.isSymbol, h.isSymbol]
  rfl

theorem signs_atEnd (n : Nat) : signs n s = .ok [] s := by
  cases n with
  | zero => rfl
  | succ n =>
    rw [signs, cursor_bind, h.isSymbol, h.isSymbol]
    rfl

/-- The end of the text is read as an operand. -/
theorem operand_atEnd : operand s = .ok (.other "") s := by
  have hatom : atom s.cursor.current s = .ok (.other "") s := by
    rw [h.current]
    rfl
  have hunsigned : unsignedOperand s = .ok (.other "") s := by
    rw [unsignedOperand, current_bind, cursor_bind, if_neg (by simp [h.isSymbol]),
      bind_of_eq_ok hatom, bind_of_eq_ok (advance_atEnd h), bind_of_eq_ok (skipSymbol_atEnd h _),
      if_neg (by simp), bind_of_eq_ok (skipComposite_atEnd h)]
    rfl
  rw [operand, current_bind, cursor_bind, bind_of_eq_ok (signs_atEnd h _), bind_of_eq_ok hunsigned]
  rfl

end

/-! ## Before the end -/

/-- An atom is always read, and the cursor stays. -/
theorem atom_cursor (t : Token) (s : ParseState κ) :
    ∃ e s', atom t s = .ok e s' ∧ s'.cursor = s.cursor := by
  rw [atom]
  generalize t.kind = kind
  split
  · exact ⟨_, s.counted, rfl, rfl⟩
  all_goals exact ⟨_, s, rfl, rfl⟩

theorem markOwner_cursor (t : Token) (s : ParseState κ) :
    ∃ s', markOwner t s = .ok () s' ∧ s'.cursor = s.cursor := by
  rw [markOwner, routing_bind]
  split
  · exact ⟨_, addMark_eq_ok.2 rfl, rfl⟩
  · exact ⟨s, rfl, rfl⟩

/-- With tokens ahead the cursor moves to the first of them. -/
theorem advance_of_ahead {t : Token} {ts : List Token} (h : s.cursor.ahead = t :: ts) :
    ∃ s', advance s = .ok () s' ∧ s'.cursor.tokens = t :: ts := by
  refine ⟨_, advance_eq_ok.2 ⟨{ s.cursor with current := t, ahead := ts }, ?_, rfl⟩, rfl⟩
  simp only [Cursor.next, h]

/-! ## Missing parts -/

/-- Behind signs the end of the text is refused. -/
theorem signs_finishes {s₂ : ParseState κ} {n : Nat}
    (hsign : skipIf [Symbol.minus, Symbol.plus] s = .ok true s₁)
    (hsigns : Rounds (skipIf [Symbol.minus, Symbol.plus]) s₁ s₂) (hend : s₂.AtEnd text)
    (hs : s.cursor.Closed) (hn : s.cursor.ahead.length < n) :
    Finishes text (some (.atEnd text)) s (signs n) := by
  -- Between two signs the end is looked out for as well, but the next sign stands there.
  induction hsigns using Relation.ReflTransGen.head_induction_on generalizing s n with
  | refl =>
    obtain ⟨n, rfl⟩ := Nat.exists_eq_add_one.2 (Nat.zero_lt_of_lt hn)
    obtain ⟨hkind, hadvance⟩ := skipIf_eq_ok.1 hsign
    have hsymbol : (s.cursor.isSymbol .minus || s.cursor.isSymbol .plus) = true := by
      simpa [Cursor.isAny, Cursor.isSymbol] using hkind
    rw [signs, cursor_bind_finishes, if_pos hsymbol]
    exact .of_bind hadvance (.bind_some (.of_error (refuseEnd_atEnd hend)))
  | @head s₁ s₃ hnext _ ih =>
    obtain ⟨n, rfl⟩ := Nat.exists_eq_add_one.2 (Nat.zero_lt_of_lt hn)
    obtain ⟨hclosed, hlt⟩ := skipIf_shrinks (by simp) hs hsign
    obtain ⟨hkind, hadvance⟩ := skipIf_eq_ok.1 hsign
    have hsymbol : (s.cursor.isSymbol .minus || s.cursor.isSymbol .plus) = true := by
      simpa [Cursor.isAny, Cursor.isSymbol] using hkind
    have hmore : s₁.cursor.isEnd = false := by
      have hkind := (skipIf_eq_ok.1 hnext).1
      simp only [Cursor.isAny, List.mem_cons, List.not_mem_nil, or_false,
        decide_eq_true_eq] at hkind
      rcases hkind with hkind | hkind <;> simp [Cursor.isEnd, hkind]
    rw [signs, cursor_bind_finishes, if_pos hsymbol]
    exact .of_bind hadvance (.of_bind (refuseEnd_of_ne hmore)
      (.bind_some (ih hnext hclosed (by omega))))

section

variable (hs : s.cursor.Stands text)
include hs

/-- Behind an owner and its dot the cursor comes to the end of the text. -/
theorem skipDot_atEnd {dot stop : Token} (hahead : s.cursor.ahead = [dot, stop])
    (hdot : dot.kind = .symbol .dot) (hend : stop.kind = .endOfText) :
    ∃ s₁ s₂, advance s = .ok () s₁ ∧ s₁.cursor.current = dot ∧
      skipSymbol .dot s₁ = .ok true s₂ ∧ s₂.AtEnd text := by
  obtain ⟨s₁, hadvance, htokens⟩ := advance_of_ahead hahead
  obtain ⟨hcurrent, hahead⟩ := List.cons.inj htokens
  obtain ⟨s₂, hadvance', htokens⟩ := advance_of_ahead hahead
  refine ⟨s₁, s₂, hadvance, hcurrent, skipIf_eq_ok.2 ⟨?_, hadvance'⟩, ?_, ?_⟩
  · rw [Cursor.isAny, hcurrent, hdot]
    rfl
  · exact (advance_safe.stands (advance_safe.stands hs hadvance).stands hadvance').stands
  · rw [Cursor.isEnd, (List.cons.inj htokens).1, hend]
    rfl

/-- A name that is missing behind its owner is read as one without letters. -/
theorem unsignedOperand_name {owner dot stop : Token}
    (htokens : s.cursor.tokens = [owner, dot, stop]) (howner : owner.kind ≠ .symbol .leftParen)
    (hdot : dot.kind = .symbol .dot) (hend : stop.kind = .endOfText) :
    ∃ owner name s', unsignedOperand s = .ok (.property owner name) s' ∧ s'.AtEnd text := by
  obtain ⟨hcurrent, hahead⟩ := List.cons.inj htokens
  obtain ⟨e, s₁, hatom, hcursor⟩ := atom_cursor s.cursor.current s
  obtain ⟨s₂, s₃, hadvance, -, hskip, hs₃⟩ :=
    skipDot_atEnd (hcursor ▸ hs) (hcursor ▸ hahead) hdot hend
  obtain ⟨s₄, hmark, hcursor₄⟩ := markOwner_cursor s.cursor.current s₃
  refine ⟨Text.unquoted s.cursor.current.literal, Text.unquoted s₃.cursor.current.literal, s₄, ?_,
    hs₃.of_cursor hcursor₄⟩
  have hparen : ¬s.cursor.isSymbol .leftParen = true := by
    rw [Cursor.isSymbol, hcurrent]
    simpa using howner
  rw [unsignedOperand, current_bind, cursor_bind, if_neg hparen, bind_of_eq_ok hatom,
    bind_of_eq_ok hadvance, bind_of_eq_ok hskip, if_pos rfl, bind_of_eq_ok (takeName_atEnd hs₃),
    bind_of_eq_ok (skipComposite_atEnd hs₃), if_neg (by simp), bind_of_eq_ok hmark]
  rfl

/-- Behind a joint the end of the text is refused. -/
theorem skipJoined_finishes {s₂ : ParseState κ} (hjoints : Rounds skipJoint s s₁)
    (hjoint : (s₁.cursor.isOperator || s₁.cursor.isSymbol .dot) = true)
    (hsigns : (do advance; loop (skipIf [Symbol.minus, Symbol.plus, Symbol.tilde])) s₁ = .ok () s₂)
    (hend : s₂.cursor.isEnd = true) : Finishes text (some (.atEnd text)) s skipJoined := by
  refine loop_finishes skipJoint_shrinks skipJoint_atEnd hs.closed hjoints ?_
  have hs₁ := hjoints.stands skipJoint_safe hs
  have hs₂ : s₂.AtEnd text :=
    ⟨((advance_safe.bind fun _ => loop_safe (skipIf_safe _)).stands hs₁ hsigns).stands, hend⟩
  obtain ⟨_, s', hadvance, hsigns⟩ := bind_eq_ok.1 hsigns
  rw [skipJoint, Finishes, isJoint_bind, if_pos hjoint]
  exact Finishes.of_bind hadvance (.of_bind hsigns (.bind_some (.of_error (refuseEnd_atEnd hs₂))))

theorem skipComposite_finishes {s₂ s₃ : ParseState κ} {part : String}
    (hparens : skipParentheses s = .ok part s₁) (hjoints : Rounds skipJoint s₁ s₂)
    (hjoint : (s₂.cursor.isOperator || s₂.cursor.isSymbol .dot) = true)
    (hsigns : (do advance; loop (skipIf [Symbol.minus, Symbol.plus, Symbol.tilde])) s₂ = .ok () s₃)
    (hend : s₃.cursor.isEnd = true) : Finishes text (some (.atEnd text)) s skipComposite := by
  -- There is a group to skip, or the first joint is under the cursor already.
  have hcomposite : ((s.cursor.isOperator || s.cursor.isSymbol .dot) ||
      s.cursor.isSymbol .leftParen) = true := by
    by_cases hopen : s.cursor.isSymbol .leftParen = true
    · rw [hopen, Bool.or_true]
    · rw [skipParentheses, cursor_bind, if_neg hopen] at hparens
      obtain ⟨_, rfl⟩ := pure_eq_ok.1 hparens
      rw [Bool.or_eq_true]
      left
      cases hjoints using Relation.ReflTransGen.head_induction_on with
      | refl => exact hjoint
      | head hround _ _ =>
        simp only [skipJoint, isJoint_bind, ite_eq_ok, pure_eq_ok, Bool.false_eq_true, false_and,
          and_false, or_false] at hround
        exact hround.1
  rw [skipComposite, Finishes, isJoint_bind]
  change Finishes text _ s (cursor >>= _)
  rw [cursor_bind_finishes, if_pos hcomposite]
  have hs₁ := (skipParentheses_safe.stands hs hparens).stands
  exact .of_bind hparens (.bind_some (skipJoined_finishes hs₁ hjoints hjoint hsigns hend))

/-- With signs or without, an operand whose name is missing names a column to sort by. -/
theorem operand_name {signed : Bool} (h : Lacks (.name signed) s) :
    ∃ e s', operand s = .ok e s' ∧ (sortColumn? e).isSome = true ∧
      e.columnName?.isSome = !signed ∧ s'.AtEnd text := by
  cases h with
  | @name _ s₁ before owner dot stop hsigns htokens howner hdot hend =>
    have hs₁ := ((signs_safe _).stands hs hsigns).stands
    obtain ⟨owner, name, s', hrun, hs'⟩ := unsignedOperand_name hs₁ htokens howner hdot hend
    rw [operand, current_bind, cursor_bind, bind_of_eq_ok hsigns, bind_of_eq_ok hrun]
    by_cases hbefore : before.isEmpty = true
    · exact ⟨_, s', by rw [if_pos hbefore]; rfl, rfl, by rw [hbefore]; rfl, hs'⟩
    · obtain ⟨part, hpart⟩ := textSince_atEnd hs' hs.current_at.boundaries.1
      refine ⟨.other part, s', ?_, rfl, by simp [hbefore, Expression.columnName?], hs'⟩
      rw [if_neg hbefore]
      dsimp only
      rw [bind_of_eq_ok hpart]
      rfl

theorem operand_joined (h : Lacks .joined s) : Finishes text (some (.atEnd text)) s operand := by
  cases h with
  | @joined _ s₁ s₂ s₃ hhead hjoints hjoint hsigns hend =>
    simp only [operandHead, cursor_bind, bind_eq_ok] at hhead
    obtain ⟨before, sₒ, hbefore, hhead⟩ := hhead
    have hsₒ := ((signs_safe _).stands hs hbefore).stands
    rw [operand, current_bind_finishes, cursor_bind_finishes]
    refine .of_bind hbefore (.bind_some ?_)
    rw [unsignedOperand, current_bind_finishes, cursor_bind_finishes]
    -- The operand runs along its head, a group or an atom with its name, up to the joints.
    by_cases hopen : sₒ.cursor.isSymbol .leftParen = true
    · rw [if_pos hopen] at hhead ⊢
      obtain ⟨part, _, hparens, hhead⟩ := bind_eq_ok.1 hhead
      obtain ⟨_, rfl⟩ := pure_eq_ok.1 hhead
      have hs₁ := (skipParentheses_safe.stands hsₒ hparens).stands
      exact .of_bind hparens (.bind_some (skipJoined_finishes hs₁ hjoints hjoint hsigns hend))
    · rw [if_neg hopen] at hhead ⊢
      rw [current_bind] at hhead
      simp only [bind_eq_ok] at hhead
      obtain ⟨e, sₐ, hatom, _, sₙ, hadvance, dot, s', hdot, hhead⟩ := hhead
      refine .of_bind hatom (.of_bind hadvance (.of_bind hdot ?_))
      have hs' : s'.cursor.Stands text :=
        (((atom_safe _).bind fun _ => advance_safe.bind fun _ => skipSymbol_safe _).stands hsₒ
          (by rw [bind_of_eq_ok hatom, bind_of_eq_ok hadvance, hdot])).stands
      cases dot with
      | true =>
        rw [if_pos rfl] at hhead ⊢
        obtain ⟨name, s'', hname, hhead⟩ := bind_eq_ok.1 hhead
        obtain ⟨part, _, hparens, hhead⟩ := bind_eq_ok.1 hhead
        obtain ⟨_, rfl⟩ := pure_eq_ok.1 hhead
        have hs'' := (takeName_safe.stands hs' hname).stands
        exact .of_bind hname (.bind_some
          (skipComposite_finishes hs'' hparens hjoints hjoint hsigns hend))
      | false =>
        rw [if_neg (by simp)] at hhead ⊢
        obtain ⟨part, _, hparens, hhead⟩ := bind_eq_ok.1 hhead
        obtain ⟨_, rfl⟩ := pure_eq_ok.1 hhead
        exact .bind_some (skipComposite_finishes hs' hparens hjoints hjoint hsigns hend)

/-- What becomes of an operand that something is missing of. -/
theorem Lacks.finishes (h : Lacks missing s) :
    Finishes text (missing.failure text false) s Grammar.operand := by
  cases missing with
  | operand =>
    cases h with
    | operand hend => exact .of_ok (operand_atEnd ⟨hs, hend⟩) ⟨hs, hend⟩
  | signed =>
    cases h with
    | @signed _ s₁ s₂ hsign hsigns hend =>
      have hs₁ := ((skipIf_safe _).stands hs hsign).stands
      have hs₂ : s₂.AtEnd text := ⟨hsigns.stands (skipIf_safe _) hs₁, hend⟩
      rw [Grammar.operand, current_bind_finishes, cursor_bind_finishes]
      exact .bind_some (signs_finishes hsign hsigns hs₂ hs.closed (Nat.lt_succ_self _))
  | joined => exact operand_joined hs h
  | name =>
    obtain ⟨e, s', hrun, -, -, hs'⟩ := operand_name hs h
    exact .of_ok hrun hs'

omit hs in
theorem signs_eq_nil {n : Nat} (h : signs n s = .ok [] s₁) : s₁ = s := by
  cases n with
  | zero => exact (pure_eq_ok.1 h).2.symm
  | succ n =>
    simp only [signs, cursor_bind, ite_eq_ok, bind_eq_ok, pure_eq_ok, reduceCtorEq, false_and,
      and_false, exists_false, false_or, true_and] at h
    exact h.2.symm

omit hs in
/-- Without signs an operand whose name is missing starts with its owner. -/
theorem Lacks.tokens_eq (h : Lacks (.name false) s) : ∃ owner dot stop,
    s.cursor.tokens = [owner, dot, stop] ∧ owner.kind ≠ .symbol .leftParen ∧
      dot.kind = .symbol .dot ∧ stop.kind = .endOfText := by
  generalize hm : Missing.name false = m at h
  cases h with
  | operand | signed | joined => cases hm
  | @name _ _ before owner dot stop hsigns htokens howner hdot hend =>
    obtain rfl : before = [] := by simpa using hm
    rw [signs_eq_nil hsigns] at htokens
    exact ⟨owner, dot, stop, htokens, howner, hdot, hend⟩

omit hs in
/-- At the end of the text there is no dot ahead. -/
theorem Lacks.ne_name (h : Lacks missing s) (hend : s.AtEnd text) (signed : Bool) :
    missing ≠ .name signed := by
  rintro rfl
  cases h with
  | name hsigns htokens _ _ _ =>
    obtain ⟨_, rfl⟩ := EStateM.Result.ok.inj ((signs_atEnd hend _).symm.trans hsigns)
    have hahead := (hend.stands.closed _ _ List.suffix_rfl).1 hend.kind
    rw [(List.cons.inj htokens).2] at hahead
    cases hahead.1

/-- An operand before which the end of the text is refused. -/
theorem Lacks.guarded {p : Parser κ α} (h : Lacks missing s)
    (hp : s.cursor.isEnd = false → Finishes text ((missing.failure text false).or failure) s p) :
    Finishes text ((missing.failure text true).or failure) s (refuseEnd >>= fun _ => p) := by
  -- At the end the whole operand is missing: of one that has begun there are tokens ahead.
  cases hend : s.cursor.isEnd with
  | true =>
    have hs : s.AtEnd text := ⟨hs, hend⟩
    have hrefused : missing.failure text true = some (.atEnd text) := by
      cases missing with
      | operand | signed | joined => rfl
      | name signed => exact absurd rfl (h.ne_name hs signed)
    rw [hrefused, Option.some_or]
    exact .bind_some (.of_error (refuseEnd_atEnd hs))
  | false =>
    have hsame : missing.failure text true = missing.failure text false := by
      cases h with
      | operand h => rw [h] at hend; cases hend
      | signed | joined | name => rfl
    rw [hsame]
    exact .of_bind (refuseEnd_of_ne hend) (hp hend)

end

end Grammar

end SqlRouting
