import SqlRouting.Proofs.KeptText
import SqlRouting.Proofs.OperandTree
import SqlRouting.Proofs.Written.Operand

/-!
# The grammar of operands

The parser has no grammar of operands: it reads signs and an atom, and what goes on with it is
skipped joint by joint. That it reads the whole of every operand and no more is shown along the
tokens of a tree, from the joints (`Grammar.rounds_of_joints`) over what stands without signs
(`Grammar.unsignedOperand_facing`) to the operand (`Grammar.operand_facing`).

An operand that is kept as text is cut out up to the token behind it. No operand ends in a blank
(`Token.EndsOperand.endsSolid`), so without a comment there the text is just what its tokens are
written as.
-/

namespace SqlRouting

open Text (trimEnd)

/-! ## Runs -/

/-- The state with other marks. -/
def ParseState.marked {κ : Type} (s : ParseState κ) (marks : List Mark) : ParseState κ :=
  { s with body := { s.body with marks } }

namespace Parser

variable {κ : Type} {step : Parser κ Bool} {s s₁ s' : ParseState κ}

theorem Rounds.single (h : step s = .ok true s') : Rounds step s s' :=
  Relation.ReflTransGen.single h

theorem Rounds.head (h : step s = .ok true s₁) (hmore : Rounds step s₁ s') : Rounds step s s' :=
  Relation.ReflTransGen.head h hmore

theorem Rounds.trans (h : Rounds step s s₁) (hmore : Rounds step s₁ s') : Rounds step s s' :=
  Relation.ReflTransGen.trans h hmore

/-- A loop goes on for its rounds, as each of them consumes a token. -/
theorem loop_of_rounds
    (hshrinks : ∀ {s s'}, s.cursor.Closed → step s = .ok true s' →
      s'.cursor.Closed ∧ s'.cursor.ahead.length < s.cursor.ahead.length)
    (hs : s.cursor.Closed) (h : Rounds step s s₁) (hstop : step s₁ = .ok false s') :
    loop step s = .ok () s' := by
  rw [loop, cursor_bind]
  have hn : s.cursor.ahead.length < s.cursor.movesLeft := Nat.lt_succ_self _
  generalize s.cursor.movesLeft = n at hn ⊢
  induction h using Relation.ReflTransGen.head_induction_on generalizing n with
  | refl =>
    obtain ⟨n, rfl⟩ := Nat.exists_eq_add_one.2 (Nat.zero_lt_of_lt hn)
    rw [iterate, bind_of_eq_ok hstop]
    rfl
  | head hround _ ih =>
    obtain ⟨n, rfl⟩ := Nat.exists_eq_add_one.2 (Nat.zero_lt_of_lt hn)
    obtain ⟨hclosed, hlt⟩ := hshrinks hs hround
    rw [iterate, bind_of_eq_ok hround]
    exact ih hclosed n (by omega)

end Parser

namespace Grammar

open SqlRouting.Parser

variable {κ : Type} {s : ParseState κ} {n : Nat} {op t l r : Token} {signs ts us : List Token}

/-! ### Joints -/

/-- The joint and the signs behind it are passed. -/
theorem skipJoint_facing (hop : op.kind ∈ (Symbol.dot :: Symbol.operators).map TokenKind.symbol)
    (hsigns : ∀ t ∈ signs, t.kind = .symbol .minus ∨ t.kind = .symbol .plus)
    (hus : headKind us ≠ .symbol .minus ∧ headKind us ≠ .symbol .plus ∧
      headKind us ≠ .symbol .tilde ∧ headKind us ≠ .endOfText) :
    skipJoint (s.facing n (op :: (signs ++ us))) = (do
      countPlaceholder
      if !(← cursor).isSymbol .leftParen then advance
      let _ ← skipParentheses
      return true) (s.facing n us) := by
  have hne : us ≠ [] := by
    rintro rfl
    exact hus.2.2.2 rfl
  have hjoint : ((s.facing n (op :: (signs ++ us))).cursor.isOperator ||
      (s.facing n (op :: (signs ++ us))).cursor.isSymbol .dot) = true := by
    simp only [ParseState.isOperator_facing, ParseState.isSymbol_facing, headKind_cons]
    rw [List.map_cons, List.mem_cons] at hop
    rcases hop with hop | hop <;> simp [hop]
  have hloop : loop (skipIf [Symbol.minus, Symbol.plus, Symbol.tilde])
      (s.facing n (signs ++ us)) = .ok () (s.facing n us) := by
    refine loop_skipIf_facing hne (fun t ht => ?_) (by simp [hus])
    rcases hsigns t ht with h | h <;> simp [h]
  rw [skipJoint, isJoint_bind, if_pos hjoint, bind_of_eq_ok (advance_facing (by simp [hne])),
    bind_of_eq_ok hloop, bind_of_eq_ok (refuseEnd_facing hus.2.2.2)]

/-- A joint is passed with the token that it joins, and with the arguments behind this. -/
theorem skipJoint_token {part : String} {s' : ParseState κ}
    (hop : op.kind ∈ (Symbol.dot :: Symbol.operators).map TokenKind.symbol)
    (hsigns : ∀ t ∈ signs, t.kind = .symbol .minus ∨ t.kind = .symbol .plus)
    (ht : t.kind ≠ .symbol .minus ∧ t.kind ≠ .symbol .plus ∧ t.kind ≠ .symbol .tilde ∧
      t.kind ≠ .endOfText ∧ t.kind ≠ .symbol .leftParen) (hne : us ≠ [])
    (hparens : skipParentheses (s.facing (n + if t.kind = .symbol .question then 1 else 0) us) =
      .ok part s') :
    skipJoint (s.facing n (op :: (signs ++ t :: us))) = .ok true s' := by
  rw [skipJoint_facing hop hsigns (by simp [ht]), bind_of_eq_ok countPlaceholder_facing,
    cursor_bind, if_pos (by simp [ht]), bind_of_eq_ok (advance_facing hne)]
  exact bind_eq_ok.2 ⟨part, s', hparens, rfl⟩

/-- So is a joint with the word that it joins. -/
theorem skipJoint_word {part : String} {s' : ParseState κ}
    (hop : op.kind ∈ (Symbol.dot :: Symbol.operators).map TokenKind.symbol)
    (hsigns : ∀ t ∈ signs, t.kind = .symbol .minus ∨ t.kind = .symbol .plus)
    (ht : t.IsWord) (hne : us ≠ []) (hparens : skipParentheses (s.facing n us) = .ok part s') :
    skipJoint (s.facing n (op :: (signs ++ t :: us))) = .ok true s' :=
  skipJoint_token hop hsigns (by simp [ht.kind]) hne (by simpa [ht.kind] using hparens)

/-- A joint is passed with the group that it joins. -/
theorem skipJoint_group {part : String} {s' : ParseState κ}
    (hop : op.kind ∈ (Symbol.dot :: Symbol.operators).map TokenKind.symbol)
    (hsigns : ∀ t ∈ signs, t.kind = .symbol .minus ∨ t.kind = .symbol .plus)
    (hl : l.kind = .symbol .leftParen)
    (hparens : skipParentheses (s.facing n (l :: us)) = .ok part s') :
    skipJoint (s.facing n (op :: (signs ++ l :: us))) = .ok true s' := by
  have hcount : countPlaceholder (s.facing n (l :: us)) = .ok () (s.facing n (l :: us)) := by
    have h : countPlaceholder (s.facing n (l :: us)) = _ := countPlaceholder_facing
    simpa [hl] using h
  rw [skipJoint_facing hop hsigns (by simp [hl]), bind_of_eq_ok hcount, cursor_bind,
    if_neg (by simp [hl])]
  exact bind_eq_ok.2 ⟨part, s', hparens, rfl⟩

/-- Behind an operand there is no parenthesis and no dot, whatever is joined to it. -/
theorem headKind_joints (joints : List OperandJoint) (hus : (headKind us).endsOperand = true) :
    headKind (jointTokens joints ++ us) ≠ .symbol .leftParen ∧
      headKind (jointTokens joints ++ us) ≠ .symbol .dot := by
  cases joints with
  | nil =>
    obtain ⟨_, hdot, hopen⟩ := TokenKind.endsOperand_iff.1 hus
    exact ⟨hopen, hdot⟩
  | cons joint joints =>
    obtain ⟨x, hx, hop⟩ := joint.hop
    have hne : x ≠ .leftParen ∧ x ≠ .dot := by
      constructor <;> rintro rfl <;> exact absurd hx (by decide)
    simpa [OperandJoint.tokens, hop] using hne

/-- Where an operand ends, there is no more to it. -/
theorem skipComposite_facing_none (hus : (headKind us).endsOperand = true) :
    skipComposite (s.facing n us) = .ok false (s.facing n us) := by
  obtain ⟨hoperator, hdot, hopen⟩ := TokenKind.endsOperand_iff.1 hus
  refine skipComposite_eq_ok.2 ⟨?_, rfl⟩
  simp [hdot, hopen]
  simpa using hoperator

section

variable {text : List Char} (hs : s.cursor.Stands text)
include hs

/-- An atom that is joined to an operand is passed. -/
theorem rounds_of_atom {a : OperandAtom}
    (hop : op.kind ∈ (Symbol.dot :: Symbol.operators).map TokenKind.symbol)
    (hsigns : ∀ t ∈ signs, t.kind = .symbol .minus ∨ t.kind = .symbol .plus)
    (hne : us ≠ []) (hus : headKind us ≠ .symbol .leftParen)
    (hsuffix : a.tokens ++ us <:+ s.cursor.tokens) :
    Rounds skipJoint (s.facing n (op :: (signs ++ (a.tokens ++ us))))
      (s.facing (n + questions a.tokens) us) := by
  cases a with
  | single t value h =>
    refine .single ?_
    rw [OperandAtom.tokens, List.singleton_append, questions_cons, questions_nil, Nat.add_zero]
    exact skipJoint_token hop hsigns h.kind_ne hne (skipParentheses_facing_none hus)
  | property owner dot name howner hdot hname =>
    -- The dot behind the owner is a joint of its own.
    have hfirst : skipJoint (s.facing n (op :: (signs ++ owner :: dot :: name :: us))) =
        .ok true (s.facing n (dot :: name :: us)) :=
      skipJoint_word hop hsigns howner (by simp) (skipParentheses_facing_none (by simp [hdot]))
    have hsecond : skipJoint (s.facing n (dot :: ([] ++ name :: us))) =
        .ok true (s.facing n us) :=
      skipJoint_word (by simp [hdot]) (by simp) hname hne (skipParentheses_facing_none hus)
    simpa [OperandAtom.tokens, howner.kind, hdot, hname.kind] using
      Rounds.head hfirst (.single hsecond)
  | call name l inner r hname hl hr hinner =>
    have hgroup : l :: (inner ++ r :: us) <:+ s.cursor.tokens := by
      refine List.IsSuffix.trans ⟨[name], ?_⟩ hsuffix
      simp [OperandAtom.tokens]
    obtain ⟨part, hparens⟩ := skipParentheses_facing (n := n) hs hgroup hne hl hr hinner
    have hcall : skipJoint (s.facing n (op :: (signs ++ name :: l :: (inner ++ r :: us)))) =
        .ok true (s.facing (n + questions inner) us) :=
      skipJoint_word hop hsigns hname (by simp) hparens
    simpa [OperandAtom.tokens, hname.kind, hl, hr] using Rounds.single hcall
  | group l inner r hl hr hinner =>
    have hgroup : l :: (inner ++ r :: us) <:+ s.cursor.tokens := by
      simpa [OperandAtom.tokens] using hsuffix
    obtain ⟨part, hparens⟩ := skipParentheses_facing (n := n) hs hgroup hne hl hr hinner
    have hfirst := skipJoint_group hop hsigns hl hparens
    simpa [OperandAtom.tokens, hl, hr] using Rounds.single hfirst

/-- What joints join to an operand is passed, joint by joint. -/
theorem rounds_of_joints {joints : List OperandJoint} (hne : us ≠ [])
    (hus : (headKind us).endsOperand = true)
    (hsuffix : jointTokens joints ++ us <:+ s.cursor.tokens) :
    Rounds skipJoint (s.facing n (jointTokens joints ++ us))
      (s.facing (n + questions (jointTokens joints)) us) := by
  induction joints generalizing n with
  | nil => exact .refl
  | cons joint joints ih =>
    obtain ⟨op, ⟨x, hx, hop⟩, signs, hsigns, a⟩ := joint
    have hkind : op.kind ∈ (Symbol.dot :: Symbol.operators).map TokenKind.symbol :=
      hop ▸ List.mem_map_of_mem (List.mem_cons_of_mem _ hx)
    have htokens : jointTokens (⟨op, ⟨x, hx, hop⟩, signs, hsigns, a⟩ :: joints) ++ us =
        op :: (signs ++ (a.tokens ++ (jointTokens joints ++ us))) := by
      simp [OperandJoint.tokens, OperandTerm.tokens]
    rw [htokens] at hsuffix ⊢
    have hatom : a.tokens ++ (jointTokens joints ++ us) <:+ s.cursor.tokens :=
      ((List.suffix_append signs _).trans (List.suffix_cons op _)).trans hsuffix
    have hrounds := rounds_of_atom (n := n) hs hkind hsigns (by simp [hne])
      (headKind_joints joints hus).1 hatom
    have hmore := ih (n := n + questions a.tokens) ((List.suffix_append _ _).trans hatom)
    have hquestions : questions (jointTokens (⟨op, ⟨x, hx, hop⟩, signs, hsigns, a⟩ :: joints)) =
        questions a.tokens + questions (jointTokens joints) := by
      have hop' : op.kind ≠ .symbol .question := by
        rw [hop]
        rintro ⟨⟩
        exact absurd hx (by decide)
      simp [OperandJoint.tokens, OperandTerm.tokens, hop', questions_signs hsigns]
    rw [hquestions, ← Nat.add_assoc]
    exact hrounds.trans hmore

theorem skipJoined_facing {joints : List OperandJoint} (hne : us ≠ [])
    (hus : (headKind us).endsOperand = true)
    (hsuffix : jointTokens joints ++ us <:+ s.cursor.tokens) :
    skipJoined (s.facing n (jointTokens joints ++ us)) =
      .ok () (s.facing (n + questions (jointTokens joints)) us) := by
  obtain ⟨hoperator, hdot, _⟩ := TokenKind.endsOperand_iff.1 hus
  refine loop_of_rounds skipJoint_shrinks (hs.closed.facing (by simp [hne]) hsuffix)
    (rounds_of_joints hs hne hus hsuffix) ?_
  rw [skipJoint, isJoint_bind, if_neg (by simp [hdot]; simpa using hoperator)]
  rfl

/-- What is joined to an operand makes more of it. -/
theorem skipComposite_facing_joined {joint : OperandJoint} {joints : List OperandJoint}
    (hne : us ≠ []) (hus : (headKind us).endsOperand = true)
    (hsuffix : jointTokens (joint :: joints) ++ us <:+ s.cursor.tokens) :
    skipComposite (s.facing n (jointTokens (joint :: joints) ++ us)) =
      .ok true (s.facing (n + questions (jointTokens (joint :: joints))) us) := by
  obtain ⟨x, hx, hop⟩ := joint.hop
  refine skipComposite_eq_ok.2 ⟨?_, "", _,
    skipParentheses_facing_none (headKind_joints (joint :: joints) hus).1,
    skipJoined_facing hs hne hus hsuffix⟩
  have hkind : headKind (jointTokens (joint :: joints) ++ us) ∈
      Symbol.operators.map TokenKind.symbol :=
    List.mem_map.2 ⟨x, hx, hop.symm⟩
  rw [ParseState.isOperator_facing, decide_eq_true hkind, Bool.true_or, Bool.true_or]

/-- A group behind a name makes more of it, a call. -/
theorem skipComposite_facing_group {joints : List OperandJoint} (hne : us ≠ [])
    (hus : (headKind us).endsOperand = true) (hl : l.kind = .symbol .leftParen)
    (hr : r.kind = .symbol .rightParen) (hinner : BalancedTokens ts)
    (hsuffix : l :: (ts ++ r :: (jointTokens joints ++ us)) <:+ s.cursor.tokens) :
    skipComposite (s.facing n (l :: (ts ++ r :: (jointTokens joints ++ us)))) =
      .ok true (s.facing (n + questions ts + questions (jointTokens joints)) us) := by
  obtain ⟨part, hparens⟩ := skipParentheses_facing (n := n) hs hsuffix (by simp [hne]) hl hr hinner
  have hjoints : jointTokens joints ++ us <:+ s.cursor.tokens :=
    ((List.suffix_cons r _).trans (List.suffix_append (l :: ts) _)).trans hsuffix
  refine skipComposite_eq_ok.2 ⟨?_, part, _, hparens, skipJoined_facing hs hne hus hjoints⟩
  simp [hl]

/-- The text from one of the tokens to the next one behind them can be cut out. -/
theorem exists_kept {next : Token} {more : List Token} (hne : ts ≠ [])
    (hsuffix : ts ++ next :: more <:+ s.cursor.tokens) :
    ∃ kept, ∀ t ∈ ts.head?, textSince t.start (s.facing n (next :: more)) =
      .ok kept (s.facing n (next :: more)) := by
  obtain ⟨t, ts, rfl⟩ := List.exists_cons_of_ne_nil hne
  have hlt : t.start < next.start := hs.start_lt hsuffix (by simp)
  have hat (u : Token) (hu : u ∈ t :: ts ++ next :: more) :=
    (hs.tokens_at u (hsuffix.subset hu)).boundaries.1
  obtain ⟨part, hpart⟩ :=
    (hat t (by simp)).exists_slice? (hat next (by simp)) (Nat.le_of_lt hlt)
  refine ⟨String.ofList (trimEnd part), ?_⟩
  rintro _ ⟨⟩
  rw [textSince, current_bind, ParseState.current_facing, Nat.max_eq_left (Nat.le_of_lt hlt)]
  refine bind_eq_ok.2 ⟨String.ofList part, _, slice_eq_ok.2 ⟨?_, rfl⟩, by simp [pure_eq_ok]⟩
  simp [hs.text_eq, hpart]

end

/-! ### Operands without signs -/

/-- Marking an owner changes nothing but the marks. -/
theorem markOwner_marked (owner : Token) :
    ∃ marks, markOwner owner s = .ok () (s.marked marks) := by
  rw [markOwner, routing_bind]
  split
  · exact ⟨_, addMark_eq_ok.2 rfl⟩
  · exact ⟨s.body.marks, rfl⟩

/-- A token that stands alone is read as what it says. -/
theorem atom_facing {value : Nat → Expression} (h : t.Says value) :
    atom t (s.facing n (t :: us)) = .ok (value (s.body.parameters + n))
      (s.facing (n + if t.kind = .symbol .question then 1 else 0) (t :: us)) := by
  cases h with
  | placeholder ht =>
    simp only [atom, ht]
    rfl
  | text ht =>
    simp only [atom, ht]
    rfl
  | word h =>
    simp only [atom, h.kind, h.unquoted]
    rfl
  | integer ht hn hvalue =>
    simp only [atom, ht, Number.ofInt?, Number.integer?, hvalue, Option.bind_some, if_pos hn]
    rfl

theorem atom_word (h : t.IsWord) :
    atom t (s.facing n (t :: us)) = .ok (.identifier t.literal) (s.facing n (t :: us)) := by
  have hatom : atom t (s.facing n (t :: us)) = _ := atom_facing (.word h)
  simpa [h.kind] using hatom

/-- Behind a token that no dot follows it is seen whether there is more to the operand. -/
theorem unsignedOperand_token {e : Expression} {m : Nat} (hopen : t.kind ≠ .symbol .leftParen)
    (hatom : atom t (s.facing n (t :: us)) = .ok e (s.facing m (t :: us))) (hne : us ≠ [])
    (hdot : headKind us ≠ .symbol .dot) : unsignedOperand (s.facing n (t :: us)) = (do
      if ← skipComposite then return Expression.other (← textSince t.start) else return e)
        (s.facing m us) := by
  rw [unsignedOperand, current_bind, cursor_bind, if_neg (by simp [hopen]),
    ParseState.current_facing, bind_of_eq_ok hatom, bind_of_eq_ok (advance_facing hne),
    bind_of_eq_ok (skipSymbol_facing_none hdot), if_neg (by simp)]

/-- A token is read as an operand on its own before the end of the operand. -/
theorem unsignedOperand_atom {e : Expression} {m : Nat} (hopen : t.kind ≠ .symbol .leftParen)
    (hatom : atom t (s.facing n (t :: us)) = .ok e (s.facing m (t :: us))) (hne : us ≠ [])
    (hus : (headKind us).endsOperand = true) :
    unsignedOperand (s.facing n (t :: us)) = .ok e (s.facing m us) := by
  rw [unsignedOperand_token hopen hatom hne (TokenKind.endsOperand_iff.1 hus).2.1,
    bind_of_eq_ok (skipComposite_facing_none hus)]
  rfl

/-- A token that more follows is kept as text with it. -/
theorem unsignedOperand_composite {e : Expression} {m : Nat} {kept : String} {s' : ParseState κ}
    (hopen : t.kind ≠ .symbol .leftParen)
    (hatom : atom t (s.facing n (t :: us)) = .ok e (s.facing m (t :: us))) (hne : us ≠ [])
    (hdot : headKind us ≠ .symbol .dot) (hmore : skipComposite (s.facing m us) = .ok true s')
    (hkept : textSince t.start s' = .ok kept s') :
    unsignedOperand (s.facing n (t :: us)) = .ok (.other kept) s' := by
  rw [unsignedOperand_token hopen hatom hne hdot, bind_of_eq_ok hmore, if_pos rfl,
    bind_of_eq_ok hkept]
  rfl

/-- Behind a name with its owner it is seen whether there is more to the operand. -/
theorem unsignedOperand_dotted {owner dot name : Token} (howner : owner.IsWord)
    (hdot : dot.kind = .symbol .dot) (hname : name.IsWord) (hne : us ≠ []) :
    unsignedOperand (s.facing n (owner :: dot :: name :: us)) = (do
      if ← skipComposite then return Expression.other (← textSince owner.start)
      else
        markOwner owner
        return Expression.property owner.literal name.literal) (s.facing n us) := by
  rw [unsignedOperand, current_bind, cursor_bind, if_neg (by simp [howner.kind]),
    ParseState.current_facing, bind_of_eq_ok (atom_word howner),
    bind_of_eq_ok (advance_facing (by simp)), bind_of_eq_ok (skipSymbol_facing (by simp) hdot),
    if_pos rfl, bind_of_eq_ok (takeName_facing hne (by simp [hname.kind])), howner.unquoted,
    hname.unquoted]

/-- A name with its owner is read before the end of the operand. -/
theorem unsignedOperand_property {owner dot name : Token} (howner : owner.IsWord)
    (hdot : dot.kind = .symbol .dot) (hname : name.IsWord) (hne : us ≠ [])
    (hus : (headKind us).endsOperand = true) :
    ∃ marks, unsignedOperand (s.facing n (owner :: dot :: name :: us)) =
      .ok (.property owner.literal name.literal) ((s.facing n us).marked marks) := by
  obtain ⟨marks, hmark⟩ := markOwner_marked (s := s.facing n us) owner
  refine ⟨marks, ?_⟩
  rw [unsignedOperand_dotted howner hdot hname hne, bind_of_eq_ok (skipComposite_facing_none hus),
    if_neg (by simp), bind_of_eq_ok hmark]
  rfl

/-- A name with its owner that more follows is kept as text with it. -/
theorem unsignedOperand_property_composite {owner dot name : Token} {kept : String}
    {s' : ParseState κ} (howner : owner.IsWord) (hdot : dot.kind = .symbol .dot)
    (hname : name.IsWord) (hne : us ≠ []) (hmore : skipComposite (s.facing n us) = .ok true s')
    (hkept : textSince owner.start s' = .ok kept s') :
    unsignedOperand (s.facing n (owner :: dot :: name :: us)) = .ok (.other kept) s' := by
  rw [unsignedOperand_dotted howner hdot hname hne, bind_of_eq_ok hmore, if_pos rfl,
    bind_of_eq_ok hkept]
  rfl

section

variable {text : List Char} (hs : s.cursor.Stands text)
include hs

/-- What is more than an operand on its own is kept as text. -/
theorem unsignedOperand_other {a : OperandAtom} {joints : List OperandJoint} {next : Token}
    {more : List Token} {kept : String} (hnone : joints = [] → a.value? = none)
    (hnext : next.kind.endsOperand = true)
    (hsuffix : a.tokens ++ (jointTokens joints ++ next :: more) <:+ s.cursor.tokens)
    (hkept : ∀ t ∈ a.tokens.head?,
      textSince t.start (s.facing (n + questions (a.tokens ++ jointTokens joints)) (next :: more)) =
        .ok kept (s.facing (n + questions (a.tokens ++ jointTokens joints)) (next :: more))) :
    unsignedOperand (s.facing n (a.tokens ++ (jointTokens joints ++ next :: more))) =
      .ok (.other kept)
        (s.facing (n + questions (a.tokens ++ jointTokens joints)) (next :: more)) := by
  have hus : (headKind (next :: more)).endsOperand = true := hnext
  obtain ⟨hopen, hdot⟩ := headKind_joints joints hus
  cases a with
  | single t value h =>
    -- On its own it would keep its value, so there is a joint.
    obtain ⟨joint, joints, rfl⟩ := List.exists_cons_of_ne_nil fun hnil =>
      Option.some_ne_none _ (hnone hnil)
    have hquestions : n + questions ([t] ++ jointTokens (joint :: joints)) =
        (n + if t.kind = .symbol .question then 1 else 0) +
          questions (jointTokens (joint :: joints)) := by
      rw [List.singleton_append, questions_cons, Nat.add_assoc]
    simp only [OperandAtom.tokens, hquestions] at hkept hsuffix ⊢
    exact unsignedOperand_composite h.kind_ne.2.2.2.2 (atom_facing h) (by simp) hdot
      (skipComposite_facing_joined hs (by simp) hus ((List.suffix_append [t] _).trans hsuffix))
      (hkept t rfl)
  | property owner dot name howner hdotKind hname =>
    obtain ⟨joint, joints, rfl⟩ := List.exists_cons_of_ne_nil fun hnil =>
      Option.some_ne_none _ (hnone hnil)
    have hquestions : questions ([owner, dot, name] ++ jointTokens (joint :: joints)) =
        questions (jointTokens (joint :: joints)) := by
      simp [howner.kind, hdotKind, hname.kind]
    simp only [OperandAtom.tokens, hquestions] at hkept hsuffix ⊢
    exact unsignedOperand_property_composite howner hdotKind hname (by simp)
      (skipComposite_facing_joined hs (by simp) hus
        ((List.suffix_append [owner, dot, name] _).trans hsuffix))
      (hkept owner rfl)
  | call name l inner r hname hl hr hinner =>
    have hquestions : n + questions (name :: l :: (inner ++ [r]) ++ jointTokens joints) =
        n + questions inner + questions (jointTokens joints) := by
      simp [hname.kind, hl, hr, Nat.add_assoc]
    have htokens : name :: l :: (inner ++ [r]) ++ (jointTokens joints ++ next :: more) =
        name :: l :: (inner ++ r :: (jointTokens joints ++ next :: more)) := by simp
    simp only [OperandAtom.tokens, hquestions, htokens] at hkept hsuffix ⊢
    exact unsignedOperand_composite (by simp [hname.kind]) (atom_word hname) (by simp)
      (by simp [hl])
      (skipComposite_facing_group hs (by simp) hus hl hr hinner
        ((List.suffix_cons name _).trans hsuffix))
      (hkept name rfl)
  | group l inner r hl hr hinner =>
    have hquestions : n + questions (l :: (inner ++ [r]) ++ jointTokens joints) =
        n + questions inner + questions (jointTokens joints) := by
      simp [hl, hr, Nat.add_assoc]
    have htokens : l :: (inner ++ [r]) ++ (jointTokens joints ++ next :: more) =
        l :: (inner ++ r :: (jointTokens joints ++ next :: more)) := by simp
    have hjoints := (List.suffix_append _ _).trans hsuffix
    simp only [OperandAtom.tokens, hquestions, htokens] at hkept hsuffix ⊢
    obtain ⟨part, hparens⟩ := skipParentheses_facing (n := n) hs hsuffix (by simp) hl hr hinner
    rw [unsignedOperand, current_bind, cursor_bind, if_pos (by simp [hl]), bind_of_eq_ok hparens,
      bind_of_eq_ok (skipJoined_facing hs (by simp) hus hjoints), ParseState.current_facing,
      bind_of_eq_ok (hkept l rfl)]
    rfl

/-- An operand without signs is read to its end. -/
theorem unsignedOperand_facing {o : OperandTree} {next : Token} {more : List Token} {kept : String}
    (hnext : next.kind.endsOperand = true)
    (hsuffix : o.first.atom.tokens ++ (jointTokens o.joints ++ next :: more) <:+ s.cursor.tokens)
    (hkept : ∀ t ∈ o.first.atom.tokens.head?,
      textSince t.start (s.facing (n + questions (o.first.atom.tokens ++ jointTokens o.joints))
        (next :: more)) =
        .ok kept (s.facing (n + questions (o.first.atom.tokens ++ jointTokens o.joints))
          (next :: more))) :
    ∃ marks, unsignedOperand
        (s.facing n (o.first.atom.tokens ++ (jointTokens o.joints ++ next :: more))) =
      .ok (o.unsigned (s.body.parameters + n) kept)
        ((s.facing (n + questions (o.first.atom.tokens ++ jointTokens o.joints))
          (next :: more)).marked marks) := by
  by_cases hother : o.joints = [] → o.first.atom.value? = none
  · refine ⟨s.body.marks, ?_⟩
    rw [o.unsigned_of_other hother]
    exact unsignedOperand_other hs hother hnext hsuffix hkept
  obtain ⟨⟨signs, hsigns, a⟩, joints⟩ := o
  obtain ⟨rfl, hvalue⟩ := Classical.not_imp.1 hother
  have hus : (headKind (next :: more)).endsOperand = true := hnext
  cases a with
  | single t value h =>
    have hquestions : questions ([t] ++ jointTokens []) =
        if t.kind = .symbol .question then 1 else 0 := by
      simp
    refine ⟨s.body.marks, ?_⟩
    simp only [OperandAtom.tokens, hquestions]
    exact unsignedOperand_atom h.kind_ne.2.2.2.2 (atom_facing h) (by simp) hus
  | property owner dot name howner hdot hname =>
    have hquestions : questions ([owner, dot, name] ++ jointTokens []) = 0 := by
      simp [howner.kind, hdot, hname.kind]
    simp only [OperandAtom.tokens, hquestions]
    exact unsignedOperand_property howner hdot hname (by simp) hus
  | call | group => exact absurd rfl hvalue

/-! ### Signs -/

omit hs in
/-- The signs before an operand are read as they are written. -/
theorem signs_facing {m : Nat}
    (hsigns : ∀ t ∈ signs, t.kind = .symbol .minus ∨ t.kind = .symbol .plus)
    (hus : headKind us ≠ .symbol .minus ∧ headKind us ≠ .symbol .plus ∧ headKind us ≠ .endOfText)
    (hm : signs.length < m) :
    Grammar.signs m (s.facing n (signs ++ us)) =
      .ok (signs.map fun t => if t.kind = .symbol .minus then .minus else .plus)
        (s.facing n us) := by
  have hne : us ≠ [] := by
    rintro rfl
    exact hus.2.2 rfl
  induction signs generalizing m with
  | nil =>
    obtain ⟨m, rfl⟩ := Nat.exists_eq_add_one.2 hm
    rw [Grammar.signs, cursor_bind, if_neg (by simp [hus])]
    rfl
  | cons t signs ih =>
    obtain ⟨m, rfl⟩ := Nat.exists_eq_add_one.2 (Nat.zero_lt_of_lt hm)
    have hsigns' : ∀ u ∈ signs, u.kind = .symbol .minus ∨ u.kind = .symbol .plus :=
      fun u hu => hsigns u (List.mem_cons_of_mem _ hu)
    have hend : headKind (signs ++ us) ≠ .endOfText := by
      cases signs with
      | nil => exact hus.2.2
      | cons u signs => rcases hsigns' u (by simp) with h | h <;> simp [h]
    have hmore := ih hsigns' (by simpa using hm)
    rw [List.cons_append, Grammar.signs, cursor_bind,
      if_pos (by rcases hsigns t (by simp) with h | h <;> simp [h]),
      bind_of_eq_ok (advance_facing (by simp [hne])), bind_of_eq_ok (refuseEnd_facing hend),
      bind_of_eq_ok hmore]
    rcases hsigns t (by simp) with h | h <;> simp [h, pure_eq_ok]

omit hs in
theorem signs_of_tokens (htokens : s.cursor.tokens = signs ++ us)
    (hsigns : ∀ t ∈ signs, t.kind = .symbol .minus ∨ t.kind = .symbol .plus)
    (hus : headKind us ≠ .symbol .minus ∧ headKind us ≠ .symbol .plus ∧
      headKind us ≠ .endOfText) :
    Grammar.signs s.cursor.movesLeft s =
      .ok (signs.map fun t => if t.kind = .symbol .minus then .minus else .plus)
        (s.facing 0 us) := by
  have hne : us ≠ [] := by
    rintro rfl
    exact hus.2.2 rfl
  have hmoves : signs.length < s.cursor.movesLeft := by
    have hlength := congrArg List.length htokens
    simp only [Cursor.tokens, List.length_cons, List.length_append] at hlength
    have := List.length_pos_iff.2 hne
    rw [Cursor.movesLeft]
    omega
  have h := signs_facing (s := s) (n := 0) hsigns hus hmoves
  rwa [ParseState.facing_self htokens] at h

/-! ### Operands -/

omit hs in
/-- What is kept depends on the cursor alone. -/
theorem textSince_marked {start : Nat} {kept : String} (marks : List Mark)
    (h : textSince start s = .ok kept s) :
    textSince start (s.marked marks) = .ok kept (s.marked marks) := by
  simp only [textSince, current_bind, bind_eq_ok, slice_eq_ok, pure_eq_ok] at h ⊢
  obtain ⟨part, _, ⟨hpart, rfl⟩, hkept, _⟩ := h
  exact ⟨part, _, ⟨hpart, rfl⟩, hkept, rfl⟩

omit hs in
/-- Behind signs a number keeps its value, and all else is kept as text. -/
theorem operand_signed {before : List Symbol} {value : Expression} {kept : String}
    {s₁ s₂ : ParseState κ} (hsigns : Grammar.signs s.cursor.movesLeft s = .ok before s₁)
    (hne : before ≠ []) (hvalue : unsignedOperand s₁ = .ok value s₂)
    (htext : textSince s.cursor.current.start s₂ = .ok kept s₂) :
    operand s = .ok (value.signed (before.count .minus) kept) s₂ := by
  rw [operand, current_bind, cursor_bind, bind_of_eq_ok hsigns, bind_of_eq_ok hvalue,
    if_neg (by simpa using hne)]
  cases value with
  | number n => rfl
  | _ => exact bind_of_eq_ok htext

omit hs in
theorem count_signs {signs : List Token} :
    (signs.map fun t => if t.kind = .symbol .minus then Symbol.minus else .plus).count .minus =
      signs.countP (·.kind = .symbol .minus) := by
  rw [List.count_eq_countP, List.countP_map]
  congr 1
  funext t
  by_cases ht : t.kind = .symbol .minus <;> simp [ht]

/-- An operand is read to its end. -/
theorem operand_facing {o : OperandTree} {next : Token} {more : List Token}
    (htokens : s.cursor.tokens = o.tokens ++ next :: more) (hnext : next.kind.endsOperand = true) :
    ∃ kept marks,
      textSince s.cursor.current.start (s.facing (questions o.tokens) (next :: more)) =
        .ok kept (s.facing (questions o.tokens) (next :: more)) ∧
      operand s = .ok (o.expression s.body.parameters kept)
        ((s.facing (questions o.tokens) (next :: more)).marked marks) := by
  have htree := htokens.trans (o.tokens_append (next :: more))
  have hsuffix : o.first.atom.tokens ++ (jointTokens o.joints ++ next :: more) <:+
      s.cursor.tokens := ⟨_, htree.symm⟩
  have hfirst : o.tokens.head? = some s.cursor.current := by
    rw [← List.head?_append_of_ne_nil _ o.tokens_ne_nil, ← htokens]
    rfl
  -- The text from the first token on, and the text from behind the signs on.
  obtain ⟨kept, hkept⟩ := exists_kept (n := questions o.tokens) hs o.tokens_ne_nil
    ⟨[], htokens.symm⟩
  obtain ⟨inner, hinner⟩ := exists_kept (n := questions o.tokens) hs
    (List.append_ne_nil_of_left_ne_nil o.first.atom.tokens_ne_nil (jointTokens o.joints))
    (by simpa using hsuffix)
  rw [List.head?_append_of_ne_nil _ o.first.atom.tokens_ne_nil] at hinner
  have hquestions := (Nat.zero_add _).trans o.questions_tokens.symm
  obtain ⟨marks, hunsigned⟩ :=
    unsignedOperand_facing (n := 0) hs hnext hsuffix (by rwa [hquestions])
  rw [hquestions, Nat.add_zero] at hunsigned
  have hsigns := signs_of_tokens htree o.first.hsigns (o.first.atom.headKind_tokens _)
  refine ⟨kept, marks, hkept _ hfirst, ?_⟩
  by_cases hempty : o.first.signs = []
  · -- Without signs both texts are the same.
    have hsame := hinner _ ((o.head?_tokens hempty).trans hfirst)
    obtain ⟨rfl, _⟩ := EStateM.Result.ok.inj ((hkept _ hfirst).symm.trans hsame)
    have hnone : o.first.signs.isEmpty = true := List.isEmpty_iff.2 hempty
    rw [operand, current_bind, cursor_bind, bind_of_eq_ok hsigns, bind_of_eq_ok hunsigned,
      List.isEmpty_map, if_pos hnone, OperandTree.expression, if_pos hnone]
    rfl
  · rw [o.expression_of_signs hempty _ _ inner, ← count_signs]
    exact operand_signed hsigns (by simpa using hempty) hunsigned
      (textSince_marked marks (hkept _ hfirst))

end

end Grammar

/-! ## The end of an operand -/

/-- A letter, a digit, an underscore and a dollar sign are no blanks. -/
theorem Text.not_isBlank_of_isAlphanum {c : Char} (h : c.isAlphanum = true ∨ c = '_' ∨ c = '$') :
    isBlank c = false := by
  have hc : c.toNat = 36 ∨ 48 ≤ c.toNat ∧ c.toNat ≤ 122 := by
    rcases h with h | rfl | rfl
    · simp only [Char.isAlphanum, Char.isAlpha, Char.isUpper, Char.isLower, Char.isDigit,
        Bool.or_eq_true, Bool.and_eq_true, decide_eq_true_eq, UInt32.le_iff_toNat_le,
        Char.toNat_val, Char.reduceToNat, ge_iff_le] at h
      omega
    · decide
    · decide
  refine Bool.eq_false_iff.2 fun hblank => ?_
  simp only [isBlank, Bool.or_eq_true, Bool.and_eq_true, decide_eq_true_eq] at hblank
  omega

/-- The token does not end in a blank. -/
def Token.EndsSolid (text : List Char) (t : Token) : Prop :=
  ∃ init c, Text.slice? text t.start t.stop = some (init ++ [c]) ∧ Text.isBlank c = false

/-- A string ends in a quote, and any other token in a character of its literal. -/
theorem Token.Spans.endsSolid {text : List Char} {t : Token} (h : t.Spans text)
    (hend : t.kind ≠ .endOfText)
    (hliteral : t.kind ≠ .literal .chars → ∀ c ∈ t.literal.toList, Text.isBlank c = false) :
    t.EndsSolid text := by
  by_cases hchars : t.kind = .literal .chars
  · obtain ⟨q, hq, hslice⟩ := h.quoted hchars
    exact ⟨_, q, hslice, by rcases hq with rfl | rfl <;> decide⟩
  · have hslice := h.verbatim hchars
    rcases List.eq_nil_or_concat' t.literal.toList with hnil | ⟨init, c, hc⟩
    · -- A token takes up room, so its literal is not empty.
      obtain ⟨_, _, _, hstart, hstop⟩ := Text.slice?_eq_some_iff.1 hslice
      have hlt := h.start_lt hend
      rw [hnil, Text.byteLength_nil] at hstop
      omega
    · rw [hc] at hslice
      exact ⟨init, c, hslice, hliteral hchars c (by simp [hc])⟩

/-- The token may be the last of an operand. -/
def Token.EndsOperand (t : Token) : Prop :=
  t.kind ∈ [TokenKind.symbol .question, .symbol .rightParen, .literal .int, .literal .chars] ∨
    t.IsWord

theorem OperandAtom.exists_last (a : OperandAtom) :
    ∃ init t, a.tokens = init ++ [t] ∧ t.EndsOperand := by
  cases a with
  | single t value h =>
    refine ⟨[], t, rfl, ?_⟩
    cases h with
    | placeholder ht | integer ht | text ht => exact .inl (by simp [ht])
    | word h => exact .inr h
  | property owner dot name howner hdot hname => exact ⟨[owner, dot], name, rfl, .inr hname⟩
  | call name l inner r hname hl hr => exact ⟨name :: l :: inner, r, rfl, .inl (by simp [hr])⟩
  | group l inner r hl hr => exact ⟨l :: inner, r, rfl, .inl (by simp [hr])⟩

theorem OperandTree.exists_last (o : OperandTree) :
    ∃ init t, o.tokens = init ++ [t] ∧ t.EndsOperand := by
  obtain ⟨⟨signs, hsigns, a⟩, joints⟩ := o
  rcases List.eq_nil_or_concat' joints with rfl | ⟨joints, ⟨op, hop, signs', hsigns', a'⟩, rfl⟩
  · obtain ⟨init, t, ha, ht⟩ := a.exists_last
    exact ⟨signs ++ init, t, by simp [tokens, OperandTerm.tokens, ha], ht⟩
  · obtain ⟨init, t, ha, ht⟩ := a'.exists_last
    refine ⟨signs ++ (a.tokens ++ (jointTokens joints ++ op :: (signs' ++ init))), t, ?_, ht⟩
    simp [tokens, OperandTerm.tokens, OperandJoint.tokens, jointTokens, ha]

/-- No operand ends in a blank. -/
theorem Token.EndsOperand.endsSolid {database : Database} {d : Dialect} {text : String} {c : Cursor}
    (hc : Cursor.ofText database d text = .ok c) {t : Token} (h : t.EndsOperand)
    (ht : t ∈ c.tokens) : t.EndsSolid text.toList := by
  have hat := (Cursor.stands_of_ofText hc).tokens_at t ht
  have hsymbol {x : Symbol} (hx : t.kind = .symbol x) : t.literal = x.text := by
    rw [(Cursor.ofText_eq_ok hc).1] at ht
    exact TokenStream.literal_of_symbol ht hx
  rcases h with h | h
  · simp only [List.mem_cons, List.not_mem_nil, or_false] at h
    refine hat.spans.endsSolid (by rcases h with h | h | h | h <;> simp [h]) fun hchars => ?_
    rcases h with h | h | h | h
    · rw [hsymbol h]
      exact fun x hx => List.mem_singleton.1 hx ▸ by decide
    · rw [hsymbol h]
      exact fun x hx => List.mem_singleton.1 hx ▸ by decide
    · obtain ⟨_, cs, _, _, _, hdigits⟩ := hat.spelled
      intro digit hdigit
      rw [← hdigits h] at hdigit
      have hdigit : digit.isDigit = true := List.mem_takeWhile_imp hdigit
      exact Text.not_isBlank_of_isAlphanum (.inl (by simp [Char.isAlphanum, hdigit]))
    · exact absurd h hchars
  · exact hat.spans.endsSolid (by simp [h.kind]) fun _ x hx =>
      Text.not_isBlank_of_isAlphanum (h.plain x hx)

/-- A stretch ends like its last token. -/
theorem Stretch.not_isBlank_getLast {d : Dialect} {text : List Char} {c : Cursor}
    {read : List Token} {last next : Token} {written gap : List Char}
    (h : Stretch d text read c.current last next written gap) (hc : c.Stands text)
    (hmem : last ∈ c.tokens) (hlast : last.EndsSolid text) :
    ∀ x ∈ written.getLast?, Text.isBlank x = false := by
  obtain ⟨init, x, hslice, hblank⟩ := hlast
  obtain ⟨before, hbefore⟩ := hc.current_at.boundaries.1.exists_slice?
    (hc.tokens_at last hmem).boundaries.1 (hc.start_le hmem)
  obtain rfl := Option.some.inj ((Text.slice?_append hbefore hslice).symm.trans h.written_eq)
  simp [hblank]

/-- Cutting off blanks cuts off a gap of blanks and no more, if the token before it does not end in
    a blank. -/
theorem Stretch.cutsGap {d : Dialect} {text : List Char} {c : Cursor} {read : List Token}
    {last next : Token} {written gap : List Char}
    (h : Stretch d text read c.current last next written gap) (hc : c.Stands text)
    (hmem : last ∈ c.tokens) (hlast : last.EndsSolid text)
    (hgap : ∀ c ∈ gap, Text.isAsciiBlank c = true) : CutsGap written gap :=
  ⟨hgap, h.not_isBlank_getLast hc hmem hlast⟩

/-! ## Reading an operand -/

/-- An operand ends before a keyword, a comma, a parenthesis that closes, a comparison, and at the
    end of the text. -/
theorem TokenKind.endsOperand_behind : (∀ k : Keyword, (keyword k).endsOperand = true) ∧
    endOfText.endsOperand = true ∧
    ∀ x ∈ [Symbol.comma, .rightParen, .equal, .less, .greater, .lessEqual, .greaterEqual,
      .lessGreater, .bangEqual, .bangLess, .bangGreater, .lessEqualGreater],
      (symbol x).endsOperand = true :=
  ⟨fun k => by simp [endsOperand], by decide, by decide⟩

/-- *An operand is read to its end, and to no further.* Wherever the tokens of an operand stand in a
    text before one that ends it, the parser reads it: the cursor is on the token behind, the
    placeholders of the operand are counted, and nothing but marks has changed besides. An operand
    on its own keeps its value, a number behind signs with the sign that they make of it, and any
    other operand is its text, if there is no comment behind it. -/
theorem operand_reads_tree {database : Database} {d : Dialect} {text : String} {c : Cursor}
    (hc : Cursor.ofText database d text = .ok c) {κ : Type} {s : ParseState κ}
    (hbehind : c.Behind text.toList s.cursor) {o : OperandTree} {next : Token} {more : List Token}
    (htokens : s.cursor.tokens = o.tokens ++ next :: more) (hnext : next.kind.endsOperand = true) :
    ∃ last written gap kept marks,
      Stretch d text.toList o.tokens s.cursor.current last next written gap ∧
      Grammar.operand s = .ok (o.expression s.body.parameters kept)
        ((s.facing (questions o.tokens) (next :: more)).marked marks) ∧
      ((∀ c ∈ gap, Text.isAsciiBlank c = true) → kept = String.ofList written) := by
  have hs := hbehind.stands
  obtain ⟨kept, marks, htext, hrun⟩ := Grammar.operand_facing hs htokens hnext
  have htokens' : s.cursor.tokens =
      o.tokens ++ (s.facing (questions o.tokens) (next :: more)).cursor.tokens := htokens
  obtain ⟨last, written, gap, hstretch⟩ := hbehind.exists_stretch hc htokens' o.tokens_ne_nil
  obtain ⟨init, last', ho, hends⟩ := o.exists_last
  obtain rfl : last' = last := by simpa [ho] using hstretch.getLast
  have hmem : last' ∈ s.cursor.tokens := by simp [htokens, ho]
  refine ⟨last', written, gap, kept, marks, hstretch, hrun, fun hgap => ?_⟩
  have hcuts := hstretch.cutsGap hs hmem
    (hends.endsSolid hc (hbehind.tokens_suffix.subset hmem)) hgap
  have hkept := Grammar.toList_of_textSince htext (by simp [hs.text_eq])
    (hs.start_le (by simp [htokens])) hstretch
  obtain ⟨rest, hfills⟩ := hstretch.fills
  rw [hfills.trimEnd_eq_iff.2 hcuts] at hkept
  rw [← hkept, String.ofList_toList]

/-- A call that an operator joins to a name, and a number behind signs. -/
theorem operand_reads_tree_call :
    (∃ c kept marks, Cursor.ofText .mySql .mySql "a + - f ( b , ? ) , c" = .ok c ∧
      Grammar.operand (ParseState.start (κ := DeleteClauses) c) =
        .ok (.other kept) (((ParseState.start c).facing 1 [⟨.symbol .comma, ",", 19⟩,
          ⟨.literal .identifier, "c", 21⟩, Token.final 21]).marked marks) ∧
      kept = "a + - f ( b , ? )") ∧
    ∃ c marks, Cursor.ofText .mySql .mySql "- + 5 AND" = .ok c ∧
      Grammar.operand (ParseState.start (κ := DeleteClauses) c) =
        .ok (.number (.integer (-5))) (((ParseState.start c).facing 0 [⟨.keyword .AND, "AND", 9⟩,
          Token.final 9]).marked marks) := by
  constructor
  · have hrun : (Parser.runOn? (κ := DeleteClauses) Grammar.operand .mySql .mySql
        "a + - f ( b , ? ) , c").map (fun r => r.1.tokens) =
        some [⟨.literal .identifier, "a", 1⟩, ⟨.symbol .plus, "+", 3⟩, ⟨.symbol .minus, "-", 5⟩,
          ⟨.literal .identifier, "f", 7⟩, ⟨.symbol .leftParen, "(", 9⟩,
          ⟨.literal .identifier, "b", 11⟩, ⟨.symbol .comma, ",", 13⟩, ⟨.symbol .question, "?", 15⟩,
          ⟨.symbol .rightParen, ")", 17⟩, ⟨.symbol .comma, ",", 19⟩,
          ⟨.literal .identifier, "c", 21⟩, Token.final 21] := by decide +kernel
    obtain ⟨c, _, _, hc, _, htokens⟩ := Parser.exists_of_runOn? hrun
    have hinner : BalancedTokens [⟨.literal .identifier, "b", 11⟩, ⟨.symbol .comma, ",", 13⟩,
        ⟨.symbol .question, "?", 15⟩] :=
      .cons (by decide) (.cons (by decide) (.cons (by decide) .nil))
    obtain ⟨last, written, gap, kept, marks, hstretch, hread, hkept⟩ :=
      operand_reads_tree hc (s := ParseState.start (κ := DeleteClauses) c)
        (.refl (Cursor.stands_of_ofText hc))
        (o := {
          first := ⟨[], by simp, .single ⟨.literal .identifier, "a", 1⟩ _ (.word ⟨rfl, by simp⟩)⟩
          joints := [⟨⟨.symbol .plus, "+", 3⟩, ⟨.plus, by decide, rfl⟩,
            [⟨.symbol .minus, "-", 5⟩], by simp,
            .call ⟨.literal .identifier, "f", 7⟩ ⟨.symbol .leftParen, "(", 9⟩ _
              ⟨.symbol .rightParen, ")", 17⟩ ⟨rfl, by simp⟩ rfl rfl hinner⟩] })
        htokens (TokenKind.endsOperand_behind.2.2 .comma (by simp))
    -- The parenthesis is the last token, so a blank is between it and the comma.
    obtain rfl := Option.some.inj hstretch.getLast
    have hfirst : c.current.start = 0 := by
      rw [(List.cons.inj htokens).1]
      decide
    have hgap : Text.slice? "a + - f ( b , ? ) , c".toList 17 18 = some [' '] := by
      decide +kernel
    have hwritten : Text.slice? "a + - f ( b , ? ) , c".toList 0 17 =
        some "a + - f ( b , ? )".toList := by decide +kernel
    obtain rfl := Option.some.inj (hgap.symm.trans hstretch.gap_eq)
    obtain rfl := Option.some.inj (hwritten.symm.trans (hfirst ▸ hstretch.written_eq))
    exact ⟨c, kept, marks, hc, hread,
      (hkept (by simp [Text.isAsciiBlank])).trans String.ofList_toList⟩
  · have hrun : (Parser.runOn? (κ := DeleteClauses) Grammar.operand .mySql .mySql "- + 5 AND").map
        (fun r => r.1.tokens) =
        some [⟨.symbol .minus, "-", 1⟩, ⟨.symbol .plus, "+", 3⟩, ⟨.literal .int, "5", 5⟩,
          ⟨.keyword .AND, "AND", 9⟩, Token.final 9] := by decide +kernel
    obtain ⟨c, _, _, hc, _, htokens⟩ := Parser.exists_of_runOn? hrun
    obtain ⟨_, _, _, kept, marks, _, hread, _⟩ :=
      operand_reads_tree hc (s := ParseState.start (κ := DeleteClauses) c)
        (.refl (Cursor.stands_of_ofText hc))
        (o := {
          first := ⟨[⟨.symbol .minus, "-", 1⟩, ⟨.symbol .plus, "+", 3⟩], by simp,
            .single ⟨.literal .int, "5", 5⟩ _ (.integer (n := 5) rfl (by decide) (by decide))⟩
          joints := [] })
        htokens (TokenKind.endsOperand_behind.1 _)
    exact ⟨c, marks, hc, hread⟩

end SqlRouting
