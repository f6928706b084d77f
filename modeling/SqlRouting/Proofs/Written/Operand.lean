import SqlRouting.Grammar.Operand
import SqlRouting.Proofs.Written.Runs

/-!
# Written operands

An operand is written as signs, a primary operand (a single piece, a group or a call) and what
operators join to it. However its pieces are spaced, it is read to its end, its placeholders are
counted, and it keeps its value only if it is a single piece or a whole number behind signs
(`Written.run_operand`).
-/

namespace SqlRouting

open Text (byteLength)

/-- Before a token of this kind an operand ends. -/
def TokenKind.endsOperand (kind : TokenKind) : Bool :=
  kind ∉ (Symbol.dot :: Symbol.leftParen :: Symbol.operators).map TokenKind.symbol

theorem TokenKind.endsOperand_iff {kind : TokenKind} : kind.endsOperand = true ↔
    kind ∉ Symbol.operators.map TokenKind.symbol ∧ kind ≠ .symbol .dot ∧
      kind ≠ .symbol .leftParen := by
  simp only [endsOperand, List.map_cons, List.mem_cons, decide_eq_true_eq, not_or]
  grind

namespace Piece

/-- The expression that the piece is on its own, `index` placeholders having come before. -/
def expression (index : Nat) : Piece → Expression
  | symbol .question => .placeholder index
  | integer n => .number (.integer n)
  | text q => .text q.content
  | name w => .identifier w.text
  | keyword k => .other k.text
  | symbol s => .other s.text

/-- The piece may be an operand on its own. -/
def isLone : Piece → Bool
  | symbol s => s ∉ [.leftParen, .minus, .plus, .tilde]
  | integer n => n ≤ Number.maxInteger
  | keyword _ | name _ | text _ => true

/-- The piece is a sign before an operand. -/
def isSign (p : Piece) : Bool :=
  p = symbol .minus || p = symbol .plus

theorem kind_ne_leftParen {p : Piece} (h : p.isLone = true) : p.kind ≠ .symbol .leftParen := by
  intro hk
  rw [kind_eq_symbol.1 hk] at h
  simp [isLone] at h

end Piece

/-! ## Numbers and names -/

/-- The number that decimal digits stand for. -/
theorem Decimal.valueFrom?_digits {cs : List Char} {acc : Nat} (h : ∀ c ∈ cs, c.isDigit = true) :
    Decimal.valueFrom? 10 acc cs = some (Nat.ofDigitChars 10 cs acc) := by
  induction cs generalizing acc with
  | nil => rfl
  | cons c cs ih =>
    have hc : 48 ≤ c.toNat ∧ c.toNat ≤ 57 := by
      simpa [Char.isDigit, UInt32.le_iff_toNat_le] using h c (by simp)
    have hdigit : Decimal.digitValue? c = some (c.toNat - '0'.toNat) := by
      rw [Decimal.digitValue?, if_pos]
      simpa [Char.le_def, UInt32.le_iff_toNat_le] using hc
    have hlt : c.toNat - '0'.toNat < 10 := by
      simp only [Char.reduceToNat]
      omega
    simp only [Decimal.valueFrom?, hdigit, if_pos hlt]
    rw [ih fun c hc => h c (by simp [hc]), Nat.ofDigitChars_cons, Nat.mul_comm]

/-- A whole number is read from its decimal digits. -/
theorem Decimal.value?_repr (n : Nat) : Decimal.value? 10 n.repr.toList = some n := by
  rw [Decimal.value?, if_neg (by simp), Decimal.valueFrom?_digits Piece.isDigit_of_mem_repr,
    Nat.toList_repr, Nat.ofDigitChars_toDigits (by omega) (by omega)]

theorem Number.integer?_repr {n : Nat} (h : n ≤ Number.maxInteger) :
    Number.integer? 10 n.repr.toList = some (n : Int) := by
  rw [Number.integer?, Decimal.value?_repr, Option.bind_some, if_pos h]

namespace Written

variable {κ : Type} {before : List Char} {w : Written} {ws : List Written} {body : Body κ}

open SqlRouting.Parser SqlRouting.Grammar

/-- The token of a lone piece is made an expression, wherever the parser stands by then. -/
theorem run_atom {t : Token} {w : Written} (hw : w.piece.isLone = true)
    (hkind : t.kind = w.piece.kind) (hliteral : t.literal = w.piece.literal) :
    atom t (standing before ws body) =
      .ok (w.piece.expression body.parameters)
        (standing before ws (body.counted w.piece.questions)) := by
  obtain ⟨spaced, piece⟩ := w
  simp only [atom, hkind, hliteral]
  cases piece with
  | keyword k => rfl
  | name x => simp [Piece.kind, Piece.literal, Piece.expression, Piece.questions, run_pure]
  | integer n =>
    have hn : n ≤ Number.maxInteger := by simpa [Piece.isLone] using hw
    simp [Piece.kind, Piece.literal, Number.ofInt?, -Nat.toList_repr, Number.integer?_repr hn,
      Piece.expression, Piece.questions, run_pure]
  | text q => simp [Piece.kind, Piece.literal, Piece.expression, Piece.questions, run_pure]
  | symbol s =>
    by_cases hs : s = .question
    · subst hs
      simp only [Piece.kind, run_bind, run_takePlaceholder, run_pure, Piece.expression,
        Piece.questions, if_true]
    · -- Any other symbol is kept as it is written.
      have hquestions : (Piece.symbol s).questions = 0 := by simp [Piece.questions, hs]
      rw [hquestions]
      cases s <;> first | exact absurd rfl hs | rfl

/-- An operand: a single piece, a group in parentheses, or a call. -/
inductive IsPrimary : List Written → Prop
  | lone {w : Written} (hw : w.piece.isLone = true) : IsPrimary [w]
  | group {l r : Written} {us : List Written} (hl : l.piece = .symbol .leftParen)
      (hr : r.piece = .symbol .rightParen) (hu : Balanced us) : IsPrimary (l :: (us ++ [r]))
  | call {f l r : Written} {us : List Written} {x : Word} (hf : f.piece = .name x)
      (hl : l.piece = .symbol .leftParen) (hr : r.piece = .symbol .rightParen)
      (hu : Balanced us) : IsPrimary (f :: l :: (us ++ [r]))

/-- What operators join to an operand: each operator with signs and an operand. -/
inductive IsJoined : List Written → Prop
  | nil : IsJoined []
  | cons {op : Written} {symbol : Symbol} {signs primary joined : List Written}
      (hop : op.piece = .symbol symbol) (hsymbol : symbol ∈ Symbol.operators)
      (hsigns : ∀ w ∈ signs, w.piece.isSign = true) (hprimary : IsPrimary primary)
      (hjoined : IsJoined joined) : IsJoined (op :: (signs ++ (primary ++ joined)))

theorem isSign_cases {p : Piece} (h : p.isSign = true) :
    p = .symbol .minus ∨ p = .symbol .plus := by
  simpa [Piece.isSign] using h

theorem questions_signs {signs : List Written} (h : ∀ w ∈ signs, w.piece.isSign = true) :
    questions signs = 0 := by
  induction signs with
  | nil => rfl
  | cons w signs ih =>
    rcases isSign_cases (h w (by simp)) with hw | hw <;>
      simp [hw, Piece.questions, ih fun v hv => h v (by simp [hv])]

/-- An operand starts with a token that is neither a sign nor the end. -/
theorem IsPrimary.nextKind {us : List Written} (h : IsPrimary us) (ws : List Written) :
    nextKind (us ++ ws) ∉ [TokenKind.symbol .minus, .symbol .plus, .symbol .tilde, .endOfText] := by
  cases h with
  | @lone w hw =>
    obtain ⟨spaced, piece⟩ := w
    cases piece <;> simp_all [Piece.isLone, Piece.kind]
  | group hl => simp [hl, Piece.kind]
  | call hf => simp [hf, Piece.kind]

/-- A joint is passed with what it joins. -/
theorem run_skipJoint (before : List Char) (body : Body κ) {op : Written} {symbol : Symbol}
    {signs primary : List Written}
    (hop : op.piece = .symbol symbol) (hsymbol : symbol ∈ Symbol.operators)
    (hsigns : ∀ w ∈ signs, w.piece.isSign = true) (hprimary : IsPrimary primary)
    (hws : nextKind ws ≠ .symbol .leftParen) :
    skipJoint (standing before (op :: (signs ++ (primary ++ ws))) body) =
      .ok true (standing (before ++ layout (op :: (signs ++ primary))) ws
        (body.counted (questions primary))) := by
  have hkinds : ∀ w ∈ signs, w.piece.kind ∈
      [TokenKind.symbol .minus, .symbol .plus, .symbol .tilde] := by
    intro w hw
    rcases isSign_cases (hsigns w hw) with h | h <;> simp [h, Piece.kind]
  have hnext := hprimary.nextKind ws
  simp only [List.mem_cons, List.not_mem_nil, or_false, not_or] at hnext
  have hstop : nextKind (primary ++ ws) ∉
      [TokenKind.symbol .minus, .symbol .plus, .symbol .tilde] := by simp [hnext]
  have hloop := run_loop_skipIf (before ++ op.text) body hkinds hstop
  have hjoint : op.piece.kind ∈ Symbol.operators.map TokenKind.symbol := by
    simp [hop, Piece.kind, hsymbol]
  simp only [skipJoint, isJoint, run_bind, run_cursor, run_pure, isOperator_standing, nextKind_cons,
    hjoint, decide_true, Bool.true_or, if_true, run_advance, hloop, run_refuseEnd hnext.2.2.2]
  cases hprimary with
  | @lone w hw =>
    have hleft : w.piece.kind ≠ .symbol .leftParen := Piece.kind_ne_leftParen hw
    simp only [List.singleton_append, run_countPlaceholder, isSymbol_standing, nextKind_cons, hleft,
      decide_false, Bool.not_false, if_true, run_bind, run_advance, run_skipParentheses_none hws,
      run_pure]
    simp
  | @group l r us hl hr hu =>
    have hl' : l.piece.kind = .symbol .leftParen := Piece.kind_eq_symbol.2 hl
    have hgroup := run_skipParentheses (before ++ op.text ++ layout signs) ws body hl hr hu
    rw [show l :: (us ++ [r]) ++ ws = l :: (us ++ r :: ws) by simp]
    simp only [run_countPlaceholder, isSymbol_standing, nextKind_cons, hl', decide_true,
      Bool.not_true, Bool.false_eq_true, if_false, run_bind]
    simp only [hl, Piece.questions, reduceCtorEq, Piece.symbol.injEq, if_false, Body.counted_zero,
      hgroup]
    simp [run_pure, hl, hr, Piece.questions]
  | @call f l r us x hf hl hr hu =>
    have hf' : f.piece.kind ≠ .symbol .leftParen := by simp [hf, Piece.kind]
    have hgroup :=
      run_skipParentheses (before ++ op.text ++ layout signs ++ f.text) ws body hl hr hu
    rw [show f :: l :: (us ++ [r]) ++ ws = f :: l :: (us ++ r :: ws) by simp]
    simp only [run_countPlaceholder, isSymbol_standing, nextKind_cons, hf', decide_false,
      Bool.not_false, if_true, run_bind, run_advance]
    simp only [hf, Piece.questions, reduceCtorEq, if_false, Body.counted_zero, hgroup]
    simp [run_pure, hf, hl, hr, Piece.questions]

/-- Where an operand ends, no joint follows. -/
theorem run_isJoint_none (hws : (nextKind ws).endsOperand = true) :
    isJoint (standing before ws body) = .ok false (standing before ws body) := by
  have hkind := TokenKind.endsOperand_iff.1 hws
  simp only [isJoint, run_bind, run_cursor, run_pure, isOperator_standing, isSymbol_standing,
    hkind, decide_false, Bool.or_self]

theorem run_skipJoint_none (hws : (nextKind ws).endsOperand = true) :
    skipJoint (standing before ws body) = .ok false (standing before ws body) := by
  simp only [skipJoint, run_bind, run_isJoint_none hws, Bool.false_eq_true, if_false, run_pure]

/-- What is joined starts with an operator, or there is nothing. -/
theorem IsJoined.nextKind {joined : List Written} (h : IsJoined joined)
    (hws : (nextKind ws).endsOperand = true) :
    nextKind (joined ++ ws) ≠ .symbol .leftParen ∧ nextKind (joined ++ ws) ≠ .symbol .dot := by
  cases h with
  | nil =>
    have hkind := TokenKind.endsOperand_iff.1 hws
    exact ⟨hkind.2.2, hkind.2.1⟩
  | @cons op symbol signs primary joined hop hsymbol =>
    have hne : symbol ≠ .leftParen ∧ symbol ≠ .dot := by
      constructor <;> rintro rfl <;> simp [Symbol.operators] at hsymbol
    simpa [hop, Piece.kind] using hne

/-- All that is joined to an operand is passed. -/
theorem run_skipJoined {joined : List Written} (hjoined : IsJoined joined)
    (hws : (nextKind ws).endsOperand = true) :
    skipJoined (standing before (joined ++ ws) body) =
      .ok () (standing (before ++ layout joined) ws (body.counted (questions joined))) := by
  have hiterate : ∀ n, joined.length < n →
      iterate skipJoint n (standing before (joined ++ ws) body) =
        .ok () (standing (before ++ layout joined) ws (body.counted (questions joined))) := by
    induction hjoined generalizing before body with
    | nil =>
      intro n hn
      obtain ⟨n, rfl⟩ := Nat.exists_eq_succ_of_ne_zero (by omega : n ≠ 0)
      simp only [iterate, run_bind, List.nil_append, run_skipJoint_none hws, Bool.false_eq_true,
        if_false, run_pure, layout_nil, List.append_nil, questions_nil, Body.counted_zero]
    | @cons op symbol signs primary joined hop hsymbol hsigns hprimary hjoined ih =>
      intro n hn
      obtain ⟨n, rfl⟩ := Nat.exists_eq_succ_of_ne_zero (by omega : n ≠ 0)
      have hjoint := run_skipJoint before body hop hsymbol hsigns hprimary
        (hjoined.nextKind hws).1
      rw [show op :: (signs ++ (primary ++ joined)) ++ ws =
        op :: (signs ++ (primary ++ (joined ++ ws))) by simp, iterate, run_bind, hjoint]
      simp only [if_true]
      rw [ih n (by simp at hn; omega)]
      have hquestion : op.piece.questions = 0 := by
        rw [hop, Piece.questions, if_neg]
        rintro ⟨⟩
        simp [Symbol.operators] at hsymbol
      simp [hquestion, questions_signs hsigns]
  simp only [skipJoined, loop, run_bind, run_cursor, movesLeft_standing]
  exact hiterate _ (by simp only [List.length_append]; omega)

/-- Where an operand ends, nothing makes more of it. -/
theorem run_skipComposite_none (hws : (nextKind ws).endsOperand = true) :
    skipComposite (standing before ws body) = .ok false (standing before ws body) := by
  have hkind := TokenKind.endsOperand_iff.1 hws
  simp only [skipComposite, run_bind, run_isJoint_none hws, run_cursor, isSymbol_standing, hkind,
    decide_false, Bool.or_self, Bool.false_eq_true, if_false, run_pure]

/-- What is joined to an operand makes more of it. -/
theorem run_skipComposite_joined {op : Written} {joined : List Written}
    (hjoined : IsJoined (op :: joined)) (hws : (nextKind ws).endsOperand = true) :
    skipComposite (standing before (op :: joined ++ ws) body) =
      .ok true (standing (before ++ layout (op :: joined)) ws
        (body.counted (questions (op :: joined)))) := by
  have hleft : nextKind (op :: joined ++ ws) ≠ .symbol .leftParen := (hjoined.nextKind hws).1
  have hop : nextKind (op :: joined ++ ws) ∈ Symbol.operators.map TokenKind.symbol := by
    cases hjoined with
    | cons hop hsymbol => simp [hop, Piece.kind, hsymbol]
  simp only [skipComposite, isJoint, run_bind, run_cursor, run_pure, isOperator_standing, hop,
    decide_true, Bool.true_or, if_true, run_skipParentheses_none hleft, run_skipJoined hjoined hws]

/-- So does a group. -/
theorem run_skipComposite_group {l r : Written} {us joined : List Written}
    (hl : l.piece = .symbol .leftParen) (hr : r.piece = .symbol .rightParen) (hu : Balanced us)
    (hjoined : IsJoined joined) (hws : (nextKind ws).endsOperand = true) :
    skipComposite (standing before (l :: (us ++ r :: (joined ++ ws))) body) =
      .ok true (standing (before ++ layout (l :: (us ++ r :: joined))) ws
        (body.counted (questions us + questions joined))) := by
  have hgroup := run_skipParentheses before (joined ++ ws) body hl hr hu
  have hl' : nextKind (l :: (us ++ r :: (joined ++ ws))) = .symbol .leftParen :=
    Piece.kind_eq_symbol.2 hl
  simp only [skipComposite, isJoint, run_bind, run_cursor, run_pure, isOperator_standing,
    isSymbol_standing, hl', decide_true, Bool.or_true, if_true, hgroup, run_skipJoined hjoined hws]
  simp

/-- What an operand without signs says, `index` placeholders having come before: a single piece
    keeps its value. -/
def unsignedExpression (index : Nat) (primary joined : List Written) : Expression :=
  match primary, joined with
  | [w], [] => w.piece.expression index
  | _, _ => .other (String.ofList (layout (flush (primary ++ joined))))

theorem run_unsignedOperand {primary joined : List Written} (hprimary : IsPrimary primary)
    (hjoined : IsJoined joined) (hws : (nextKind ws).endsOperand = true) :
    unsignedOperand (standing before (primary ++ (joined ++ ws)) body) =
      .ok (unsignedExpression body.parameters primary joined)
        (standing (before ++ layout (primary ++ joined)) ws
          (body.counted (questions (primary ++ joined)))) := by
  have htext := run_textSince before (primary ++ joined) ws
    (body.counted (questions (primary ++ joined)))
  cases hprimary with
  | @lone w hw =>
    have hleft : w.piece.kind ≠ .symbol .leftParen := Piece.kind_ne_leftParen hw
    simp only [List.singleton_append] at htext ⊢
    simp only [unsignedOperand, run_bind, run_current, run_cursor, isSymbol_standing, nextKind_cons,
      hleft, decide_false, Bool.false_eq_true, if_false, run_advance,
      run_atom hw current_kind current_literal, run_skipSymbol_none (hjoined.nextKind hws).2]
    cases joined with
    | nil =>
      simp only [List.nil_append, run_skipComposite_none hws, Bool.false_eq_true, if_false,
        run_pure]
      simp [unsignedExpression]
    | cons op joined =>
      simp only [run_skipComposite_joined hjoined hws, if_true, current_start, run_bind,
        unsignedExpression]
      simp only [layout_cons, List.append_assoc, position_cons, questions_cons,
        Body.counted_counted] at htext ⊢
      simp only [htext, run_pure, List.singleton_append]
  | @group l r us hl hr hu =>
    have hl' : nextKind (l :: (us ++ r :: (joined ++ ws))) = .symbol .leftParen :=
      Piece.kind_eq_symbol.2 hl
    have hgroup := run_skipParentheses before (joined ++ ws) body hl hr hu
    have hquestions : questions (l :: (us ++ r :: joined)) = questions us + questions joined := by
      simp [hl, hr, Piece.questions]
    simp only [List.cons_append, List.append_assoc, List.nil_append, hquestions] at htext ⊢
    simp only [unsignedOperand, run_bind, run_current, run_cursor, isSymbol_standing, hl',
      decide_true, if_true, hgroup, run_skipJoined hjoined hws, current_start]
    simp only [layout_cons, layout_append, layout_nil, List.append_nil, List.append_assoc,
      position_cons, Body.counted_counted] at htext ⊢
    simp only [htext, run_pure]
    simp [unsignedExpression]
  | @call f l r us x hf hl hr hu =>
    have hf' : f.piece.kind ≠ .symbol .leftParen := by simp [hf, Piece.kind]
    have hl' : nextKind (l :: (us ++ r :: (joined ++ ws))) ≠ .symbol .dot := by
      simp [hl, Piece.kind]
    have hquestions :
        questions (f :: l :: (us ++ r :: joined)) = questions us + questions joined := by
      simp [hf, hl, hr, Piece.questions]
    have hlone : f.piece.isLone = true := by rw [hf]; rfl
    simp only [List.cons_append, List.append_assoc, List.nil_append, hquestions] at htext ⊢
    simp only [unsignedOperand, run_bind, run_current, run_cursor, isSymbol_standing, nextKind_cons,
      hf', decide_false, Bool.false_eq_true, if_false, run_advance,
      run_atom hlone current_kind current_literal, run_skipSymbol_none hl',
      run_skipComposite_group hl hr hu hjoined hws, if_true, current_start]
    have hf0 : f.piece.questions = 0 := by rw [hf]; rfl
    simp only [layout_cons, layout_append, List.append_assoc, position_cons, hf0,
      Body.counted_zero] at htext ⊢
    simp only [htext, run_pure]
    simp [unsignedExpression]

/-! ## Signs -/

/-- The signs before an operand are read as they are written. -/
theorem run_signs (before : List Char) (body : Body κ) {signs : List Written} {n : Nat}
    (hsigns : ∀ w ∈ signs, w.piece.isSign = true)
    (hws : nextKind ws ∉ [TokenKind.symbol .minus, .symbol .plus, .endOfText])
    (hn : signs.length < n) :
    Grammar.signs n (standing before (signs ++ ws) body) =
      .ok (signs.map fun w => if w.piece = .symbol .minus then .minus else .plus)
        (standing (before ++ layout signs) ws body) := by
  simp only [List.mem_cons, List.not_mem_nil, or_false, not_or] at hws
  induction signs generalizing before n with
  | nil =>
    obtain ⟨n, rfl⟩ := Nat.exists_eq_succ_of_ne_zero (by omega : n ≠ 0)
    simp [Grammar.signs, run_bind, run_cursor, hws, run_pure]
  | cons w signs ih =>
    obtain ⟨n, rfl⟩ := Nat.exists_eq_succ_of_ne_zero (by omega : n ≠ 0)
    have hsigns' : ∀ v ∈ signs, v.piece.isSign = true := fun v hv => hsigns v (by simp [hv])
    have hend : nextKind (signs ++ ws) ≠ .endOfText := by
      cases signs with
      | nil => exact hws.2.2
      | cons v signs => exact v.piece.kind_ne_endOfText
    have hlt : signs.length < n := by simpa using hn
    have ih := ih (before ++ w.text) hsigns' hlt
    rcases isSign_cases (hsigns w (by simp)) with hw | hw
    · simp only [Grammar.signs, run_bind, run_cursor, isSymbol_standing, List.cons_append,
        nextKind_cons, hw, Piece.kind, decide_true, Bool.true_or, if_true, run_advance,
        run_refuseEnd hend, ih, run_pure]
      simp [hw]
    · simp only [Grammar.signs, run_bind, run_cursor, isSymbol_standing, List.cons_append,
        nextKind_cons, hw, Piece.kind, decide_true, Bool.or_true, if_true, run_advance,
        run_refuseEnd hend, ih, run_pure]
      simp [hw]

/-- What an operand says, `index` placeholders having come before: behind signs only a whole
    number keeps its value. -/
def operandExpression (index : Nat) (signs primary joined : List Written) : Expression :=
  if signs.isEmpty then unsignedExpression index primary joined
  else match unsignedExpression index primary joined with
    | .number n =>
      .number (if signs.countP (·.piece = .symbol .minus) % 2 = 1 then n.neg else n)
    | _ => .other (String.ofList (layout (flush (signs ++ (primary ++ joined)))))

/-- An operand is read to its end. -/
theorem run_operand (before : List Char) (body : Body κ) {signs primary joined : List Written}
    (hsigns : ∀ w ∈ signs, w.piece.isSign = true) (hprimary : IsPrimary primary)
    (hjoined : IsJoined joined) (hws : (nextKind ws).endsOperand = true) :
    operand (standing before (signs ++ (primary ++ (joined ++ ws))) body) =
      .ok (operandExpression body.parameters signs primary joined)
        (standing (before ++ layout (signs ++ (primary ++ joined))) ws
          (body.counted (questions (primary ++ joined)))) := by
  have hnext : nextKind (primary ++ (joined ++ ws)) ∉
      [TokenKind.symbol .minus, .symbol .plus, .endOfText] := by
    have hnext := hprimary.nextKind (joined ++ ws)
    simp only [List.mem_cons, List.not_mem_nil, or_false, not_or] at hnext ⊢
    exact ⟨hnext.1, hnext.2.1, hnext.2.2.2⟩
  have hmoves : signs.length < (signs ++ (primary ++ (joined ++ ws))).length + 1 := by
    simp only [List.length_append]
    omega
  have hread := run_signs before body hsigns hnext hmoves
  have htext := run_textSince before (signs ++ (primary ++ joined)) ws
    (body.counted (questions (primary ++ joined)))
  simp only [operand, run_bind, run_current, run_cursor, movesLeft_standing, hread,
    run_unsignedOperand hprimary hjoined hws, current_start, List.isEmpty_map]
  cases signs with
  | nil => simp [operandExpression, run_pure]
  | cons w signs =>
    have hcount (signs : List Written) : (signs.map fun w =>
        if w.piece = .symbol .minus then Symbol.minus else .plus).count .minus =
          signs.countP (·.piece = .symbol .minus) := by
      rw [List.count_eq_countP, List.countP_map]
      refine List.countP_congr fun v _ => ?_
      by_cases hv : v.piece = .symbol .minus <;> simp [hv]
    simp only [List.isEmpty_cons, Bool.false_eq_true, if_false, operandExpression, hcount]
    cases unsignedExpression body.parameters primary joined with
    | number n => simp [run_pure]
    | _ =>
      simp only [layout_cons, layout_append, List.append_assoc, List.cons_append, position_cons,
        run_bind] at htext ⊢
      simp only [htext, run_pure]

/-! ## Columns -/

/-- A name and its owner are read as a column. An owner that is no name of a table is not marked. -/
theorem run_operand_property {a d c : Written} {owner name : Word} (ha : a.piece = .name owner)
    (hd : d.piece = .symbol .dot) (hc : c.piece = .name name)
    (howner : body.tables.contains owner.text = false) (hws : (nextKind ws).endsOperand = true) :
    operand (standing before (a :: d :: c :: ws) body) =
      .ok (.property owner.text name.text) (standing (before ++ layout [a, d, c]) ws body) := by
  have ha' : a.piece.kind = LiteralClass.identifier := by rw [ha]; rfl
  have hd' : d.piece.kind = .symbol .dot := Piece.kind_eq_symbol.2 hd
  have hc' : c.piece.kind = LiteralClass.identifier := by rw [hc]; rfl
  have hnext : nextKind (a :: d :: c :: ws) ∉
      [TokenKind.symbol .minus, .symbol .plus, .endOfText] := by simp [ha']
  have hsigns : Grammar.signs ((a :: d :: c :: ws).length + 1)
      (standing before (a :: d :: c :: ws) body) =
        .ok [] (standing before (a :: d :: c :: ws) body) := by
    simpa using run_signs before body (List.forall_mem_nil _) hnext (Nat.succ_pos _)
  have hlone : a.piece.isLone = true := by rw [ha]; rfl
  simp only [operand, run_bind, run_current, run_cursor, movesLeft_standing, hsigns,
    unsignedOperand, isSymbol_standing, nextKind_cons, ha', reduceCtorEq, decide_false,
    Bool.false_eq_true, if_false, run_advance, run_atom hlone current_kind current_literal,
    run_skipSymbol hd', if_true, takeName, hc', run_pure, run_skipComposite_none hws, markOwner,
    run_routing, current_kind, current_literal]
  simp [ha, hc, Piece.literal, howner, Piece.questions, run_pure]

/-! ## Lists of operands -/

/-- The pieces are read as an operand that says `value` if `index` placeholders have come before. -/
structure ReadsAs (us : List Written) (value : Nat → Expression) : Prop where
  run {κ : Type} (before : List Char) {ws : List Written} (body : Body κ)
    (hws : (nextKind ws).endsOperand = true) :
    operand (standing before (us ++ ws) body) =
      .ok (value body.parameters)
        (standing (before ++ layout us) ws (body.counted (questions us)))

/-- A single piece keeps its value. -/
theorem readsAs_lone (hw : w.piece.isLone = true) : ReadsAs [w] fun i => w.piece.expression i where
  run before _ body hws := by
    simpa [operandExpression, unsignedExpression] using
      run_operand before body (List.forall_mem_nil _) (.lone hw) .nil hws

/-- A group is kept as it is written. -/
theorem readsAs_group {l r : Written} {us : List Written} (hl : l.piece = .symbol .leftParen)
    (hr : r.piece = .symbol .rightParen) (hu : Balanced us) :
    ReadsAs (l :: (us ++ [r])) fun _ =>
      .other (String.ofList (layout (flush (l :: (us ++ [r]))))) where
  run before _ body hws := by
    have hother : ∀ index, unsignedExpression index (l :: (us ++ [r])) [] =
        .other (String.ofList (layout (flush (l :: (us ++ [r]))))) := by
      cases us <;> simp [unsignedExpression]
    simpa [operandExpression, hother] using
      run_operand before body (List.forall_mem_nil _) (.group hl hr hu) .nil hws

/-- A call is kept as it is written. -/
theorem readsAs_call {f l r : Written} {us : List Written} {x : Word} (hf : f.piece = .name x)
    (hl : l.piece = .symbol .leftParen) (hr : r.piece = .symbol .rightParen) (hu : Balanced us) :
    ReadsAs (f :: l :: (us ++ [r])) fun _ =>
      .other (String.ofList (layout (flush (f :: l :: (us ++ [r]))))) where
  run before _ body hws := by
    simpa [operandExpression, unsignedExpression] using
      run_operand before body (List.forall_mem_nil _) (.call hf hl hr hu) .nil hws

/-- What operands say one after the other, `index` placeholders having come before. -/
def expressions : Nat → List (List Written × (Nat → Expression)) → List Expression
  | _, [] => []
  | index, (us, value) :: parts => value index :: expressions (index + questions us) parts

/-- Operands with commas between them are read one by one. -/
theorem run_operands (before : List Char) (body : Body κ) {σ : Written}
    {parts : List (List Written × (Nat → Expression))}
    (hσ : σ.piece = .symbol .comma) (hne : parts ≠ [])
    (hparts : ∀ part ∈ parts, ReadsAs part.1 part.2)
    (hws : (nextKind ws).endsOperand = true) (hcomma : nextKind ws ≠ .symbol .comma) :
    commaSeparated operand (standing before ([σ].intercalate (parts.map Prod.fst) ++ ws) body) =
      .ok (expressions body.parameters parts)
        (standing (before ++ layout ([σ].intercalate (parts.map Prod.fst))) ws
          (body.counted (questions ([σ].intercalate (parts.map Prod.fst))))) := by
  refine Collects.separatedBy ?_
  induction parts generalizing before body with
  | nil => exact absurd rfl hne
  | cons part parts ih =>
    obtain ⟨us, value⟩ := part
    have hread : ReadsAs us value := hparts (us, value) (by simp)
    cases parts with
    | nil =>
      simp only [List.map_cons, List.map_nil, List.intercalate_singleton]
      exact .last (hread.run _ _ hws) (run_skipSymbol_none hcomma)
    | cons part parts =>
      have hkind : σ.piece.kind = .symbol .comma := Piece.kind_eq_symbol.2 hσ
      have hσ0 : σ.piece.questions = 0 := by rw [hσ]; rfl
      have ih := ih (before ++ layout us ++ σ.text) (body.counted (questions us)) (by simp)
        fun p hp => hparts p (by simp [hp])
      rw [List.map_cons, List.map_cons, List.intercalate_cons_cons, ← List.map_cons]
      generalize [σ].intercalate ((part :: parts).map Prod.fst) = rest at ih ⊢
      have hend : (nextKind (σ :: (rest ++ ws))).endsOperand = true := by
        rw [nextKind_cons, hkind]
        rfl
      have hmore := Collects.more (hread.run before body hend) (run_skipSymbol hkind)
        (by simp; omega) ih
      simpa [expressions, hσ0, Nat.add_assoc] using hmore

/-- Of a list of operands with commas between them, the first may be without its blank. -/
theorem run_listed {ι : Type} (before : List Char) (body : Body κ) {pieces : ι → List Written}
    {value : ι → Nat → Expression} {xs : List ι} (hne : xs ≠ []) (hpieces : ∀ x, pieces x ≠ [])
    (hreads : ∀ x, ReadsAs (pieces x) (value x) ∧ ReadsAs (flush (pieces x)) (value x))
    (hws : (nextKind ws).endsOperand = true) (hcomma : nextKind ws ≠ .symbol .comma) :
    commaSeparated operand (standing before
        (flush ([(Piece.symbol .comma).tight].intercalate (xs.map pieces)) ++ ws) body) =
      .ok (expressions body.parameters (xs.map fun x => (pieces x, value x)))
        (standing
          (before ++ layout (flush ([(Piece.symbol .comma).tight].intercalate (xs.map pieces)))) ws
          (body.counted
            (questions ([(Piece.symbol .comma).tight].intercalate (xs.map pieces))))) := by
  obtain ⟨x, xs, rfl⟩ := List.exists_cons_of_ne_nil hne
  have hflush : flush ([(Piece.symbol .comma).tight].intercalate ((x :: xs).map pieces)) =
      [(Piece.symbol .comma).tight].intercalate
        (((flush (pieces x), value x) :: xs.map fun x => (pieces x, value x)).map Prod.fst) := by
    rw [List.map_cons, flush_intercalate (hpieces x), List.map_cons, List.map_map]
    rfl
  rw [← questions_flush, hflush, run_operands _ _ rfl (by simp) ?_ hws hcomma]
  · simp [expressions]
  · intro part hpart
    rw [List.mem_cons, List.mem_map] at hpart
    rcases hpart with rfl | ⟨y, -, rfl⟩
    · exact (hreads x).2
    · exact (hreads y).1

end Written

/-! ## Values -/

/-- A value: a placeholder, a whole number or a string. -/
inductive Value where
  | placeholder
  | integer (n : Nat) (le : n ≤ Number.maxInteger)
  | text (q : Quoted)
  deriving DecidableEq

namespace Value

/-- The value as it is written. -/
def written : Value → String
  | placeholder => "?"
  | integer n _ => n.repr
  | text q => String.ofList q.spelling

/-- The expression that the value is, `index` placeholders having come before. -/
def expression (index : Nat) : Value → Expression
  | placeholder => .placeholder index
  | integer n _ => .number (.integer n)
  | text q => .text q.content

/-- The number of placeholders in the value. -/
def questions : Value → Nat
  | placeholder => 1
  | integer _ _ | text _ => 0

/-- The expressions that values are, one after the other. -/
def expressions : Nat → List Value → List Expression
  | _, [] => []
  | index, v :: vs => v.expression index :: expressions (index + v.questions) vs

/-- Values are literals and placeholders only. -/
theorem isValue_expressions (index : Nat) (vs : List Value) :
    (expressions index vs).all Expression.isValue = true := by
  induction vs generalizing index with
  | nil => rfl
  | cons v vs ih =>
    rw [expressions, List.all_cons, ih, Bool.and_true]
    cases v <;> rfl

/-- The piece that the value is written as. -/
def piece : Value → Piece
  | placeholder => .symbol .question
  | integer n _ => .integer n
  | text q => .text q

variable (v : Value)

theorem isLone_piece : v.piece.isLone = true := by
  cases v with
  | placeholder => rfl
  | integer n le => simpa [piece, Piece.isLone] using le
  | text q => rfl

theorem expression_piece (index : Nat) : v.piece.expression index = v.expression index := by
  cases v <;> rfl

theorem questions_piece : v.piece.questions = v.questions := by
  cases v <;> rfl

theorem spelling_piece : v.piece.spelling = v.written.toList := by
  cases v <;> simp [piece, Piece.spelling, written, Symbol.text]

theorem prints : Written.Prints [v.piece.spaced] v.written :=
  .spaced (by cases v <;> simp [piece]) v.spelling_piece

/-- Values with commas between them. -/
def list (vs : List Value) : List Written :=
  [(Piece.symbol .comma).tight].intercalate (vs.map fun v => [v.piece.spaced])

/-- The number of placeholders among values. -/
def count (vs : List Value) : Nat :=
  (vs.map questions).sum

theorem list_prints {vs : List Value} (hne : vs ≠ []) :
    Written.Prints (list vs) (", ".intercalate (vs.map written)) :=
  .intercalate .comma rfl hne fun v _ => v.prints

/-- A value has no parentheses. -/
theorem balanced (v : Value) : Written.Balanced [v.piece.spaced] :=
  .cons (by cases v <;> simp [piece]) .nil

theorem questions_list (vs : List Value) : Written.questions (list vs) = count vs := by
  rw [list, Written.questions_intercalate rfl, List.map_map, count]
  congr 1
  exact List.map_congr_left fun v _ => v.questions_piece

/-- Values start with the first of them. -/
theorem nextKind_list (v : Value) (vs : List Value) (ws : List Written) :
    Written.nextKind (Written.flush (list (v :: vs)) ++ ws) = v.piece.kind := by
  cases vs <;> simp [list, List.intercalate_cons_cons]

end Value

namespace Written

open SqlRouting.Parser SqlRouting.Grammar

variable {κ : Type} {before : List Char} {ws : List Written} {body : Body κ}

/-- A value is read as what it is. -/
theorem readsAs_value {w : Written} {v : Value} (hw : w.piece = v.piece) :
    ReadsAs [w] (v.expression ·) := by
  have hlone : w.piece.isLone = true := by rw [hw, v.isLone_piece]
  simpa only [hw, v.expression_piece] using readsAs_lone hlone

/-- Values with commas between them are read one by one. -/
theorem run_values {vs : List Value} (hne : vs ≠ []) (hws : (nextKind ws).endsOperand = true)
    (hcomma : nextKind ws ≠ .symbol .comma) :
    commaSeparated operand (standing before (flush (Value.list vs) ++ ws) body) =
      .ok (Value.expressions body.parameters vs)
        (standing (before ++ layout (flush (Value.list vs))) ws
          (body.counted (Value.count vs))) := by
  have hread := run_listed before body hne (fun _ => List.cons_ne_nil _ _)
    (fun v => ⟨readsAs_value (w := v.piece.spaced) rfl, readsAs_value rfl⟩) hws hcomma
  have hexpressions (index : Nat) (vs : List Value) :
      expressions index (vs.map fun v => ([v.piece.spaced], (v.expression ·))) =
        Value.expressions index vs := by
    induction vs generalizing index with
    | nil => rfl
    | cons v vs ih => simp [expressions, Value.expressions, v.questions_piece, ih]
  rwa [hexpressions, ← Value.list, Value.questions_list] at hread

end Written

end SqlRouting
