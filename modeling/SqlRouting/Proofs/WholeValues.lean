import SqlRouting.Proofs.OperandGrammar

/-!
# Values and what goes on with them

A value that is compared with a column decides where a statement goes, so it must not be cut out of
a larger expression. An operand is read as a value exactly if a token that is one is all of it,
signs before it apart, up to a token that ends operands (`Grammar.operand_value_iff`). Of the
symbols that go on with an operand these are the two shifts: they are missing among
`Symbol.operators`, and so `a = 1 << 2` is read as `a = 1`. Before anything else that goes on with
it no operand is a value.
-/

namespace SqlRouting

/-- The symbols that go on with an operand: a dot, the parenthesis of a call, and the operators, the
    two shifts among them. -/
def Symbol.joining : List Symbol :=
  [.dot, .leftParen, .doubleLess, .doubleGreater] ++ operators

/-- Of what goes on with an operand only the shifts end it. -/
theorem Symbol.endsOperand_of_joining {x : Symbol} (hx : x ∈ joining) :
    (TokenKind.symbol x).endsOperand = true ↔ x = .doubleLess ∨ x = .doubleGreater := by
  revert hx
  cases x <;> decide

/-- The value that the token is on its own, `index` placeholders having come before. -/
def Token.value? (index : Nat) (t : Token) : Option Expression :=
  match t.kind with
  | .symbol .question => some (.placeholder index)
  | .literal .chars => some (.text t.literal)
  | .literal .int => (Number.ofInt? t.literal).map .number
  | .literal .hex => (Number.ofHex? t.literal).map .number
  | .literal .float => some (.number (Number.ofFloat t.literal))
  | _ => none

/-- What signs leave of a value: only a number stays one. -/
def Expression.behind? (signs : List Token) (value : Expression) : Option Expression :=
  if signs.isEmpty then some value
  else
    match value with
    | number n => some (number (n.behind (signs.countP (·.kind = .symbol .minus))))
    | _ => none

theorem Expression.behind?_eq_some {signs : List Token} {v e : Expression} :
    v.behind? signs = some e ↔ signs = [] ∧ v = e ∨ signs ≠ [] ∧ ∃ n, v = .number n ∧
      .number (n.behind (signs.countP (·.kind = .symbol .minus))) = e := by
  unfold behind?
  cases signs with
  | nil => simp
  | cons t signs => cases v <;> simp

theorem Token.kind_of_value? {t : Token} {index : Nat} {e : Expression}
    (h : t.value? index = some e) : t.kind ≠ .symbol .minus ∧ t.kind ≠ .symbol .plus ∧
      t.kind ≠ .endOfText ∧ t.kind ≠ .symbol .leftParen := by
  rw [value?] at h
  refine ⟨?_, ?_, ?_, ?_⟩ <;> intro hk <;> simp [hk] at h

namespace Grammar

open SqlRouting.Parser

variable {κ : Type} {s s' : ParseState κ} {e : Expression} {n m : Nat} {t : Token}
  {ts us : List Token}

theorem pure_value_iff {x : Expression} :
    (pure x : Parser κ Expression) s = .ok e s' ∧ e.isValue = true ↔
      (if x.isValue then some x else none) = some e ∧ s' = s := by
  rw [pure_eq_ok, Option.ite_none_right_eq_some]
  constructor
  · rintro ⟨⟨rfl, rfl⟩, hvalue⟩
    exact ⟨⟨hvalue, rfl⟩, rfl⟩
  · rintro ⟨⟨hvalue, ⟨⟩⟩, rfl⟩
    exact ⟨⟨rfl, rfl⟩, hvalue⟩

/-- A token is read as a value if it is one on its own. -/
theorem atom_value_iff : atom t (s.facing n ts) = .ok e s' ∧ e.isValue = true ↔
    t.value? (s.body.parameters + n) = some e ∧
      s' = s.facing (n + if t.kind = .symbol .question then 1 else 0) ts := by
  rw [atom, Token.value?]
  generalize t.kind = kind
  split
  case h_1 =>
    simp only [bind_eq_ok, takePlaceholder_eq_ok, pure_eq_ok]
    constructor
    · rintro ⟨⟨_, _, ⟨rfl, rfl⟩, rfl, rfl⟩, _⟩
      exact ⟨rfl, rfl⟩
    · rintro ⟨h, rfl⟩
      exact ⟨⟨_, _, ⟨rfl, rfl⟩, Option.some.inj h, rfl⟩, Option.some.inj h ▸ rfl⟩
  case h_3 => cases Number.ofInt? t.literal <;> exact pure_value_iff
  case h_4 => cases Number.ofHex? t.literal <;> exact pure_value_iff
  case h_7 =>
    rw [pure_value_iff]
    simp [Expression.isValue]
  all_goals exact pure_value_iff

theorem skipComposite_facing_iff :
    skipComposite (s.facing n us) = .ok false s' ↔
      (headKind us).endsOperand = true ∧ s' = s.facing n us := by
  rw [skipComposite_eq_ok, if_neg (by simp), TokenKind.endsOperand_iff]
  simp only [Bool.or_eq_false_iff, ParseState.isOperator_facing, ParseState.isSymbol_facing,
    decide_eq_false_iff_not, and_assoc, eq_comm (a := s')]

/-- A value is read without signs if a token that is one is all that there is to the operand. -/
theorem unsignedOperand_value_iff (hs : (s.facing n (t :: us)).cursor.Closed) :
    unsignedOperand (s.facing n (t :: us)) = .ok e s' ∧ e.isValue = true ↔
      t.value? (s.body.parameters + n) = some e ∧ us ≠ [] ∧ (headKind us).endsOperand = true ∧
        s' = s.facing (n + if t.kind = .symbol .question then 1 else 0) us := by
  constructor
  · rintro ⟨h, hvalue⟩
    simp only [unsignedOperand, current_bind, cursor_bind, ite_eq_ok, bind_eq_ok, pure_eq_ok,
      ParseState.current_facing] at h
    -- A group, a name with its owner and all that more follows are no values.
    rcases h with ⟨_, _, _, _, _, _, _, _, _, _, rfl, _⟩ |
      ⟨_, value, s₁, hatom, _, s₂, hadvance, dotted, s₃, hdot, ⟨_, _, _, _, _, _, _,
        ⟨_, _, _, _, rfl, _⟩ | ⟨_, _, _, _, rfl, _⟩⟩ |
        ⟨hdotted, composite, s₄, hcomposite, ⟨_, _, _, _, rfl, _⟩ | ⟨hnone, rfl, rfl⟩⟩⟩
    · cases hvalue
    · cases hvalue
    · cases hvalue
    · cases hvalue
    obtain ⟨ht, rfl⟩ := atom_value_iff.1 ⟨hatom, hvalue⟩
    have hkinds := Token.kind_of_value? ht
    have hne : us ≠ [] := by
      have hahead := ahead_of_advance hadvance hs hkinds.2.2.1
      rintro rfl
      cases hahead
    obtain ⟨_, rfl⟩ := EStateM.Result.ok.inj ((advance_facing hne).symm.trans hadvance)
    obtain rfl : dotted = false := by simpa using hdotted
    obtain rfl := (skipIf_eq_ok.1 hdot).2
    obtain rfl : composite = false := by simpa using hnone
    obtain ⟨hends, rfl⟩ := skipComposite_facing_iff.1 hcomposite
    exact ⟨ht, hne, hends, rfl⟩
  · rintro ⟨ht, hne, hends, rfl⟩
    have hkinds := Token.kind_of_value? ht
    obtain ⟨hatom, hvalue⟩ := atom_value_iff.2 ⟨ht, rfl⟩
    exact ⟨unsignedOperand_atom hkinds.2.2.2 hatom hne hends, hvalue⟩

/-- What is read as signs are signs. -/
theorem exists_of_signs {before : List Symbol} (hs : s.cursor.Closed) (hne : ts ≠ [])
    (hsuffix : ts <:+ s.cursor.tokens) (h : Grammar.signs m (s.facing n ts) = .ok before s') :
    ∃ signs us, ts = signs ++ us ∧ us ≠ [] ∧
      (∀ t ∈ signs, t.kind = .symbol .minus ∨ t.kind = .symbol .plus) ∧
      before = (signs.map fun t => if t.kind = .symbol .minus then .minus else .plus) ∧
      s' = s.facing n us := by
  induction m generalizing ts before with
  | zero =>
    obtain ⟨rfl, rfl⟩ := pure_eq_ok.1 h
    exact ⟨[], ts, rfl, hne, by simp, rfl, rfl⟩
  | succ m ih =>
    obtain ⟨t, us, rfl⟩ := List.exists_cons_of_ne_nil hne
    simp only [Grammar.signs, cursor_bind, ite_eq_ok, bind_eq_ok, pure_eq_ok, refuseEnd_eq_ok,
      ParseState.isSymbol_facing, Bool.or_eq_true, decide_eq_true_eq] at h
    rcases h with ⟨hsign, _, s₁, hadvance, _, s₂, ⟨_, rfl⟩, more, s₃, hmore, rfl, rfl⟩ |
      ⟨_, rfl, rfl⟩
    · replace hsign : t.kind = .symbol .minus ∨ t.kind = .symbol .plus := hsign
      have hkind : t.kind ≠ .endOfText := by rcases hsign with h | h <;> simp [h]
      have hus : us ≠ [] := by
        have hahead := ahead_of_advance hadvance (hs.facing hne hsuffix) hkind
        rintro rfl
        cases hahead
      obtain ⟨_, rfl⟩ := EStateM.Result.ok.inj ((advance_facing hus).symm.trans hadvance)
      obtain ⟨signs, vs, rfl, hvs, hsigns, rfl, rfl⟩ :=
        ih hus ((List.suffix_cons t us).trans hsuffix) hmore
      refine ⟨t :: signs, vs, rfl, hvs, List.forall_mem_cons.2 ⟨hsign, hsigns⟩, ?_, rfl⟩
      rcases hsign with h | h <;> simp [h]
    · exact ⟨[], t :: us, rfl, hne, by simp, rfl, rfl⟩

/-- An operand is read as a value exactly if it is a token that is one, perhaps behind signs, and
    ends there. -/
theorem operand_value_iff (hs : s.cursor.Closed) : operand s = .ok e s' ∧ e.isValue = true ↔
    ∃ signs t next more v, s.cursor.tokens = signs ++ t :: next :: more ∧
      (∀ u ∈ signs, u.kind = .symbol .minus ∨ u.kind = .symbol .plus) ∧
      t.value? s.body.parameters = some v ∧ v.behind? signs = some e ∧
      next.kind.endsOperand = true ∧
      s' = s.facing (if t.kind = .symbol .question then 1 else 0) (next :: more) := by
  constructor
  · rintro ⟨h, hvalue⟩
    simp only [operand, current_bind, cursor_bind, bind_eq_ok, ite_eq_ok, pure_eq_ok] at h
    obtain ⟨before, s₁, hsigns, value, s₂, hunsigned, h⟩ := h
    rw [← ParseState.facing_self (s := s) rfl] at hsigns
    obtain ⟨signs, us, htokens, hus, hall, rfl, rfl⟩ :=
      exists_of_signs hs (by simp [Cursor.tokens]) List.suffix_rfl hsigns
    obtain ⟨t, us, rfl⟩ := List.exists_cons_of_ne_nil hus
    have hclosed := hs.facing (n := 0) hus ⟨signs, htokens.symm⟩
    obtain ⟨hvalue', hbehind, rfl⟩ : value.isValue = true ∧ value.behind? signs = some e ∧
        s₂ = s' := by
      rcases h with ⟨hempty, rfl, rfl⟩ | ⟨hempty, h⟩
      · exact ⟨hvalue, if_pos (by simpa using hempty), rfl⟩
      · cases value with
        | number n =>
          obtain ⟨rfl, rfl⟩ := pure_eq_ok.1 h
          refine ⟨rfl, ?_, rfl⟩
          rw [count_signs]
          exact Expression.behind?_eq_some.2 (.inr ⟨by simpa using hempty, n, rfl, rfl⟩)
        | _ =>
          -- Anything else becomes text.
          simp only [bind_eq_ok, pure_eq_ok] at h
          obtain ⟨_, _, _, rfl, _⟩ := h
          cases hvalue
    obtain ⟨ht, hne, hends, rfl⟩ := (unsignedOperand_value_iff hclosed).1 ⟨hunsigned, hvalue'⟩
    obtain ⟨next, more, rfl⟩ := List.exists_cons_of_ne_nil hne
    exact ⟨signs, t, next, more, value, htokens, hall, ht, hbehind, hends, by rw [Nat.zero_add]⟩
  · rintro ⟨signs, t, next, more, v, htokens, hall, ht, hbehind, hends, rfl⟩
    have hkinds := Token.kind_of_value? ht
    have hsigns := signs_of_tokens htokens hall (by simp [hkinds])
    have hclosed := hs.facing (n := 0) (List.cons_ne_nil t (next :: more)) ⟨signs, htokens.symm⟩
    obtain ⟨hunsigned, hvalue⟩ := (unsignedOperand_value_iff hclosed).2
      ⟨ht, by simp, hends, rfl⟩
    rw [Nat.zero_add] at hunsigned
    rw [operand, current_bind, cursor_bind, bind_of_eq_ok hsigns, bind_of_eq_ok hunsigned]
    rcases Expression.behind?_eq_some.1 hbehind with ⟨rfl, rfl⟩ | ⟨hne, n, rfl, rfl⟩
    · exact ⟨rfl, hvalue⟩
    · rw [if_neg (by simpa using hne), ← count_signs]
      exact ⟨rfl, rfl⟩

end Grammar

/-- *No value is cut out of a larger operand, unless a shift goes on with it.* If an operand is read
    as a value, none of the operators is under the cursor, no dot and no parenthesis that opens, but
    for the shifts. Before a shift a token that is a value is read as one, signs before it apart. -/
theorem value_before_shift {κ : Type} {s : ParseState κ} (hs : s.cursor.Closed) :
    (∀ e s', Grammar.operand s = .ok e s' → e.isValue = true → ∀ x ∈ Symbol.joining,
      s'.cursor.current.kind = .symbol x → x = .doubleLess ∨ x = .doubleGreater) ∧
    ∀ signs t next more v e, s.cursor.tokens = signs ++ t :: next :: more →
      (∀ u ∈ signs, u.kind = .symbol .minus ∨ u.kind = .symbol .plus) →
      t.value? s.body.parameters = some v → v.behind? signs = some e →
      (next.kind = .symbol .doubleLess ∨ next.kind = .symbol .doubleGreater) →
      ∃ s', Grammar.operand s = .ok e s' ∧ e.isValue = true ∧ s'.cursor.current = next := by
  constructor
  · intro e s' h hvalue x hx hkind
    obtain ⟨_, _, next, _, _, _, _, _, _, hends, rfl⟩ :=
      (Grammar.operand_value_iff hs).1 ⟨h, hvalue⟩
    rw [ParseState.current_facing] at hkind
    exact (Symbol.endsOperand_of_joining hx).1 (hkind ▸ hends)
  · intro signs t next more v e htokens hsigns ht hbehind hnext
    have hends : next.kind.endsOperand = true := by
      rcases hnext with h | h <;> rw [h] <;> decide
    obtain ⟨h, hvalue⟩ := (Grammar.operand_value_iff hs).2
      ⟨signs, t, next, more, v, htokens, hsigns, ht, hbehind, hends, rfl⟩
    exact ⟨_, h, hvalue, rfl⟩

/-- A number behind a sign, and a shift behind it. -/
theorem value_before_shift_number : ∃ c s', Cursor.ofText .mySql .mySql "- 1 << 2" = .ok c ∧
    Grammar.operand (ParseState.start (κ := DeleteClauses) c) =
      .ok (.number (.integer (-1))) s' ∧
    s'.cursor.current = ⟨.symbol .doubleLess, "<<", 6⟩ ∧
    ∀ x ∈ Symbol.joining, s'.cursor.current.kind = .symbol x →
      x = .doubleLess ∨ x = .doubleGreater := by
  have hrun : (Parser.runOn? (κ := DeleteClauses) Grammar.operand .mySql .mySql "- 1 << 2").map
      (fun r => r.1.tokens) =
      some [⟨.symbol .minus, "-", 1⟩, ⟨.literal .int, "1", 3⟩, ⟨.symbol .doubleLess, "<<", 6⟩,
        ⟨.literal .int, "2", 8⟩, Token.final 8] := by decide +kernel
  obtain ⟨c, _, _, hc, _, htokens⟩ := Parser.exists_of_runOn? hrun
  obtain ⟨hends, hreads⟩ := value_before_shift (s := ParseState.start (κ := DeleteClauses) c)
    (Cursor.stands_of_ofText hc).closed
  have hone : Token.value? 0 ⟨.literal .int, "1", 3⟩ = some (.number (.integer 1)) := by decide
  obtain ⟨s', h, hvalue, hcurrent⟩ := hreads [⟨.symbol .minus, "-", 1⟩] _ _ _ _
    (.number (.integer (-1))) htokens (by simp) hone (by decide) (.inl rfl)
  exact ⟨c, s', hc, h, hcurrent, hends _ s' h hvalue⟩

/-- A value before a shift is taken for the whole operand, and a column is compared with it. -/
theorem value_before_shift_condition :
    (∃ c e s', Cursor.ofText .mySql .mySql "1 << 2" = .ok c ∧
      Grammar.operand (ParseState.start (κ := DeleteClauses) c) = .ok e s' ∧ e.isValue = true ∧
      ∃ x ∈ Symbol.joining, s'.cursor.current.kind = .symbol x) ∧
    (Statement.parse .mySql .mySql "SELECT * FROM t WHERE a = 1 << 2").map
        (fun s => s.routing.conditions) =
      .ok ⟨[⟨⟨"a", some "t"⟩, .equal, [.number (.integer 1)]⟩]⟩ := by
  constructor
  · have hrun : (Parser.runOn? (κ := DeleteClauses) Grammar.operand .mySql .mySql "1 << 2").map
        (fun r => (r.2.1, r.2.2.cursor.current.kind)) =
        some (.number (.integer 1), .symbol .doubleLess) := by decide +kernel
    obtain ⟨c, e, s', hc, h, hread⟩ := Parser.exists_of_runOn? hrun
    obtain ⟨rfl, hkind⟩ := Prod.mk.inj hread
    exact ⟨c, _, s', hc, h, rfl, .doubleLess, by decide, hkind⟩
  · decide +kernel

end SqlRouting
