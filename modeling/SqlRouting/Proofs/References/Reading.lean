import SqlRouting.Proofs.References

/-!
# Reading references to tables

The parser finds the names that `References.ofTokens` finds, and stops where it does
(`tableReferences_goes`). Whatever a parser does to the state besides, what matters of it here is
which tokens are left and how the known tables are called (`ParseState.Before`); along with these
every parser goes as the function of the same part does (`Goes`, `Finds`).
-/

namespace SqlRouting

/-! ## Parsers along references -/

section

variable {κ σ α β : Type}

/-- The cursor is on the first of the tokens `ts`, and the known tables have these names. -/
structure ParseState.Before (d : Dialect) (known : List String) (ts : List Token)
    (s : ParseState κ) : Prop where
  closed : s.cursor.Closed
  dialect_eq : s.cursor.dialect = d
  tokens_eq : s.cursor.tokens = ts
  names_eq : s.body.tables.names = known

/-- Whatever the parser succeeds on, it does to the state what `f` does to the view `H` of it. -/
def Goes (H : σ → ParseState κ → Prop) (p : Parser κ α) (f : σ → σ) : Prop :=
  ∀ ⦃r s a s'⦄, H r s → p s = .ok a s' → H (f r) s'

/-- The parser tells whether there is a step, and makes it if there is. -/
def Finds (H : σ → ParseState κ → Prop) (p : Parser κ Bool) (step? : σ → Option σ) : Prop :=
  ∀ ⦃r s found s'⦄, H r s → p s = .ok found s' →
    match step? r with
    | some r' => found = true ∧ H r' s'
    | none => found = false ∧ H r s'

open SqlRouting.Parser References

namespace Goes

variable {H : σ → ParseState κ → Prop} {p : Parser κ α} {q : α → Parser κ β} {f g : σ → σ}

theorem pure (a : α) : Goes H (Pure.pure a) id := by
  intro r s b s' hr h
  obtain ⟨_, rfl⟩ := pure_eq_ok.1 h
  exact hr

theorem bind (hp : Goes H p f) (hq : ∀ a, Goes H (q a) g) : Goes H (p >>= q) (g ∘ f) := by
  intro r s b s' hr h
  obtain ⟨a, s₁, hrun, h⟩ := bind_eq_ok.1 h
  exact hq a (hp hr hrun) h

/-- A parser that gives something else at its end goes as far. -/
theorem then_pure {b : α → β} (hp : Goes H p f) : Goes H (p >>= fun a => Pure.pure (b a)) f :=
  hp.bind fun _ => .pure _

end Goes

namespace Finds

variable {H : σ → ParseState κ → Prop} {step : Parser κ Bool} {step? : σ → Option σ} {f g : σ → σ}
  {item : Parser κ α}

/-- What is read with a step, and without one. -/
theorem ite {p q : Parser κ α} (h : Finds H step step?) (hp : Goes H p f) (hq : Goes H q g) :
    Goes H (step >>= fun found => if found then p else q) fun r => (step? r).elim (g r) f := by
  intro r s a s' hr hrun
  obtain ⟨found, s₁, hstep, hrun⟩ := bind_eq_ok.1 hrun
  have hfound := h hr hstep
  change H ((step? r).elim (g r) f) s'
  cases hr' : step? r with
  | some r' =>
    rw [hr'] at hfound
    obtain ⟨rfl, hr'⟩ := hfound
    exact hp hr' hrun
  | none =>
    rw [hr'] at hfound
    obtain ⟨rfl, hr'⟩ := hfound
    exact hq hr' hrun

/-- A loop makes as many steps as it can. -/
theorem loop {length : σ → Nat} (h : Finds H step step?)
    (hlength : ∀ {r s}, H r s → s.cursor.movesLeft = length r) :
    Goes H (loop step) fun r => repeated step? (length r) r := by
  have hiterate (n : Nat) : Goes H (iterate step n) (repeated step? n) := by
    induction n with
    | zero => exact .pure _
    | succ n ih =>
      intro r s u s' hr hrun
      have hrun := h.ite ih (.pure ()) hr hrun
      rw [repeated]
      cases hr' : step? r with
      | some r' => simpa [hr'] using hrun
      | none => simpa [hr'] using hrun
  intro r s u s' hr hrun
  rw [Parser.loop, cursor_bind, hlength hr] at hrun
  exact hiterate _ hr hrun

/-- A list is read from separator to separator. -/
theorem separatedBy {length : σ → Nat} (h : Finds H step step?) (hitem : Goes H item f)
    (hlength : ∀ {r s}, H r s → s.cursor.movesLeft = length r) :
    Goes H (separatedBy step item) fun r => separated f step? (length r) r := by
  have hcollect (n : Nat) : Goes H (collect item step n) (separated f step? n) := by
    induction n with
    | zero => exact .pure _
    | succ n ih =>
      intro r s as s' hr hrun
      have hrun := hitem.bind (fun a => h.ite ih.then_pure (.pure [a])) hr hrun
      rw [separated]
      cases hr' : step? (f r) with
      | some r' => simpa [hr'] using hrun
      | none => simpa [hr'] using hrun
  intro r s as s' hr hrun
  rw [Parser.separatedBy, cursor_bind, hlength hr] at hrun
  exact hcollect _ hr hrun

end Finds

/-! ### Tokens -/

namespace ParseState.Before

variable {d : Dialect} {known : List String} {ts : List Token} {s s' : ParseState κ} {u v : Unit}

theorem kind_eq (h : s.Before d known ts) : s.cursor.current.kind = headKind ts := by
  rw [← h.tokens_eq]
  rfl

theorem isKeyword_iff (h : s.Before d known ts) {keywords : List Keyword} :
    s.cursor.isKeyword keywords = true ↔ headKind ts ∈ keywords.map .keyword := by
  rw [← Cursor.isAny_keywords, Cursor.isAny, h.kind_eq, decide_eq_true_iff]

theorem isSymbol_iff (h : s.Before d known ts) {x : Symbol} :
    s.cursor.isSymbol x = true ↔ headKind ts = .symbol x := by
  rw [Cursor.isSymbol, h.kind_eq, decide_eq_true_iff]

theorem movesLeft_eq (h : s.Before d known ts) : s.cursor.movesLeft = ts.length := by
  rw [← h.tokens_eq]
  rfl

/-- What leaves the cursor and the tables as they are makes no difference. -/
theorem of_eq (h : s.Before d known ts) (hcursor : s'.cursor = s.cursor)
    (htables : s'.body.tables = s.body.tables) : s'.Before d known ts :=
  ⟨hcursor ▸ h.closed, hcursor ▸ h.dialect_eq, hcursor ▸ h.tokens_eq, htables ▸ h.names_eq⟩

theorem behindToken (h : s.Before d known ts) (hnext : s.cursor.next = .ok s'.cursor)
    (htables : s'.body.tables = s.body.tables) :
    s'.Before d known (References.behindToken ts) := by
  refine ⟨h.closed.next hnext, (Cursor.dialect_of_next h.closed hnext).trans h.dialect_eq, ?_,
    htables ▸ h.names_eq⟩
  rw [References.behindToken, ← h.kind_eq, ← h.tokens_eq]
  rcases Cursor.next_eq_ok h.closed hnext with ⟨hend, hcursor⟩ | ⟨hend, htokens, _⟩
  · rw [if_pos hend, hcursor]
  · rw [if_neg hend, htokens, List.tail_cons]

theorem tail (h : s.Before d known ts) (hnext : s.cursor.next = .ok s'.cursor)
    (htables : s'.body.tables = s.body.tables) (hend : headKind ts ≠ .endOfText) :
    s'.Before d known ts.tail := by
  have hbehind := h.behindToken hnext htables
  rwa [References.behindToken, if_neg hend] at hbehind

theorem advance (h : s.Before d known ts) (hadvance : advance s = .ok u s')
    (hend : headKind ts ≠ .endOfText) : s'.Before d known ts.tail := by
  obtain ⟨c, hnext, rfl⟩ := advance_eq_ok.1 hadvance
  exact h.tail hnext rfl hend

theorem countPlaceholder (h : s.Before d known ts) (hcount : countPlaceholder s = .ok u s') :
    s'.Before d known ts := by
  rw [countPlaceholder_eq_ok] at hcount
  subst hcount
  split
  · exact h.of_eq rfl rfl
  · exact h

end ParseState.Before

section

variable {d : Dialect} {known : List String} {kinds : List TokenKind}

theorem skipIf_finds (hend : .endOfText ∉ kinds) :
    Finds (ParseState.Before d known (κ := κ)) (skipIf kinds) (behindKind? kinds) := by
  intro ts s found s' hs h
  obtain ⟨hfound, h⟩ := skipIf_eq_ok.1 h
  rw [Cursor.isAny, hs.kind_eq] at hfound
  rw [behindKind?]
  cases found with
  | true =>
    have hmem := of_decide_eq_true hfound
    rw [if_pos hmem]
    exact ⟨rfl, hs.advance h fun hk => hend (hk ▸ hmem)⟩
  | false =>
    rw [if_neg (of_decide_eq_false hfound)]
    exact ⟨rfl, h ▸ hs⟩

theorem skipKeyword_finds (keywords : List Keyword) :
    Finds (ParseState.Before d known (κ := κ)) (skipKeyword keywords)
      (behindKind? (keywords.map .keyword)) := by
  rw [skipKeyword_eq_skipIf]
  exact skipIf_finds (by simp)

theorem behindKinds_eq {ts : List Token} (hend : .endOfText ∉ kinds) :
    behindKinds kinds ts = (behindKind? kinds ts).elim ts (behindKinds kinds) := by
  cases ts with
  | nil => rw [behindKind?, headKind_nil, if_neg hend]; rfl
  | cons t ts =>
    rw [behindKind?, headKind_cons, behindKinds]
    by_cases ht : t.kind ∈ kinds
    · rw [if_pos ht, List.dropWhile_cons_of_pos (by simpa using ht)]
      rfl
    · rw [if_neg ht, List.dropWhile_cons_of_neg (by simpa using ht)]
      rfl

/-- Steps over tokens of some kinds lead behind all those that follow one another. -/
theorem repeated_behindKind? {ts : List Token} :
    repeated (behindKind? kinds) ts.length ts = behindKinds kinds ts := by
  induction ts with
  | nil => rfl
  | cons t ts ih =>
    rw [List.length_cons, repeated, behindKind?, behindKinds, headKind_cons]
    by_cases ht : t.kind ∈ kinds
    · rw [if_pos ht, List.dropWhile_cons_of_pos (by simpa using ht)]
      exact ih
    · rw [if_neg ht, List.dropWhile_cons_of_neg (by simpa using ht)]

theorem loop_skipIf_goes (hend : .endOfText ∉ kinds) :
    Goes (ParseState.Before d known (κ := κ)) (loop (skipIf kinds)) (behindKinds kinds) := by
  intro ts s u s' hs h
  rw [← repeated_behindKind?]
  exact (skipIf_finds hend).loop ParseState.Before.movesLeft_eq hs h

theorem skipAll_goes (keywords : List Keyword) :
    Goes (ParseState.Before d known (κ := κ)) (skipAll keywords)
      (behindKinds (keywords.map .keyword)) := by
  have hstep : Finds (ParseState.Before d known (κ := κ)) (do
      let c ← cursor
      if c.isKeyword keywords then
        trace (.skippedKeyword c.current.literal)
        advance
        return true
      else return false) (behindKind? (keywords.map .keyword)) := by
    intro ts s found s' hs h
    simp only [cursor_bind, ite_eq_ok, bind_eq_ok, pure_eq_ok, trace_eq_ok, hs.isKeyword_iff] at h
    rw [behindKind?]
    rcases h with ⟨hfound, _, _, rfl, _, s₁, hadvance, rfl, rfl⟩ | ⟨hnone, rfl, rfl⟩
    · rw [if_pos hfound]
      obtain ⟨c, hnext, rfl⟩ := advance_eq_ok.1 hadvance
      refine ⟨rfl, hs.tail hnext rfl fun hend => ?_⟩
      simp [hend] at hfound
    · rw [if_neg hnone]
      exact ⟨rfl, hs⟩
  intro ts s u s' hs h
  rw [← repeated_behindKind?]
  exact hstep.loop ParseState.Before.movesLeft_eq hs h

/-- The cursor comes to the parenthesis that closes the group. -/
theorem skipToClosing_goes {n depth : Nat} {ts : List Token} {s s' : ParseState κ} {u : Unit}
    (hs : s.Before d known ts) (h : skipToClosing n depth s = .ok u s') :
    ∃ t, t.kind = .symbol .rightParen ∧ s'.Before d known (t :: behindClosing depth ts) := by
  induction n generalizing depth ts s with
  | zero => exact (unexpected_eq_ok.1 h).elim
  | succ n ih =>
    have hend : headKind ts ≠ .endOfText := by
      intro hend
      rw [skipToClosing, current_bind, hs.kind_eq, hend] at h
      exact unexpected_eq_ok.1 h
    obtain ⟨t, ts, rfl⟩ : ∃ t us, ts = t :: us := by
      cases ts with
      | nil => exact absurd rfl hend
      | cons t us => exact ⟨t, us, rfl⟩
    have hcurrent : s.cursor.current = t := (List.cons.inj hs.tokens_eq).1
    rw [behindClosing]
    rcases skipToClosing_eq_ok h with
      ⟨hclosed, rfl, rfl⟩ | ⟨hopen, m, s₁, s₂, hm, hcount, hadvance, h⟩
    · rw [hcurrent] at hclosed
      rw [if_pos ⟨hclosed, rfl⟩]
      exact ⟨t, hclosed, hs⟩
    · rw [hcurrent] at hopen h
      rw [if_neg hopen]
      exact ih ((hs.countPlaceholder hcount).advance hadvance hend) (Nat.succ.inj hm ▸ h)

theorem skipParentheses_goes :
    Goes (ParseState.Before d known (κ := κ)) skipParentheses behindGroup := by
  intro ts s text s' hs h
  simp only [skipParentheses, cursor_bind, current_bind, ite_eq_ok, bind_eq_ok, pure_eq_ok,
    slice_eq_ok, hs.isSymbol_iff] at h
  rw [behindGroup]
  rcases h with ⟨hopen, _, s₁, hadvance, _, s₂, hskip, _, _, ⟨_, rfl⟩, _, s₃, hadvance', _, rfl⟩ |
    ⟨hnone, _, rfl⟩
  · rw [if_pos hopen]
    obtain ⟨t, ht, hs₂⟩ := skipToClosing_goes (hs.advance hadvance (by simp [hopen])) hskip
    exact hs₂.advance hadvance' (by simp [ht])
  · rw [if_neg hnone]
    exact hs

/-! ### Operands -/

theorem isJoint_iff {ts : List Token} {s : ParseState κ} (hs : s.Before d known ts) :
    (s.cursor.isOperator || s.cursor.isSymbol .dot) = true ↔ headKind ts ∈ joints := by
  rw [Bool.or_eq_true, Cursor.isOperator, List.any_eq_true, or_comm, joints, List.map_cons,
    List.mem_cons, List.mem_map]
  simp only [hs.isSymbol_iff, eq_comm]

theorem skipJoint_finds :
    Finds (ParseState.Before d known (κ := κ)) Grammar.skipJoint behindJoint? := by
  intro ts s found s' hs h
  simp only [Grammar.skipJoint, Grammar.isJoint_bind, cursor_bind, ite_eq_ok, bind_eq_ok,
    refuseEnd_eq_ok, pure_eq_ok, isJoint_iff hs] at h
  rw [behindJoint?, behindKind?]
  rcases h with ⟨hjoint, _, s₁, hadvance, _, s₂, hsigns, _, _, ⟨hend, rfl⟩, _, s₃, hcount, h⟩ |
    ⟨hnone, rfl, rfl⟩
  · rw [if_pos hjoint, Option.map_some]
    have hs₁ := hs.advance hadvance fun hk => absurd (hk ▸ hjoint) (by decide)
    have hs₂ := loop_skipIf_goes (by decide) hs₁ hsigns
    have hs₃ := hs₂.countPlaceholder hcount
    have hend : headKind (behindKinds _ ts.tail) ≠ .endOfText :=
      fun hk => absurd (hs₂.kind_eq.trans hk) (of_decide_eq_false hend)
    simp only [Bool.not_eq_true', ← Bool.not_eq_true, not_not, hs₃.isSymbol_iff] at h
    rcases h with ⟨hnone, _, s₄, hadvance', _, s₅, hparens, rfl, rfl⟩ |
      ⟨hopen, _, s₄, hparens, rfl, rfl⟩
    · refine ⟨rfl, ?_⟩
      rw [behindJoined, if_neg hnone]
      exact skipParentheses_goes (hs₃.advance hadvance' hend) hparens
    · refine ⟨rfl, ?_⟩
      rw [behindJoined, if_pos hopen]
      exact skipParentheses_goes hs₃ hparens
  · rw [if_neg hnone]
    exact ⟨rfl, hs⟩

theorem skipJoined_goes :
    Goes (ParseState.Before d known (κ := κ)) Grammar.skipJoined behindJoints :=
  skipJoint_finds.loop ParseState.Before.movesLeft_eq

theorem skipComposite_goes :
    Goes (ParseState.Before d known (κ := κ)) Grammar.skipComposite
      fun ts => behindJoints (behindGroup ts) := by
  intro ts s found s' hs h
  simp only [Grammar.skipComposite, Grammar.isJoint_bind, cursor_bind, ite_eq_ok, bind_eq_ok,
    pure_eq_ok] at h
  rcases h with ⟨_, _, s₁, hparens, _, s₂, hjoined, _, rfl⟩ | ⟨hnone, _, rfl⟩
  · exact skipJoined_goes (skipParentheses_goes hs hparens) hjoined
  · rw [Bool.or_eq_true, isJoint_iff hs, hs.isSymbol_iff, not_or] at hnone
    have hstep : behindJoint? ts = none := by rw [behindJoint?, behindKind?, if_neg hnone.1]; rfl
    change s.Before d known (behindJoints (behindGroup ts))
    rw [behindGroup, if_neg hnone.2, behindJoints, repeated_of_none hstep]
    exact hs

/-- Behind an owner and its dot is any token, which is taken for the name. -/
theorem takeName_goes : Goes (ParseState.Before d known (κ := κ)) takeName behindToken := by
  intro ts s t s' hs h
  obtain ⟨_, c, hnext, h⟩ := takeName_eq_ok.1 h
  split at h
  · subst h
    exact hs.behindToken hnext rfl
  · subst h
    exact hs.behindToken hnext rfl

theorem unsignedOperand_goes :
    Goes (ParseState.Before d known (κ := κ)) Grammar.unsignedOperand behindUnsigned := by
  intro ts s e s' hs h
  simp only [Grammar.unsignedOperand, current_bind, cursor_bind, ite_eq_ok, bind_eq_ok, pure_eq_ok,
    hs.isSymbol_iff] at h
  rw [behindUnsigned]
  rcases h with ⟨hopen, _, s₁, hparens, _, s₂, hjoined, _, s₃, htext, _, rfl⟩ |
    ⟨hnone, value, s₁, hatom, _, s₂, hadvance, dotted, s₃, hdot, h⟩
  · obtain rfl := eq_of_textSince htext
    rw [if_pos hopen]
    exact skipJoined_goes (skipParentheses_goes hs hparens) hjoined
  rw [if_neg hnone]
  have hs₂ : s₂.Before d known (behindToken ts) := by
    obtain ⟨c, hnext, rfl⟩ := advance_eq_ok.1 hadvance
    have hs₁ : s₁.Before d known ts := by
      rw [← Grammar.atom_eq_ok hatom]
      split
      · exact hs.of_eq rfl rfl
      · exact hs
    exact hs₁.behindToken hnext rfl
  have hfound := skipIf_finds (by decide) hs₂ hdot
  cases hmore : behindKind? [Symbol.dot] (behindToken ts) with
  | some more =>
    rw [behindAtom, hmore]
    rw [hmore] at hfound
    obtain ⟨rfl, hs₃⟩ := hfound
    simp only [true_and, not_true_eq_false, false_and, or_false] at h
    obtain ⟨name, s₄, hname, composite, s₅, hcomposite, h⟩ := h
    have hs₅ := skipComposite_goes (takeName_goes hs₃ hname) hcomposite
    rcases h with ⟨_, _, s₆, htext, _, rfl⟩ | ⟨_, _, s₆, hmark, _, rfl⟩
    · obtain rfl := eq_of_textSince htext
      exact hs₅
    · simp only [Grammar.markOwner, routing_bind, ite_eq_ok, addMark_eq_ok, pure_eq_ok] at hmark
      rcases hmark with ⟨_, rfl⟩ | ⟨_, _, rfl⟩
      · exact hs₅.of_eq rfl rfl
      · exact hs₅
  | none =>
    rw [behindAtom, hmore]
    rw [hmore] at hfound
    obtain ⟨rfl, hs₃⟩ := hfound
    simp only [Bool.false_eq_true, false_and, not_false_eq_true, true_and, false_or] at h
    obtain ⟨composite, s₄, hcomposite, h⟩ := h
    have hs₄ := skipComposite_goes hs₃ hcomposite
    rcases h with ⟨_, _, s₅, htext, _, rfl⟩ | ⟨_, _, rfl⟩
    · obtain rfl := eq_of_textSince htext
      exact hs₄
    · exact hs₄

theorem signs_goes {n : Nat} {ts : List Token} {s s' : ParseState κ} {signs : List Symbol}
    (hs : s.Before d known ts) (hn : ts.length ≤ n) (h : Grammar.signs n s = .ok signs s') :
    s'.Before d known (behindKinds [Symbol.minus, Symbol.plus] ts) := by
  induction n generalizing ts s signs with
  | zero =>
    obtain ⟨_, rfl⟩ := pure_eq_ok.1 h
    obtain rfl := List.length_eq_zero_iff.1 (Nat.le_zero.1 hn)
    exact hs
  | succ n ih =>
    simp only [Grammar.signs, cursor_bind, ite_eq_ok, bind_eq_ok, refuseEnd_eq_ok, pure_eq_ok,
      Bool.or_eq_true, hs.isSymbol_iff] at h
    rw [behindKinds]
    rcases h with ⟨hsign, _, s₁, hadvance, _, _, ⟨_, rfl⟩, _, s₂, hmore, _, rfl⟩ | ⟨hnone, _, rfl⟩
    · have hmem : headKind ts ∈ [TokenKind.symbol .minus, .symbol .plus] := by simpa using hsign
      obtain ⟨t, ts, rfl⟩ : ∃ t us, ts = t :: us := by
        cases ts with
        | nil => exact absurd hmem (by decide)
        | cons t us => exact ⟨t, us, rfl⟩
      rw [List.dropWhile_cons_of_pos (by simpa using hmem)]
      exact ih (hs.advance hadvance fun hk => absurd (hk ▸ hmem) (by decide))
        (Nat.le_of_succ_le_succ hn) hmore
    · cases ts with
      | nil => exact hs
      | cons t us =>
        rw [List.dropWhile_cons_of_neg (by simpa using hnone)]
        exact hs

theorem operand_goes :
    Goes (ParseState.Before d known (κ := κ)) Grammar.operand behindOperand := by
  intro ts s e s' hs h
  simp only [Grammar.operand, current_bind, cursor_bind] at h
  obtain ⟨signs, s₁, hsigns, h⟩ := bind_eq_ok.1 h
  obtain ⟨value, s₂, hunsigned, h⟩ := bind_eq_ok.1 h
  have hs₂ := unsignedOperand_goes (signs_goes hs (Nat.le_of_eq hs.movesLeft_eq.symm) hsigns)
    hunsigned
  have hsame : s₂ = s' := by
    rw [ite_eq_ok, pure_eq_ok] at h
    rcases h with ⟨_, _, rfl⟩ | ⟨_, h⟩
    · rfl
    · split at h
      · exact (pure_eq_ok.1 h).2
      · obtain ⟨_, _, htext, h⟩ := bind_eq_ok.1 h
        exact (eq_of_textSince htext).trans (pure_eq_ok.1 h).2
  exact hsame ▸ hs₂

/-! ### Tables -/

theorem takeAlias_goes {ts : List Token} {s s' : ParseState κ} {name : String}
    (hs : s.Before d known ts) (h : Grammar.takeAlias s = .ok name s')
    (hend : headKind ts ≠ .endOfText) : s'.Before d known ts.tail := by
  rw [Grammar.takeAlias, current_bind] at h
  obtain ⟨_, s₁, hadvance, h⟩ := bind_eq_ok.1 h
  obtain ⟨_, rfl⟩ := pure_eq_ok.1 h
  exact hs.advance hadvance hend

theorem tableAlias_goes :
    Goes (ParseState.Before d known (κ := κ)) Grammar.tableAlias (behindAlias d) := by
  intro ts s asName s' hs h
  rw [Grammar.tableAlias, dialect_bind, hs.dialect_eq, Grammar.aliasOr] at h
  obtain ⟨found, s₁, hkeyword, h⟩ := bind_eq_ok.1 h
  have hfound := skipKeyword_finds [.AS] hs hkeyword
  simp only [List.map_cons, List.map_nil] at hfound
  rw [behindAlias]
  split
  case h_1 more hmore =>
    rw [hmore] at hfound
    obtain ⟨rfl, hs₁⟩ := hfound
    rw [if_pos rfl, current_bind, hs₁.kind_eq] at h
    generalize hkind : headKind more = kind at h ⊢
    split at h
    · obtain ⟨_, rfl⟩ := pure_eq_ok.1 h
      exact hs₁
    · obtain ⟨_, rfl⟩ := pure_eq_ok.1 h
      exact hs₁
    case h_3 hend hsymbol =>
      obtain ⟨name, s₂, halias, h⟩ := bind_eq_ok.1 h
      obtain ⟨_, rfl⟩ := pure_eq_ok.1 h
      have hs₂ := takeAlias_goes hs₁ halias (by rwa [hkind])
      cases kind with
      | endOfText => exact absurd rfl hend
      | symbol x => exact absurd rfl (hsymbol x)
      | keyword _ | literal _ => exact hs₂
  case h_2 hmore =>
    rw [hmore] at hfound
    obtain ⟨rfl, hs₁⟩ := hfound
    have hiff : (s₁.cursor.isAny [LiteralClass.identifier, LiteralClass.chars] ||
        s₁.cursor.isKeyword d.tableAlias) = true ↔
        headKind ts ∈ [.literal .identifier, .literal .chars] ++ d.tableAlias.map .keyword := by
      rw [Bool.or_eq_true, hs₁.isKeyword_iff, Cursor.isAny, decide_eq_true_iff, hs₁.kind_eq,
        List.mem_append]
    simp only [Bool.false_eq_true, if_false, cursor_bind, ite_eq_ok, bind_eq_ok, pure_eq_ok,
      hiff] at h
    rw [behindKind?]
    rcases h with ⟨halias, name, s₂, htake, _, rfl⟩ | ⟨hnone, _, rfl⟩
    · rw [if_pos halias]
      exact takeAlias_goes hs₁ htake fun hend => by simp [hend] at halias
    · rw [if_neg hnone]
      exact hs₁

theorem tableHints_goes :
    Goes (ParseState.Before d known (κ := κ)) Grammar.tableHints (behindHints d) := by
  have hhint : Finds (ParseState.Before d known (κ := κ)) (do
      if ← skipKeyword d.indexHint then
        skipAll Grammar.indexHintTargets
        let _ ← skipParentheses
        return true
      else return false) (behindHint? d) := by
    intro ts s found s' hs h
    obtain ⟨hint, s₁, hkeyword, h⟩ := bind_eq_ok.1 h
    have hfound := skipKeyword_finds d.indexHint hs hkeyword
    rw [behindHint?]
    cases hmore : behindKind? (d.indexHint.map .keyword) ts with
    | some more =>
      rw [hmore] at hfound
      obtain ⟨rfl, hs₁⟩ := hfound
      simp only [if_true, bind_eq_ok, pure_eq_ok] at h
      obtain ⟨_, s₂, hall, _, s₃, hparens, rfl, rfl⟩ := h
      exact ⟨rfl, skipParentheses_goes (skipAll_goes _ hs₁ hall) hparens⟩
    | none =>
      rw [hmore] at hfound
      obtain ⟨rfl, hs₁⟩ := hfound
      obtain ⟨rfl, rfl⟩ := pure_eq_ok.1 h
      exact ⟨rfl, hs₁⟩
  intro ts s u s' hs h
  rw [Grammar.tableHints, dialect_bind, hs.dialect_eq] at h
  have hhints : Goes (ParseState.Before d known (κ := κ)) _ (behindIndexHints d) :=
    hhint.loop ParseState.Before.movesLeft_eq
  have hs' := (skipKeyword_finds d.tablePartition).ite
    (skipParentheses_goes.bind fun _ => hhints) hhints hs h
  rw [behindHints]
  cases hpartition : behindKind? (d.tablePartition.map .keyword) ts with
  | some more => simpa [hpartition] using hs'
  | none => simpa [hpartition] using hs'

theorem joinCondition_goes :
    Goes (ParseState.Before d known (κ := κ)) Grammar.joinCondition behindCondition := by
  have hequation : Goes (ParseState.Before d known (κ := κ)) (do
      let _ ← Grammar.operand
      accept Symbol.equal
      let _ ← Grammar.operand) behindEquation := by
    intro ts s u s' hs h
    obtain ⟨_, s₁, hleft, h⟩ := bind_eq_ok.1 h
    obtain ⟨_, s₂, hequal, h⟩ := bind_eq_ok.1 h
    obtain ⟨_, s₃, hright, h⟩ := bind_eq_ok.1 h
    obtain ⟨_, rfl⟩ := pure_eq_ok.1 h
    obtain ⟨hkind, hadvance⟩ := accept_eq_ok.1 hequal
    have hs₁ := operand_goes hs hleft
    have hs₂ := hs₁.advance hadvance (by rw [← hs₁.kind_eq, hkind]; simp)
    exact operand_goes hs₂ hright
  have hequations : Goes (ParseState.Before d known (κ := κ)) _ behindEquations :=
    (skipKeyword_finds [.AND]).separatedBy hequation ParseState.Before.movesLeft_eq
  exact (skipKeyword_finds [.ON]).ite hequations.then_pure
    ((skipKeyword_finds [.USING]).ite skipParentheses_goes.then_pure (.pure ()))

end

/-- The cursor is where the references leave off, and their tables are known, each one once. -/
def References.Read (d : Dialect) (r : References) (s : ParseState κ) : Prop :=
  s.Before d ((r.names.map Token.name).foldl addName []) r.rest

theorem Goes.skip {d : Dialect} {p : Parser κ α} {f : List Token → List Token}
    (h : ∀ known, Goes (ParseState.Before d known (κ := κ)) p f) :
    Goes (References.Read d) p (References.skip f) :=
  fun _ _ _ _ hr hp => h _ hr hp

section

variable {d : Dialect}

/-- The name that is read is the one that is recorded. -/
theorem tableFactor_goes : Goes (References.Read d (κ := κ)) Grammar.tableFactor (factor d) := by
  intro r s u s' hr h
  simp only [Grammar.tableFactor, Grammar.tableName, cursor_bind, current_bind, ite_eq_ok,
    bind_eq_ok, throw_eq_ok, unexpected_eq_ok, pure_eq_ok, false_and, and_false, exists_false,
    false_or] at h
  obtain ⟨_, name, s₁, ⟨hname, _, _, hadvance, _, rfl, rfl⟩, asName, s₂, halias, hrecord⟩ := h
  obtain ⟨_, s₃, htable, hmark⟩ := bind_eq_ok.1 hrecord
  obtain rfl := modifyRouting_eq_ok.1 htable
  obtain rfl := addMark_eq_ok.1 hmark
  have hkind : headKind r.rest = LiteralClass.identifier := by
    rw [← ParseState.Before.kind_eq hr]
    simpa [Cursor.isName] using hname
  have hs₂ := tableAlias_goes (ParseState.Before.advance hr hadvance (by simp [hkind])) halias
  have hnames : r.names ++ r.rest.take 1 = r.names ++ [s.cursor.current] := by
    rw [← ParseState.Before.tokens_eq hr]
    rfl
  refine ⟨hs₂.closed, hs₂.dialect_eq, hs₂.tokens_eq, ?_⟩
  change (s₂.body.tables.add _).names = _
  rw [Tables.names_add, hs₂.names_eq, factor, hnames, List.map_append, List.foldl_append]
  rfl

theorem table_goes : Goes (References.Read d (κ := κ)) (do
    Grammar.tableFactor
    Grammar.tableHints) (table d) :=
  tableFactor_goes.bind fun _ => .skip fun _ => tableHints_goes

theorem joinType_finds {known : List String} :
    Finds (ParseState.Before d known (κ := κ)) Grammar.joinType (behindJoinType? d) := by
  intro ts s found s' hs h
  rw [Grammar.joinType, dialect_bind, hs.dialect_eq, cursor_bind] at h
  obtain ⟨_, s₁, hloop, h⟩ := bind_eq_ok.1 h
  obtain ⟨hfound, rfl⟩ := pure_eq_ok.1 h
  rw [skipKeyword_eq_skipIf] at hloop
  have hs₁ := loop_skipIf_goes (by simp) hs hloop
  rw [← Cursor.isAny_keywords, Cursor.isAny, hs.kind_eq] at hfound
  rw [← joinKinds, behindKinds_eq (by simp [joinKinds]), behindKind?] at hs₁
  rw [← joinKinds] at hfound
  rw [behindJoinType?, behindKind?]
  by_cases hkind : headKind ts ∈ joinKinds d
  · rw [if_pos hkind] at hs₁ ⊢
    exact ⟨hfound.symm.trans (decide_eq_true hkind), hs₁⟩
  · rw [if_neg hkind] at hs₁ ⊢
    exact ⟨hfound.symm.trans (decide_eq_false hkind), hs₁⟩

theorem joinedTable_finds :
    Finds (References.Read d (κ := κ)) Grammar.joinedTable (joined? d) := by
  intro r s found s' hr h
  obtain ⟨join, s₁, hjoin, h⟩ := bind_eq_ok.1 h
  have hfound := joinType_finds hr hjoin
  rw [joined?]
  cases hmore : behindJoinType? d r.rest with
  | some more =>
    rw [hmore] at hfound
    obtain ⟨rfl, hs₁⟩ := hfound
    simp only [if_true, cursor_bind, ite_eq_ok, bind_eq_ok, throw_eq_ok, false_and, and_false,
      exists_false, false_or, pure_eq_ok] at h
    obtain ⟨_, _, s₂, hfactor, _, s₃, hhints, _, s₄, hcondition, rfl, rfl⟩ := h
    have hs₃ := table_goes (r := ⟨r.names, more⟩) hs₁ (bind_eq_ok.2 ⟨_, _, hfactor, hhints⟩)
    exact ⟨rfl, joinCondition_goes hs₃ hcondition⟩
  | none =>
    rw [hmore] at hfound
    obtain ⟨rfl, hs₁⟩ := hfound
    obtain ⟨rfl, rfl⟩ := pure_eq_ok.1 h
    exact ⟨rfl, hs₁⟩

theorem tableReference_goes :
    Goes (References.Read d (κ := κ)) Grammar.tableReference (reference d) := by
  have hjoined : Goes (References.Read d (κ := κ)) (loop Grammar.joinedTable) fun r =>
      repeated (joined? d) r.rest.length r :=
    joinedTable_finds.loop fun hr => ParseState.Before.movesLeft_eq hr
  intro r s u s' hr h
  obtain ⟨_, s₁, hfactor, h⟩ := bind_eq_ok.1 h
  obtain ⟨_, s₂, hhints, h⟩ := bind_eq_ok.1 h
  exact hjoined (table_goes hr (bind_eq_ok.2 ⟨_, _, hfactor, hhints⟩)) h

theorem comma_finds : Finds (References.Read d (κ := κ)) (skipSymbol .comma) comma? := by
  intro r s found s' hr h
  have hfound := skipIf_finds (by simp) hr h
  rw [comma?]
  cases hmore : behindKind? [.symbol .comma] r.rest with
  | some more => rwa [hmore] at hfound
  | none => rwa [hmore] at hfound

/-- References to tables that are read are those that the tokens start with, and what is left of
    the tokens is left by the parser. -/
theorem tableReferences_goes {ts : List Token} {single : Bool} {s s' : ParseState κ} {u : Unit}
    (hs : s.Before d [] ts) (h : Grammar.tableReferences single s = .ok u s') :
    (ofTokens d ts).Read d s' := by
  obtain ⟨_, s₁, hlist, h⟩ := bind_eq_ok.1 h
  simp only [routing_bind, ite_eq_ok, throw_eq_ok, and_false, false_or, pure_eq_ok] at h
  obtain ⟨_, _, rfl⟩ := h
  have hlisted : Goes (References.Read d (κ := κ)) (commaSeparated Grammar.tableReference) fun r =>
      separated (reference d) comma? r.rest.length r :=
    comma_finds.separatedBy tableReference_goes fun hr => ParseState.Before.movesLeft_eq hr
  exact hlisted (r := ⟨[], ts⟩) hs hlist

end

end

end SqlRouting
