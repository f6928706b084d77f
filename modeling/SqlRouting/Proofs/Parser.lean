import SqlRouting.Parser

/-!
# Runs that succeed

When a parser succeeds, then because each of its parts did. The lemmas of this module say for every
way to combine parsers, and for every parser that others are made of, what its success amounts to:
`bind_eq_ok` for a sequence, `advance_eq_ok` for a move of the cursor, and so on. A longer parser is
opened by rewriting with them.
-/

namespace SqlRouting

/-- The state with one more placeholder counted. -/
def ParseState.counted {κ : Type} (s : ParseState κ) : ParseState κ :=
  { s with body := { s.body with parameters := s.body.parameters + 1 } }

/-- The number of groups in parentheses that are open behind a token, `depth` being
    open before it. -/
def Token.depthBehind (depth : Nat) (t : Token) : Nat :=
  match t.kind with
  | .symbol .leftParen => depth + 1
  | .symbol .rightParen => depth - 1
  | _ => depth

namespace Cursor

theorem isAny_append (c : Cursor) (kinds kinds' : List TokenKind) :
    c.isAny (kinds ++ kinds') = (c.isAny kinds || c.isAny kinds') := by
  simp [isAny]

theorem isKeyword_iff {c : Cursor} {keywords : List Keyword} :
    c.isKeyword keywords = true ↔ ∃ k, c.current.kind = .keyword k ∧ k ∈ keywords := by
  rw [isKeyword]
  split
  case h_1 k hk => simp [hk]
  case h_2 hk => simpa using fun k h => absurd h (hk k)

/-- Keywords are tokens of their kinds. -/
theorem isAny_keywords (c : Cursor) (keywords : List Keyword) :
    c.isAny (keywords.map .keyword) = c.isKeyword keywords := by
  rw [isKeyword, isAny]
  split
  case h_1 k hk => simp [hk]
  case h_2 hk => simpa using fun k _ h => hk k h.symm

end Cursor

namespace Parser

variable {κ α β : Type} {s s' : ParseState κ}

/-! ## Combinations -/

theorem bind_eq_ok {p : Parser κ α} {f : α → Parser κ β} {b : β} :
    (p >>= f) s = .ok b s' ↔ ∃ a s₁, p s = .ok a s₁ ∧ f a s₁ = .ok b s' := by
  simp only [bind, EStateM.bind]
  cases p s <;> simp [and_assoc]

/-- What follows a parser that succeeds runs from where it ends. -/
theorem bind_of_eq_ok {p : Parser κ α} {f : α → Parser κ β} {a : α} (h : p s = .ok a s') :
    (p >>= f) s = f a s' := by
  simp only [bind, EStateM.bind, h]

/-- Nothing is run behind a parser that fails. -/
theorem bind_of_eq_error {p : Parser κ α} {f : α → Parser κ β} {e : ParseError}
    (h : p s = .error e s') : (p >>= f) s = .error e s' := by
  simp only [bind, EStateM.bind, h]

/-- What follows a parser sees of it how it runs, and no more. -/
theorem bind_congr_left {p q : Parser κ α} {f : α → Parser κ β} (h : p s = q s) :
    (p >>= f) s = (q >>= f) s := by
  simp only [bind, EStateM.bind, h]

theorem pure_eq_ok {a b : α} : (pure a : Parser κ α) s = .ok b s' ↔ a = b ∧ s = s' := by
  simp [pure, EStateM.pure]

theorem ite_eq_ok {c : Prop} [Decidable c] {p q : Parser κ α} {a : α} :
    (if c then p else q) s = .ok a s' ↔ c ∧ p s = .ok a s' ∨ ¬c ∧ q s = .ok a s' := by
  by_cases hc : c <;> simp [hc]

theorem throw_eq_ok {e : ParseError} {a : α} :
    (throw e : Parser κ α) s = .ok a s' ↔ False := by
  constructor
  · rintro ⟨⟩
  · exact False.elim

theorem set_eq_ok {s₁ : ParseState κ} {u : PUnit} :
    (set s₁ : Parser κ PUnit) s = .ok u s' ↔ s₁ = s' := by
  constructor
  · rintro ⟨⟩
    rfl
  · rintro rfl
    rfl

theorem modify_eq_ok {f : ParseState κ → ParseState κ} {u : Unit} :
    (modify f : Parser κ Unit) s = .ok u s' ↔ f s = s' := by
  constructor
  · rintro ⟨⟩
    rfl
  · rintro rfl
    rfl

/-! ## Looking -/

theorem get_bind (f : ParseState κ → Parser κ α) : (get >>= f) s = f s s := rfl

theorem cursor_bind (f : Cursor → Parser κ α) : (cursor >>= f) s = f s.cursor s := rfl

theorem current_bind (f : Token → Parser κ α) : (current >>= f) s = f s.cursor.current s := rfl

theorem dialect_bind (f : Dialect → Parser κ α) : (dialect >>= f) s = f s.cursor.dialect s := rfl

theorem routing_bind (f : Routing → Parser κ α) : (routing >>= f) s = f s.body.toRouting s := rfl

/-! ## Moves of the cursor -/

theorem advance_eq_ok {u : Unit} :
    advance s = .ok u s' ↔ ∃ c, s.cursor.next = .ok c ∧ { s with cursor := c } = s' := by
  rw [advance, get_bind]
  cases s.cursor.next with
  | ok c => simp [set_eq_ok]
  | error e => simp [throw_eq_ok]

theorem unexpected_eq_ok {a : α} : unexpected s = .ok a s' ↔ False := by
  simp only [unexpected, cursor_bind, throw_eq_ok]

theorem unexpected_bind_eq_ok {f : α → Parser κ β} {b : β} :
    (unexpected >>= f) s = .ok b s' ↔ False := by
  simp [bind_eq_ok, unexpected_eq_ok]

theorem refuseEnd_eq_ok {u : Unit} :
    refuseEnd s = .ok u s' ↔ s.cursor.isEnd = false ∧ s = s' := by
  simp [refuseEnd, cursor_bind, ite_eq_ok, unexpected_eq_ok, pure_eq_ok]

theorem refuse_eq_ok {keywords : List Keyword} {u : Unit} :
    refuse keywords s = .ok u s' ↔ s.cursor.isKeyword keywords = false ∧ s = s' := by
  simp [refuse, cursor_bind, ite_eq_ok, throw_eq_ok, pure_eq_ok]

theorem skipIf_eq_ok {kinds : List TokenKind} {found : Bool} :
    skipIf kinds s = .ok found s' ↔
      s.cursor.isAny kinds = found ∧ if found then advance s = .ok () s' else s = s' := by
  simp only [skipIf, cursor_bind, ite_eq_ok, bind_eq_ok, pure_eq_ok]
  cases found
  · simp
  · simpa using fun _ => ⟨fun ⟨_, h⟩ => h, fun h => ⟨(), h⟩⟩

theorem skipIf_of_isAny {kinds : List TokenKind} (h : s.cursor.isAny kinds = true) :
    skipIf kinds s = (advance >>= fun _ => pure true) s := by
  rw [skipIf, cursor_bind, if_pos h]

theorem skipKeyword_eq_ok {keywords : List Keyword} {found : Bool} :
    skipKeyword keywords s = .ok found s' ↔
      s.cursor.isKeyword keywords = found ∧ if found then advance s = .ok () s' else s = s' := by
  simp only [skipKeyword, cursor_bind, ite_eq_ok, bind_eq_ok, pure_eq_ok]
  cases found
  · simp
  · simpa using fun _ => ⟨fun ⟨_, h⟩ => h, fun h => ⟨(), h⟩⟩

/-- A part that starts with a keyword is missing, or it is read behind its keyword. -/
theorem skipKeyword_then_eq_ok {keywords : List Keyword} {p : Parser κ Unit} {u : Unit} :
    (skipKeyword keywords >>= fun found => if found then p else pure ()) s = .ok u s' ↔
      s.cursor.isKeyword keywords = false ∧ s = s' ∨
        s.cursor.isKeyword keywords = true ∧ ∃ s₁, advance s = .ok () s₁ ∧ p s₁ = .ok () s' := by
  simp only [bind_eq_ok, skipKeyword_eq_ok]
  cases s.cursor.isKeyword keywords with
  | false => simp [pure_eq_ok]
  | true => simp

/-- Keywords are skipped as tokens of their kinds. -/
theorem skipKeyword_eq_skipIf (keywords : List Keyword) :
    skipKeyword (κ := κ) keywords = skipIf (keywords.map .keyword) := by
  simp only [skipKeyword, skipIf, Cursor.isAny_keywords]

theorem accept_eq_ok {kind : TokenKind} {u : Unit} :
    accept kind s = .ok u s' ↔ s.cursor.current.kind = kind ∧ advance s = .ok () s' := by
  simp [accept, current_bind, ite_eq_ok, throw_eq_ok]

theorem slice_eq_ok {start stop : Nat} {text : String} :
    slice start stop s = .ok text s' ↔
      (Text.slice? s.cursor.text start stop).map String.ofList = some text ∧ s = s' := by
  simp only [slice, cursor_bind]
  cases Text.slice? s.cursor.text start stop <;> simp [pure_eq_ok, throw_eq_ok]

/-- Cutting out a piece of the text does not change the state. -/
theorem eq_of_textSince {start : Nat} {text : String} (h : textSince start s = .ok text s') :
    s = s' := by
  simp only [textSince, current_bind, bind_eq_ok, slice_eq_ok, pure_eq_ok] at h
  obtain ⟨_, _, ⟨_, rfl⟩, _, rfl⟩ := h
  rfl

/-! ## Records -/

theorem modifyRouting_eq_ok {f : Routing → Routing} {u : Unit} :
    modifyRouting f s = .ok u s' ↔
      { s with body := { s.body with toRouting := f s.body.toRouting } } = s' := by
  rw [modifyRouting, modify_eq_ok]

theorem modifyClauses_eq_ok {f : κ → κ} {u : Unit} :
    modifyClauses f s = .ok u s' ↔
      { s with body := { s.body with clauses := f s.body.clauses } } = s' := by
  rw [modifyClauses, modify_eq_ok]

theorem trace_eq_ok {e : TraceEvent} {u : Unit} :
    trace e s = .ok u s' ↔ { s with events := s.events ++ [e] } = s' := by
  rw [trace, modify_eq_ok]

theorem addMark_eq_ok {m : Mark} {u : Unit} :
    addMark m s = .ok u s' ↔
      { s with body := { s.body with marks := m.insert s.body.marks } } = s' := by
  rw [addMark, modifyRouting_eq_ok]

theorem takePlaceholder_eq_ok {n : Nat} :
    takePlaceholder s = .ok n s' ↔ s.body.parameters = n ∧ s.counted = s' := by
  simp only [takePlaceholder, routing_bind, bind_eq_ok, modifyRouting_eq_ok, pure_eq_ok]
  constructor
  · rintro ⟨_, _, rfl, rfl, rfl⟩
    exact ⟨rfl, rfl⟩
  · rintro ⟨rfl, rfl⟩
    exact ⟨(), _, rfl, rfl, rfl⟩

theorem countPlaceholder_eq_ok {u : Unit} :
    countPlaceholder s = .ok u s' ↔
      (if s.cursor.isSymbol .question then s.counted else s) = s' := by
  simp only [countPlaceholder, cursor_bind, ite_eq_ok, bind_eq_ok, takePlaceholder_eq_ok,
    pure_eq_ok]
  cases s.cursor.isSymbol .question
  · simp
  · simp

theorem takeName_eq_ok {t : Token} :
    takeName s = .ok t s' ↔ s.cursor.current = t ∧ ∃ c, s.cursor.next = .ok c ∧
      (if t.kind = .symbol .question then
        { s with cursor := c, unnumbered := s.unnumbered ++ [t] }
      else { s with cursor := c }) = s' := by
  simp only [takeName, current_bind, cursor_bind, ite_eq_ok, bind_eq_ok, modify_eq_ok,
    advance_eq_ok, pure_eq_ok, Cursor.isSymbol, decide_eq_true_eq]
  constructor
  · rintro (⟨hq, _, _, rfl, _, _, ⟨c, hnext, rfl⟩, rfl, rfl⟩ |
      ⟨hq, _, _, ⟨c, hnext, rfl⟩, rfl, rfl⟩)
    · exact ⟨rfl, c, hnext, by rw [if_pos hq]⟩
    · exact ⟨rfl, c, hnext, by rw [if_neg hq]⟩
  · rintro ⟨rfl, c, hnext, h⟩
    split at h
    case isTrue hq => exact .inl ⟨hq, (), _, rfl, (), _, ⟨c, hnext, h⟩, rfl, rfl⟩
    case isFalse hq => exact .inr ⟨hq, (), _, ⟨c, hnext, h⟩, rfl, rfl⟩

/-! ## Skipping -/

/-- On its way to a closing parenthesis the cursor is there or passes a token, with
    one token less to look at. -/
theorem skipToClosing_eq_ok {n depth : Nat} {u : Unit} (h : skipToClosing n depth s = .ok u s') :
    s.cursor.current.kind = .symbol .rightParen ∧ depth = 0 ∧ s = s' ∨
      ¬(s.cursor.current.kind = .symbol .rightParen ∧ depth = 0) ∧ ∃ m s₁ s₂, n = m + 1 ∧
        countPlaceholder s = .ok () s₁ ∧ advance s₁ = .ok () s₂ ∧
        skipToClosing m (s.cursor.current.depthBehind depth) s₂ = .ok u s' := by
  cases n with
  | zero => exact (unexpected_eq_ok.1 h).elim
  | succ n =>
    simp only [skipToClosing, current_bind] at h
    generalize hkind : s.cursor.current.kind = kind at h
    split at h
    case h_1 => exact (unexpected_eq_ok.1 h).elim
    case h_2 => exact .inl ⟨rfl, rfl, (pure_eq_ok.1 h).2⟩
    case h_3 _ depth =>
      obtain ⟨_, s₁, hadvance, h⟩ := bind_eq_ok.1 h
      refine .inr ⟨by simp, n, s, s₁, rfl, ?_, hadvance, ?_⟩
      · simp [countPlaceholder_eq_ok, Cursor.isSymbol, hkind]
      · simpa [Token.depthBehind, hkind] using h
    case h_4 =>
      obtain ⟨_, s₁, hadvance, h⟩ := bind_eq_ok.1 h
      refine .inr ⟨by simp, n, s, s₁, rfl, ?_, hadvance, ?_⟩
      · simp [countPlaceholder_eq_ok, Cursor.isSymbol, hkind]
      · simpa [Token.depthBehind, hkind] using h
    -- Any token that is no parenthesis leaves the groups as they are.
    case h_5 hleft hright hright' =>
      simp only [bind_eq_ok] at h
      obtain ⟨_, s₁, hcount, _, s₂, hadvance, h⟩ := h
      refine .inr ⟨fun hk => hright hk.1 hk.2, n, s₁, s₂, rfl, hcount, hadvance, ?_⟩
      have hdepth : s.cursor.current.depthBehind depth = depth := by
        rw [Token.depthBehind]
        rw [hkind]
        split
        · exact absurd rfl hleft
        · cases depth with
          | zero => rfl
          | succ depth => exact (hright' depth rfl rfl).elim
        · rfl
      rwa [hdepth]

end Parser

end SqlRouting
