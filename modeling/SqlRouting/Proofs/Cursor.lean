import SqlRouting.Proofs.TokenStream

/-!
# Where cursors move

A cursor moves along the tokens of its text, one at a time, until it stays at the end
(`Cursor.next_eq_ok`). The tokens from it on always are a suffix of those of the text.
-/

namespace SqlRouting

namespace Cursor

theorem isKeyword_singleton {c : Cursor} {k : Keyword} :
    c.isKeyword [k] = true ↔ c.current.kind = .keyword k := by
  rw [isKeyword]
  split
  case h_1 k' hk => simp [hk]
  case h_2 hk => simpa using hk k

theorem isKeyword_cons_eq_false {c : Cursor} {k : Keyword} {keywords : List Keyword} :
    c.isKeyword (k :: keywords) = false ↔
      c.isKeyword [k] = false ∧ c.isKeyword keywords = false := by
  simp only [isKeyword]
  split
  · simp
  · simp

theorem exists_of_isKeyword {c : Cursor} {keywords : List Keyword}
    (h : c.isKeyword keywords = true) : ∃ k, c.current.kind = .keyword k := by
  rw [isKeyword] at h
  split at h
  case h_1 k hk => exact ⟨k, hk⟩
  case h_2 => cases h

theorem kind_mem_of_isKeyword {c : Cursor} {keywords : List Keyword}
    (h : c.isKeyword keywords = true) : c.current.kind ∈ keywords.map TokenKind.keyword := by
  rw [isKeyword] at h
  split at h
  case h_1 k hk => simpa [hk] using h
  case h_2 => cases h

/-- The tokens from the cursor on end with the end of the text, or else with an
    error. -/
def Closed (c : Cursor) : Prop :=
  ∀ t more, t :: more <:+ c.tokens → (t.kind = .endOfText ↔ more = [] ∧ c.failure = none)

/-- Where the last token is not the end of the text, the text breaks off. -/
theorem Closed.exists_failure {c : Cursor} (hc : c.Closed) {last : Token}
    (hlast : c.tokens.getLast? = some last) (hkind : last.kind ≠ .endOfText) :
    ∃ e, c.failure = some e := by
  obtain ⟨before, hbefore⟩ := List.getLast?_eq_some_iff.1 hlast
  have hend := hc last [] (hbefore ▸ List.suffix_append ..)
  rw [← Option.ne_none_iff_exists']
  exact fun hnone => hkind (hend.2 ⟨rfl, hnone⟩)

/-- The cursor moves to the next token, or stays at the end of the text. -/
theorem next_eq_ok {c c' : Cursor} (hc : c.Closed) (h : c.next = .ok c') :
    (c.current.kind = .endOfText ∧ c' = c) ∨
      (c.current.kind ≠ .endOfText ∧ c.tokens = c.current :: c'.tokens ∧
        c' = { c with current := c'.current, ahead := c'.ahead }) := by
  have hend := hc c.current c.ahead List.suffix_rfl
  rw [next] at h
  split at h
  case h_1 current ahead hahead =>
    cases h
    exact .inr ⟨by simp [hend, hahead], by simp [tokens, hahead], rfl⟩
  case h_2 => cases h
  case h_3 hahead hfailure =>
    cases h
    exact .inl ⟨hend.2 ⟨hahead, hfailure⟩, rfl⟩

/-- Before the end of the text the cursor moves to the token behind. -/
theorem tokens_of_next {c c' : Cursor} (hc : c.Closed) (h : c.next = .ok c')
    (hend : c.current.kind ≠ .endOfText) : c.tokens = c.current :: c'.tokens := by
  rcases next_eq_ok hc h with ⟨hk, _⟩ | ⟨_, htokens, _⟩
  · exact absurd hk hend
  · exact htokens

/-- The next token is one of those ahead, or the same one again. -/
theorem tokens_suffix_of_next {c c' : Cursor} (hc : c.Closed) (h : c.next = .ok c') :
    c'.tokens <:+ c.tokens := by
  rcases next_eq_ok hc h with ⟨_, rfl⟩ | ⟨_, htokens, _⟩
  · exact List.suffix_rfl
  · rw [htokens]
    exact List.suffix_cons _ _

theorem failure_of_next {c c' : Cursor} (hc : c.Closed) (h : c.next = .ok c') :
    c'.failure = c.failure := by
  rcases next_eq_ok hc h with ⟨_, rfl⟩ | ⟨_, _, hc'⟩
  · rfl
  · rw [hc']

theorem dialect_of_next {c c' : Cursor} (hc : c.Closed) (h : c.next = .ok c') :
    c'.dialect = c.dialect := by
  rcases next_eq_ok hc h with ⟨_, rfl⟩ | ⟨_, _, hc'⟩
  · rfl
  · rw [hc']

theorem Closed.next {c c' : Cursor} (hc : c.Closed) (h : c.next = .ok c') : c'.Closed := by
  intro t more hmore
  rw [failure_of_next hc h]
  exact hc t more (hmore.trans (tokens_suffix_of_next hc h))

/-- There is no token behind a cursor where its stream breaks off. -/
theorem failure_of_next_error {c : Cursor} {e : LexicalError} (h : c.next = .error e) :
    c.failure = some e := by
  rw [next] at h
  split at h
  case h_1 => cases h
  case h_2 hfailure => exact Except.error.inj h ▸ hfailure
  case h_3 => cases h

/-- At the end of the text the cursor does not fail to move. -/
theorem Closed.kind_ne_of_next_error {c : Cursor} {e : LexicalError} (hc : c.Closed)
    (h : c.next = .error e) : c.current.kind ≠ .endOfText := by
  intro hend
  have hnone := ((hc _ _ List.suffix_rfl).1 hend).2
  rw [failure_of_next_error h] at hnone
  cases hnone

/-- The cursor of a text starts on the first token of its stream. -/
theorem ofText_eq_ok {database : Database} {d : Dialect} {text : String} {c : Cursor}
    (h : ofText database d text = .ok c) :
    c.tokens = (TokenStream.ofText d text.toList).tokens ∧ c.Closed ∧ c.dialect = d := by
  unfold ofText at h
  dsimp only at h
  split at h
  case h_1 current ahead htokens =>
    cases h
    refine ⟨htokens.symm, fun t more hmore => ?_, rfl⟩
    rw [tokens, ← htokens] at hmore
    exact TokenStream.ofText_closed hmore
  case h_2 => cases h
  case h_3 htokens hfailure => exact absurd htokens (TokenStream.ofText_ne_nil hfailure)

end Cursor

end SqlRouting
