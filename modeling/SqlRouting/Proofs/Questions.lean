import SqlRouting.Proofs.Excerpts

/-!
# Placeholders in excerpts

How many placeholders an excerpt has does not depend on what is behind it. `ORDER` and `GROUP` may
be keywords or names there, but no placeholders; and where the blanks at the end of an excerpt are
cut off, no more than the end of a word is (`Lexeme.not_isBlank_of_question`), so that what is left
of the word is no placeholder either. So a text has as many placeholders wherever it is copied to,
if what is behind it has none (`TokenStream.CopiesQuestions`).
-/

namespace SqlRouting

open Text (byteLength isBlank)

namespace Lexeme

variable {d : Dialect} {dict : Dictionary} {pos : Nat} {c : Char} {cs rest : List Char} {l : Lexeme}

/-! ## Question marks in a lexeme -/

/-- A placeholder is written as a question mark. -/
theorem kind_ne_question (hread : read d dict pos c cs = .ok l) (h : '?' ∉ l.spelling)
    (pos' : Nat) : (l.toToken pos').kind ≠ .symbol .question := by
  intro hk
  simp [spelling_of_symbol hread hk, Symbol.text] at h

/-- No symbol becomes a word, and no word a symbol. -/
theorem reread_eq_symbol {kind : TokenKind} {word : String} {x : Symbol} :
    kind.reread dict word rest = .symbol x ↔ kind = .symbol x := by
  rw [TokenKind.reread, TokenKind.before]
  split_ifs with h h'
  · rcases h.1 with rfl | rfl <;> simp
  · rw [h'.1]
    split <;> simp
  · rfl

end Lexeme

namespace TokenStream

open Lexeme (CutShort)

variable {d : Dialect} {dict : Dictionary} {n pos : Nat} {part rest rest' gap cs text : List Char}
  {ts : List Token} {kinds : List TokenKind}

/-- The number of placeholders among tokens of these kinds. -/
theorem questions_eq_count (ts : List Token) :
    questions ts = (ts.map Token.kind).count (.symbol .question) := by
  rw [questions, List.count_eq_countP, List.countP_map]
  congr 1

/-- A text without a question mark has no placeholders. -/
theorem questions_eq_zero (h : '?' ∉ cs) : questions (read d dict n pos cs).tokens = 0 := by
  induction n generalizing pos cs with
  | zero => rfl
  | succ n ih =>
    rcases read_step d dict pos cs with ⟨e, he⟩ | ⟨_, hfinal⟩ |
      ⟨gap, rest, c, spelling, l, rfl, hl, _, hskip, hread⟩
    · rw [he]
      rfl
    · rw [hfinal]
      rfl
    · simp only [List.mem_append, not_or] at h
      rw [read_lexeme hskip hl hread, questions_cons, ih h.2.2,
        if_neg (Lexeme.kind_ne_question hread h.2.1 _)]

/-- What is skipped has no placeholders. -/
theorem questions_of_skip {pos' : Nat} {cs' : List Char}
    (hskip : Gap.skip d .blank pos cs = Gap.skip d .blank pos' cs') (h : '?' ∉ cs') :
    questions (read d dict n pos cs).tokens = 0 := by
  cases n with
  | zero => rfl
  | succ n =>
    rw [read, hskip, ← read]
    exact questions_eq_zero h

namespace Excerpt

theorem questions_eq_zero (h : Excerpt d dict rest pos part ts) (hpart : '?' ∉ part) :
    questions ts = 0 := by
  induction h with
  | nil => rfl
  | @cons pos gap part l ts _ hl _ ih =>
    simp only [List.mem_append, not_or] at hpart
    obtain ⟨_, _, _, hread⟩ := hl.exists_read
    rw [questions_cons, ih hpart.2.2, if_neg (Lexeme.kind_ne_question hread hpart.2.1 _)]

/-- A lexeme before an excerpt is a placeholder if it is one before another text. -/
theorem exists_cons {l : Lexeme} {pos' : Nat}
    (h : Excerpt d dict rest (pos + byteLength gap + byteLength l.spelling) part ts)
    (hgap : Gap.Fills d l.spelling gap) (hl : l.ReadBefore d dict cs)
    (hcut : CutShort cs (part ++ rest)) : ∃ us,
      Excerpt d dict rest pos (gap ++ (l.spelling ++ part)) us ∧
      questions us = questions (l.toToken pos' :: ts) := by
  let kind := l.kind.reread dict (String.ofList l.spelling) (part ++ rest)
  exact ⟨_, .cons (l := ⟨kind, l.spelling⟩) hgap (hl.cut hcut) h,
    by simp only [questions_cons, Lexeme.toToken, kind, Lexeme.reread_eq_symbol]⟩

end Excerpt

/-! ## Placeholders in copies -/

/-- The text has `n` placeholders wherever it is copied to: it is an excerpt with as many, and with
    something behind it that has none. -/
def CopiesQuestions (d : Dialect) (dict : Dictionary) (text : List Char) (n : Nat) : Prop :=
  ∃ part more, text = part ++ more ∧
    (∀ cs, '\n' ∉ cs → '?' ∉ cs → ∀ m pos,
      questions (read d dict m pos (more ++ ' ' :: cs)).tokens = 0) ∧
    ∀ tail, Closes tail → ∀ pos,
      ∃ ts, Excerpt d dict (more ++ tail) pos part ts ∧ questions ts = n

/-- A gap has no placeholders, whatever it is copied before. -/
theorem questions_gap (hgap : Gap.Fills d [] gap) (hbreak : '\n' ∉ cs) (hquestion : '?' ∉ cs) :
    questions (read d dict n pos (gap ++ ' ' :: cs)).tokens = 0 := by
  rcases hgap.skip_space pos hbreak with ⟨m, hskip⟩ | ⟨m, hskip⟩
  · have hend : Gap.skip d .blank pos (gap ++ ' ' :: cs) = Gap.skip d .blank m [] := hskip
    exact questions_of_skip hend (by simp)
  · exact questions_of_skip hskip hquestion

/-- A copy of tokens has the placeholders among them. -/
theorem Copies.questions (h : Copies d dict text kinds) :
    CopiesQuestions d dict text (kinds.count (.symbol .question)) := by
  obtain ⟨part, gap, rfl, hgap, hcopy⟩ := h
  refine ⟨part, gap, rfl, fun cs hbreak hquestion m pos => questions_gap hgap hbreak hquestion,
    fun tail htail pos => ?_⟩
  obtain ⟨ts, hts, rfl⟩ := hcopy tail htail pos
  exact ⟨ts, hts, questions_eq_count ts⟩

/-- A copy with something behind it has as many placeholders, if there is none in what is behind
    it. -/
theorem CopiesQuestions.questions_append (h : CopiesQuestions d (Dictionary.ofDialect d) text n)
    (htail : Closes (' ' :: cs)) (hbreak : '\n' ∉ cs) (hquestion : '?' ∉ cs) :
    questions (ofText d (text ++ ' ' :: cs)).tokens = n := by
  obtain ⟨part, more, rfl, hnone, hcopy⟩ := h
  obtain ⟨ts, hts, rfl⟩ := hcopy _ htail 0
  have hlength := hts.length_le
  obtain ⟨m, hm⟩ : ∃ m, (part ++ more ++ ' ' :: cs).length + 1 = ts.length + m :=
    ⟨(part ++ more ++ ' ' :: cs).length + 1 - ts.length, by
      simp only [List.length_append]; omega⟩
  rw [ofText, hm, List.append_assoc, hts.read, SqlRouting.questions_append,
    hnone cs hbreak hquestion, Nat.add_zero]

end TokenStream

end SqlRouting
