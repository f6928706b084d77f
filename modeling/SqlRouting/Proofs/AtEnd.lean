import SqlRouting.Proofs.Passing.Operand
import SqlRouting.Proofs.Safe

/-!
# At the end of the text

At the end of a text there is nothing to consume: the cursor stays, all that may be missing is
missing, and only what has to be there is refused. So whether a text is accepted that ends too early
depends on what the parser asks for once it is there. `Finishes` says what becomes of a run that
comes to the end of the text: it gets there, or it fails with a given error.
-/

namespace SqlRouting

open Text (byteLength)

open Relation (ReflTransGen)

open SqlRouting.Parser

/-- The error for a text that ends where something else is due. -/
def ParseError.atEnd (text : List Char) : ParseError :=
  .unexpectedToken .endOfText "" (byteLength text)

/-- The error for a text that ends where a token of this kind is due. -/
def ParseError.lacks (kind : TokenKind) : ParseError :=
  .unmatchedToken kind .endOfText ""

section

variable {κ α β : Type} {text : List Char} {s s₁ s' : ParseState κ}
  {failure failure' : Option ParseError}

/-- The cursor is at the end of the text. -/
structure ParseState.AtEnd (text : List Char) (s : ParseState κ) : Prop where
  stands : s.cursor.Stands text
  isEnd : s.cursor.isEnd = true

/-- From the state `s` the parser comes to the end of the text, or it fails, with this error. -/
def Finishes (text : List Char) (failure : Option ParseError) (s : ParseState κ)
    (p : Parser κ α) : Prop :=
  match p s with
  | .ok _ s' => failure = none ∧ s'.AtEnd text
  | .error e _ => failure = some e

/-! ## The cursor at the end -/

theorem Token.At.eq_final {t : Token} (h : t.At text) (hkind : t.kind = .endOfText) :
    t = Token.final (byteLength text) := by
  cases h with
  | lexeme _ hl => exact absurd hkind hl.isText
  | final => rfl

namespace ParseState.AtEnd

variable (h : s.AtEnd text)
include h

theorem kind : s.cursor.current.kind = .endOfText :=
  of_decide_eq_true h.isEnd

theorem current : s.cursor.current = Token.final (byteLength text) :=
  h.stands.current_at.eq_final h.kind

theorem unexpected : s.cursor.unexpected = .atEnd text := by
  rw [Cursor.unexpected, h.current, Token.start_final]
  rfl

theorem next : s.cursor.next = .ok s.cursor := by
  obtain ⟨hahead, hfailure⟩ :=
    (h.stands.closed s.cursor.current s.cursor.ahead List.suffix_rfl).1 h.kind
  simp only [Cursor.next, hahead, hfailure]

theorem isAny {kinds : List TokenKind} (hkinds : .endOfText ∉ kinds) :
    s.cursor.isAny kinds = false := by
  simpa [Cursor.isAny, h.kind] using hkinds

theorem isKeyword (keywords : List Keyword) : s.cursor.isKeyword keywords = false := by
  simp [Cursor.isKeyword, h.kind]

theorem isSymbol (x : Symbol) : s.cursor.isSymbol x = false := by
  simp [Cursor.isSymbol, h.kind]

theorem isOperator : s.cursor.isOperator = false := by
  simp [Cursor.isOperator, h.isSymbol]

omit h in
/-- What leaves the cursor where it is leaves it at the end. -/
theorem of_cursor (h : s.AtEnd text) (hcursor : s'.cursor = s.cursor) : s'.AtEnd text :=
  ⟨hcursor ▸ h.stands, hcursor ▸ h.isEnd⟩

end ParseState.AtEnd

/-- A parser that moves does not move back. -/
theorem Moves.length_le {E : Scope κ} {p : Parser κ α} (hp : Moves E p) (hs : s.cursor.Closed)
    {a : α} (h : p s = .ok a s') :
    s'.cursor.Closed ∧ s'.cursor.ahead.length ≤ s.cursor.ahead.length :=
  (hp h).length_le hs

/-- A safe parser stays in the text. -/
theorem Safe.stands {p : Parser κ α} (hp : Safe text p) (hs : s.cursor.Stands text) {a : α}
    (h : p s = .ok a s') : Follows text s s' := by
  have hsafe := hp s hs
  rwa [SafeAt, h] at hsafe

/-! ## Runs to the end -/

namespace Finishes

variable {p : Parser κ α} {f : α → Parser κ β}

theorem of_ok {a : α} (h : p s = .ok a s') (hend : s'.AtEnd text) : Finishes text none s p := by
  rw [Finishes, h]
  exact ⟨rfl, hend⟩

theorem of_error {e : ParseError} (h : p s = .error e s') : Finishes text (some e) s p := by
  rw [Finishes, h]

theorem pure (hend : s.AtEnd text) (a : α) : Finishes text none s (Pure.pure a) :=
  of_ok rfl hend

/-- What a parser is made of may come to the end before the others do. -/
theorem bind (hp : Finishes text failure s p)
    (hf : ∀ a s₁, p s = .ok a s₁ → s₁.AtEnd text → Finishes text failure' s₁ (f a)) :
    Finishes text (failure.or failure') s (p >>= f) := by
  unfold Finishes at hp
  cases hrun : p s with
  | ok a s₁ =>
    rw [hrun] at hp
    obtain ⟨rfl, hend⟩ := hp
    rw [Finishes, bind_of_eq_ok hrun]
    exact hf a s₁ hrun hend
  | error e s₁ =>
    rw [hrun] at hp
    obtain rfl := hp
    exact of_error (bind_of_eq_error hrun)

/-- Nothing goes wrong behind a parser that comes to the end. -/
theorem bind_none (hp : Finishes text failure s p)
    (hf : ∀ a s₁, p s = .ok a s₁ → s₁.AtEnd text → Finishes text none s₁ (f a)) :
    Finishes text failure s (p >>= f) := by
  simpa using hp.bind hf

/-- A failure ends the run. -/
theorem bind_some {e : ParseError} (hp : Finishes text (some e) s p) :
    Finishes text (some e) s (p >>= f) := by
  have hbind : Finishes text ((some e).or none) s (p >>= f) := hp.bind fun a s₁ hrun _ => by
    rw [Finishes, hrun] at hp
    cases hp.1
  exact hbind

/-- A run without a failure ends at the end. -/
theorem exists_ok (hp : Finishes text none s p) : ∃ a s', p s = .ok a s' ∧ s'.AtEnd text := by
  unfold Finishes at hp
  cases hrun : p s with
  | ok a s' =>
    rw [hrun] at hp
    exact ⟨a, s', rfl, hp.2⟩
  | error e s' =>
    rw [hrun] at hp
    cases hp

/-- The first part of a parser may succeed before the end. -/
theorem of_bind {a : α} (hp : p s = .ok a s₁) (hf : Finishes text failure s₁ (f a)) :
    Finishes text failure s (p >>= f) := by
  rwa [Finishes, bind_of_eq_ok hp]

/-- What is looked for is found. -/
theorem found {p : Parser κ Bool} {q q' : Parser κ α} (hp : p s = .ok true s₁)
    (hq : Finishes text failure s₁ q) :
    Finishes text failure s (p >>= fun found => if found then q else q') :=
  of_bind hp hq

/-- What is looked for is not found. -/
theorem missed {p : Parser κ Bool} {q q' : Parser κ α} (hp : p s = .ok false s)
    (hq : Finishes text failure s q') :
    Finishes text failure s (p >>= fun found => if found then q else q') :=
  of_bind hp hq

end Finishes

/-! ## Parsers at the end -/

namespace Parser

/-! Looking does not change what becomes of a run. -/

theorem cursor_bind_finishes {f : Cursor → Parser κ α} :
    Finishes text failure s (cursor >>= f) ↔ Finishes text failure s (f s.cursor) := .rfl

theorem current_bind_finishes {f : Token → Parser κ α} :
    Finishes text failure s (current >>= f) ↔ Finishes text failure s (f s.cursor.current) := .rfl

theorem dialect_bind_finishes {f : Dialect → Parser κ α} :
    Finishes text failure s (dialect >>= f) ↔ Finishes text failure s (f s.cursor.dialect) := .rfl

theorem routing_bind_finishes {f : Routing → Parser κ α} :
    Finishes text failure s (routing >>= f) ↔ Finishes text failure s (f s.body.toRouting) := .rfl

/-- A loop is over where its step finds nothing. -/
theorem iterate_over {step : Parser κ Bool} (hstep : step s = .ok false s) (n : Nat) :
    iterate step n s = .ok () s := by
  cases n with
  | zero => rfl
  | succ n =>
    rw [iterate, bind_of_eq_ok hstep]
    rfl

theorem loop_over {step : Parser κ Bool} (hstep : step s = .ok false s) :
    loop step s = .ok () s := by
  rw [loop, cursor_bind, iterate_over hstep]

theorem refuseEnd_of_ne (h : s.cursor.isEnd = false) : refuseEnd s = .ok () s :=
  refuseEnd_eq_ok.2 ⟨h, rfl⟩

theorem skipKeyword_of_ne {keywords : List Keyword} (h : s.cursor.isKeyword keywords = false) :
    skipKeyword keywords s = .ok false s :=
  skipKeyword_eq_ok.2 ⟨h, rfl⟩

theorem skipIf_of_ne {kinds : List TokenKind} (h : s.cursor.current.kind ∉ kinds) :
    skipIf kinds s = .ok false s :=
  skipIf_eq_ok.2 ⟨decide_eq_false h, rfl⟩

section

variable (h : s.AtEnd text)
include h

theorem advance_atEnd : advance s = .ok () s := by
  rw [advance, get_bind]
  simp only [h.next]
  rfl

theorem unexpected_atEnd : (unexpected : Parser κ α) s = .error (.atEnd text) s := by
  rw [unexpected, cursor_bind, h.unexpected]
  rfl

theorem refuseEnd_atEnd : refuseEnd s = .error (.atEnd text) s := by
  rw [refuseEnd, cursor_bind, if_pos h.isEnd, unexpected_atEnd h]

theorem skipIf_atEnd {kinds : List TokenKind} (hkinds : .endOfText ∉ kinds) :
    skipIf kinds s = .ok false s :=
  skipIf_eq_ok.2 ⟨h.isAny hkinds, rfl⟩

theorem skipSymbol_atEnd (x : Symbol) : skipSymbol x s = .ok false s :=
  skipIf_atEnd h (by simp)

theorem skipKeyword_atEnd (keywords : List Keyword) : skipKeyword keywords s = .ok false s :=
  skipKeyword_eq_ok.2 ⟨h.isKeyword keywords, rfl⟩

theorem accept_atEnd {kind : TokenKind} (hkind : kind ≠ .endOfText) :
    accept kind s = .error (.lacks kind) s := by
  rw [accept, current_bind, if_neg (by rw [h.kind]; exact hkind.symm), h.current]
  rfl

theorem refuse_atEnd (keywords : List Keyword) : refuse keywords s = .ok () s :=
  refuse_eq_ok.2 ⟨h.isKeyword keywords, rfl⟩

theorem takeName_atEnd : takeName s = .ok s.cursor.current s := by
  rw [takeName_eq_ok]
  exact ⟨rfl, s.cursor, h.next, by rw [if_neg (by simp [h.kind])]⟩

/-- Records leave the cursor at the end. -/
theorem modify_finishes {f : ParseState κ → ParseState κ} (hf : (f s).cursor = s.cursor) :
    Finishes text none s (modify f) :=
  .of_ok (a := ()) (modify_eq_ok.2 rfl) (h.of_cursor hf)

theorem modifyRouting_finishes (f : Routing → Routing) :
    Finishes text none s (modifyRouting f) :=
  modify_finishes h rfl

theorem modifyClauses_finishes (f : κ → κ) : Finishes text none s (modifyClauses f) :=
  modify_finishes h rfl

theorem skipAll_atEnd (keywords : List Keyword) : skipAll keywords s = .ok () s := by
  refine loop_over ?_
  rw [cursor_bind, h.isKeyword]
  rfl

theorem skipUntil_atEnd (kinds : List TokenKind) : skipUntil kinds s = .ok () s := by
  refine loop_over ?_
  rw [cursor_bind, h.isEnd]
  rfl

theorem skipRest_atEnd : skipRest s = .ok () s := by
  rw [skipRest, cursor_bind, h.isEnd]
  rfl

/-- Text can be cut out up to the end. -/
theorem textSince_atEnd {start : Nat} (hstart : Text.IsBoundary text start) :
    ∃ part, textSince start s = .ok part s := by
  have hstop : Text.IsBoundary text (max s.cursor.current.start start) := by
    rcases Nat.le_total s.cursor.current.start start with hle | hle
    · rwa [Nat.max_eq_right hle]
    · rw [Nat.max_eq_left hle]
      exact h.stands.current_at.boundaries.1
  obtain ⟨part, hpart⟩ := hstart.exists_slice? hstop (Nat.le_max_right ..)
  have hslice : slice start (max s.cursor.current.start start) s = .ok (String.ofList part) s :=
    slice_eq_ok.2 ⟨by rw [h.stands.text_eq, hpart]; rfl, rfl⟩
  exact ⟨_, by rw [textSince, current_bind, bind_of_eq_ok hslice]; rfl⟩

end

/-! ## Repetition -/

theorem Rounds.stands {step : Parser κ Bool} (h : Rounds step s s') (hstep : Safe text step)
    (hs : s.cursor.Stands text) : s'.cursor.Stands text := by
  induction h with
  | refl => exact hs
  | tail _ hround ih => exact (hstep.stands ih hround).stands

/-- A loop goes on for its rounds, as each of them consumes a token, and it is over at the end of
    the text. -/
theorem loop_finishes {step : Parser κ Bool}
    (hshrinks : ∀ {s s'}, s.cursor.Closed → step s = .ok true s' →
      s'.cursor.Closed ∧ s'.cursor.ahead.length < s.cursor.ahead.length)
    (hover : ∀ {s}, s.AtEnd text → step s = .ok false s) (hs : s.cursor.Closed)
    (h : Rounds step s s₁) (hstep : Finishes text failure s₁ step) :
    Finishes text failure s (loop step) := by
  rw [loop, cursor_bind_finishes]
  -- By induction on the rounds, the first one taken off: there is fuel for more than are ahead.
  have hn : s.cursor.ahead.length < s.cursor.movesLeft := Nat.lt_succ_self _
  generalize s.cursor.movesLeft = n at hn ⊢
  induction h using ReflTransGen.head_induction_on generalizing n with
  | refl =>
    obtain ⟨n, rfl⟩ := Nat.exists_eq_add_one.2 (Nat.zero_lt_of_lt hn)
    refine hstep.bind_none fun more s₂ _ hend => ?_
    cases more with
    | false => exact .pure hend ()
    -- The text has ended in this round, so whatever it says there is no other.
    | true => exact .of_ok (iterate_over (hover hend) n) hend
  | head hround _ ih =>
    obtain ⟨n, rfl⟩ := Nat.exists_eq_add_one.2 (Nat.zero_lt_of_lt hn)
    obtain ⟨hclosed, hlt⟩ := hshrinks hs hround
    exact .of_bind hround (ih hclosed n (by omega))

/-- A list goes on for its items, as every separator consumes a token, and it is over at the end of
    the text. -/
theorem separatedBy_finishes {item : Parser κ α} {separator : Parser κ Bool}
    {E : Scope κ} (hitem : Moves E item)
    (hshrinks : ∀ {s s'}, s.cursor.Closed → separator s = .ok true s' →
      s'.cursor.Closed ∧ s'.cursor.ahead.length < s.cursor.ahead.length)
    (hover : ∀ {s}, s.AtEnd text → separator s = .ok false s) (hs : s.cursor.Closed)
    (h : Items separator item s s₁) (hlast : Finishes text failure s₁ item) :
    Finishes text failure s (separatedBy separator item) := by
  rw [separatedBy, cursor_bind_finishes]
  have hn : s.cursor.ahead.length < s.cursor.movesLeft := Nat.lt_succ_self _
  generalize s.cursor.movesLeft = n at hn ⊢
  induction h using ReflTransGen.head_induction_on generalizing n with
  | refl =>
    obtain ⟨n, rfl⟩ := Nat.exists_eq_add_one.2 (Nat.zero_lt_of_lt hn)
    exact hlast.bind_none fun a s₂ _ hend => .of_bind (hover hend) (.pure hend [a])
  | @head s _ hround _ ih =>
    obtain ⟨n, rfl⟩ := Nat.exists_eq_add_one.2 (Nat.zero_lt_of_lt hn)
    obtain ⟨a, s₂, ha, hseparator⟩ := bind_eq_ok.1 hround
    obtain ⟨hclosed, hle⟩ := hitem.length_le hs ha
    obtain ⟨hclosed, hlt⟩ := hshrinks hclosed hseparator
    refine .of_bind ha (.of_bind hseparator ?_)
    exact (ih hclosed n (by omega)).bind_none fun as s₃ _ hend => .pure hend (a :: as)

theorem commaSeparated_finishes {item : Parser κ α} {E : Scope κ} (hitem : Moves E item)
    (hs : s.cursor.Closed) (h : Items (skipSymbol .comma) item s s₁)
    (hlast : Finishes text failure s₁ item) : Finishes text failure s (commaSeparated item) :=
  separatedBy_finishes hitem (skipIf_shrinks (by simp)) (fun hend => skipSymbol_atEnd hend _) hs h
    hlast

end Parser

end

end SqlRouting
