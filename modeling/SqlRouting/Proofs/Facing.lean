import SqlRouting.Proofs.AtEnd
import SqlRouting.Proofs.Placeholders

/-!
# Parsers along known tokens

If the tokens ahead are known, it is known what a parser does. `ParseState.facing` is a state that
has moved on: the cursor is on the first of the tokens that are left, and the placeholders among
those that it has passed are counted. The parsers that operands are read by have an equation each
for what they do there; a group in parentheses is passed whatever balanced tokens are in it
(`skipParentheses_facing`).
-/

namespace SqlRouting

/-! ## Facing tokens -/

/-- The kind of the first of the tokens, the end of the text if there is none. -/
def headKind (ts : List Token) : TokenKind :=
  (ts.head?.map Token.kind).getD .endOfText

@[simp] theorem headKind_cons (t : Token) (ts : List Token) : headKind (t :: ts) = t.kind := rfl

@[simp] theorem headKind_nil : headKind [] = .endOfText := rfl

/-- The cursor on the first of the tokens `ts`, at the end of the text if there is none. -/
def Cursor.facing (c : Cursor) : List Token → Cursor
  | [] => { c with current := Token.final (Text.byteLength c.text), ahead := [] }
  | t :: ts => { c with current := t, ahead := ts }

/-- The state on the first of the tokens `ts`, with `n` more placeholders counted. -/
def ParseState.facing {κ : Type} (s : ParseState κ) (n : Nat) (ts : List Token) : ParseState κ :=
  { s with
    cursor := s.cursor.facing ts
    body := { s.body with parameters := s.body.parameters + n } }

namespace ParseState

variable {κ : Type} {s : ParseState κ} {n : Nat} {t : Token} {ts : List Token}

theorem facing_self (h : s.cursor.tokens = ts) : s.facing 0 ts = s := by
  subst h
  rfl

@[simp] theorem current_facing : (s.facing n (t :: ts)).cursor.current = t := rfl

@[simp] theorem ahead_facing : (s.facing n (t :: ts)).cursor.ahead = ts := rfl

@[simp] theorem text_facing : (s.facing n ts).cursor.text = s.cursor.text := by
  cases ts <;> rfl

@[simp] theorem parameters_facing : (s.facing n ts).body.parameters = s.body.parameters + n := rfl

@[simp] theorem kind_facing : (s.facing n ts).cursor.current.kind = headKind ts := by
  cases ts <;> rfl

@[simp] theorem movesLeft_facing :
    (s.facing n (t :: ts)).cursor.movesLeft = ts.length + 1 := rfl

@[simp] theorem isSymbol_facing {x : Symbol} :
    (s.facing n ts).cursor.isSymbol x = decide (headKind ts = .symbol x) := by
  simp [Cursor.isSymbol]

@[simp] theorem isAny_facing {kinds : List TokenKind} :
    (s.facing n ts).cursor.isAny kinds = decide (headKind ts ∈ kinds) := by
  simp [Cursor.isAny]

@[simp] theorem isEnd_facing :
    (s.facing n ts).cursor.isEnd = decide (headKind ts = .endOfText) := by
  simp [Cursor.isEnd]

@[simp] theorem isOperator_facing :
    (s.facing n ts).cursor.isOperator =
      decide (headKind ts ∈ Symbol.operators.map TokenKind.symbol) := by
  simp [Cursor.isOperator, Symbol.operators, Bool.decide_or]

theorem tokens_facing (h : ts ≠ []) : (s.facing n ts).cursor.tokens = ts := by
  obtain ⟨t, ts, rfl⟩ := List.exists_cons_of_ne_nil h
  rfl

theorem counted_facing : (s.facing n ts).counted = s.facing (n + 1) ts := rfl

end ParseState

/-- On tokens ahead a closed cursor stays closed. -/
theorem Cursor.Closed.facing {κ : Type} {s : ParseState κ} {n : Nat} {ts : List Token}
    (hs : s.cursor.Closed) (h : ts ≠ []) (hsuffix : ts <:+ s.cursor.tokens) :
    (s.facing n ts).cursor.Closed := by
  intro t more hmore
  rw [ParseState.tokens_facing h] at hmore
  obtain ⟨u, us, rfl⟩ := List.exists_cons_of_ne_nil h
  exact hs t more (hmore.trans hsuffix)

@[simp] theorem questions_nil : questions [] = 0 := rfl

@[simp] theorem questions_cons (t : Token) (ts : List Token) :
    questions (t :: ts) = (if t.kind = .symbol .question then 1 else 0) + questions ts := by
  simp only [questions, List.countP_cons, decide_eq_true_eq]
  omega

@[simp] theorem questions_append (ts us : List Token) :
    questions (ts ++ us) = questions ts + questions us :=
  List.countP_append ..

/-! ## Passing tokens -/

namespace Parser

variable {κ α : Type} {s : ParseState κ} {n : Nat} {t : Token} {ts us : List Token}

theorem advance_facing (h : ts ≠ []) : advance (s.facing n (t :: ts)) = .ok () (s.facing n ts) := by
  cases ts with
  | nil => exact absurd rfl h
  | cons u us => rfl

/-- Behind the last token before an error nothing can be read. -/
theorem advance_facing_last {e : LexicalError} (h : s.cursor.failure = some e) :
    advance (s.facing n [t]) = .error (.lexical e) (s.facing n [t]) := by
  have hnext : (s.facing n [t]).cursor.next = .error e := by
    simp [Cursor.next, ParseState.facing, Cursor.facing, h]
  rw [advance, get_bind, hnext]
  rfl

theorem skipIf_facing {kinds : List TokenKind} (h : ts ≠ []) (ht : t.kind ∈ kinds) :
    skipIf kinds (s.facing n (t :: ts)) = .ok true (s.facing n ts) := by
  rw [skipIf_eq_ok]
  exact ⟨by simp [ht], advance_facing h⟩

theorem skipIf_facing_none {kinds : List TokenKind} (h : headKind ts ∉ kinds) :
    skipIf kinds (s.facing n ts) = .ok false (s.facing n ts) := by
  rw [skipIf_eq_ok]
  exact ⟨by simpa using h, rfl⟩

theorem skipSymbol_facing {x : Symbol} (h : ts ≠ []) (ht : t.kind = .symbol x) :
    skipSymbol x (s.facing n (t :: ts)) = .ok true (s.facing n ts) :=
  skipIf_facing h (by simp [ht])

theorem skipSymbol_facing_none {x : Symbol} (h : headKind ts ≠ .symbol x) :
    skipSymbol x (s.facing n ts) = .ok false (s.facing n ts) :=
  skipIf_facing_none (by simpa using h)

theorem refuseEnd_facing (h : headKind ts ≠ .endOfText) :
    refuseEnd (s.facing n ts) = .ok () (s.facing n ts) := by
  rw [refuseEnd_eq_ok]
  exact ⟨by simpa using h, rfl⟩

theorem countPlaceholder_facing :
    countPlaceholder (s.facing n (t :: ts)) =
      .ok () (s.facing (n + if t.kind = .symbol .question then 1 else 0) (t :: ts)) := by
  rw [countPlaceholder_eq_ok]
  by_cases h : t.kind = .symbol .question
  · simp [h, ParseState.counted_facing]
  · simp [h]

theorem takeName_facing (h : ts ≠ []) (ht : t.kind ≠ .symbol .question) :
    takeName (s.facing n (t :: ts)) = .ok t (s.facing n ts) := by
  rw [takeName_eq_ok]
  obtain ⟨u, us, rfl⟩ := List.exists_cons_of_ne_nil h
  exact ⟨rfl, _, rfl, if_neg ht⟩

/-- A loop passes the tokens that its step takes. -/
theorem loop_skipIf_facing {kinds : List TokenKind} (hne : us ≠ []) (hts : ∀ t ∈ ts, t.kind ∈ kinds)
    (hus : headKind us ∉ kinds) :
    loop (skipIf kinds) (s.facing n (ts ++ us)) = .ok () (s.facing n us) := by
  have hiterate : ∀ m, ts.length < m →
      iterate (skipIf kinds) m (s.facing n (ts ++ us)) = .ok () (s.facing n us) := by
    induction ts with
    | nil =>
      intro m hm
      obtain ⟨m, rfl⟩ := Nat.exists_eq_add_one.2 hm
      rw [List.nil_append, iterate, bind_of_eq_ok (skipIf_facing_none hus)]
      rfl
    | cons t ts ih =>
      intro m hm
      obtain ⟨m, rfl⟩ := Nat.exists_eq_add_one.2 (Nat.zero_lt_of_lt hm)
      rw [List.cons_append, iterate,
        bind_of_eq_ok (skipIf_facing (by simp [hne]) (hts t (by simp)))]
      exact ih (fun u hu => hts u (by simp [hu])) m (by simpa using hm)
  rw [loop, cursor_bind]
  refine hiterate _ ?_
  obtain ⟨u, us, rfl⟩ := List.exists_cons_of_ne_nil hne
  cases ts <;> simp

/-! ## Groups -/

end Parser

/-- Every parenthesis among the tokens has its partner, and none of them is the end of the text. -/
inductive BalancedTokens : List Token → Prop
  | nil : BalancedTokens []
  | cons {t : Token} {ts : List Token}
      (ht : t.kind ∉ [TokenKind.symbol .leftParen, .symbol .rightParen, .endOfText])
      (h : BalancedTokens ts) : BalancedTokens (t :: ts)
  | group {l r : Token} {us ts : List Token} (hl : l.kind = .symbol .leftParen)
      (hr : r.kind = .symbol .rightParen) (hu : BalancedTokens us) (h : BalancedTokens ts) :
      BalancedTokens (l :: (us ++ r :: ts))

namespace Parser

variable {κ α : Type} {s : ParseState κ} {n m depth : Nat} {t l r : Token} {ts us : List Token}

theorem skipToClosing_facing_cons (hne : us ≠ [])
    (ht : t.kind ∉ [TokenKind.symbol .leftParen, .symbol .rightParen, .endOfText]) :
    skipToClosing (m + 1) depth (s.facing n (t :: us)) =
      skipToClosing m depth
        (s.facing (n + if t.kind = .symbol .question then 1 else 0) us) := by
  simp only [List.mem_cons, List.not_mem_nil, or_false, not_or] at ht
  have hcount : countPlaceholder (s.facing n (t :: us)) = _ := countPlaceholder_facing
  simp only [skipToClosing, current_bind, ParseState.kind_facing, headKind_cons]
  generalize t.kind = kind at ht hcount
  split
  case h_1 => exact absurd rfl ht.2.2
  case h_2 => exact absurd rfl ht.2.1
  case h_3 => exact absurd rfl ht.2.1
  case h_4 => exact absurd rfl ht.1
  case h_5 => rw [bind_of_eq_ok hcount, bind_of_eq_ok (advance_facing hne)]

theorem skipToClosing_facing_left (hne : us ≠ []) (hl : l.kind = .symbol .leftParen) :
    skipToClosing (m + 1) depth (s.facing n (l :: us)) =
      skipToClosing m (depth + 1) (s.facing n us) := by
  simp only [skipToClosing, current_bind, ParseState.kind_facing, headKind_cons, hl]
  rw [bind_of_eq_ok (advance_facing hne)]

theorem skipToClosing_facing_right (hne : us ≠ []) (hr : r.kind = .symbol .rightParen) :
    skipToClosing (m + 1) (depth + 1) (s.facing n (r :: us)) =
      skipToClosing m depth (s.facing n us) := by
  simp only [skipToClosing, current_bind, ParseState.kind_facing, headKind_cons, hr]
  rw [bind_of_eq_ok (advance_facing hne)]

/-- Behind balanced tokens as many groups are open as before. -/
theorem skipToClosing_facing (hne : us ≠ []) (h : BalancedTokens ts) :
    skipToClosing (m + ts.length) depth (s.facing n (ts ++ us)) =
      skipToClosing m depth (s.facing (n + questions ts) us) := by
  induction h generalizing us n m depth with
  | nil => rfl
  | @cons t ts ht _ ih =>
    rw [List.length_cons, ← Nat.add_assoc, List.cons_append,
      skipToClosing_facing_cons (by simp [hne]) ht, ih hne, questions_cons, Nat.add_assoc]
  | @group l r ts vs hl hr _ _ iht ihv =>
    have hlength : m + (l :: (ts ++ r :: vs)).length = m + vs.length + 1 + ts.length + 1 := by
      simp
      omega
    have happend : l :: (ts ++ r :: vs) ++ us = l :: (ts ++ r :: (vs ++ us)) := by simp
    rw [hlength, happend, skipToClosing_facing_left (by simp) hl, iht (by simp),
      skipToClosing_facing_right (by simp [hne]) hr, ihv hne]
    simp [hl, hr, Nat.add_assoc]

/-- Any stretch of the tokens ahead can be cut out of the text. -/
theorem exists_slice {text : List Char} (hs : s.cursor.Stands text)
    (hsuffix : l :: us <:+ s.cursor.tokens) (hr : r ∈ us) :
    ∃ part, Text.slice? text l.start r.stop = some part := by
  have hat (t : Token) (ht : t ∈ l :: us) := (hs.tokens_at t (hsuffix.subset ht)).boundaries
  have hlt := hs.start_lt hsuffix hr
  have hr' := hat r (List.mem_cons_of_mem _ hr)
  exact (hat l (List.mem_cons_self ..)).1.exists_slice? hr'.2.1 (by omega)

/-- A group in a text is skipped to where the parenthesis is found that closes it, and its text is
    that from one parenthesis to the other. -/
theorem skipParentheses_of_skipToClosing {text : List Char} (hs : s.cursor.Stands text)
    (hsuffix : l :: (ts ++ r :: us) <:+ s.cursor.tokens) (hne : us ≠ [])
    (hl : l.kind = .symbol .leftParen)
    (hskip : skipToClosing ((ts ++ r :: us).length + 1) 0 (s.facing n (ts ++ r :: us)) =
      .ok () (s.facing m (r :: us))) :
    ∃ part, Text.slice? text l.start r.stop = some part ∧
      skipParentheses (s.facing n (l :: (ts ++ r :: us))) =
        .ok (String.ofList part) (s.facing m us) := by
  obtain ⟨part, hpart⟩ := exists_slice hs hsuffix (r := r) (by simp)
  have hopen : (s.facing n (l :: (ts ++ r :: us))).cursor.isSymbol .leftParen = true := by
    simp [hl]
  have hslice : slice l.start r.stop (s.facing m (r :: us)) =
      .ok (String.ofList part) (s.facing m (r :: us)) := by
    simp [slice_eq_ok, hs.text_eq, hpart]
  refine ⟨part, hpart, ?_⟩
  rw [skipParentheses, cursor_bind, if_pos hopen, bind_of_eq_ok (advance_facing (by simp)),
    ParseState.movesLeft_facing, bind_of_eq_ok hskip, current_bind, ParseState.current_facing,
    ParseState.current_facing, bind_of_eq_ok hslice, bind_of_eq_ok (advance_facing hne)]
  rfl

/-- The parenthesis that closes no other group is where the search for it ends. -/
theorem skipToClosing_facing_closed (hr : r.kind = .symbol .rightParen) :
    skipToClosing (m + 1) 0 (s.facing n (r :: us)) = .ok () (s.facing n (r :: us)) := by
  simp only [skipToClosing, current_bind, ParseState.kind_facing, headKind_cons, hr]
  rfl

/-- A group in a text is passed as a whole, and its placeholders are counted. -/
theorem skipParentheses_facing {text : List Char} (hs : s.cursor.Stands text)
    (hsuffix : l :: (ts ++ r :: us) <:+ s.cursor.tokens) (hne : us ≠ [])
    (hl : l.kind = .symbol .leftParen) (hr : r.kind = .symbol .rightParen)
    (h : BalancedTokens ts) :
    ∃ part, skipParentheses (s.facing n (l :: (ts ++ r :: us))) =
      .ok part (s.facing (n + questions ts) us) := by
  have hmoves : (ts ++ r :: us).length + 1 = us.length + 2 + ts.length := by
    simp
    omega
  have hskip : skipToClosing (us.length + 2 + ts.length) 0 (s.facing n (ts ++ r :: us)) =
      .ok () (s.facing (n + questions ts) (r :: us)) :=
    (skipToClosing_facing (by simp) h).trans (skipToClosing_facing_closed hr)
  rw [← hmoves] at hskip
  obtain ⟨part, _, hrun⟩ := skipParentheses_of_skipToClosing hs hsuffix hne hl hskip
  exact ⟨_, hrun⟩

theorem skipParentheses_facing_none (h : headKind ts ≠ .symbol .leftParen) :
    skipParentheses (s.facing n ts) = .ok "" (s.facing n ts) := by
  rw [skipParentheses, cursor_bind, ParseState.isSymbol_facing, if_neg (by simpa using h)]
  rfl

end Parser

end SqlRouting
