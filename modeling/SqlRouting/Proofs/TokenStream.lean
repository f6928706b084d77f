import SqlRouting.Cursor
import SqlRouting.Proofs.Lexeme

/-!
# Where tokens stand

The tokens of a stream stand in the text: each is a lexeme read at its own position (`Token.At`),
their positions increase along the stream (`TokenStream.read_sorted`), and the token at the end of
the text is the last one, which is missing only where no token can be read
(`TokenStream.read_closed`).
-/

namespace SqlRouting

open Text (byteLength)

/-- The token stands in the text: a lexeme is read where it starts, or it is the
    token at the end. -/
inductive Token.At (text : List Char) : Token → Prop
  | lexeme {before cs : List Char} {l : Lexeme} (htext : text = before ++ cs) (hl : l.Opens cs) :
    Token.At text (l.toToken (byteLength before))
  | final : Token.At text (Token.final (byteLength text))

namespace Token

variable {text : List Char} {t : Token}

@[simp] theorem start_final (n : Nat) : (final n).start = n := by
  simp [final, start, TokenKind.quotes]

/-- A token starts between two characters of the text. A name is spelled there as
    its literal says, and a whole number has all the digits there. -/
theorem At.spelled (h : t.At text) :
    ∃ before cs, text = before ++ cs ∧ byteLength before = t.start ∧
      (t.kind = LiteralClass.identifier → t.literal.toList <+: cs) ∧
      (t.kind = LiteralClass.int → cs.takeWhile Char.isDigit = t.literal.toList) := by
  cases h with
  | @lexeme before cs l htext hl =>
    refine ⟨before, cs, htext, hl.start_toToken.symm, fun hk => ?_, fun hk => ?_⟩
    · have hchars : l.kind ≠ LiteralClass.chars := by
        rw [show l.kind = LiteralClass.identifier from hk]
        decide
      exact Lexeme.literal_toList hchars ▸ hl.spelled
    · have hchars : l.kind ≠ LiteralClass.chars := by
        rw [show l.kind = LiteralClass.int from hk]
        decide
      exact Lexeme.literal_toList hchars ▸ hl.digits hk
  | final => exact ⟨text, [], by simp, by simp, nofun, nofun⟩

end Token

namespace Gap

variable {d : Dialect} {pos pos' : Nat} {cs cs' : List Char}

/-- A gap with an opening part is a gap. -/
theorem exists_append (opening : List Char)
    (h : ∃ gap, cs = gap ++ cs' ∧ pos' = pos + byteLength opening + byteLength gap) :
    ∃ gap, opening ++ cs = gap ++ cs' ∧ pos' = pos + byteLength gap := by
  obtain ⟨gap, rfl, rfl⟩ := h
  exact ⟨opening ++ gap, by simp, by simp [Nat.add_assoc]⟩

/-- A blank takes a single byte. -/
theorem utf8Size_of_isAsciiBlank {c : Char} (h : Text.isAsciiBlank c = true) : c.utf8Size = 1 := by
  simp only [Text.isAsciiBlank, Bool.or_eq_true, decide_eq_true_eq] at h
  rcases h with (((rfl | rfl) | rfl) | rfl) | rfl <;> decide

/-- What is skipped is a part of the text, and the text behind it stands as much
    further back as that part is long. -/
theorem skip_eq_ok {g : Gap} (h : skip d g pos cs = .ok (pos', cs')) :
    ∃ gap, cs = gap ++ cs' ∧ pos' = pos + byteLength gap := by
  fun_induction skip d g pos cs with
  | case1 => cases h
  | case2 _ _ _ ih => exact exists_append ['*', '/'] (ih h)
  | case3 _ _ c _ _ ih => exact exists_append [c] (ih h)
  | case4 => cases h; exact ⟨[], rfl, rfl⟩
  | case5 _ c _ ih => exact exists_append [c] (ih h)
  | case6 => cases h; exact ⟨[], rfl, rfl⟩
  | case7 _ _ ih => exact exists_append ['-', '-'] (ih h)
  | case8 _ _ ih => exact exists_append ['/', '*'] (ih h)
  | case9 _ c _ _ _ hc ih =>
    have := ih h
    rw [← utf8Size_of_isAsciiBlank hc] at this
    exact exists_append [c] this
  | case10 _ c _ _ _ _ hc ih =>
    obtain ⟨rfl, _⟩ : c = '#' ∧ d.hashComments = true := by simpa using hc
    exact exists_append ['#'] (ih h)
  | case11 => cases h; exact ⟨[], rfl, rfl⟩

end Gap

/-! ## Streams -/

namespace TokenStream

variable {d : Dialect} {dict : Dictionary} {n pos : Nat} {text cs before : List Char}

variable (d dict n) in
/-- The first token of a text and the text behind it, or the end or the error that
    comes instead: what one step of reading amounts to. -/
theorem read_cases (htext : text = before ++ cs) :
    (∃ e, read d dict (n + 1) (byteLength before) cs = ⟨[], some e⟩) ∨
    read d dict (n + 1) (byteLength before) cs = ⟨[Token.final (byteLength text)], none⟩ ∨
    ∃ gap rest : List Char, ∃ l : Lexeme, text = before ++ gap ++ l.spelling ++ rest ∧
      l.Opens (l.spelling ++ rest) ∧ (l.spelling ++ rest).length ≤ cs.length ∧
      read d dict (n + 1) (byteLength before) cs =
        let more := read d dict n (byteLength (before ++ gap ++ l.spelling)) rest
        ⟨l.toToken (byteLength (before ++ gap)) :: more.tokens, more.failure⟩ := by
  subst htext
  rw [read]
  split
  case h_1 e he => exact .inl ⟨e, rfl⟩
  case h_2 pos' hgap =>
    obtain ⟨gap, rfl, rfl⟩ := Gap.skip_eq_ok hgap
    exact .inr (.inl (by simp))
  case h_3 pos' c cs' hgap =>
    obtain ⟨gap, rfl, rfl⟩ := Gap.skip_eq_ok hgap
    split
    case h_1 e he => exact .inl ⟨e, rfl⟩
    case h_2 l hl =>
      have hopens := Lexeme.read_opens hl
      obtain ⟨rest, hrest⟩ := hopens.spelled
      refine .inr (.inr ⟨gap, rest, l, by simp [← hrest], hrest ▸ hopens, by simp [hrest], ?_⟩)
      simp [← hrest, Lexeme.toToken, Nat.add_assoc]

/-- The tokens that are read stand in the text, none before the position from
    which on it is read, and each starts behind the one before. -/
theorem read_sorted (htext : text = before ++ cs) :
    (∀ t ∈ (read d dict n (byteLength before) cs).tokens,
      t.At text ∧ byteLength before ≤ t.start) ∧
    (read d dict n (byteLength before) cs).tokens.Pairwise (·.start < ·.start) := by
  induction n generalizing before cs with
  | zero => simp [read]
  | succ n ih =>
    rcases read_cases d dict n htext with
      ⟨e, h⟩ | h | ⟨gap, rest, l, htext', hl, -, h⟩
    · simp [h]
    · rw [h]
      refine ⟨fun t ht => ?_, by simp⟩
      rw [List.mem_singleton] at ht
      subst ht
      exact ⟨.final, by simp [htext]⟩
    · obtain ⟨hmem, hpair⟩ := ih htext'
      have hpos := hl.byteLength_pos
      rw [h]
      dsimp only
      -- The tokens behind the first one stand behind its lexeme, which is not empty.
      refine ⟨fun t ht => ?_, List.pairwise_cons.2 ⟨fun t ht => ?_, hpair⟩⟩
      · rcases List.mem_cons.1 ht with rfl | ht
        · exact ⟨.lexeme (by simp [htext']) hl, by simp [hl.start_toToken]⟩
        · obtain ⟨hat, hle⟩ := hmem t ht
          simp only [Text.byteLength_append] at hle
          exact ⟨hat, by omega⟩
      · have hle := (hmem t ht).2
        simp only [Text.byteLength_append, hl.start_toToken] at hle ⊢
        omega

/-- A symbol is read as it is written. -/
theorem literal_of_symbol {t : Token} {x : Symbol} (ht : t ∈ (read d dict n pos cs).tokens)
    (hk : t.kind = .symbol x) : t.literal = x.text := by
  fun_induction read d dict n pos cs with
  | case1 | case2 | case4 => cases ht
  | case3 =>
    obtain rfl := List.mem_singleton.1 ht
    cases hk
  | case5 n pos cs pos' c cs' hgap l hl token rest ih =>
    rcases List.mem_cons.1 ht with rfl | ht
    · have hk : l.kind = .symbol x := hk
      have hchars : l.kind ≠ LiteralClass.chars := by simp [hk]
      exact String.toList_injective
        ((Lexeme.literal_toList hchars).trans (Lexeme.spelling_of_symbol hl hk))
    · exact ih ht

/-- With a token allowed for each character and one for the end, reading ends at
    the end of the text or at an error. -/
theorem read_ne_nil (hn : cs.length < n) (h : (read d dict n pos cs).failure = none) :
    (read d dict n pos cs).tokens ≠ [] := by
  cases n with
  | zero => omega
  | succ n =>
    rw [read] at h ⊢
    split
    · simp_all
    · simp
    · split <;> simp_all

/-- The token at the end of the text is the last one, and where it is missing there
    is an error. -/
theorem read_closed (htext : text = before ++ cs) (hn : cs.length < n) {t : Token}
    {more : List Token} (h : t :: more <:+ (read d dict n (byteLength before) cs).tokens) :
    t.kind = .endOfText ↔ more = [] ∧ (read d dict n (byteLength before) cs).failure = none := by
  induction n generalizing before cs with
  | zero => omega
  | succ n ih =>
    rcases read_cases d dict n htext with
      ⟨e, hr⟩ | hr | ⟨gap, rest, l, htext', hl, hlen, hr⟩
    · simp [hr] at h
    · rw [hr] at h ⊢
      rw [List.suffix_cons_iff] at h
      rcases h with h | h
      · cases h
        simp [Token.final]
      · simp at h
    -- A lexeme takes at least a character, so there are tokens enough for the rest.
    · have hn' : rest.length < n := by
        have := List.length_pos_iff.2 hl.ne_nil
        simp only [List.length_append] at hlen
        omega
      rw [hr] at h ⊢
      rcases List.suffix_cons_iff.1 h with h | h
      · cases h
        simp only [Lexeme.toToken, hl.isText, false_iff, not_and]
        exact fun hmore hfail => read_ne_nil hn' hfail hmore
      · exact ih htext' hn' h

/-- The tokens of a text stand in it, each behind the one before. -/
theorem ofText_sorted (d : Dialect) (text : List Char) :
    (∀ t ∈ (ofText d text).tokens, t.At text) ∧
      (ofText d text).tokens.Pairwise (·.start < ·.start) := by
  have h := @read_sorted d (Dictionary.ofDialect d) (text.length + 1) text text [] rfl
  exact ⟨fun t ht => (h.1 t ht).1, h.2⟩

/-- The tokens of a text end with its end, or with an error. -/
theorem ofText_closed {text : List Char} {t : Token} {more : List Token}
    (h : t :: more <:+ (ofText d text).tokens) :
    t.kind = .endOfText ↔ more = [] ∧ (ofText d text).failure = none :=
  @read_closed d (Dictionary.ofDialect d) (text.length + 1) text text [] rfl
    (Nat.lt_succ_self _) t more h

theorem ofText_ne_nil {text : List Char} (h : (ofText d text).failure = none) :
    (ofText d text).tokens ≠ [] :=
  read_ne_nil (Nat.lt_succ_self _) h

end TokenStream

end SqlRouting
