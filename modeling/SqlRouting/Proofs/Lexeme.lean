import Mathlib.Tactic.SplitIfs
import SqlRouting.Lexeme

/-!
# What a lexeme says about the text

Every rule reads a nonempty part at the start of the text (`Lexeme.Opens`). Of two kinds of lexemes
more is known: a whole number is all the digits that the text starts with, and a string begins and
ends with a quote, a character of one byte. So the position of a token can be told from where it
stops (`start_toToken`).
-/

namespace SqlRouting.Lexeme

/-- The lexeme is read at the start of the text `cs`. -/
structure Opens (l : Lexeme) (cs : List Char) : Prop where
  spelled : l.spelling <+: cs
  ne_nil : l.spelling ≠ []
  isText : l.kind ≠ .endOfText
  digits : l.kind = LiteralClass.int → cs.takeWhile Char.isDigit = l.spelling
  quoted : l.kind = LiteralClass.chars →
    ∃ q body, (q = '\'' ∨ q = '"') ∧ l.spelling = q :: body ++ [q]

variable {d : Dialect} {dict : Dictionary} {start : Nat} {cs : List Char} {l : Lexeme}

/-- A lexeme that is neither a whole number nor a string has only to be spelled. -/
theorem Opens.of_spelled (hs : l.spelling <+: cs) (hne : l.spelling ≠ [])
    (hk : l.kind ≠ .endOfText ∧ l.kind ≠ LiteralClass.int ∧ l.kind ≠ LiteralClass.chars) :
    l.Opens cs :=
  ⟨hs, hne, hk.1, fun h => absurd h hk.2.1, fun h => absurd h hk.2.2⟩

/-! ## Quotations -/

/-- The text up to a quote ends with it. -/
theorem upToQuote?_eq_some {quote : Char} {escapes : Bool} {body : List Char}
    (h : upToQuote? quote escapes cs = some body) :
    body <+: cs ∧ ∃ inside, body = inside ++ [quote] := by
  fun_induction upToQuote? quote escapes cs generalizing body with
  | case1 => simp at h
  | case2 =>
    cases h
    exact ⟨List.prefix_rfl, [], rfl⟩
  | case3 => simp at h
  -- An escaped character and a doubled quote are passed in pairs, all others alone.
  | case4 c d cs _ ih =>
    obtain ⟨b, hb, rfl⟩ := Option.map_eq_some_iff.1 h
    obtain ⟨hpre, inside, rfl⟩ := ih hb
    exact ⟨by simpa using hpre, c :: d :: inside, rfl⟩
  | case5 cs _ ih =>
    obtain ⟨b, hb, rfl⟩ := Option.map_eq_some_iff.1 h
    obtain ⟨hpre, inside, rfl⟩ := ih hb
    exact ⟨by simpa using hpre, quote :: quote :: inside, rfl⟩
  | case6 d cs =>
    cases h
    exact ⟨by simp, [], rfl⟩
  | case7 c d cs _ _ ih =>
    obtain ⟨b, hb, rfl⟩ := Option.map_eq_some_iff.1 h
    obtain ⟨hpre, inside, rfl⟩ := ih hb
    exact ⟨by simpa using hpre, c :: inside, rfl⟩

/-- Whatever quotes takes a single byte, and it quotes strings or names. -/
theorem quoted?_eq_some {c : Char} {cls : LiteralClass} (h : quoted? d c = some cls) :
    c.utf8Size = 1 ∧ (cls = .chars ∨ cls = .identifier) := by
  rw [quoted?] at h
  split_ifs at h with h₁ h₂ h₃ h₄ <;> simp_all <;> decide

/-- Strings are quoted in single or double quotes. -/
theorem quoted?_eq_chars {c : Char} (h : quoted? d c = some .chars) : c = '\'' ∨ c = '"' := by
  rw [quoted?] at h
  split_ifs at h with h₁ h₂ h₃ h₄
  · exact .inl h₁
  · exact .inr h₂
  all_goals cases h

theorem quotation_opens (h : quotation d dict start cs = some (.ok l)) : l.Opens cs := by
  cases cs with
  | nil => cases h
  | cons c cs =>
    obtain ⟨cls, hq, h⟩ := Option.map_eq_some_iff.1 h
    obtain ⟨_, hcls⟩ := quoted?_eq_some hq
    split at h
    case h_2 => cases h
    case h_1 body hbody =>
      cases h
      obtain ⟨hpre, inside, rfl⟩ := upToQuote?_eq_some hbody
      refine ⟨by simpa using hpre, by simp, by simp, ?_, fun hk => ⟨c, inside, ?_, rfl⟩⟩
      · rcases hcls with rfl | rfl <;> simp
      · cases hk
        exact quoted?_eq_chars hq

/-! ## Numbers -/

theorem hexNumber_opens (h : hexNumber d dict start cs = some (.ok l)) : l.Opens cs := by
  unfold hexNumber at h
  split at h
  case h_2 => cases h
  case h_1 x cs =>
    split_ifs at h with hx
    dsimp only at h
    split_ifs at h with hd
    · cases h
    · cases h
      refine .of_spelled ?_ (by simp) (by simp)
      simpa using List.takeWhile_prefix _

theorem hexString_opens (h : hexString d dict start cs = some (.ok l)) : l.Opens cs := by
  unfold hexString at h
  split at h
  case h_2 => cases h
  case h_1 x cs =>
    split_ifs at h with hx
    dsimp only at h
    split at h
    case h_1 rest hrest =>
      cases h
      refine .of_spelled ⟨rest, ?_⟩ (by simp) (by simp)
      have hcs := List.takeWhile_append_dropWhile (p := isHexDigit) (l := cs)
      rw [hrest] at hcs
      simpa using hcs
    case h_2 => cases h
    case h_3 => cases h

/-- A fraction is read at the start of the text. -/
theorem fraction_prefix : fraction cs <+: cs := by
  unfold fraction
  split
  · simpa using List.takeWhile_prefix _
  · exact List.nil_prefix

/-- A sign is read at the start of the text. -/
theorem sign_prefix : sign cs <+: cs := by
  unfold sign
  split
  · split_ifs
    · simp
    · exact List.nil_prefix
  · exact List.nil_prefix

/-- What is read behind a part that has been read joins on to it. -/
theorem append_prefix {part more : List Char} (hpart : part <+: cs)
    (hmore : more <+: cs.drop part.length) : part ++ more <+: cs := by
  obtain ⟨rest, rfl⟩ := hpart
  simpa using hmore

/-- An exponent is read at the start of the text. -/
theorem exponent_prefix : exponent cs <+: cs := by
  unfold exponent
  split
  case h_2 => exact List.nil_prefix
  case h_1 e cs =>
    dsimp only
    split_ifs
    · simpa using append_prefix sign_prefix (List.takeWhile_prefix _)
    · exact List.nil_prefix

theorem number_opens (h : number d dict start cs = some (.ok l)) : l.Opens cs := by
  unfold number at h
  dsimp only at h
  generalize hrest : cs.dropWhile Char.isDigit = rest at h
  generalize hbehind : fraction rest ++ exponent (rest.drop (fraction rest).length) = behind at h
  have hcs : cs.takeWhile Char.isDigit ++ rest = cs := by
    rw [← hrest, List.takeWhile_append_dropWhile]
  have hpre : cs.takeWhile Char.isDigit ++ behind <+: cs := by
    conv => rhs; rw [← hcs]
    rw [← hbehind, List.prefix_append_right_inj]
    exact append_prefix fraction_prefix exponent_prefix
  rw [Option.ite_none_right_eq_some] at h
  obtain ⟨hopens, h⟩ := h
  -- A number opens with a digit, or with a point and a digit behind it.
  have hne : cs.takeWhile Char.isDigit ++ behind ≠ [] := by
    split at hopens
    case h_1 c tail =>
      have : rest = '.' :: c :: tail := by simpa using hrest.symm
      simp [← hbehind, this, fraction]
    case h_2 c tail _ => simp [hopens]
    case h_3 => cases hopens
  -- With nothing behind its digits the number is whole, and the digits are all there are.
  split_ifs at h with hint
  · cases h
    rw [List.isEmpty_iff] at hint
    subst hint
    exact ⟨hpre, hne, by simp, fun _ => by simp, by simp⟩
  · cases h
    exact .of_spelled hpre hne (by simp)

/-! ## Words, variables and symbols -/

theorem variableName_opens (h : variableName d dict start cs = some (.ok l)) : l.Opens cs := by
  unfold variableName at h
  split at h
  case h_2 => cases h
  case h_1 cs =>
    split_ifs at h
    dsimp only at h
    split at h
    · cases h
      refine .of_spelled ?_ (by simp) (by simp)
      simpa using List.takeWhile_prefix _
    · cases h
      refine .of_spelled ?_ (by simp) (by simp)
      simpa using List.takeWhile_prefix _

/-- A word is a keyword or a name. -/
theorem wordKind_cases (dict : Dictionary) (word rest : List Char) :
    (∃ k, wordKind dict word rest = .keyword k) ∨
      wordKind dict word rest = LiteralClass.identifier := by
  rw [wordKind]
  split
  · split_ifs
    · exact .inr rfl
    · exact .inl ⟨_, rfl⟩
  · exact .inr rfl

theorem word_opens (h : word d dict start cs = some (.ok l)) : l.Opens cs := by
  cases cs with
  | nil => cases h
  | cons c cs =>
    simp only [word] at h
    split_ifs at h
    cases h
    refine .of_spelled ?_ (by simp) ?_
    · simpa using List.takeWhile_prefix _
    · rcases wordKind_cases dict (c :: cs.takeWhile continuesWord) (cs.dropWhile continuesWord) with
        ⟨k, hk⟩ | hk <;> simp [hk]

/-- No symbol is written without a character. -/
theorem text_ne_nil (s : Symbol) : s.text.toList ≠ [] := by
  cases s <;> decide

theorem symbol_opens (h : symbol d dict start cs = some (.ok l)) : l.Opens cs := by
  obtain ⟨s, hs, h⟩ := Option.map_eq_some_iff.1 h
  cases h
  refine .of_spelled ?_ (text_ne_nil s) (by simp)
  simpa using List.find?_some hs

/-! ## All rules -/

/-- A lexeme is read by one of the rules. -/
theorem exists_rule {c : Char} (h : read d dict start c cs = .ok l) :
    ∃ rule ∈ rules, rule d dict start (c :: cs) = some (.ok l) := by
  rw [read, Option.getD_eq_iff] at h
  rcases h with h | ⟨_, h⟩
  · exact List.exists_of_findSome?_eq_some h
  · cases h

/-- Whichever rule applies, the lexeme is read at the start of the text. -/
theorem read_opens {c : Char} (h : read d dict start c cs = .ok l) : l.Opens (c :: cs) := by
  obtain ⟨rule, hrule, h⟩ := exists_rule h
  simp only [rules, List.mem_cons, List.not_mem_nil, or_false] at hrule
  rcases hrule with rfl | rfl | rfl | rfl | rfl | rfl | rfl
  · exact quotation_opens h
  · exact hexNumber_opens h
  · exact hexString_opens h
  · exact variableName_opens h
  · exact number_opens h
  · exact word_opens h
  · exact symbol_opens h

/-- Only the last two rules read anything but literals. -/
theorem kind_of_rule {rule : Rule}
    (hrule : rule ∈ [quotation, hexNumber, hexString, variableName, number])
    (h : rule d dict start cs = some (.ok l)) : ∃ cls, l.kind = .literal cls := by
  simp only [List.mem_cons, List.not_mem_nil, or_false] at hrule
  rcases hrule with rfl | rfl | rfl | rfl | rfl
  case inl =>
    cases cs with
    | nil => cases h
    | cons c cs =>
      obtain ⟨cls, _, h⟩ := Option.map_eq_some_iff.1 h
      split at h <;> cases h
      exact ⟨cls, rfl⟩
  case inr.inr.inr.inr =>
    simp only [number, Option.ite_none_right_eq_some] at h
    obtain ⟨_, h⟩ := h
    cases h
    dsimp only
    split <;> exact ⟨_, rfl⟩
  -- Each of the others reads literals of one class.
  all_goals
    simp only [hexNumber, hexString, variableName] at h
    repeat' split at h
    all_goals cases h
    all_goals exact ⟨_, rfl⟩

/-- Only the last rule reads symbols, and it reads them as they are written. -/
theorem spelling_of_symbol {c : Char} {x : Symbol} (h : read d dict start c cs = .ok l)
    (hk : l.kind = .symbol x) : l.spelling = x.text.toList := by
  obtain ⟨rule, hrule, h⟩ := exists_rule h
  have hrules : rules =
      [quotation, hexNumber, hexString, variableName, number] ++ [word, symbol] := rfl
  rw [hrules, List.mem_append] at hrule
  obtain hrule | hrule := hrule
  · obtain ⟨cls, hcls⟩ := kind_of_rule hrule h
    rw [hcls] at hk
    cases hk
  simp only [List.mem_cons, List.not_mem_nil, or_false] at hrule
  obtain rfl | rfl := hrule
  · simp only [word, Option.ite_none_right_eq_some, Option.some.injEq, Except.ok.injEq] at h
    obtain ⟨_, rfl⟩ := h
    obtain ⟨k, hword⟩ | hword := wordKind_cases dict (c :: cs.takeWhile continuesWord)
      (cs.dropWhile continuesWord)
    · cases hword.symm.trans hk
    · cases hword.symm.trans hk
  · obtain ⟨s, _, h⟩ := Option.map_eq_some_iff.1 h
    cases h
    cases hk
    rfl

/-- A lexeme takes up room in the text. -/
theorem Opens.byteLength_pos (h : l.Opens cs) : 0 < Text.byteLength l.spelling := by
  cases hs : l.spelling with
  | nil => exact absurd hs h.ne_nil
  | cons c cs =>
    have := c.utf8Size_pos
    rw [Text.byteLength_cons]
    omega

/-- A token that is no string keeps its whole spelling. -/
theorem literal_toList (hk : l.kind ≠ LiteralClass.chars) : l.literal.toList = l.spelling := by
  simp [literal, hk]

/-- A string is its literal between two quotes. -/
theorem Opens.spelling_of_chars (h : l.Opens cs) (hk : l.kind = LiteralClass.chars) :
    ∃ q, (q = '\'' ∨ q = '"') ∧ l.spelling = q :: l.literal.toList ++ [q] := by
  obtain ⟨q, body, hq, hs⟩ := h.quoted hk
  exact ⟨q, hq, by simp [literal, hk, hs]⟩

/-- The quotes of a string are no part of its literal, but they count for its length. -/
theorem Opens.byteLength_spelling (h : l.Opens cs) :
    Text.byteLength l.spelling = Text.byteLength l.literal.toList + l.kind.quotes := by
  by_cases hk : l.kind = LiteralClass.chars
  · obtain ⟨q, hq, hs⟩ := h.spelling_of_chars hk
    have hsize : q.utf8Size = 1 := by rcases hq with rfl | rfl <;> rfl
    rw [hs, hk]
    simp [hsize, TokenKind.quotes]
    omega
  · have hquotes : l.kind.quotes = 0 := by
      unfold TokenKind.quotes
      split
      · exact absurd ‹_› hk
      · rfl
    rw [literal_toList hk, hquotes, Nat.add_zero]

/-- The token starts where the lexeme has been read. -/
theorem Opens.start_toToken (h : l.Opens cs) : (l.toToken start).start = start := by
  simp [Token.start, toToken, h.byteLength_spelling]

end SqlRouting.Lexeme
