import Mathlib
import SqlRouting.Number
import SqlRouting.Proofs.TokenStream
import SqlRouting.Text.Unquoted

/-!
# Pieces of a written text

The other way round: not what a text is read as, but texts that are written to be read. A *piece* is
a keyword, a name, a whole number, a string or a symbol, spelled in one way. What is written behind
a piece may run into it, as a digit does behind a number; where it does not (`Piece.endsBefore`),
the piece is read back in the dialect of MySQL (`Piece.read_eq_ok`), and nothing of it is skipped as
a gap (`Piece.skip_eq_ok`).
-/

namespace SqlRouting

/-! ## Characters -/

namespace Text

/-- A character of a word in lower case. -/
def isPlain (c : Char) : Bool :=
  c.isLower || c.isDigit || c = '_' || c = '$'

/-- A character that no word, number or longer symbol goes on with. -/
def isBreak (c : Char) : Bool :=
  c = ' ' || c = ',' || c = '(' || c = ')'

/-- A character that no gap between tokens starts with. -/
def isSolid (c : Char) : Bool :=
  !isAsciiBlank c && c ≠ '#' && c ≠ '-' && c ≠ '/'

/-- The text is empty or starts with a break. -/
def breaks : List Char → Bool
  | [] => true
  | c :: _ => isBreak c

variable {c : Char}

theorem continuesWord_of_isPlain (h : isPlain c = true) : Lexeme.continuesWord c = true := by
  simp only [isPlain, Bool.or_eq_true] at h
  rcases h with ((h | h) | h) | h
  · simp [Lexeme.continuesWord, Char.isAlphanum, Char.isAlpha, h]
  · simp [Lexeme.continuesWord, Char.isAlphanum, h]
  · simp [Lexeme.continuesWord, h]
  · simp [Lexeme.continuesWord, h]

theorem not_isBlank_of_isPlain (h : isPlain c = true) : isBlank c = false := by
  simp only [isPlain, Bool.or_eq_true, Char.isLower, Char.isDigit, Bool.and_eq_true,
    decide_eq_true_eq, UInt32.le_iff_toNat_le, Char.toNat_val, Char.reduceToNat, ge_iff_le] at h
  have hc : c.toNat = 36 ∨ 48 ≤ c.toNat ∧ c.toNat ≤ 57 ∨ 95 ≤ c.toNat ∧ c.toNat ≤ 122 := by
    rcases h with ((h | h) | rfl) | rfl
    · omega
    · omega
    · decide
    · decide
  refine Bool.eq_false_iff.2 fun hblank => ?_
  simp only [isBlank, Bool.or_eq_true, Bool.and_eq_true, decide_eq_true_eq] at hblank
  omega

theorem not_isNameQuote_of_isPlain (h : isPlain c = true) : isNameQuote c = false := by
  refine Bool.eq_false_iff.2 fun hquote => ?_
  simp only [isNameQuote, Bool.or_eq_true, decide_eq_true_eq] at hquote
  rcases hquote with ((rfl | rfl) | rfl) | rfl <;> revert h <;> decide

theorem toLower_of_isPlain (h : isPlain c = true) : c.toLower = c := by
  simp only [isPlain, Bool.or_eq_true, Char.isLower, Char.isDigit, Bool.and_eq_true,
    decide_eq_true_eq, UInt32.le_iff_toNat_le, Char.toNat_val, Char.reduceToNat, ge_iff_le] at h
  have hc : ¬(65 ≤ c.toNat ∧ c.toNat ≤ 90) := by
    rcases h with ((h | h) | rfl) | rfl
    · omega
    · omega
    · decide
    · decide
  rw [Char.toLower, dif_neg]
  simpa [UInt32.le_iff_toNat_le] using hc

theorem isBreak_cases (h : isBreak c = true) : c = ' ' ∨ c = ',' ∨ c = '(' ∨ c = ')' := by
  simpa [isBreak, or_assoc] using h

/-- No gap starts with a character of a word. -/
theorem isSolid_of_continuesWord (h : Lexeme.continuesWord c = true) : isSolid c = true := by
  refine Bool.of_not_eq_false fun hsolid => ?_
  have hc : c ∈ [' ', '\t', '\n', '\x0c', '\r', '#', '-', '/'] := by
    grind [isSolid, isAsciiBlank]
  simp only [List.mem_cons, List.not_mem_nil, or_false] at hc
  rcases hc with rfl | rfl | rfl | rfl | rfl | rfl | rfl | rfl <;> revert h <;> decide

end Text

/-! ## Words and strings -/

/-- A word in lower case that MySQL does not read as a keyword. -/
structure Word where
  text : String
  opens : text.toList.head?.any Lexeme.startsWord = true := by decide
  plain : text.toList.all Text.isPlain = true := by decide
  free : (Dictionary.ofDialect .mySql).find? text = none := by decide +kernel
  deriving DecidableEq

namespace Word

/-- A word has no quotes. -/
@[simp] theorem unquoted_text (w : Word) : Text.unquoted w.text = w.text := by
  have hfilter : w.text.toList.filter (fun c => !Text.isNameQuote c) = w.text.toList := by
    refine List.filter_eq_self.2 fun c hc => ?_
    rw [Text.not_isNameQuote_of_isPlain (List.all_eq_true.1 w.plain c hc), Bool.not_false]
  rw [Text.unquoted, hfilter, String.ofList_toList]

@[simp] theorem lower_text (w : Word) : Text.lower w.text = w.text := by
  have hmap : w.text.toList.map Char.toLower = w.text.toList :=
    (List.map_congr_left fun c hc =>
      Text.toLower_of_isPlain (List.all_eq_true.1 w.plain c hc)).trans (List.map_id _)
  rw [Text.lower, hmap, String.ofList_toList]

theorem text_injective {v w : Word} (h : v.text = w.text) : v = w := by
  cases v
  cases w
  simpa using h

/-- Two words with the same letters are the same. -/
@[simp] theorem sameLetters_text (v w : Word) :
    Text.sameLetters v.text w.text = decide (v = w) := by
  rw [Text.sameLetters, lower_text, lower_text]
  by_cases h : v = w
  · simp [h]
  · simpa [h] using fun hvw => h (text_injective hvw)

end Word

/-- A string in single or double quotes, with no backslash and no such quote inside. -/
structure Quoted where
  quote : Char
  content : String
  isQuote : quote = '\'' ∨ quote = '"' := by decide
  clean : content.toList.all (fun c => c ≠ quote && c ≠ '\\') = true := by decide
  deriving DecidableEq

/-- The string as it is written. -/
def Quoted.spelling (q : Quoted) : List Char :=
  q.quote :: q.content.toList ++ [q.quote]

/-- The symbol is no part of a longer one. -/
def Symbol.standsAlone (s : Symbol) : Bool :=
  s ∈ [leftParen, rightParen, comma, question]

/-! ## Pieces -/

/-- What is written to be read as one token. -/
inductive Piece where
  | keyword (k : Keyword)
  | name (w : Word)
  | integer (n : Nat)
  | text (q : Quoted)
  | symbol (s : Symbol)
  deriving DecidableEq

namespace Piece

/-- The kind of the token that the piece is. -/
def kind : Piece → TokenKind
  | keyword k => k
  | name _ => LiteralClass.identifier
  | integer _ => LiteralClass.int
  | text _ => LiteralClass.chars
  | symbol s => s

/-- The piece as it is written. -/
def spelling : Piece → List Char
  | keyword k => k.text.toList
  | name w => w.text.toList
  | integer n => n.repr.toList
  | text q => q.spelling
  | symbol s => s.text.toList

/-- The lexeme that the piece is read as. -/
def lexeme (p : Piece) : Lexeme :=
  ⟨p.kind, p.spelling⟩

/-- Before this text the piece does not go on. `ORDER` and `GROUP` have to stand before `BY`. -/
def endsBefore : Piece → List Char → Bool
  | keyword k, rest =>
    Text.breaks rest && ((k ≠ .ORDER && k ≠ .GROUP) || Lexeme.isFollowedByBy rest)
  | name _, rest => Text.breaks rest || rest.head? = some '.'
  | integer _, rest => Text.breaks rest
  | text _, rest => Text.breaks rest
  | symbol s, rest =>
    s.standsAlone || Text.breaks rest || (s = .dot && rest.head?.all (!·.isDigit))

end Piece

/-! ## Keywords -/

namespace Keyword

@[simp] theorem upper_text (k : Keyword) : Text.upper k.text = k.text := by
  cases k <;> decide +kernel

/-- A keyword is written as a word. -/
theorem text_isWord (k : Keyword) :
    k.text.toList.head?.any Lexeme.startsWord = true ∧
      k.text.toList.all Lexeme.continuesWord = true := by
  cases k <;> decide +kernel

/-- MySQL knows all keywords. -/
theorem find?_text (k : Keyword) : (Dictionary.ofDialect .mySql).find? k.text = some k := by
  have hk : k ∈ (Dictionary.ofDialect .mySql).keywords := by
    rw [Dictionary.mem_ofDialect]
    cases k <;> decide
  cases h : (Dictionary.ofDialect .mySql).find? k.text with
  | none =>
    rw [Dictionary.find?, List.find?_eq_none] at h
    exact absurd (by simp) (h k hk)
  | some j =>
    have hj := List.find?_some h
    rw [decide_eq_true_eq, upper_text] at hj
    rw [text_injective hj]

end Keyword

/-! ## Symbols -/

namespace Symbol

/-- The first character of a symbol starts no token of another class, a dot before a digit apart. -/
theorem text_head (s : Symbol) : ∃ c cs, s.text.toList = c :: cs ∧
    Lexeme.quoted? .mySql c = none ∧ c ∉ ['0', 'x', 'X', '@'] ∧ c.isDigit = false ∧
    Lexeme.startsWord c = false ∧ (c = '.' ↔ s = dot) := by
  cases s <;> exact ⟨_, _, rfl, by decide⟩

/-- No gap starts like a symbol, unless a minus or a slash opens a comment. -/
theorem isSolid_head {s : Symbol} (hs : s ≠ minus ∧ s ≠ slash) :
    s.text.toList.head?.any Text.isSolid = true := by
  cases s <;> simp at hs <;> decide

/-- Only its first character may be a break. -/
theorem not_isBreak_of_mem_tail (s : Symbol) :
    s.text.toList.tail.all (!Text.isBreak ·) = true := by
  cases s <;> decide

/-- The symbols that no other one starts with. -/
theorem eq_of_starts {s t : Symbol} (hs : s.standsAlone = true ∨ s = dot)
    (h : s.text.toList.isPrefixOf t.text.toList = true) : s = t := by
  simp only [standsAlone, decide_eq_true_eq, List.mem_cons, List.not_mem_nil, or_false] at hs
  rcases hs with (rfl | rfl | rfl | rfl) | rfl <;> revert h <;> cases t <;> decide

theorem text_injective {s t : Symbol} (h : s.text = t.text) : s = t := by
  have (s : Symbol) : all.find? (·.text = s.text) = some s := by cases s <;> decide
  have hst := this s
  rw [h, this t] at hst
  exact (Option.some.inj hst).symm

variable {rest : List Char}

/-- The longest symbol that fits is the one written, if nothing behind it makes it longer. -/
theorem starting?_text_append {s : Symbol}
    (h : (s.standsAlone = true ∨ s = dot) ∨ Text.breaks rest = true) :
    starting? (s.text.toList ++ rest) = some s := by
  obtain ⟨before, after, hall⟩ := List.append_of_mem (mem_all s)
  have hlongest := all_longest_first
  rw [starting?, List.find?_eq_some_iff_append]
  refine ⟨by simp, before, after, hall, fun t ht => ?_⟩
  rw [hall, List.pairwise_append] at hlongest
  have hlen : s.text.length ≤ t.text.length := hlongest.2.2 t ht s (by simp)
  have hts : t ≠ s := by
    have hnodup : all.Nodup := by decide
    rw [hall, List.nodup_append] at hnodup
    exact hnodup.2.2 t ht s (by simp)
  rw [Bool.not_eq_true', Bool.eq_false_iff]
  intro hfits
  have hfits : t.text.toList <+: s.text.toList ++ rest := by simpa using hfits
  -- If a longer symbol fitted, its text would go on behind that of the shorter one.
  obtain ⟨more, hmore⟩ := List.prefix_of_prefix_length_le (List.prefix_append _ rest) hfits
    (by rwa [String.length_toList, String.length_toList])
  rcases h with h | h
  · exact hts (eq_of_starts h (by simp [← hmore])).symm
  · cases more with
    | nil => exact hts (text_injective (String.toList_injective (by simpa using hmore))).symm
    | cons x more =>
      rw [← hmore, List.prefix_append_right_inj] at hfits
      have hbreak : Text.isBreak x = true := by
        cases rest with
        | nil => simp at hfits
        | cons y rest =>
          obtain rfl : x = y := (List.cons_prefix_cons.1 hfits).1
          exact h
      have hmem : x ∈ t.text.toList.tail := by
        rw [← hmore, List.tail_append_of_ne_nil (Lexeme.text_ne_nil s)]
        simp
      simpa [hbreak] using List.all_eq_true.1 (not_isBreak_of_mem_tail t) x hmem

end Symbol

namespace Lexeme

variable {d : Dialect} {dict : Dictionary} {start : Nat} {c : Char} {cs rest : List Char}

/-- What a text does not open with. -/
theorem read_plain (hquote : quoted? d c = none) (hat : c ≠ '@')
    (hzero : c = '0' → ∀ x ∈ cs.head?, x ≠ 'x' ∧ x ≠ 'X')
    (hx : c = 'x' ∨ c = 'X' → cs.head? ≠ some '\'') :
    read d dict start c cs =
      ([number, word, symbol].findSome? fun rule => rule d dict start (c :: cs)).getD
        (.error (.unexpectedChar c start)) := by
  have h₁ : quotation d dict start (c :: cs) = none := by
    simp [quotation, hquote]
  have h₂ : hexNumber d dict start (c :: cs) = none := by
    unfold hexNumber
    split <;> simp_all
  have h₃ : hexString d dict start (c :: cs) = none := by
    unfold hexString
    split <;> simp_all
  have h₄ : variableName d dict start (c :: cs) = none := by
    unfold variableName
    split <;> simp_all
  simp [read, rules, h₁, h₂, h₃, h₄]

/-- No digit starts a word. -/
theorem not_isDigit_of_startsWord (h : startsWord c = true) : c.isDigit = false := by
  refine Bool.eq_false_iff.2 fun hdigit => ?_
  simp only [Char.isDigit, Bool.and_eq_true, decide_eq_true_eq, UInt32.le_iff_toNat_le,
    Char.toNat_val, Char.reduceToNat, ge_iff_le] at hdigit
  simp only [startsWord, Char.isAlpha, Char.isUpper, Char.isLower, Bool.or_eq_true,
    Bool.and_eq_true, decide_eq_true_eq, UInt32.le_iff_toNat_le, Char.toNat_val,
    Char.reduceToNat, ge_iff_le] at h
  rcases h with ((h | rfl) | rfl) | h
  · omega
  · revert hdigit; decide
  · revert hdigit; decide
  · omega

/-- A predicate takes the part of a text before the first character that it does not hold of. -/
theorem takeWhile_append_of_head {p : Char → Bool} (hcs : ∀ c ∈ cs, p c = true)
    (h : rest.head?.all (!p ·) = true) :
    (cs ++ rest).takeWhile p = cs ∧ (cs ++ rest).dropWhile p = rest := by
  have hrest : rest.takeWhile p = [] ∧ rest.dropWhile p = rest := by
    cases rest with
    | nil => simp
    | cons c rest =>
      have hc : p c = false := by simpa using h
      simp [hc]
  rw [List.takeWhile_append_of_pos hcs, List.dropWhile_append_of_pos hcs, hrest.1, hrest.2]
  simp

/-- What holds of every break holds of the first character of a text that starts with one. -/
theorem head_of_breaks {p : Char → Bool} (h : Text.breaks rest = true)
    (hp : ([' ', ',', '(', ')'] : List Char).all p = true) : rest.head?.all p = true := by
  cases rest with
  | nil => rfl
  | cons c rest =>
    simp only [List.all_cons, List.all_nil, Bool.and_true, Bool.and_eq_true] at hp
    rcases Text.isBreak_cases h with rfl | rfl | rfl | rfl <;> simp [hp]

/-- A word is read to its end, unless it is the `x` of a hexadecimal string. -/
theorem read_word {word : List Char} (hopens : word.head?.any startsWord = true)
    (hword : ∀ c ∈ word, continuesWord c = true)
    (hrest : rest.head?.all (fun c => !continuesWord c && c ≠ '\'') = true)
    (hcs : word ++ rest = c :: cs) :
    read .mySql dict start c cs = .ok ⟨wordKind dict word rest, word⟩ := by
  obtain ⟨d, ds, rfl⟩ : ∃ d ds, word = d :: ds := by
    cases word with
    | nil => simp at hopens
    | cons d ds => exact ⟨d, ds, rfl⟩
  obtain ⟨rfl, rfl⟩ : d = c ∧ ds ++ rest = cs := by simpa using hcs
  have hd : startsWord d = true := by simpa using hopens
  have hne (x : Char) (hx : startsWord x = false) : d ≠ x := by
    rintro rfl
    simp [hd] at hx
  have hquote : quoted? .mySql d = none := by
    simp [quoted?, hne '\'' (by decide), hne '"' (by decide), hne '\x60' (by decide)]
  have hnext : (ds ++ rest).head? ≠ some '\'' := by
    intro h
    cases ds with
    | nil => simp_all
    | cons x ds =>
      obtain rfl : x = '\'' := by simpa using h
      exact absurd (hword '\'' (by simp)) (by decide)
  have hnumber : number .mySql dict start (d :: (ds ++ rest)) = none := by
    have hdigit : d.isDigit = false := not_isDigit_of_startsWord hd
    have hdot : d ≠ '.' := hne '.' (by decide)
    unfold number
    split
    simp_all
  have htail : ∀ x ∈ ds, continuesWord x = true := fun x hx => hword x (by simp [hx])
  have hhead : rest.head?.all (!continuesWord ·) = true := by
    cases rest with
    | nil => rfl
    | cons x rest => simp_all
  obtain ⟨htake, hdrop⟩ := takeWhile_append_of_head htail hhead
  rw [read_plain hquote (hne '@' (by decide)) (fun h => absurd h (hne '0' (by decide)))
    fun _ => hnext]
  simp [hnumber, SqlRouting.Lexeme.word, hd, htake, hdrop]

/-- Digits before a break are read as a whole number. -/
theorem read_integer {digits : List Char} (hdigits : ∀ d ∈ digits, d.isDigit = true)
    (hrest : Text.breaks rest = true) (hcs : digits ++ rest = c :: cs) (hne : digits ≠ []) :
    read d dict start c cs = .ok ⟨LiteralClass.int, digits⟩ := by
  obtain ⟨a, ds, rfl⟩ := List.exists_cons_of_ne_nil hne
  obtain ⟨rfl, rfl⟩ : a = c ∧ ds ++ rest = cs := by simpa using hcs
  have ha : a.isDigit = true := hdigits a (by simp)
  have hne (x : Char) (hx : x.isDigit = false) : a ≠ x := by
    rintro rfl
    simp [ha] at hx
  have hquote : quoted? d a = none := by
    simp [quoted?, hne '\'' (by decide), hne '"' (by decide), hne '\x60' (by decide)]
  have hzero : a = '0' → ∀ x ∈ (ds ++ rest).head?, x ≠ 'x' ∧ x ≠ 'X' := by
    intro _ x hx
    cases ds with
    | nil =>
      have := head_of_breaks (p := fun x => x ≠ 'x' && x ≠ 'X') hrest (by decide)
      simp_all
    | cons y ds =>
      obtain rfl : y = x := by simpa using hx
      have hy : y.isDigit = true := hdigits y (by simp)
      constructor <;> rintro rfl <;> revert hy <;> decide
  have hnumber : number d dict start (a :: (ds ++ rest)) =
      some (.ok ⟨LiteralClass.int, a :: ds⟩) := by
    have hdot : a ≠ '.' := hne '.' (by decide)
    obtain ⟨htake, hdrop⟩ := takeWhile_append_of_head (p := Char.isDigit) hdigits
      (head_of_breaks hrest (by decide))
    have hbehind : fraction rest = [] ∧ exponent rest = [] := by
      cases rest with
      | nil => simp [fraction, exponent]
      | cons x rest =>
        rcases Text.isBreak_cases hrest with rfl | rfl | rfl | rfl <;> simp [fraction, exponent]
    simp only [List.cons_append] at htake hdrop
    unfold number
    simp only [htake, hdrop, hbehind]
    split
    case h_1 heq => exact absurd (List.cons.inj heq).1 hdot
    case h_2 x cs _ heq =>
      obtain ⟨rfl, -⟩ := List.cons.inj heq
      simp [ha, hbehind]
    case h_3 => simp_all
  rw [read_plain hquote (hne '@' (by decide)) hzero
    fun h => absurd ha (by rcases h with rfl | rfl <;> decide)]
  simp [hnumber]

/-- What has no quote and no backslash inside reaches to the quote behind it. -/
theorem upToQuote?_clean {quote : Char} {escapes : Bool} {content : List Char}
    (hclean : ∀ c ∈ content, c ≠ quote ∧ c ≠ '\\') (hquote : quote ≠ '\\')
    (hrest : rest.head?.all (· ≠ quote) = true) :
    upToQuote? quote escapes (content ++ quote :: rest) = some (content ++ [quote]) := by
  induction content with
  | nil =>
    cases rest with
    | nil => simp [upToQuote?]
    | cons d ds => simp_all [upToQuote?]
  | cons c content ih =>
    have ih := ih fun x hx => hclean x (by simp [hx])
    have hc := hclean c (by simp)
    cases content with
    | nil => simp_all [upToQuote?]
    | cons d content => simp_all [upToQuote?]

/-- A string is read up to its closing quote. -/
theorem read_quoted (q : Quoted) (hrest : Text.breaks rest = true)
    (hcs : q.spelling ++ rest = c :: cs) :
    read .mySql dict start c cs = .ok ⟨LiteralClass.chars, q.spelling⟩ := by
  obtain ⟨quote, content, isQuote, clean⟩ := q
  simp only [Quoted.spelling, List.cons_append, List.append_assoc, List.cons.injEq] at hcs ⊢
  obtain ⟨rfl, rfl⟩ := hcs
  have hquoted : quoted? .mySql quote = some .chars := by
    rcases isQuote with rfl | rfl <;> decide
  have hclean : ∀ c ∈ content.toList, c ≠ quote ∧ c ≠ '\\' := by simpa using clean
  have hquote : quote ≠ '\\' := by rcases isQuote with rfl | rfl <;> decide
  have hhead : rest.head?.all (· ≠ quote) = true :=
    head_of_breaks hrest (by rcases isQuote with rfl | rfl <;> decide)
  have hup := @upToQuote?_clean rest quote true content.toList hclean hquote hhead
  have hescapes : Dialect.mySql.backslashEscapes = true := rfl
  simp [read, rules, quotation, hquoted, hup, hescapes]

/-- A symbol is read whole if nothing behind it makes it longer. -/
theorem read_symbol {s : Symbol} (hcs : s.text.toList ++ rest = c :: cs)
    (hrest : s.standsAlone = true ∨ Text.breaks rest = true ∨
      s = .dot ∧ rest.head?.all (!·.isDigit) = true) :
    read .mySql dict start c cs = .ok ⟨s, s.text.toList⟩ := by
  obtain ⟨d, ds, hs, hquote, hne, hdigit, hword, hdot⟩ := s.text_head
  obtain ⟨rfl, rfl⟩ : d = c ∧ ds ++ rest = cs := by simpa [hs] using hcs
  simp only [List.mem_cons, List.not_mem_nil, or_false, not_or] at hne
  have hstarting : Symbol.starting? (d :: (ds ++ rest)) = some s := by
    rw [← List.cons_append, ← hs]
    refine Symbol.starting?_text_append ?_
    rcases hrest with hrest | hrest | ⟨hrest, -⟩
    · exact .inl (.inl hrest)
    · exact .inr hrest
    · exact .inl (.inr hrest)
  have hnumber : number .mySql dict start (d :: (ds ++ rest)) = none := by
    simp only [number]
    split
    case h_1 x xs heq =>
      obtain ⟨rfl, htail⟩ := List.cons.inj heq
      obtain rfl : s = .dot := hdot.1 rfl
      obtain rfl : ds = [] := by simpa [Symbol.text] using hs.symm
      obtain rfl : rest = x :: xs := htail
      have hx : x.isDigit = false := by
        rcases hrest with hrest | hrest | ⟨-, hrest⟩
        · simp [Symbol.standsAlone] at hrest
        · simpa using head_of_breaks (p := (!·.isDigit)) hrest (by decide)
        · simpa using hrest
      simp [hx]
    all_goals simp_all
  rw [read_plain hquote hne.2.2.2 (fun h => absurd h hne.1) fun h => absurd h (by simp [hne])]
  simp [hnumber, SqlRouting.Lexeme.word, hword, symbol, hstarting]

end Lexeme

/-! ## Reading a piece -/

/-- What starts no gap is not skipped. -/
theorem Gap.skip_of_isSolid {d : Dialect} {pos : Nat} {c : Char} {cs : List Char}
    (h : Text.isSolid c = true) : Gap.skip d .blank pos (c :: cs) = .ok (pos, c :: cs) := by
  simp only [Text.isSolid, Bool.and_eq_true, Bool.not_eq_true', decide_eq_true_eq] at h
  obtain ⟨⟨⟨hblank, hhash⟩, hminus⟩, hslash⟩ := h
  rw [Gap.skip]
  · simp [hblank, hhash]
  · exact fun _ h => absurd h hminus
  · exact fun _ h => absurd h hslash

namespace Piece

variable {p : Piece} {start : Nat} {c : Char} {cs rest : List Char}

theorem isDigit_of_mem_repr {n : Nat} : ∀ c ∈ n.repr.toList, c.isDigit = true := by
  intro c hc
  rw [Nat.toList_repr] at hc
  exact Nat.isDigit_of_mem_toDigits (by omega) (by omega) hc

/-- A piece is read where it is written. -/
theorem read_eq_ok (h : p.endsBefore rest = true) (hcs : p.spelling ++ rest = c :: cs) :
    Lexeme.read .mySql (Dictionary.ofDialect .mySql) start c cs = .ok p.lexeme := by
  cases p with
  | keyword k =>
    simp only [endsBefore, Bool.and_eq_true] at h
    rw [Lexeme.read_word k.text_isWord.1 (List.all_eq_true.1 k.text_isWord.2)
      (Lexeme.head_of_breaks h.1 (by decide)) hcs]
    have hk : Lexeme.wordKind (Dictionary.ofDialect .mySql) k.text.toList rest = k := by
      have hby := h.2
      simp only [Lexeme.wordKind, String.ofList_toList, k.find?_text]
      grind
    simp [hk, lexeme, kind, spelling]
  | name w =>
    simp only [endsBefore, Bool.or_eq_true, decide_eq_true_eq] at h
    have hrest : rest.head?.all (fun c => !Lexeme.continuesWord c && c ≠ '\'') = true := by
      rcases h with h | h
      · exact Lexeme.head_of_breaks h (by decide)
      · simp only [h]
        decide
    rw [Lexeme.read_word w.opens
      (fun c hc => Text.continuesWord_of_isPlain (List.all_eq_true.1 w.plain c hc)) hrest hcs]
    simp [Lexeme.wordKind, w.free, lexeme, kind, spelling]
  | integer n =>
    exact Lexeme.read_integer isDigit_of_mem_repr h hcs (by simp [spelling])
  | text q => exact Lexeme.read_quoted q h hcs
  | symbol s =>
    refine Lexeme.read_symbol hcs ?_
    simpa only [endsBefore, Bool.or_eq_true, Bool.and_eq_true, decide_eq_true_eq, or_assoc] using h

/-- A piece is spelled with at least a character. -/
theorem spelling_ne_nil (p : Piece) : p.spelling ≠ [] := by
  cases p with
  | keyword k => cases k <;> decide
  | name w =>
    intro h
    have hopens := w.opens
    simp only [spelling] at h
    simp [h] at hopens
  | integer n => simp [spelling]
  | text q => simp [spelling, Quoted.spelling]
  | symbol s => exact Lexeme.text_ne_nil s

/-- No piece ends with a blank. -/
theorem not_isBlank_getLast (p : Piece) : p.spelling.getLast?.all (!Text.isBlank ·) = true := by
  have hall (h : ∀ c ∈ p.spelling, Text.isBlank c = false) :
      p.spelling.getLast?.all (!Text.isBlank ·) = true := by
    cases hc : p.spelling.getLast? with
    | none => rfl
    | some c => simp [h c (List.mem_of_getLast? hc)]
  cases p with
  | keyword k => cases k <;> decide +kernel
  | name w =>
    exact hall fun c hc => Text.not_isBlank_of_isPlain (List.all_eq_true.1 w.plain c hc)
  | integer n =>
    refine hall fun c hc => Text.not_isBlank_of_isPlain ?_
    simp [Text.isPlain, isDigit_of_mem_repr c hc]
  | text q =>
    have hquote : Text.isBlank q.quote = false := by
      rcases q.isQuote with h | h <;> rw [h] <;> decide
    simp [spelling, Quoted.spelling, List.getLast?_cons, hquote]
  | symbol s => cases s <;> decide

/-- Nothing of a piece is skipped. -/
theorem skip_eq_ok (h : p.endsBefore rest = true) :
    Gap.skip .mySql .blank start (p.spelling ++ rest) = .ok (start, p.spelling ++ rest) := by
  obtain ⟨c, cs, hp⟩ := List.exists_cons_of_ne_nil p.spelling_ne_nil
  have hsolid (hc : Text.isSolid c = true) :
      Gap.skip .mySql .blank start (p.spelling ++ rest) = .ok (start, p.spelling ++ rest) := by
    rw [hp]
    exact Gap.skip_of_isSolid hc
  have hword (hall : ∀ c ∈ p.spelling, Lexeme.continuesWord c = true) :
      Gap.skip .mySql .blank start (p.spelling ++ rest) = .ok (start, p.spelling ++ rest) :=
    hsolid (Text.isSolid_of_continuesWord (hall c (by simp [hp])))
  cases p with
  | keyword k => exact hword (List.all_eq_true.1 k.text_isWord.2)
  | name w =>
    exact hword fun c hc => Text.continuesWord_of_isPlain (List.all_eq_true.1 w.plain c hc)
  | integer n =>
    refine hword fun c hc => ?_
    simp [Lexeme.continuesWord, Char.isAlphanum, isDigit_of_mem_repr c hc]
  | text q =>
    obtain rfl : q.quote = c := (List.cons.inj hp).1
    exact hsolid (by rcases q.isQuote with h | h <;> rw [h] <;> decide)
  | symbol s =>
    by_cases hs : s ≠ .minus ∧ s ≠ .slash
    · have hhead := Symbol.isSolid_head hs
      simp only [spelling] at hp
      exact hsolid (by simpa [hp] using hhead)
    -- A minus or a slash opens no comment, since a break follows.
    · have hbreaks : Text.breaks rest = true := by grind [endsBefore, Symbol.standsAlone]
      obtain rfl | rfl : s = .minus ∨ s = .slash := by grind
      all_goals
        cases rest with
        | nil => rfl
        | cons x rest => rcases Text.isBreak_cases hbreaks with rfl | rfl | rfl | rfl <;> rfl

end Piece

end SqlRouting
