import SqlRouting.Proofs.Comments
import SqlRouting.Proofs.WholeValues

/-!
# Whole numbers and their literals

A whole number is written in decimal digits, behind a minus if it is negative, or, if it is not, in
hexadecimal digits, `0x1F` or `X'1F'`. In every dialect it is read back from them as long as its
digits stand for no more than `Number.maxInteger`; those that stand for more are kept as text
(`whole_number_read_back`). A minus comes too late for the least number of 64 bits with a sign: its
digits are read before the sign is seen, and they stand for one more than the largest number
(`least_integer_kept`).
-/

namespace SqlRouting

open Text (byteLength)

/-! ## Hexadecimal digits -/

namespace Decimal

/-- The case of a digit does not matter. -/
theorem digitValue?_toLower (c : Char) : digitValue? c.toLower = digitValue? c :=
  Text.apply_toLower (by decide) c

theorem valueFrom?_map_toLower (base acc : Nat) (cs : List Char) :
    valueFrom? base acc (cs.map Char.toLower) = valueFrom? base acc cs := by
  induction cs generalizing acc with
  | nil => rfl
  | cons c cs ih => simp only [List.map_cons, valueFrom?, digitValue?_toLower, ih]

theorem valueFrom?_append (base acc : Nat) (cs ds : List Char) :
    valueFrom? base acc (cs ++ ds) = (valueFrom? base acc cs).bind (valueFrom? base · ds) := by
  induction cs generalizing acc with
  | nil => rfl
  | cons c cs ih =>
    rw [List.cons_append, valueFrom?, valueFrom?]
    cases digitValue? c with
    | none => rfl
    | some d =>
      dsimp only
      split
      · exact ih _
      · rfl

/-- Leading zeros do not matter. -/
theorem valueFrom?_zeros (zeros : Nat) (cs : List Char) :
    valueFrom? 16 0 (List.replicate zeros '0' ++ cs) = valueFrom? 16 0 cs := by
  have hzero : digitValue? '0' = some 0 := by decide
  induction zeros with
  | zero => rfl
  | succ zeros ih =>
    rw [List.replicate_succ, List.cons_append, valueFrom?, hzero]
    exact ih

/-- A number is what its hexadecimal digits stand for. -/
theorem valueFrom?_toDigits (n : Nat) : valueFrom? 16 0 (Nat.toDigits 16 n) = some n := by
  have hdigit {acc k : Nat} (hk : k < 16) :
      valueFrom? 16 acc [k.digitChar] = some (acc * 16 + k) := by
    have hvalue : digitValue? k.digitChar = some k := by interval_cases k <;> decide
    rw [valueFrom?, hvalue]
    exact if_pos hk
  induction n using Nat.strongRecOn with
  | ind n ih =>
    rcases Nat.lt_or_ge n 16 with hn | hn
    · rw [Nat.toDigits_of_lt_base hn, hdigit hn, Nat.zero_mul, Nat.zero_add]
    · rw [Nat.toDigits_of_base_le (by omega) hn, valueFrom?_append, ih (n / 16) (by omega),
        Option.bind_some, hdigit (Nat.mod_lt n (by omega)), Nat.div_add_mod']

/-- What stands for a number consists of digits. -/
theorem isHexDigit_of_valueFrom? {base acc n : Nat} {cs : List Char}
    (h : valueFrom? base acc cs = some n) : ∀ c ∈ cs, Lexeme.isHexDigit c = true := by
  induction cs generalizing acc with
  | nil => simp
  | cons c cs ih =>
    rw [valueFrom?] at h
    split at h
    case h_2 => cases h
    case h_1 d hd =>
      split at h
      case isFalse => cases h
      case isTrue =>
        refine List.forall_mem_cons.2 ⟨?_, ih h⟩
        have hdigit : c.isDigit = ('0' ≤ c && c ≤ '9') := rfl
        rw [digitValue?, ← hdigit] at hd
        rw [Lexeme.isHexDigit]
        split_ifs at hd <;> simp_all

end Decimal

/-- The digits are those of the number in base sixteen, letters in either case, behind zeros. -/
def Decimal.IsHexOf (n : Nat) (digits : List Char) : Prop :=
  ∃ zeros, digits.map Char.toLower = List.replicate zeros '0' ++ Nat.toDigits 16 n

/-- The digits of a number stand for it. -/
theorem Decimal.IsHexOf.value? {n : Nat} {digits : List Char} (h : IsHexOf n digits) :
    value? 16 digits = some n ∧ digits ≠ [] ∧ ∀ c ∈ digits, Lexeme.isHexDigit c = true := by
  obtain ⟨zeros, h⟩ := h
  have hvalue : valueFrom? 16 0 digits = some n := by
    rw [← valueFrom?_map_toLower, h, valueFrom?_zeros, valueFrom?_toDigits]
  have hne : digits ≠ [] := by
    rintro rfl
    exact absurd h.symm (by simp)
  exact ⟨(if_neg (by simpa using hne)).trans hvalue, hne, isHexDigit_of_valueFrom? hvalue⟩

/-! ## Lexemes of digits -/

namespace Lexeme

variable {d : Dialect} {dict : Dictionary} {start : Nat} {cs digits : List Char} {x : Char}

/-- A minus is read alone, whatever follows it. -/
theorem read_minus : read d dict start '-' cs = .ok ⟨Symbol.minus, ['-']⟩ := by
  have hstarting : Symbol.starting? ('-' :: cs) = some .minus := rfl
  have hquote : quoted? d '-' = none := by simp [quoted?]
  rw [read_plain hquote (by decide) (fun h => absurd h (by decide))
    fun h => absurd h (by decide)]
  simp [number, word, startsWord, Char.isDigit, Char.isAlpha, Char.isUpper, Char.isLower, symbol,
    hstarting, Symbol.text]

/-- Hexadecimal digits behind a prefix. -/
theorem read_hexNumber (hx : x = 'x' ∨ x = 'X') (hdigits : ∀ c ∈ digits, isHexDigit c = true)
    (hne : digits ≠ []) :
    read d dict start '0' (x :: digits) = .ok ⟨LiteralClass.hex, '0' :: x :: digits⟩ := by
  have hquotation : quotation d dict start ('0' :: x :: digits) = none := by
    simp [quotation, quoted?]
  have htake : digits.takeWhile isHexDigit = digits := List.takeWhile_eq_self_iff.2 hdigits
  simp [read, rules, hquotation, hexNumber, hx, htake, hne]

/-- Hexadecimal digits in quotes. -/
theorem read_hexString (hx : x = 'x' ∨ x = 'X') (hdigits : ∀ c ∈ digits, isHexDigit c = true) :
    read d dict start x ('\'' :: (digits ++ ['\''])) =
      .ok ⟨LiteralClass.hex, x :: '\'' :: (digits ++ ['\''])⟩ := by
  have hquotation : quotation d dict start (x :: '\'' :: (digits ++ ['\''])) = none := by
    rcases hx with rfl | rfl <;> simp [quotation, quoted?]
  have hnumber : hexNumber d dict start (x :: '\'' :: (digits ++ ['\''])) = none := by
    rcases hx with rfl | rfl <;> rfl
  have hquote : ['\''].head?.all (!isHexDigit ·) = true := by decide
  obtain ⟨htake, hdrop⟩ := takeWhile_append_of_head hdigits hquote
  simp [read, rules, hquotation, hnumber, hexString, hx, htake, hdrop]

end Lexeme

/-! ## Texts of a single literal -/

namespace TokenStream

variable {d : Dialect} {dict : Dictionary} {n pos : Nat} {c : Char} {cs : List Char} {l : Lexeme}

/-- A lexeme that is the rest of a text is its last token before the end. -/
theorem read_last (hsolid : Text.isSolid c = true) (hl : l.spelling = c :: cs)
    (hread : Lexeme.read d dict pos c cs = .ok l) : read d dict (n + 2) pos (c :: cs) =
      ⟨[l.toToken pos, Token.final (pos + byteLength (c :: cs))], none⟩ := by
  have hskip : Gap.skip d .blank pos (c :: (cs ++ [])) = .ok (pos, c :: (cs ++ [])) :=
    Gap.skip_of_isSolid hsolid
  have h := read_lexeme hskip hl (by simpa using hread) (n + 1)
  rw [List.append_nil] at h
  rw [h, Lexeme.toToken, hl]
  rfl

/-- A lexeme that is all of a text is its only token. -/
theorem ofText_lexeme (hsolid : Text.isSolid c = true) (hl : l.spelling = c :: cs)
    (hread : Lexeme.read d (Dictionary.ofDialect d) 0 c cs = .ok l) : ofText d (c :: cs) =
      ⟨[l.toToken 0, Token.final (byteLength (c :: cs))], none⟩ := by
  rw [ofText, List.length_cons, read_last hsolid hl hread, Nat.zero_add]

/-- Decimal digits are the last token of their text. -/
theorem read_digits (v : Nat) : read d dict (n + 2) pos v.repr.toList =
    ⟨[⟨.literal .int, v.repr, pos + byteLength v.repr.toList⟩,
      Token.final (pos + byteLength v.repr.toList)], none⟩ := by
  obtain ⟨c, cs, hv⟩ := List.exists_cons_of_ne_nil (Piece.spelling_ne_nil (.integer v))
  replace hv : v.repr.toList = c :: cs := hv
  have hdigits := Piece.isDigit_of_mem_repr (n := v)
  have hsolid : Text.isSolid c = true :=
    Text.isSolid_of_continuesWord (by simp [Lexeme.continuesWord, Char.isAlphanum, hdigits c, hv])
  have hread : Lexeme.read d dict pos c cs = .ok ⟨.literal .int, v.repr.toList⟩ :=
    Lexeme.read_integer hdigits (show Text.breaks [] = true from rfl) (by simp [hv]) (by simp [hv])
  have h := read_last (n := n) hsolid hv hread
  rw [← hv] at h
  rw [h]
  simp [-Nat.toList_repr, Lexeme.toToken, Lexeme.literal]

/-- Behind a minus they are the last token as well. -/
theorem read_minus_digits (v : Nat) : read d dict (n + 3) pos ('-' :: v.repr.toList) =
    ⟨[⟨.symbol .minus, "-", pos + 1⟩,
      ⟨.literal .int, v.repr, pos + 1 + byteLength v.repr.toList⟩,
      Token.final (pos + 1 + byteLength v.repr.toList)], none⟩ := by
  have hopens : ¬Gap.OpensComment d '-' v.repr.toList := by
    rintro ((⟨_, hminus⟩ | ⟨hhash, _⟩) | ⟨hslash, _⟩)
    · have hdigit := Piece.isDigit_of_mem_repr '-' (List.mem_of_mem_head? hminus)
      exact absurd hdigit (by decide)
    · exact absurd hhash (by decide)
    · exact absurd hslash (by decide)
  have hskip : Gap.skip d .blank pos ('-' :: ([] ++ v.repr.toList)) =
      .ok (pos, '-' :: ([] ++ v.repr.toList)) := Gap.skip_eq_self hopens (by decide)
  have hread : Lexeme.read d dict pos '-' ([] ++ v.repr.toList) = .ok ⟨Symbol.minus, ['-']⟩ :=
    Lexeme.read_minus
  have h := read_lexeme hskip rfl hread (n + 2)
  rw [List.nil_append] at h
  have hstop : (Lexeme.toToken ⟨Symbol.minus, ['-']⟩ pos).stop = pos + 1 := rfl
  rw [h, hstop, read_digits]
  rfl

/-- The tokens of decimal digits, on their own and behind a minus. -/
theorem ofText_digits (v : Nat) :
    ofText d v.repr.toList = ⟨[⟨.literal .int, v.repr, byteLength v.repr.toList⟩,
      Token.final (byteLength v.repr.toList)], none⟩ ∧
    ofText d ('-' :: v.repr.toList) = ⟨[⟨.symbol .minus, "-", 1⟩,
      ⟨.literal .int, v.repr, 1 + byteLength v.repr.toList⟩,
      Token.final (1 + byteLength v.repr.toList)], none⟩ := by
  have hpos : v.repr.toList.length ≠ 0 := by simp
  obtain ⟨n, hn⟩ := Nat.exists_eq_succ_of_ne_zero hpos
  constructor
  · rw [ofText, hn, read_digits, Nat.zero_add]
  · rw [ofText, List.length_cons, hn, read_minus_digits, Nat.zero_add]

end TokenStream

/-- A text with tokens has a cursor. -/
theorem Cursor.ofText_of_stream {database : Database} {d : Dialect} {text : String} {t : Token}
    {ts : List Token} (h : TokenStream.ofText d text.toList = ⟨t :: ts, none⟩) :
    Cursor.ofText database d text = .ok ⟨text.toList, t, ts, none, database, d⟩ := by
  simp only [ofText, h]

/-! ## Reading a literal -/

/-- The text is written for the expression: the operand at its start is the expression, it is all
    of the text, and nothing but the cursor has moved. -/
def Expression.ReadFrom (database : Database) (d : Dialect) (text : String) (e : Expression) :
    Prop :=
  ∃ c, Cursor.ofText database d text = .ok c ∧
    ∀ {κ : Type} (s : ParseState κ), s.cursor = c →
      Grammar.operand s = .ok e (s.facing 0 [Token.final (byteLength text.toList)])

/-- The number that the digits of the token stand for, if it is not too large. -/
def Token.number? (t : Token) : Option Number :=
  if t.kind = .literal .hex then Number.ofHex? t.literal else Number.ofInt? t.literal

namespace Grammar

open SqlRouting.Parser

variable {κ : Type} {s : ParseState κ} {t : Token} {n : Nat}

/-- Digits are read as their number, and as text if this is too large. -/
theorem atom_digits (ht : t.kind = .literal .int ∨ t.kind = .literal .hex) :
    atom t s = .ok ((t.number?.map .number).getD (.other t.literal)) s := by
  rw [atom, Token.number?]
  rcases ht with ht | ht <;> rw [ht] <;> rfl

/-- Digits before the end of the text are an operand. -/
theorem unsignedOperand_digits {m : Nat} (ht : t.kind = .literal .int ∨ t.kind = .literal .hex) :
    unsignedOperand (s.facing n [t, Token.final m]) =
      .ok ((t.number?.map .number).getD (.other t.literal)) (s.facing n [Token.final m]) :=
  unsignedOperand_atom (by rcases ht with ht | ht <;> simp [ht]) (atom_digits ht) (by simp)
    (TokenKind.endsOperand_behind.2.1)

/-- Behind a minus their number is negative. -/
theorem operand_minus_digits {minus : Token} {m : Nat} {kept : String}
    (htokens : s.cursor.tokens = [minus, t, Token.final m]) (hminus : minus.kind = .symbol .minus)
    (ht : t.kind = .literal .int)
    (hkept : textSince minus.start (s.facing 0 [Token.final m]) =
      .ok kept (s.facing 0 [Token.final m])) :
    operand s = .ok ((t.number?.map fun n => .number n.neg).getD (.other kept))
      (s.facing 0 [Token.final m]) := by
  have hcurrent : s.cursor.current = minus := (List.cons.inj htokens).1
  replace htokens : s.cursor.tokens = [minus] ++ [t, Token.final m] := htokens
  have hsigns := signs_of_tokens htokens (by simp [hminus]) (by simp [ht])
  rw [operand_signed hsigns (by simp) (unsignedOperand_digits (.inl ht)) (hcurrent ▸ hkept)]
  cases t.number? <;> simp [hminus, Expression.signed, Number.behind]

end Grammar

/-- A literal on its own is read as its number, or as text if this is too large. -/
theorem Expression.ReadFrom.literal {database : Database} {d : Dialect} {text : String} {t : Token}
    (ht : t.kind = .literal .int ∨ t.kind = .literal .hex)
    (hstream : TokenStream.ofText d text.toList =
      ⟨[t, Token.final (byteLength text.toList)], none⟩) :
    ReadFrom database d text ((t.number?.map .number).getD (.other t.literal)) := by
  refine ⟨_, Cursor.ofText_of_stream hstream, fun s hs => ?_⟩
  have htokens : s.cursor.tokens = [] ++ [t, Token.final (byteLength text.toList)] := by
    rw [hs]
    rfl
  have hsigns := Grammar.signs_of_tokens htokens (by simp)
    (by rcases ht with ht | ht <;> simp [ht])
  rw [Grammar.operand, Parser.current_bind, Parser.cursor_bind, Parser.bind_of_eq_ok hsigns,
    Parser.bind_of_eq_ok (Grammar.unsignedOperand_digits ht), if_pos (by simp)]
  rfl

/-- So is a literal behind a minus. -/
theorem Expression.ReadFrom.minus_literal {database : Database} {d : Dialect} {text : String}
    {minus t : Token} (hminus : minus.kind = .symbol .minus) (hstart : minus.start = 0)
    (ht : t.kind = .literal .int) (hsolid : ∀ c ∈ text.toList.getLast?, Text.isBlank c = false)
    (hstream : TokenStream.ofText d text.toList =
      ⟨[minus, t, Token.final (byteLength text.toList)], none⟩) :
    ReadFrom database d text
      ((t.number?.map fun n => .number n.neg).getD (.other text)) := by
  refine ⟨_, Cursor.ofText_of_stream hstream, fun s hs => ?_⟩
  refine Grammar.operand_minus_digits (by rw [hs]; rfl) hminus ht ?_
  -- The text from the minus to the end is all of the text.
  have hslice : Text.slice? text.toList 0 (byteLength text.toList) = some text.toList :=
    Text.slice?_eq_some_iff.2 ⟨[], [], by simp, rfl, by simp⟩
  have htrim : Text.trimEnd text.toList = text.toList := by
    have htrim : Text.trimEnd (text.toList ++ []) = text.toList :=
      Text.trimEnd_append_eq_iff.2 ⟨by simp, hsolid⟩
    rwa [List.append_nil] at htrim
  have htext : s.cursor.text = text.toList := by rw [hs]
  simp only [Parser.textSince, Parser.current_bind, Parser.bind_eq_ok, Parser.slice_eq_ok,
    Parser.pure_eq_ok]
  refine ⟨text, _, ⟨?_, rfl⟩, by rw [htrim, String.ofList_toList], rfl⟩
  rw [ParseState.text_facing, ParseState.current_facing, Token.start_final, hstart, htext,
    Nat.max_eq_left (Nat.zero_le _), hslice, Option.map_some, String.ofList_toList]

/-! ## All whole numbers -/

theorem Number.ofInt?_repr (n : Nat) :
    ofInt? n.repr = if n ≤ maxInteger then some (.integer n) else none := by
  rw [ofInt?, integer?, Decimal.value?_repr, Option.bind_some]
  split <;> rfl

/-- The prefix and the quotes of a hexadecimal literal do not count. -/
theorem Number.ofHex?_spelling {n : Nat} {digits : List Char} {x : Char}
    (hdigits : Decimal.IsHexOf n digits) (hx : x = 'x' ∨ x = 'X') :
    (∀ spelling ∈ ['0' :: x :: digits, x :: '\'' :: (digits ++ ['\''])],
      ofHex? (String.ofList spelling) = if n ≤ maxInteger then some (.integer n) else none) := by
  have hvalue : (integer? 16 digits).map integer =
      if n ≤ maxInteger then some (.integer n) else none := by
    rw [integer?, hdigits.value?.1, Option.bind_some]
    split <;> rfl
  rintro spelling hspelling
  rw [List.mem_pair] at hspelling
  rcases hspelling with rfl | rfl
  · rw [ofHex?, String.toList_ofList]
    exact hvalue
  · rw [ofHex?, String.toList_ofList]
    rcases hx with rfl | rfl <;> simpa using hvalue

variable (database : Database) (d : Dialect)

/-- Decimal digits are read back up to the largest number, with and without a minus. -/
theorem decimal_literal (n : Nat) :
    Expression.ReadFrom database d n.repr
      (if n ≤ Number.maxInteger then .number (.integer n) else .other n.repr) ∧
    Expression.ReadFrom database d ("-" ++ n.repr)
      (if n ≤ Number.maxInteger then .number (.integer (-n)) else .other ("-" ++ n.repr)) := by
  obtain ⟨hplain, hminus⟩ := TokenStream.ofText_digits (d := d) n
  constructor
  · have h : Expression.ReadFrom database d n.repr _ := .literal (.inl (by rfl)) hplain
    rw [Token.number?, if_neg (by simp), Number.ofInt?_repr] at h
    split at h <;> simpa [*] using h
  · have htext : ("-" ++ n.repr).toList = '-' :: n.repr.toList := String.toList_append
    have hlast : ∀ c ∈ ("-" ++ n.repr).toList.getLast?, Text.isBlank c = false := by
      intro c hc
      rw [htext] at hc
      rcases List.mem_cons.1 (List.mem_of_getLast? hc) with rfl | hdigit
      · decide
      · have hdigit := Piece.isDigit_of_mem_repr c hdigit
        exact Text.not_isBlank_of_isAlphanum (.inl (by simp [Char.isAlphanum, hdigit]))
    have hstream : TokenStream.ofText d ("-" ++ n.repr).toList =
        ⟨[⟨.symbol .minus, "-", 1⟩, ⟨.literal .int, n.repr, 1 + byteLength n.repr.toList⟩,
          Token.final (byteLength ("-" ++ n.repr).toList)], none⟩ := by
      rw [htext, hminus]
      rfl
    have h : Expression.ReadFrom database d ("-" ++ n.repr) _ :=
      .minus_literal rfl (by decide) rfl hlast hstream
    rw [Token.number?, if_neg (by simp), Number.ofInt?_repr] at h
    split at h <;> simpa [*, Number.neg] using h

/-- Hexadecimal digits are read back up to the largest number, in each of the four spellings. -/
theorem hexadecimal_literal {n : Nat} {digits : List Char} (hdigits : Decimal.IsHexOf n digits)
    {x : Char} (hx : x = 'x' ∨ x = 'X') :
    ∀ spelling ∈ ['0' :: x :: digits, x :: '\'' :: (digits ++ ['\''])],
      Expression.ReadFrom database d (String.ofList spelling)
        (if n ≤ Number.maxInteger then .number (.integer n)
        else .other (String.ofList spelling)) := by
  intro spelling hspelling
  obtain ⟨_, hne, hhex⟩ := hdigits.value?
  have hstream : TokenStream.ofText d (String.ofList spelling).toList =
      ⟨[⟨.literal .hex, String.ofList spelling, byteLength (String.ofList spelling).toList⟩,
        Token.final (byteLength (String.ofList spelling).toList)], none⟩ := by
    rw [String.toList_ofList]
    rcases List.mem_pair.1 hspelling with rfl | rfl
    · rw [TokenStream.ofText_lexeme (by decide) rfl (Lexeme.read_hexNumber hx hhex hne)]
      simp [Lexeme.toToken, Lexeme.literal]
    · have hsolid : Text.isSolid x = true := by rcases hx with rfl | rfl <;> decide
      rw [TokenStream.ofText_lexeme hsolid rfl (Lexeme.read_hexString hx hhex)]
      simp [Lexeme.toToken, Lexeme.literal]
  have h : Expression.ReadFrom database d (String.ofList spelling) _ :=
    .literal (.inr (by rfl)) hstream
  rw [Token.number?, if_pos (by rfl), Number.ofHex?_spelling hdigits hx spelling hspelling] at h
  split at h <;> simpa [*] using h

/-- *Whole numbers are read back from their literals, but the least one.* In every dialect the
    decimal digits of a whole number, behind a minus if it is negative, are read as the number if it
    is above the least number of 64 bits with a sign and not above the largest; the least number is
    kept as text like those out of range. The hexadecimal digits of a number up to the largest are
    read as the number in all four spellings, and those of a larger number are kept as text. -/
theorem whole_number_read_back :
    (∀ v : Int, -9223372036854775808 < v → v ≤ 9223372036854775807 →
      Expression.ReadFrom database d (toString v) (.number (.integer v))) ∧
    (∀ v : Int, v ≤ -9223372036854775808 ∨ 9223372036854775807 < v →
      Expression.ReadFrom database d (toString v) (.other (toString v))) ∧
    ∀ (n : Nat) (digits : List Char), Decimal.IsHexOf n digits →
      ∀ spelling ∈ ['0' :: 'x' :: digits, '0' :: 'X' :: digits,
          'x' :: '\'' :: (digits ++ ['\'']), 'X' :: '\'' :: (digits ++ ['\''])],
        (n ≤ 9223372036854775807 →
          Expression.ReadFrom database d (String.ofList spelling) (.number (.integer n))) ∧
        (9223372036854775807 < n →
          Expression.ReadFrom database d (String.ofList spelling)
            (.other (String.ofList spelling))) := by
  have hmax : Number.maxInteger = 9223372036854775807 := rfl
  -- The magnitude decides, whatever the sign.
  have hdecimal (v : Int) : Expression.ReadFrom database d (toString v)
      (if v.natAbs ≤ Number.maxInteger then .number (.integer v) else .other (toString v)) := by
    cases v with
    | ofNat n => exact (decimal_literal database d n).1
    | negSucc n => exact (decimal_literal database d (n + 1)).2
  refine ⟨fun v hlow hhigh => ?_, fun v hout => ?_, fun n digits hdigits spelling hspelling => ?_⟩
  · simpa [if_pos (show v.natAbs ≤ Number.maxInteger by omega)] using hdecimal v
  · simpa [if_neg (show ¬v.natAbs ≤ Number.maxInteger by omega)] using hdecimal v
  · have hread : Expression.ReadFrom database d (String.ofList spelling)
        (if n ≤ Number.maxInteger then .number (.integer n)
        else .other (String.ofList spelling)) := by
      simp only [List.mem_cons, List.not_mem_nil, or_false] at hspelling
      rcases hspelling with h | h | h | h
      · exact hexadecimal_literal database d hdigits (.inl rfl) _ (by simp [h])
      · exact hexadecimal_literal database d hdigits (.inr rfl) _ (by simp [h])
      · exact hexadecimal_literal database d hdigits (.inl rfl) _ (by simp [h])
      · exact hexadecimal_literal database d hdigits (.inr rfl) _ (by simp [h])
    exact ⟨fun hn => by rwa [if_pos (by omega)] at hread,
      fun hn => by rwa [if_neg (by omega)] at hread⟩

/-- The largest number and the one below zero that is as large, and the largest one in letters of
    both cases behind zeros. -/
theorem whole_number_read_back_bounds :
    Expression.ReadFrom .mySql .mySql "9223372036854775807"
      (.number (.integer 9223372036854775807)) ∧
    Expression.ReadFrom .h2 .standard "-9223372036854775807"
      (.number (.integer (-9223372036854775807))) ∧
    Expression.ReadFrom .mySql .mySql "-9223372036854775808" (.other "-9223372036854775808") ∧
    Expression.ReadFrom .mySql .mySql "X'007fFfFFffFFFFFFFf'"
      (.number (.integer 9223372036854775807)) ∧
    Expression.ReadFrom .mySql .mySql "0x8000000000000000" (.other "0x8000000000000000") := by
  obtain ⟨hdecimal, hout, hhex⟩ := whole_number_read_back .mySql .mySql
  have hleast : toString (-9223372036854775808 : Int) = "-9223372036854775808" := by decide
  refine ⟨hdecimal 9223372036854775807 (by decide) (by decide),
    (whole_number_read_back _ _).1 (-9223372036854775807) (by decide) (by decide),
    hleast ▸ hout (-9223372036854775808) (by decide),
    (hhex 9223372036854775807 "007fFfFFffFFFFFFFf".toList ⟨2, by decide⟩ _ (by simp)).1
      (by decide),
    (hhex 9223372036854775808 "8000000000000000".toList ⟨0, by decide⟩ _ (by simp)).2
      (by decide)⟩

/-- The least number is kept as text, and a condition on it is lost. -/
theorem least_integer_kept :
    (∃ v : Int, -9223372036854775808 ≤ v ∧ v ≤ 9223372036854775807 ∧
      ¬Expression.ReadFrom .mySql .mySql (toString v) (.number (.integer v))) ∧
    (Statement.parse .mySql .mySql "SELECT * FROM t WHERE a = -9223372036854775808").map
        (fun s => s.routing.conditions) = .ok ⟨[]⟩ := by
  constructor
  · refine ⟨-9223372036854775808, by decide, by decide, ?_⟩
    rintro ⟨c, hc, hread⟩
    have hrun : (Parser.runOn? (κ := DeleteClauses) Grammar.operand .mySql .mySql
        "-9223372036854775808").map (fun r => r.2.1) = some (.other "-9223372036854775808") := by
      decide +kernel
    obtain ⟨c', e, s, hc', h, rfl⟩ := Parser.exists_of_runOn? hrun
    obtain rfl : c' = c := Except.ok.inj (hc'.symm.trans hc)
    cases (hread (ParseState.start (κ := DeleteClauses) c') rfl).symm.trans h
  · decide +kernel

end SqlRouting
