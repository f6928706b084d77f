import SqlRouting.Proofs.Faults
import SqlRouting.Proofs.Tiling

/-!
# What errors point at

An error tells a reader where a text goes wrong, so it has to be about this text. An unexpected
token is one of the stream, at the position where the text goes on with its literal. A token that
does not match is one of the stream, too, and of another kind than the one asked for. Where no token
can be read, the error points at the character that is to blame, and for what is left open at the
one that opens it (`parse_errors`).

Parsers refuse the token under the cursor or say that none can be read behind it
(`Cursor.Refuses`), and the cursor never leaves the stream of the text. So there are two parts to
this: where the stream breaks off, and that its tokens span parts of the text.
-/

namespace SqlRouting

open Text (byteLength)

/-- From the position `pos` on, the text is `rest`. -/
def Text.From (text : List Char) (pos : Nat) (rest : List Char) : Prop :=
  ∃ before, text = before ++ rest ∧ byteLength before = pos

/-- A position with a character is below the length of the text. -/
theorem Text.From.lt {text rest : List Char} {pos : Nat} {c : Char}
    (h : Text.From text pos (c :: rest)) : pos < byteLength text := by
  obtain ⟨before, rfl, rfl⟩ := h
  have := c.utf8Size_pos
  rw [byteLength_append, byteLength_cons]
  omega

theorem Text.From.drop {text part rest : List Char} {pos : Nat}
    (h : Text.From text pos (part ++ rest)) : Text.From text (pos + byteLength part) rest := by
  obtain ⟨before, rfl, rfl⟩ := h
  exact ⟨before ++ part, by simp, byteLength_append ..⟩

/-- The text opens a string and does not close it: by a quote, or as `X'1F` does. -/
inductive Lexeme.OpensString (d : Dialect) : List Char → Prop
  | quote {q : Char} {cs : List Char} (hq : quoted? d q = some .chars)
    (hopen : upToQuote? q d.backslashEscapes cs = none) : OpensString d (q :: cs)
  | hex {x : Char} {digits : List Char} (hx : x = 'x' ∨ x = 'X')
    (hdigits : ∀ c ∈ digits, isHexDigit c = true) : OpensString d (x :: '\'' :: digits)

/-- The error is found in the text: an unexpected character is the one at its position, and
    what is left open is opened there. In the place of a digit that is missing at the end of
    the text there is a space. -/
def LexicalError.PointsAt (d : Dialect) (text : List Char) : LexicalError → Prop
  | unexpectedChar c pos => ∃ rest, Text.From text pos (c :: rest)
  | unterminatedString pos => pos < byteLength text ∧
    ∃ rest, Text.From text pos rest ∧ Lexeme.OpensString d rest
  | unterminatedName pos => pos < byteLength text ∧
    ∃ q rest, Text.From text pos (q :: rest) ∧ Lexeme.quoted? d q = some .identifier ∧
      Lexeme.upToQuote? q false rest = none
  | unterminatedComment pos => pos < byteLength text ∧
    ∃ rest, Text.From text pos ('/' :: '*' :: rest) ∧ ¬['*', '/'] <:+: rest
  | invalidHexDigit c pos =>
    (∃ rest, Text.From text pos (c :: rest) ∧ Lexeme.isHexDigit c = false) ∨
      (c = ' ' ∧ pos = byteLength text)

/-! ## Where no token can be read -/

namespace Lexeme

variable {d : Dialect} {dict : Dictionary} {text cs : List Char} {pos : Nat} {e : LexicalError}

theorem quotation_error (htext : Text.From text pos cs)
    (h : quotation d dict pos cs = some (.error e)) : e.PointsAt d text := by
  cases cs with
  | nil => cases h
  | cons c cs =>
    obtain ⟨cls, hq, h⟩ := Option.map_eq_some_iff.1 h
    split at h
    case h_1 => cases h
    case h_2 hopen =>
      obtain rfl := Except.error.inj h
      rcases (quoted?_eq_some hq).2 with rfl | rfl
      · exact ⟨htext.lt, c :: cs, htext, .quote hq (by simpa using hopen)⟩
      · exact ⟨htext.lt, c, cs, htext, hq, by simpa using hopen⟩

/-- An `x` takes a single byte. -/
theorem utf8Size_of_x {x : Char} (h : x = 'x' ∨ x = 'X') : x.utf8Size = 1 := by
  rcases h with rfl | rfl <;> rfl

/-- Hexadecimal digits take single bytes. -/
theorem byteLength_digits (cs : List Char) :
    byteLength (cs.takeWhile isHexDigit) = (cs.takeWhile isHexDigit).length := by
  rw [← Text.length_bytes, Text.bytes_of_ascii]
  exact fun c hc => not_wide_of_isHexDigit (List.all_eq_true.1 List.all_takeWhile c hc)

/-- What is behind the digits is no digit, or else the text has ended. -/
theorem invalidHexDigit_pointsAt (htext : Text.From text pos cs)
    (hnone : cs.takeWhile isHexDigit = []) :
    (LexicalError.invalidHexDigit (cs.head?.getD ' ') pos).PointsAt d text := by
  cases cs with
  | nil =>
    obtain ⟨before, rfl, rfl⟩ := htext
    exact .inr ⟨rfl, by simp⟩
  | cons c cs =>
    refine .inl ⟨cs, htext, ?_⟩
    simpa [List.takeWhile_cons] using hnone

theorem hexNumber_error (htext : Text.From text pos cs)
    (h : hexNumber d dict pos cs = some (.error e)) : e.PointsAt d text := by
  unfold hexNumber at h
  split at h
  case h_2 => cases h
  case h_1 x cs =>
    simp only [Bool.or_eq_true, decide_eq_true_eq] at h
    split_ifs at h with hx hdigits
    · obtain rfl := Except.error.inj (Option.some.inj h)
      have hbehind : Text.From text (pos + byteLength ['0', x]) cs := htext.drop
      have hlength : byteLength ['0', x] = 2 := by simp [utf8Size_of_x hx]; rfl
      exact invalidHexDigit_pointsAt (hlength ▸ hbehind) (List.isEmpty_iff.1 hdigits)
    · cases h

theorem hexString_error (htext : Text.From text pos cs)
    (h : hexString d dict pos cs = some (.error e)) : e.PointsAt d text := by
  unfold hexString at h
  split at h
  case h_2 => cases h
  case h_1 x cs =>
    simp only [Bool.or_eq_true, decide_eq_true_eq] at h
    split_ifs at h with hx
    have hcs := List.takeWhile_append_dropWhile (p := isHexDigit) (l := cs)
    have hnot := List.head?_dropWhile_not isHexDigit cs
    split at h
    case h_1 => cases h
    case h_2 c rest _ hrest =>
      obtain rfl := Except.error.inj (Option.some.inj h)
      rw [hrest] at hcs hnot
      have htext : Text.From text pos (([x, '\''] ++ cs.takeWhile isHexDigit) ++ c :: rest) := by
        simpa [hcs] using htext
      have hlength : byteLength ([x, '\''] ++ cs.takeWhile isHexDigit) =
          2 + (cs.takeWhile isHexDigit).length := by
        simp only [Text.byteLength_append, Text.byteLength_cons, Text.byteLength_nil,
          utf8Size_of_x hx, byteLength_digits]
        rfl
      refine .inl ⟨rest, ?_, by simpa using hnot⟩
      have hbehind := htext.drop
      rwa [hlength, ← Nat.add_assoc] at hbehind
    case h_3 hrest =>
      obtain rfl := Except.error.inj (Option.some.inj h)
      refine ⟨htext.lt, x :: '\'' :: cs, htext, .hex hx fun c hc => ?_⟩
      rw [hrest, List.append_nil] at hcs
      exact List.all_eq_true.1 (hcs ▸ List.all_takeWhile) c hc

theorem variableName_ne_error : variableName d dict pos cs ≠ some (.error e) := by
  unfold variableName
  split
  · split_ifs
    · simp
    · simp
  · simp

theorem number_ne_error : number d dict pos cs ≠ some (.error e) := by
  unfold number
  dsimp only
  split_ifs
  · simp
  · simp
  · simp

theorem word_ne_error : word d dict pos cs ≠ some (.error e) := by
  unfold word
  split
  · split_ifs
    · simp
    · simp
  · simp

theorem symbol_ne_error : symbol d dict pos cs ≠ some (.error e) := by
  simp [symbol]

/-- Only quotations and hexadecimal numbers can be left unfinished. -/
theorem read_error {c : Char} (htext : Text.From text pos (c :: cs))
    (h : read d dict pos c cs = .error e) : e.PointsAt d text := by
  rw [read, Option.getD_eq_iff] at h
  rcases h with h | ⟨_, h⟩
  · obtain ⟨rule, hrule, h⟩ := List.exists_of_findSome?_eq_some h
    simp only [rules, List.mem_cons, List.not_mem_nil, or_false] at hrule
    rcases hrule with rfl | rfl | rfl | rfl | rfl | rfl | rfl
    · exact quotation_error htext h
    · exact hexNumber_error htext h
    · exact hexString_error htext h
    · exact absurd h variableName_ne_error
    · exact absurd h number_ne_error
    · exact absurd h word_ne_error
    · exact absurd h symbol_ne_error
  · obtain rfl := Except.error.inj h
    exact ⟨cs, htext⟩

end Lexeme

namespace Gap

variable {d : Dialect} {text cs : List Char} {pos : Nat} {e : LexicalError}

/-- A comment that is not closed has no `*/`. -/
theorem upToClose?_eq_none (h : upToClose? cs = none) : ¬['*', '/'] <:+: cs := by
  fun_induction upToClose? cs with
  | case1 => cases h
  | case2 c cs hc ih =>
    intro hinfix
    rcases List.infix_cons_iff.1 hinfix with ⟨rest, hrest⟩ | hinfix
    · obtain ⟨rfl, rfl⟩ := List.cons.inj hrest
      exact hc rest rfl rfl
    · exact ih (Option.map_eq_none_iff.1 h) hinfix
  | case3 => simp

/-- A gap breaks off only in a comment. -/
theorem skip_error (htext : Text.From text pos cs) (h : skip d .blank pos cs = .error e) :
    e.PointsAt d text := by
  induction hn : cs.length using Nat.strongRecOn generalizing pos cs with
  | _ n ih =>
  subst hn
  cases cs with
  | nil =>
    rw [skip] at h
    cases h
  | cons c ds =>
    by_cases hline : OpensLine d c ds
    · rw [skip_of_opensLine hline] at h
      have hsize : c.utf8Size = 1 := by rcases hline with ⟨rfl, _⟩ | ⟨rfl, _⟩ <;> rfl
      refine ih _ (Nat.lt_succ_of_le (List.dropWhile_suffix _).length_le) ?_ h rfl
      have hline : Text.From text pos
          ((c :: ds.takeWhile (· ≠ '\n')) ++ ds.dropWhile (· ≠ '\n')) := by
        simpa using htext
      have hbehind := hline.drop
      rwa [Text.byteLength_cons, hsize, ← Nat.add_assoc] at hbehind
    · by_cases hblock : c = '/' ∧ ds.head? = some '*'
      · obtain ⟨rfl, hhead⟩ := hblock
        obtain ⟨es, rfl⟩ := List.head?_eq_some_iff.1 hhead
        rw [skip, skip_block] at h
        cases hbody : upToClose? es with
        | none =>
          simp only [hbody] at h
          obtain rfl := Except.error.inj h
          exact ⟨htext.lt, es, htext, upToClose?_eq_none hbody⟩
        | some body =>
          obtain ⟨rest, rfl⟩ := upToClose?_eq_some hbody
          simp only [hbody, List.drop_left] at h
          refine ih _ (by simp; omega) ?_ h rfl
          have hbehind : Text.From text pos ((['/', '*'] ++ body) ++ rest) := htext
          have hbehind := hbehind.drop
          rwa [Text.byteLength_append, ← Nat.add_assoc] at hbehind
      · rw [skip_of_not_opens hline hblock] at h
        split_ifs at h with hc
        refine ih _ (Nat.lt_succ_self _) ?_ h rfl
        have hbehind : Text.From text (pos + byteLength [c]) ds := htext.drop
        rwa [Text.byteLength_cons, utf8Size_of_isAsciiBlank hc] at hbehind

end Gap

/-- The stream of a text breaks off where its error points at. -/
theorem TokenStream.read_failure {d : Dialect} {dict : Dictionary} {text cs : List Char}
    {n pos : Nat} {e : LexicalError} (htext : Text.From text pos cs)
    (h : (read d dict n pos cs).failure = some e) : e.PointsAt d text := by
  induction n generalizing pos cs with
  | zero => cases h
  | succ n ih =>
    rw [read] at h
    split at h
    case h_1 e' hgap =>
      obtain rfl := Option.some.inj h
      exact Gap.skip_error htext hgap
    case h_2 => cases h
    case h_3 pos' c cs' hgap =>
      obtain ⟨gap, rfl, rfl⟩ := Gap.skip_eq_ok hgap
      have htext : Text.From text (pos + byteLength gap) (c :: cs') := htext.drop
      split at h
      case h_1 e' hlexeme =>
        obtain rfl := Option.some.inj h
        exact Lexeme.read_error htext hlexeme
      case h_2 l hlexeme =>
        obtain ⟨rest, hrest⟩ := (Lexeme.read_opens hlexeme).spelled
        rw [← hrest, List.drop_left] at h
        exact ih (hrest ▸ htext).drop h

theorem TokenStream.ofText_failure {d : Dialect} {text : List Char} {e : LexicalError}
    (h : (ofText d text).failure = some e) : e.PointsAt d text :=
  read_failure ⟨[], rfl, rfl⟩ h

/-! ## Tokens that are refused -/

/-- The error is about the text: it points at a place there, or tells a token of the stream that
    does not fit. -/
def ParseError.PointsAt (d : Dialect) (text : List Char) : ParseError → Prop
  | lexical e => e.PointsAt d text
  | unexpectedToken kind literal position =>
    (∃ t ∈ (TokenStream.ofText d text).tokens,
      t.kind = kind ∧ t.literal = literal ∧ t.start = position) ∧
    (position = byteLength text ↔ kind = .endOfText) ∧
    -- The literal of a string is behind its quote.
    ∃ rest, Text.From text (if kind = .literal .chars then position + 1 else position)
      (literal.toList ++ rest)
  | unmatchedToken expected actual literal => expected ≠ actual ∧
    ∃ t ∈ (TokenStream.ofText d text).tokens, t.kind = actual ∧ t.literal = literal
  | unsupportedToken kind => ∃ t ∈ (TokenStream.ofText d text).tokens, t.kind = kind
  | unsupported _ => True
  | fault _ => False

/-- From the start of a token on, for a string from behind its quote, the text is its literal. -/
theorem Token.Spans.from {text : List Char} {t : Token} (h : t.Spans text) :
    ∃ rest, Text.From text (if t.kind = .literal .chars then t.start + 1 else t.start)
      (t.literal.toList ++ rest) := by
  split
  case isTrue hchars =>
    obtain ⟨q, hq, hslice⟩ := h.quoted hchars
    obtain ⟨before, after, htext, hstart, _⟩ := Text.slice?_eq_some_iff.1 hslice
    have hsize : q.utf8Size = 1 := by rcases hq with rfl | rfl <;> rfl
    refine ⟨q :: after, before ++ [q], by simp [htext], ?_⟩
    rw [Text.byteLength_append, hstart, Text.byteLength_cons, hsize]
    rfl
  case isFalse hchars =>
    obtain ⟨before, after, htext, hstart, _⟩ := Text.slice?_eq_some_iff.1 (h.verbatim hchars)
    exact ⟨after, before, by simp [htext], hstart⟩

/-- A token starts at the end of the text exactly if it is the one there. -/
theorem Token.start_eq_byteLength_iff {text : List Char} {t : Token} (hspans : t.Spans text)
    (hat : t.At text) : t.start = byteLength text ↔ t.kind = .endOfText := by
  refine ⟨fun hstart => ?_, fun hkind => (hspans.final hkind).1⟩
  refine Decidable.byContradiction fun hkind => ?_
  have hlt := hspans.start_lt hkind
  have hle := hat.boundaries.2.1.le
  omega

theorem TokenStream.ofText_spans (d : Dialect) (text : List Char) :
    ∀ t ∈ (ofText d text).tokens, t.Spans text :=
  (read_tiles (show text = [] ++ text from rfl)).spans

/-- The cursor of a text stands in its stream. -/
theorem Cursor.failure_of_ofText {database : Database} {d : Dialect} {text : String} {c : Cursor}
    (h : ofText database d text = .ok c) :
    c.failure = (TokenStream.ofText d text.toList).failure := by
  unfold ofText at h
  dsimp only at h
  split at h
  case h_1 => exact Except.ok.inj h ▸ rfl
  case h_2 => cases h
  case h_3 _ hfailure => exact Except.ok.inj h ▸ hfailure.symm

/-- A text without a cursor has no tokens, only an error. -/
theorem Cursor.failure_of_ofText_error {database : Database} {d : Dialect} {text : String}
    {e : LexicalError} (h : ofText database d text = .error e) :
    (TokenStream.ofText d text.toList).failure = some e := by
  unfold ofText at h
  dsimp only at h
  split at h
  case h_1 => cases h
  case h_2 _ hfailure => exact Except.error.inj h ▸ hfailure
  case h_3 => cases h

/-- What may be refused at a cursor that stands in the stream of the text points at the text. -/
theorem Cursor.Refuses.pointsAt {d : Dialect} {text : List Char} {c : Cursor} {e : ParseError}
    (h : c.Refuses e) (htokens : c.tokens <:+ (TokenStream.ofText d text).tokens)
    (hfailure : c.failure = (TokenStream.ofText d text).failure) : e.PointsAt d text := by
  have hmem : c.current ∈ (TokenStream.ofText d text).tokens :=
    htokens.subset (List.mem_cons_self ..)
  cases h with
  | lexical hnext =>
    exact TokenStream.ofText_failure (hfailure ▸ failure_of_next_error hnext)
  | unexpected =>
    have hspans := TokenStream.ofText_spans d text _ hmem
    have hat := (TokenStream.ofText_sorted d text).1 _ hmem
    exact ⟨⟨c.current, hmem, rfl, rfl, rfl⟩, Token.start_eq_byteLength_iff hspans hat, hspans.from⟩
  | unmatched hne => exact ⟨hne, c.current, hmem, rfl, rfl⟩
  | unsupportedToken => exact ⟨c.current, hmem, rfl⟩
  | unsupported => trivial

/-- A parser that fails has refused something at a cursor behind the one it started on. -/
theorem Safe.refuses {κ α : Type} {text : List Char} {p : Parser κ α} (hp : Safe text p)
    {s s' : ParseState κ} (hs : s.cursor.Stands text) {e : ParseError} (h : p s = .error e s') :
    s.cursor.Behind text s'.cursor ∧ s'.cursor.Refuses e := by
  have hsafe := hp s hs
  rw [SafeAt, h] at hsafe
  exact ⟨hsafe.1.behind, hsafe.2⟩

theorem Statement.pointsAt_of_ofParser {κ : Type} [Inhabited κ] {database : Database} {d : Dialect}
    {text : String} {parser : Parser κ Unit} (hp : Safe text.toList parser)
    {f : Body κ → Statement} {c : Cursor} (hc : Cursor.ofText database d text = .ok c)
    {e : ParseError} (h : (ofParser parser f c).1 = .error e) : e.PointsAt d text.toList := by
  rw [ofParser] at h
  cases hrun : parser (ParseState.start c) with
  | ok u s =>
    rw [hrun] at h
    cases h
  | error e' s =>
    rw [hrun] at h
    obtain rfl := Except.error.inj h
    obtain ⟨hbehind, hrefuses⟩ := hp.refuses (Cursor.stands_of_ofText hc) hrun
    have htokens : s.cursor.tokens <:+ c.tokens := hbehind.tokens_suffix
    rw [(Cursor.ofText_eq_ok hc).1] at htokens
    exact hrefuses.pointsAt htokens (hbehind.failure_eq.trans (Cursor.failure_of_ofText hc))

/-- *Errors point at the text.* Whenever a text is refused, an unexpected token is one of the
    stream, with its kind and literal, at the position where it starts; the text goes on there with
    the literal, for a string behind its quote, and the position is the length of the text exactly
    if the token is the one at its end. A token that does not match is one of the stream and of
    another kind than the one asked for. What is left open is opened by the character that the
    error points at, and an unexpected character or digit is the one in the text, or a space in the
    place of a digit that is missing at the end of the text. -/
theorem parse_errors {database : Database} {d : Dialect} {text : String} {e : ParseError}
    (h : Statement.parse database d text = .error e) : e.PointsAt d text.toList := by
  rw [Statement.parse, Statement.parseTraced] at h
  cases hc : Cursor.ofText database d text with
  | error cause =>
    rw [hc] at h
    obtain rfl := Except.error.inj h
    exact TokenStream.ofText_failure (Cursor.failure_of_ofText_error hc)
  | ok c =>
    rw [hc] at h
    have h : (Statement.ofCursor c).1 = .error e := h
    rw [Statement.ofCursor] at h
    split at h
    case h_1 => exact Statement.pointsAt_of_ofParser Grammar.select_safe hc h
    case h_2 => exact Statement.pointsAt_of_ofParser Grammar.insert_safe hc h
    case h_3 => exact Statement.pointsAt_of_ofParser Grammar.update_safe hc h
    case h_4 => exact Statement.pointsAt_of_ofParser Grammar.delete_safe hc h
    case h_5 =>
      obtain rfl := Except.error.inj h
      refine ⟨c.current, ?_, rfl⟩
      exact (Cursor.ofText_eq_ok hc).1 ▸ List.mem_cons_self ..

/-- A string stands behind its quote, and positions are those of bytes. -/
theorem parse_errors_string :
    Statement.parse .mySql .mySql "SELECT 'é' FROM t LIMIT 5, 'x'" =
      .error (.unexpectedToken (.literal .chars) "x" 28) ∧
    (ParseError.unexpectedToken (.literal .chars) "x" 28).PointsAt .mySql
      "SELECT 'é' FROM t LIMIT 5, 'x'".toList := by
  have hparse : Statement.parse .mySql .mySql "SELECT 'é' FROM t LIMIT 5, 'x'" =
      .error (.unexpectedToken (.literal .chars) "x" 28) := by decide +kernel
  exact ⟨hparse, parse_errors hparse⟩

end SqlRouting
