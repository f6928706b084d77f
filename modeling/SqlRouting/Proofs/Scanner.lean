import SqlRouting.Proofs.TokenStream
import SqlRouting.Scanner

/-!
# Scanning finds the token stream

A scanner reads the bytes of a text as `Lexeme` and `Gap` read its characters. Each rule, and each
part of one, gives the same on both: all it looks for is in ASCII, and a byte of a character outside
of ASCII is never taken for that. The only step that may lead into the middle of a character is that
over a backslash and the byte behind it, and from there the search for a quote goes on through the
rest of that character (`upToQuote?_append_of_wide`). So a scanner finds the tokens of the stream
and the same lexical errors, and whatever it cuts out of the text lies between two characters
(`Scanner.tokens_eq`).
-/

namespace SqlRouting

open Text (bytes byteLength Wide Uniform bytes_cases)

/-! ## Characters that are looked for -/

namespace Lexeme

theorem not_wide_of_isDigit {c : Char} (h : c.isDigit = true) : ¬Wide c := by
  simp only [Char.isDigit, Bool.and_eq_true, decide_eq_true_eq, UInt32.le_iff_toNat_le] at h
  have : c.val.toNat ≤ 57 := h.2
  show ¬128 ≤ c.val.toNat
  omega

theorem not_wide_of_isHexDigit {c : Char} (h : isHexDigit c = true) : ¬Wide c := by
  simp only [isHexDigit, Bool.or_eq_true, Bool.and_eq_true, decide_eq_true_eq] at h
  rcases h with (h | h) | h
  · exact not_wide_of_isDigit h
  · have : c.toNat ≤ 102 := UInt32.le_iff_toNat_le.1 h.2
    show ¬128 ≤ c.toNat
    omega
  · have : c.toNat ≤ 70 := UInt32.le_iff_toNat_le.1 h.2
    show ¬128 ≤ c.toNat
    omega

theorem startsWord_of_wide {c : Char} (h : Wide c) : startsWord c = true := by
  simp [startsWord, show 0x80 ≤ c.toNat from h]

theorem continuesWord_of_wide {c : Char} (h : Wide c) : continuesWord c = true := by
  simp [continuesWord, show 0x80 ≤ c.toNat from h]

/-- A word goes on with any character that it may start with. -/
theorem continuesWord_of_startsWord {c : Char} (h : startsWord c = true) :
    continuesWord c = true := by
  simp only [startsWord, Bool.or_eq_true] at h
  rcases h with ((h | h) | h) | h <;> simp [continuesWord, Char.isAlphanum, h]

theorem toUpper_of_wide {c : Char} (h : Wide c) : c.toUpper = c := by
  refine dif_neg ?_
  rintro ⟨_, hz⟩
  have : c.toNat ≤ 122 := UInt32.le_iff_toNat_le.1 hz
  have : 128 ≤ c.toNat := h
  omega

theorem uniform_isDigit : Uniform Char.isDigit :=
  .of_ascii fun _ hc => Bool.eq_false_iff.2 fun h => not_wide_of_isDigit h hc

theorem uniform_isHexDigit : Uniform isHexDigit :=
  .of_ascii fun _ hc => Bool.eq_false_iff.2 fun h => not_wide_of_isHexDigit h hc

theorem uniform_startsWord : Uniform startsWord :=
  fun _ _ hc hd => (startsWord_of_wide hc).trans (startsWord_of_wide hd).symm

theorem uniform_continuesWord : Uniform continuesWord :=
  fun _ _ hc hd => (continuesWord_of_wide hc).trans (continuesWord_of_wide hd).symm

/-- A character outside of ASCII is none of ASCII. -/
theorem ne_of_wide {c a : Char} (hc : Wide c) (ha : ¬Wide a) : c ≠ a :=
  fun h => ha (h ▸ hc)

theorem quoted?_of_wide {d : Dialect} {c : Char} (hc : Wide c) : quoted? d c = none := by
  simp [quoted?, ne_of_wide hc (by decide : ¬Wide '\''), ne_of_wide hc (by decide : ¬Wide '"'),
    ne_of_wide hc (by decide : ¬Wide '\x60')]

/-! ## Parts of lexemes -/

variable {quote : Char} {escapes : Bool} {cs : List Char}

/-- What is neither a quote nor a backslash that escapes is passed. -/
theorem upToQuote?_cons_of_ne {c : Char} (hquote : c ≠ quote)
    (hescape : ¬(c = '\\' && escapes) = true) (cs : List Char) :
    upToQuote? quote escapes (c :: cs) = (upToQuote? quote escapes cs).map (c :: ·) := by
  cases cs with
  | nil => simp [upToQuote?, hquote]
  | cons d cs => rw [upToQuote?, if_neg hescape, if_neg hquote]

/-- A quote that stands alone is the last one. -/
theorem upToQuote?_quote (hescape : ¬(quote = '\\' && escapes) = true)
    (hcs : cs.head? ≠ some quote) : upToQuote? quote escapes (quote :: cs) = some [quote] := by
  cases cs with
  | nil => simp [upToQuote?]
  | cons d cs =>
    have hd : d ≠ quote := by simpa using hcs
    rw [upToQuote?, if_neg hescape, if_pos rfl, if_neg hd]

/-- Nothing outside of ASCII is a quote or a backslash. -/
theorem upToQuote?_append_of_wide (hquote : ¬Wide quote) {bs : List Char} (hbs : ∀ b ∈ bs, Wide b)
    (cs : List Char) :
    upToQuote? quote escapes (bs ++ cs) = (upToQuote? quote escapes cs).map (bs ++ ·) := by
  induction bs with
  | nil => simp
  | cons b bs ih =>
    rw [List.forall_mem_cons] at hbs
    have hescape : ¬(b = '\\' && escapes) = true := by
      simp [ne_of_wide hbs.1 (by decide : ¬Wide '\\')]
    rw [List.cons_append, upToQuote?_cons_of_ne (ne_of_wide hbs.1 hquote) hescape, ih hbs.2,
      Option.map_map]
    rfl

/-- Behind a backslash a character is passed, of which the backslash only hides the first byte. -/
theorem upToQuote?_escape (hquote : ¬Wide quote) (d : Char) (bs : List Char) :
    upToQuote? quote true ('\\' :: (Text.octets d ++ bs)) =
      (upToQuote? quote true bs).map (('\\' :: Text.octets d) ++ ·) := by
  by_cases hd : Wide d
  · obtain ⟨b, more, hoctets⟩ := Text.exists_octets d
    have hwide := Text.wide_octets hd
    rw [hoctets, List.forall_mem_cons] at hwide
    simp only [hoctets, List.cons_append, upToQuote?, decide_true, Bool.and_self, if_true]
    rw [upToQuote?_append_of_wide hquote hwide.2, Option.map_map]
    rfl
  · simp [Text.octets_of_not_wide hd, upToQuote?]

/-- The bytes of a character that is neither a quote nor a backslash that escapes are passed. -/
theorem upToQuote?_octets {c : Char} (hquote : ¬Wide quote) (hc : c ≠ quote)
    (hescape : ¬(c = '\\' && escapes) = true) (bs : List Char) :
    upToQuote? quote escapes (Text.octets c ++ bs) =
      (upToQuote? quote escapes bs).map (Text.octets c ++ ·) := by
  by_cases hw : Wide c
  · exact upToQuote?_append_of_wide hquote (Text.wide_octets hw) bs
  · rw [Text.octets_of_not_wide hw]
    exact upToQuote?_cons_of_ne hc hescape bs

/-- The search for a quote finds it among the bytes of the text. -/
theorem upToQuote?_bytes (hquote : ¬Wide quote) (cs : List Char) :
    upToQuote? quote escapes (bytes cs) = (upToQuote? quote escapes cs).map bytes := by
  have hoctets := Text.octets_of_not_wide hquote
  fun_induction upToQuote? quote escapes cs with
  | case1 => simp [upToQuote?]
  | case2 => simp [hoctets, upToQuote?]
  | case3 c hc =>
    by_cases hw : Wide c
    · rw [Text.bytes_cons, upToQuote?_append_of_wide hquote (Text.wide_octets hw)]
      simp [upToQuote?]
    · simp [Text.octets_of_not_wide hw, upToQuote?, hc]
  | case4 c d cs hescape ih =>
    obtain ⟨rfl, rfl⟩ : c = '\\' ∧ escapes = true := by simpa using hescape
    have hbackslash := Text.octets_of_not_wide (by decide : ¬Wide '\\')
    rw [Text.bytes_cons, hbackslash, Text.bytes_cons, List.cons_append, List.nil_append,
      upToQuote?_escape hquote, ih, Option.map_map, Option.map_map]
    congr 1
  | case5 cs hescape ih =>
    simp only [Text.bytes_cons, hoctets, List.cons_append, List.nil_append]
    rw [upToQuote?, if_neg hescape, if_pos rfl, if_pos rfl, ih, Option.map_map, Option.map_map]
    congr 1
    funext body
    simp [hoctets]
  | case6 d cs hd hescape =>
    have hhead : (bytes (d :: cs)).head? ≠ some quote := by
      rw [Ne, Text.head?_bytes hquote]
      simpa using hd
    rw [Text.bytes_cons, hoctets, List.cons_append, List.nil_append,
      upToQuote?_quote hescape hhead]
    simp [hoctets]
  | case7 c d cs hescape hc ih =>
    rw [Text.bytes_cons, upToQuote?_octets hquote hc hescape, ih, Option.map_map, Option.map_map]
    rfl

/-! ## Parts of numbers -/

theorem fraction_bytes (cs : List Char) : fraction (bytes cs) = bytes (fraction cs) := by
  have hdot := Text.octets_of_not_wide (by decide : ¬Wide '.')
  rcases bytes_cases cs with
    rfl | ⟨c, ds, hc, rfl, hbytes⟩ | ⟨c, ds, b, bs, hc, rfl, _, hb, _, hbytes⟩
  · rfl
  · rw [hbytes]
    by_cases hpoint : c = '.'
    · subst hpoint
      simp [fraction, hdot, Text.takeWhile_bytes uniform_isDigit]
    · simp [fraction, hpoint]
  · rw [hbytes]
    simp [fraction, ne_of_wide hb (by decide : ¬Wide '.'), ne_of_wide hc (by decide : ¬Wide '.')]

theorem sign_bytes (cs : List Char) : sign (bytes cs) = sign cs := by
  rcases bytes_cases cs with
    rfl | ⟨c, ds, hc, rfl, hbytes⟩ | ⟨c, ds, b, bs, hc, rfl, _, hb, _, hbytes⟩
  · rfl
  · rw [hbytes]
    rfl
  · rw [hbytes]
    simp [sign, ne_of_wide hb (by decide : ¬Wide '+'), ne_of_wide hb (by decide : ¬Wide '-'),
      ne_of_wide hc (by decide : ¬Wide '+'), ne_of_wide hc (by decide : ¬Wide '-')]

/-- A sign is a byte by itself. -/
theorem bytes_sign (cs : List Char) : bytes (sign cs) = sign cs := by
  cases cs with
  | nil => rfl
  | cons c cs =>
    rw [sign]
    split_ifs with h
    · refine Text.bytes_of_ascii fun a ha => ?_
      obtain rfl := List.mem_singleton.1 ha
      rw [Bool.or_eq_true, decide_eq_true_eq, decide_eq_true_eq] at h
      rcases h with rfl | rfl <;> decide
    · rfl

/-- The bytes behind those of a part of a text are those of the text behind it. -/
theorem drop_bytes {part cs rest : List Char} (h : cs = part ++ rest) :
    (bytes cs).drop (byteLength part) = bytes rest := by
  rw [h, Text.bytes_append, ← Text.length_bytes, List.drop_left]

theorem isEmpty_bytes (cs : List Char) : (bytes cs).isEmpty = cs.isEmpty := by
  rcases bytes_cases cs with
    rfl | ⟨c, ds, hc, rfl, hbytes⟩ | ⟨c, ds, b, bs, hc, rfl, _, hb, _, hbytes⟩
  · rfl
  · simp [hbytes]
  · rw [hbytes]
    rfl

theorem exponent_bytes (cs : List Char) : exponent (bytes cs) = bytes (exponent cs) := by
  rcases bytes_cases cs with
    rfl | ⟨c, ds, hc, rfl, hbytes⟩ | ⟨c, ds, b, bs, hc, rfl, _, hb, _, hbytes⟩
  · rfl
  · have hdrop : (bytes ds).drop (sign ds).length = bytes (ds.drop (sign ds).length) := by
      obtain ⟨rest, hrest⟩ : sign ds <+: ds := sign_prefix
      have hsign := bytes_sign ds
      generalize sign ds = part at hrest hsign
      rw [← hrest, List.drop_left, Text.bytes_append, hsign, List.drop_left]
    rw [hbytes]
    simp only [exponent, sign_bytes, hdrop, Text.takeWhile_bytes uniform_isDigit, isEmpty_bytes]
    split_ifs
    · simp [Text.octets_of_not_wide hc, bytes_sign]
    · rfl
  · rw [hbytes]
    simp [exponent, ne_of_wide hb (by decide : ¬Wide 'e'), ne_of_wide hb (by decide : ¬Wide 'E'),
      ne_of_wide hc (by decide : ¬Wide 'e'), ne_of_wide hc (by decide : ¬Wide 'E')]

/-! ## Parts of words and symbols -/

theorem head?_any_bytes {p : Char → Bool} (h : Uniform p) (cs : List Char) :
    (bytes cs).head?.any p = cs.head?.any p := by
  cases cs with
  | nil => rfl
  | cons c cs =>
    obtain ⟨b, bs, hoctets⟩ := Text.exists_octets c
    simpa [hoctets] using h.octets c b (by simp [hoctets])

theorem opensWithBy_bytes (cs : List Char) : Scanner.opensWithBy (bytes cs) = Scanner.opensWithBy cs := by
  have hupper {c : Char} (hc : Wide c) {a : Char} (ha : ¬Wide a) : c.toUpper ≠ a := by
    rw [toUpper_of_wide hc]
    exact ne_of_wide hc ha
  rcases bytes_cases cs with
    rfl | ⟨c, ds, _, rfl, hbytes⟩ | ⟨c, ds, b, bs, hc, rfl, _, hb, _, hbytes⟩
  · rfl
  · rw [hbytes]
    rcases bytes_cases ds with
      rfl | ⟨d, es, _, rfl, hbytes'⟩ | ⟨d, es, b, bs, hd, rfl, _, hb, _, hbytes'⟩
    · rfl
    · rw [hbytes']
      simp only [Scanner.opensWithBy, head?_any_bytes uniform_continuesWord]
    · rw [hbytes']
      simp [Scanner.opensWithBy, hupper hb (by decide : ¬Wide 'Y'), hupper hd (by decide : ¬Wide 'Y')]
  · rw [hbytes]
    have hb' := hupper hb (by decide : ¬Wide 'B')
    have hc' := hupper hc (by decide : ¬Wide 'B')
    generalize bs ++ bytes ds = rest
    cases rest <;> cases ds <;> simp [Scanner.opensWithBy, hb', hc']

/-- Symbols are written in ASCII. -/
theorem not_wide_of_mem_text (x : Symbol) : ∀ c ∈ x.text.toList, ¬Wide c := by
  cases x <;> simp [Symbol.text, Wide]

theorem starting?_bytes (cs : List Char) : Symbol.starting? (bytes cs) = Symbol.starting? cs := by
  simp only [Symbol.starting?, Text.isPrefixOf_bytes (not_wide_of_mem_text _)]

theorem isFollowedByBy_eq (cs : List Char) :
    isFollowedByBy cs = Scanner.opensWithBy (bytes (Text.trimStart cs)) := by
  rw [opensWithBy_bytes]
  rfl

end Lexeme

/-! ## Gaps -/

namespace Gap

variable {d : Dialect} {pos start : Nat} {cs body : List Char}

theorem upToClose?_eq_some (h : upToClose? cs = some body) : body <+: cs := by
  fun_induction upToClose? cs generalizing body with
  | case1 cs =>
    cases h
    exact ⟨cs, rfl⟩
  | case2 c cs _ ih =>
    obtain ⟨body', hbody, rfl⟩ := Option.map_eq_some_iff.1 h
    simpa using ih hbody
  | case3 => cases h

/-- What does not open like `*/` is passed. -/
theorem upToClose?_cons {c : Char} (h : c = '*' → cs.head? ≠ some '/') :
    upToClose? (c :: cs) = (upToClose? cs).map (c :: ·) := by
  rw [upToClose?]
  rintro rest rfl rfl
  exact h rfl rfl

theorem upToClose?_append_of_wide {bs : List Char} (hbs : ∀ b ∈ bs, Wide b) (cs : List Char) :
    upToClose? (bs ++ cs) = (upToClose? cs).map (bs ++ ·) := by
  induction bs with
  | nil => simp
  | cons b bs ih =>
    rw [List.forall_mem_cons] at hbs
    rw [List.cons_append, upToClose?_cons fun h => (Lexeme.ne_of_wide hbs.1 (by decide) h).elim,
      ih hbs.2, Option.map_map]
    rfl

theorem upToClose?_bytes (cs : List Char) : upToClose? (bytes cs) = (upToClose? cs).map bytes := by
  fun_induction upToClose? cs with
  | case1 cs =>
    simp [Text.octets_of_not_wide (by decide : ¬Wide '*'),
      Text.octets_of_not_wide (by decide : ¬Wide '/'), upToClose?]
  | case2 c cs h ih =>
    rw [Text.bytes_cons, Option.map_map]
    by_cases hc : Wide c
    · rw [upToClose?_append_of_wide (Text.wide_octets hc), ih, Option.map_map]
      rfl
    · have hhead : c = '*' → (bytes cs).head? ≠ some '/' := by
        rintro rfl hhead
        rw [Text.head?_bytes (by decide)] at hhead
        obtain ⟨rest, rfl⟩ := List.head?_eq_some_iff.1 hhead
        exact h rest rfl rfl
      rw [Text.octets_of_not_wide hc, List.cons_append, List.nil_append, upToClose?_cons hhead, ih,
        Option.map_map]
      congr 1
      funext body
      simp [Text.octets_of_not_wide hc]
  | case3 => rfl

/-- A comment goes on to the next `*/`. -/
theorem skip_block (cs : List Char) : skip d (.block start) pos cs =
    match upToClose? cs with
    | some body => skip d .blank (pos + byteLength body) (cs.drop body.length)
    | none => .error (.unterminatedComment start) := by
  fun_induction upToClose? cs generalizing pos with
  | case1 cs =>
    rw [skip]
    rfl
  | case2 c cs h ih =>
    rw [skip, ih]
    · cases upToClose? cs with
      | none => rfl
      | some body => simp [Nat.add_assoc]
    · exact h
  | case3 => rw [skip]

/-- A comment that ends with the line goes on to the next line break, which is a blank. -/
theorem skip_line (cs : List Char) : skip d .line pos cs =
    skip d .blank (pos + byteLength (cs.takeWhile (· ≠ '\n'))) (cs.dropWhile (· ≠ '\n')) := by
  induction cs generalizing pos with
  | nil => rw [skip]; rfl
  | cons c cs ih =>
    rw [skip]
    by_cases hc : c = '\n'
    · subst hc
      simp [skip, Text.isAsciiBlank]
      rfl
    · rw [if_neg hc, ih]
      simp [hc, Nat.add_assoc]

theorem uniform_notLineBreak : Uniform (· ≠ '\n') := by
  intro c d hc hd
  simp [Lexeme.ne_of_wide hc (by decide : ¬Wide '\n'),
    Lexeme.ne_of_wide hd (by decide : ¬Wide '\n')]

/-- The character opens a comment that ends with the line. -/
def OpensLine (d : Dialect) (c : Char) (cs : List Char) : Prop :=
  c = '-' ∧ cs.head? = some '-' ∨ c = '#' ∧ d.hashComments = true

/-- A comment that ends with the line is skipped from behind the character that opens it. -/
theorem skip_of_opensLine {c : Char} (h : OpensLine d c cs) : skip d .blank pos (c :: cs) =
    skip d .blank (pos + 1 + byteLength (cs.takeWhile (· ≠ '\n')))
      (cs.dropWhile (· ≠ '\n')) := by
  rcases h with ⟨rfl, hhead⟩ | ⟨rfl, hhash⟩
  · obtain ⟨rest, rfl⟩ := List.head?_eq_some_iff.1 hhead
    have hpos : ∀ n, pos + 1 + ('-'.utf8Size + n) = pos + 2 + n := by
      intro n
      rw [show '-'.utf8Size = 1 from rfl]
      omega
    rw [skip, skip_line]
    simp [hpos]
  · rw [skip, if_neg (by decide), if_pos (by simp [hhash]), skip_line]
    all_goals simp

/-- Anything else than a comment between tokens is a blank, or the gap stops there. -/
theorem skip_of_not_opens {c : Char} (hline : ¬OpensLine d c cs)
    (hblock : ¬(c = '/' ∧ cs.head? = some '*')) : skip d .blank pos (c :: cs) =
      if Text.isAsciiBlank c then skip d .blank (pos + 1) cs else .ok (pos, c :: cs) := by
  rw [OpensLine, not_or] at hline
  rw [skip]
  · split_ifs with hblank hhash
    · rfl
    · exact absurd (by simpa using hhash) hline.2
    · rfl
  · rintro rest rfl rfl
    exact hline.1 ⟨rfl, rfl⟩
  · rintro rest rfl rfl
    exact hblock ⟨rfl, rfl⟩

end Gap

namespace Scanner

/-- A scanner skips the gaps of the token stream. -/
theorem skipGap_bytes (d : Dialect) (pos : Nat) (cs : List Char) :
    skipGap d pos (bytes cs) = (Gap.skip d .blank pos cs).map Prod.fst := by
  induction hn : cs.length using Nat.strongRecOn generalizing pos cs with
  | _ n ih =>
  subst hn
  rcases bytes_cases cs with
    rfl | ⟨c, ds, hc, rfl, hbytes⟩ | ⟨c, ds, b, bs, hc, rfl, _, hb, _, hbytes⟩
  · rw [Text.bytes_nil, skipGap, Gap.skip]
    rfl
  · rw [hbytes, skipGap]
    simp only [Text.head?_bytes (by decide : ¬Wide '-'), Text.head?_bytes (by decide : ¬Wide '*')]
    split_ifs with hblank hline hblock
    · have hline : ¬Gap.OpensLine d c ds := by
        rintro (⟨rfl, _⟩ | ⟨rfl, _⟩) <;> exact absurd hblank (by decide)
      have hblock : ¬(c = '/' ∧ ds.head? = some '*') := by
        rintro ⟨rfl, _⟩
        exact absurd hblank (by decide)
      rw [Gap.skip_of_not_opens hline hblock, if_pos hblank]
      exact ih _ (Nat.lt_succ_self _) _ _ rfl
    · have hline' : Gap.OpensLine d c ds := by simpa [Gap.OpensLine] using hline
      rw [Gap.skip_of_opensLine hline', Text.takeWhile_bytes Gap.uniform_notLineBreak,
        Text.length_bytes, Lexeme.drop_bytes List.takeWhile_append_dropWhile.symm]
      exact ih _ (Nat.lt_succ_of_le (List.dropWhile_suffix _).length_le) _ _ rfl
    · obtain ⟨rfl, hhead⟩ : c = '/' ∧ ds.head? = some '*' := by simpa using hblock
      obtain ⟨es, rfl⟩ := List.head?_eq_some_iff.1 hhead
      have hstar : (bytes ('*' :: es)).drop 1 = bytes es := by
        simp [Text.octets_of_not_wide (by decide : ¬Wide '*')]
      rw [Gap.skip, Gap.skip_block, hstar, Gap.upToClose?_bytes]
      cases hbody : Gap.upToClose? es with
      | none => rfl
      | some body =>
        obtain ⟨rest, rfl⟩ := Gap.upToClose?_eq_some hbody
        simp only [Option.map_some]
        rw [← List.drop_drop, hstar, Text.length_bytes, Lexeme.drop_bytes rfl, List.drop_left]
        exact ih _ (by simp; omega) _ _ rfl
    · have hline' : ¬Gap.OpensLine d c ds := by simpa [Gap.OpensLine] using hline
      have hblock' : ¬(c = '/' ∧ ds.head? = some '*') := by simpa using hblock
      rw [Gap.skip_of_not_opens hline' hblock', if_neg hblank]
      rfl
  -- A character outside of ASCII is neither a blank nor the start of a comment.
  · have hnone {a : Char} (ha : Wide a) (as : List Char) : Text.isAsciiBlank a = false ∧
        ¬Gap.OpensLine d a as ∧ ¬(a = '/' ∧ as.head? = some '*') := by
      refine ⟨?_, ?_, ?_⟩
      · refine Bool.eq_false_iff.2 fun h => ?_
        simp only [Text.isAsciiBlank, Bool.or_eq_true, decide_eq_true_eq] at h
        rcases h with (((rfl | rfl) | rfl) | rfl) | rfl <;> exact absurd ha (by decide)
      · rintro (⟨rfl, _⟩ | ⟨rfl, _⟩) <;> exact absurd ha (by decide)
      · rintro ⟨rfl, _⟩
        exact absurd ha (by decide)
    obtain ⟨hblank, hline, hblock⟩ := hnone hc ds
    obtain ⟨hblank', hline', hblock'⟩ := hnone hb (bs ++ bytes ds)
    rw [Gap.skip_of_not_opens hline hblock, hbytes, skipGap, hblank, hblank', if_neg (by decide),
      if_neg (by simpa [Gap.OpensLine] using hline'), if_neg (by simpa using hblock')]
    rfl

/-! ## Cuts -/

/-- What a scanner makes of what is read at a position. -/
def outcome (pos : Nat) : Except LexicalError Lexeme → Except ParseError Token
  | .ok l => .ok (l.toToken pos)
  | .error e => .error (.lexical e)

section

variable {s : Scanner} {before cs part : List Char}

theorem length_eq (s : Scanner) : s.length = byteLength s.text :=
  Text.length_bytes _

theorem bytesFrom_eq (h : s.text = before ++ cs) :
    s.bytesFrom (byteLength before) = bytes cs :=
  Lexeme.drop_bytes h

/-- What stands in the text can be cut out of it. -/
theorem cut_eq {start stop : Nat} {after : List Char} (h : s.text = before ++ part ++ after)
    (hstart : start = byteLength before) (hstop : stop = byteLength before + byteLength part) :
    s.cut start stop = .ok part := by
  rw [cut, Text.slice?_eq_some_iff.2 ⟨before, after, h, hstart.symm, hstop.symm⟩]

theorem charAt_eq (h : s.text = before ++ cs) {pos : Nat} (hpos : pos = byteLength before) :
    s.charAt pos = .ok (cs.head?.getD ' ') := by
  have hcut : s.cutFrom pos = .ok cs :=
    cut_eq (show s.text = before ++ cs ++ [] by simpa using h) hpos
      (by rw [length_eq, h, Text.byteLength_append])
  rw [charAt, hcut]
  rfl

/-- A token that is no string is what stands between its two positions. -/
theorem token_eq {kind : TokenKind} {start stop : Nat} (h : s.text = before ++ cs)
    (hpart : part <+: cs) (hkind : kind ≠ .literal .chars) (hstart : start = byteLength before)
    (hstop : stop = byteLength before + byteLength part) :
    s.token kind start stop = .ok (Lexeme.toToken ⟨kind, part⟩ (byteLength before)) := by
  obtain ⟨after, rfl⟩ := hpart
  rw [token, cut_eq (by simpa using h) hstart hstop]
  simp [Lexeme.toToken, Lexeme.literal, hkind, hstop, bind, Except.bind, pure, Except.pure]

end

/-! ## Rules -/

section

variable {s : Scanner} {before cs : List Char} (h : s.text = before ++ cs)

include h

theorem quotation_eq : quotation s (byteLength before) (bytes cs) =
    (Lexeme.quotation s.dialect s.dictionary (byteLength before) cs).map
      (outcome (byteLength before)) := by
  rcases bytes_cases cs with
    rfl | ⟨c, ds, hc, rfl, hbytes⟩ | ⟨c, ds, b, bs, hc, rfl, _, hb, _, hbytes⟩
  · rfl
  · rw [hbytes]
    simp only [quotation, Lexeme.quotation, Lexeme.upToQuote?_bytes hc, Option.map_map]
    cases hquoted : Lexeme.quoted? s.dialect c with
    | none => rfl
    | some cls =>
      have hsize := (Lexeme.quoted?_eq_some hquoted).1
      simp only [Option.map_some, Function.comp_apply, Option.some.injEq]
      cases hbody : Lexeme.upToQuote? c (cls = .chars && s.dialect.backslashEscapes) ds with
      | none => rfl
      | some body =>
        obtain ⟨⟨rest, rfl⟩, inside, rfl⟩ := Lexeme.upToQuote?_eq_some hbody
        simp only [Option.map_some, Text.length_bytes]
        split_ifs with hcls
        -- The literal of a string is cut out between its quotes.
        · have hstop : byteLength before + 1 + byteLength (inside ++ [c]) - 1 =
              byteLength (before ++ [c]) + byteLength inside := by
            simp [hsize]
          subst hcls
          rw [cut_eq (by simpa using h) (by simp [hsize]) hstop]
          simp [outcome, Lexeme.toToken, Lexeme.literal, bind, Except.bind, pure, Except.pure,
            hsize, Nat.add_assoc]
        · refine token_eq h (by simp) (by simpa using hcls) rfl ?_
          simp [hsize, Nat.add_assoc]
  · rw [hbytes]
    simp [quotation, Lexeme.quotation, Lexeme.quoted?_of_wide hb, Lexeme.quoted?_of_wide hc]

omit h in
/-- A character outside of ASCII opens no number in hexadecimal digits. -/
theorem isX_of_wide {x : Char} (hx : Wide x) : (x = 'x' || x = 'X') = false := by
  simp [Lexeme.ne_of_wide hx (by decide : ¬Wide 'x'), Lexeme.ne_of_wide hx (by decide : ¬Wide 'X')]

theorem hexNumber_eq : hexNumber s (byteLength before) (bytes cs) =
    (Lexeme.hexNumber s.dialect s.dictionary (byteLength before) cs).map
      (outcome (byteLength before)) := by
  by_cases hcs : cs.head? = some '0'
  · obtain ⟨ds, rfl⟩ := List.head?_eq_some_iff.1 hcs
    rw [Text.bytes_cons_of_not_wide (by decide)]
    rcases bytes_cases ds with
      rfl | ⟨x, ds, hx, rfl, hbytes⟩ | ⟨x, ds, b, bs, hx, rfl, _, hb, _, hbytes⟩
    · rfl
    · have hopening : byteLength (before ++ ['0', x]) = byteLength before + 2 := by
        simp [Text.utf8Size_of_not_wide hx, show '0'.utf8Size = 1 from rfl]
      rw [hbytes, hexNumber, Lexeme.hexNumber]
      by_cases hisX : (x = 'x' || x = 'X') = true
      · simp only [if_pos hisX, Text.takeWhile_bytes Lexeme.uniform_isHexDigit, Text.length_bytes,
          Option.map_some, Option.some.injEq]
        by_cases hdigits : ds.takeWhile Lexeme.isHexDigit = []
        · simp only [hdigits, Text.byteLength_nil, Nat.add_zero, if_true, List.isEmpty_nil,
            charAt_eq (show s.text = before ++ ['0', x] ++ ds by simpa using h) hopening.symm]
          rfl
        · have hpos := Text.byteLength_pos hdigits
          rw [if_neg (by omega), if_neg (by simpa using hdigits)]
          refine token_eq h ?_ (by simp) rfl ?_
          · simpa using List.takeWhile_prefix _
          · simp [Text.utf8Size_of_not_wide hx, show '0'.utf8Size = 1 from rfl]
            omega
      · rw [if_neg hisX, if_neg hisX]
        rfl
    · rw [hbytes]
      simp [hexNumber, Lexeme.hexNumber, isX_of_wide hx, isX_of_wide hb]
  · have hbytes := mt (Text.head?_bytes (by decide) cs).1 hcs
    have hnone : hexNumber s (byteLength before) (bytes cs) = none := by
      unfold hexNumber
      split
      · rename_i heq
        simp [heq] at hbytes
      · rfl
    have hnone' : Lexeme.hexNumber s.dialect s.dictionary (byteLength before) cs = none := by
      unfold Lexeme.hexNumber
      split
      · simp at hcs
      · rfl
    rw [hnone, hnone']
    rfl

omit h in
theorem hexString_eq_none {x : Char} {bs : List Char} {pos : Nat}
    (hx : ¬((x = 'x' || x = 'X') = true ∧ bs.head? = some '\'')) :
    hexString s pos (x :: bs) = none ∧
      ∀ d dict, Lexeme.hexString d dict pos (x :: bs) = none := by
  constructor
  · unfold hexString
    split
    · rename_i heq
      cases heq
      rw [if_neg (by simpa using hx)]
    · rfl
  · intro d dict
    unfold Lexeme.hexString
    split
    · rename_i heq
      cases heq
      rw [if_neg (by simpa using hx)]
    · rfl

theorem hexString_eq : hexString s (byteLength before) (bytes cs) =
    (Lexeme.hexString s.dialect s.dictionary (byteLength before) cs).map
      (outcome (byteLength before)) := by
  rcases bytes_cases cs with
    rfl | ⟨x, ds, hx, rfl, hbytes⟩ | ⟨x, ds, b, bs, hx, rfl, _, hb, _, hbytes⟩
  · rfl
  · rw [hbytes]
    by_cases hopens : (x = 'x' || x = 'X') = true ∧ ds.head? = some '\''
    · obtain ⟨hisX, hhead⟩ := hopens
      obtain ⟨es, rfl⟩ := List.head?_eq_some_iff.1 hhead
      have hopening : byteLength (before ++ [x, '\'']) = byteLength before + 2 := by
        simp [Text.utf8Size_of_not_wide hx, show '\''.utf8Size = 1 from rfl]
      have hes := List.takeWhile_append_dropWhile (p := Lexeme.isHexDigit) (l := es)
      have hascii : ∀ c ∈ es.takeWhile Lexeme.isHexDigit, ¬Wide c := fun c hc =>
        Lexeme.not_wide_of_isHexDigit (List.all_eq_true.1 List.all_takeWhile c hc)
      rw [Text.bytes_cons_of_not_wide (by decide)]
      simp only [hexString, Lexeme.hexString, if_pos hisX,
        Text.takeWhile_bytes Lexeme.uniform_isHexDigit, Text.dropWhile_bytes Lexeme.uniform_isHexDigit,
        Text.length_bytes, Option.map_some, Option.some.injEq]
      generalize es.takeWhile Lexeme.isHexDigit = digits at hes hascii
      generalize es.dropWhile Lexeme.isHexDigit = rest at hes
      subst hes
      have hlength := Text.length_bytes digits
      rw [Text.bytes_of_ascii hascii] at hlength
      cases rest with
      | nil => rfl
      | cons c rest =>
        by_cases hquote : c = '\''
        · subst hquote
          rw [Text.bytes_cons_of_not_wide (by decide)]
          refine token_eq h (by simp) (by simp) rfl ?_
          simp [Text.utf8Size_of_not_wide hx, show '\''.utf8Size = 1 from rfl]
          omega
        · have hhead : (bytes (c :: rest)).head? ≠ some '\'' := by
            rw [Ne, Text.head?_bytes (by decide)]
            simpa using hquote
          obtain ⟨b, bs, hoctets⟩ := Text.exists_octets c
          rw [Text.bytes_cons, hoctets, List.cons_append] at hhead ⊢
          have hb : b ≠ '\'' := by simpa using hhead
          have hstop : byteLength before + 2 + byteLength digits =
              byteLength (before ++ [x, '\''] ++ digits) := by
            rw [Text.byteLength_append, hopening]
          have htext : s.text = before ++ [x, '\''] ++ digits ++ c :: rest := by simpa using h
          simp [charAt_eq htext hstop, hlength, bind, Except.bind]
          rfl
    · have hopens' : ¬((x = 'x' || x = 'X') = true ∧ (bytes ds).head? = some '\'') := by
        rwa [Text.head?_bytes (by decide)]
      rw [(hexString_eq_none hopens').1, (hexString_eq_none (s := s) hopens).2]
      rfl
  · have hisX := isX_of_wide hx
    have hisX' := isX_of_wide hb
    rw [hbytes, (hexString_eq_none (by simp [hisX'])).1,
      (hexString_eq_none (s := s) (by simp [hisX])).2]
    rfl

/-- What a test that is uniform passes behind a part of the text, it passes in its bytes. -/
theorem takeWhile_bytesFrom {p : Char → Bool} (hp : Uniform p) {pos : Nat}
    (hpos : pos = byteLength before) :
    ((s.bytesFrom pos).takeWhile p).length = byteLength (cs.takeWhile p) := by
  rw [hpos, bytesFrom_eq h, Text.takeWhile_bytes hp, Text.length_bytes]

omit h in
theorem uniform_isNamed : Uniform fun c => Lexeme.continuesWord c || c = '.' := by
  intro c d hc hd
  simp [Lexeme.continuesWord_of_wide hc, Lexeme.continuesWord_of_wide hd]

theorem variableName_eq : variableName s (byteLength before) (bytes cs) =
    (Lexeme.variableName s.dialect s.dictionary (byteLength before) cs).map
      (outcome (byteLength before)) := by
  by_cases hcs : cs.head? = some '@'
  · obtain ⟨ds, rfl⟩ := List.head?_eq_some_iff.1 hcs
    have hsize : '@'.utf8Size = 1 := rfl
    rw [Text.bytes_cons_of_not_wide (by decide), variableName, Lexeme.variableName]
    by_cases hvariables : s.dialect.atVariables = true
    · simp only [if_pos hvariables, Option.map_some, Option.some.injEq]
      by_cases hds : ds.head? = some '@'
      · obtain ⟨es, rfl⟩ := List.head?_eq_some_iff.1 hds
        have hname : byteLength before + 2 = byteLength (before ++ ['@', '@']) := by simp [hsize]
        rw [if_pos ((Text.head?_bytes (by decide) _).2 hds),
          takeWhile_bytesFrom (show s.text = before ++ ['@', '@'] ++ es by simpa using h)
            uniform_isNamed hname]
        refine token_eq h ?_ (by simp) rfl ?_
        · simpa using List.takeWhile_prefix _
        · simp [hsize]
          omega
      · have hname : byteLength before + 1 = byteLength (before ++ ['@']) := by simp [hsize]
        rw [if_neg (mt (Text.head?_bytes (by decide) _).1 hds),
          takeWhile_bytesFrom (show s.text = before ++ ['@'] ++ ds by simpa using h)
            uniform_isNamed hname]
        split
        · simp at hds
        · refine token_eq h ?_ (by simp) rfl ?_
          · simpa using List.takeWhile_prefix _
          · simp [hsize]
            omega
    · rw [if_neg hvariables, if_neg hvariables]
      rfl
  · have hbytes := mt (Text.head?_bytes (by decide) cs).1 hcs
    have hnone : variableName s (byteLength before) (bytes cs) = none := by
      unfold variableName
      split
      · rename_i heq
        simp [heq] at hbytes
      · rfl
    have hnone' : Lexeme.variableName s.dialect s.dictionary (byteLength before) cs = none := by
      unfold Lexeme.variableName
      split
      · simp at hcs
      · rfl
    rw [hnone, hnone']
    rfl

omit h in
theorem opensNumber_bytes (cs : List Char) : opensNumber (bytes cs) = opensNumber cs := by
  have hdigit {c : Char} (hc : Wide c) : c.isDigit = false :=
    Bool.eq_false_iff.2 fun h => Lexeme.not_wide_of_isDigit h hc
  rcases bytes_cases cs with
    rfl | ⟨c, ds, _, rfl, hbytes⟩ | ⟨c, ds, b, bs, hc, rfl, _, hb, _, hbytes⟩
  · rfl
  · rw [hbytes]
    rcases bytes_cases ds with
      rfl | ⟨d, es, _, rfl, hbytes'⟩ | ⟨d, es, b, bs, hd, rfl, _, hb, _, hbytes'⟩
    · rfl
    · rw [hbytes']
      by_cases hpoint : c = '.'
      · subst hpoint
        rfl
      · simp [opensNumber, hpoint]
    · rw [hbytes']
      by_cases hpoint : c = '.'
      · subst hpoint
        simp [opensNumber, hdigit hb, hdigit hd]
      · simp [opensNumber, hpoint]
  · rw [hbytes]
    simp [opensNumber, hdigit hb, hdigit hc, Lexeme.ne_of_wide hb (by decide : ¬Wide '.'),
      Lexeme.ne_of_wide hc (by decide : ¬Wide '.')]

theorem number_eq : number s (byteLength before) (bytes cs) =
    (Lexeme.number s.dialect s.dictionary (byteLength before) cs).map
      (outcome (byteLength before)) := by
  have hnumber : Lexeme.number s.dialect s.dictionary (byteLength before) cs =
      if opensNumber cs then
        let rest := cs.dropWhile Char.isDigit
        let behind := Lexeme.fraction rest ++
          Lexeme.exponent (rest.drop (Lexeme.fraction rest).length)
        some (.ok ⟨if behind.isEmpty then LiteralClass.int else LiteralClass.float,
          cs.takeWhile Char.isDigit ++ behind⟩)
      else none := rfl
  rw [hnumber, number, opensNumber_bytes]
  split_ifs
  case neg => rfl
  have hcs := List.takeWhile_append_dropWhile (p := Char.isDigit) (l := cs)
  simp only [Text.takeWhile_bytes Lexeme.uniform_isDigit, Text.length_bytes, Option.map_some,
    Option.some.injEq]
  generalize cs.takeWhile Char.isDigit = whole at hcs
  generalize cs.dropWhile Char.isDigit = rest at hcs
  subst hcs
  obtain ⟨more, hrest⟩ : Lexeme.fraction rest <+: rest := Lexeme.fraction_prefix
  have hwhole : s.bytesFrom (byteLength before + byteLength whole) = bytes rest := by
    rw [← Text.byteLength_append]
    exact bytesFrom_eq (by simpa using h)
  have hdrop : rest.drop (Lexeme.fraction rest).length = more := by
    rw [← @List.drop_left _ (Lexeme.fraction rest) more, hrest]
  have hfraction : s.bytesFrom (byteLength before + byteLength whole +
      byteLength (Lexeme.fraction rest)) = bytes more := by
    rw [← Text.byteLength_append, ← Text.byteLength_append]
    exact bytesFrom_eq (by simpa [hrest] using h)
  rw [hwhole, Lexeme.fraction_bytes, Text.length_bytes, hfraction, Lexeme.exponent_bytes,
    Text.length_bytes, hdrop]
  -- There is nothing behind the digits exactly if the number stops there.
  have hkind : (byteLength before + byteLength whole + byteLength (Lexeme.fraction rest) +
      byteLength (Lexeme.exponent more) = byteLength before + byteLength whole) ↔
      (Lexeme.fraction rest ++ Lexeme.exponent more).isEmpty = true := by
    rw [List.isEmpty_iff]
    constructor
    · intro hlength
      refine Decidable.byContradiction fun hne => ?_
      have hpos := Text.byteLength_pos hne
      rw [Text.byteLength_append] at hpos
      omega
    · intro hnil
      have hlength := congrArg byteLength hnil
      rw [Text.byteLength_append, Text.byteLength_nil] at hlength
      omega
  simp only [hkind]
  have hprefix : whole ++ (Lexeme.fraction rest ++ Lexeme.exponent more) <+: whole ++ rest := by
    rw [List.prefix_append_right_inj]
    exact Lexeme.append_prefix Lexeme.fraction_prefix (hdrop ▸ Lexeme.exponent_prefix)
  refine token_eq h hprefix ?_ rfl (by simp [Nat.add_assoc])
  split_ifs <;> decide

omit h in
theorem wordKind_eq {part rest : List Char} {pos : Nat} (h : s.text = part ++ rest)
    (hpos : pos = byteLength part) (word : List Char) :
    s.wordKind (String.ofList word) pos = .ok (Lexeme.wordKind s.dictionary word rest) := by
  have hcut : s.cutFrom pos = .ok rest :=
    cut_eq (show s.text = part ++ rest ++ [] by simpa using h) hpos
      (by rw [length_eq, h, Text.byteLength_append])
  have hby : s.isFollowedByBy pos = .ok (Lexeme.isFollowedByBy rest) := by
    rw [isFollowedByBy, hcut, Lexeme.isFollowedByBy_eq]
    rfl
  rw [wordKind, Lexeme.wordKind]
  cases s.dictionary.find? (String.ofList word) with
  | none => rfl
  | some k =>
    by_cases hk : k = .ORDER ∨ k = .GROUP
    · cases hfollowed : Lexeme.isFollowedByBy rest <;>
        simp [hk, hby, hfollowed, bind, Except.bind, pure, Except.pure]
    · simp [hk, pure, Except.pure]

theorem word_eq : word s (byteLength before) (bytes cs) =
    (Lexeme.word s.dialect s.dictionary (byteLength before) cs).map
      (outcome (byteLength before)) := by
  cases cs with
  | nil => rfl
  | cons c ds =>
    obtain ⟨b, bs, hoctets⟩ := Text.exists_octets c
    have hb : b ∈ Text.octets c := by simp [hoctets]
    have hstarts := Lexeme.uniform_startsWord.octets c b hb
    have hcontinues := Lexeme.uniform_continuesWord.octets c b hb
    have hbytes : bytes (c :: ds) = b :: (bs ++ bytes ds) := by simp [hoctets]
    have hspan := Text.takeWhile_bytes Lexeme.uniform_continuesWord (c :: ds)
    rw [hbytes] at hspan ⊢
    simp only [word, Lexeme.word, hstarts]
    split_ifs with hc
    case neg => rfl
    have hc' := Lexeme.continuesWord_of_startsWord hc
    rw [List.takeWhile_cons_of_pos (hcontinues.trans hc'), List.takeWhile_cons_of_pos hc'] at hspan
    have hlength := congrArg List.length hspan
    rw [List.length_cons, Text.length_bytes] at hlength
    have hstop : byteLength before + 1 +
        ((bs ++ bytes ds).takeWhile Lexeme.continuesWord).length =
        byteLength before + byteLength (c :: ds.takeWhile Lexeme.continuesWord) := by omega
    have hds := List.takeWhile_append_dropWhile (p := Lexeme.continuesWord) (l := ds)
    have htext : s.text = before ++ c :: ds.takeWhile Lexeme.continuesWord ++
        ds.dropWhile Lexeme.continuesWord := by simp [h, hds]
    have hkind := wordKind_eq htext (Text.byteLength_append ..).symm
      (c :: ds.takeWhile Lexeme.continuesWord)
    rw [hstop, cut_eq htext rfl rfl]
    simp only [bind, Except.bind, hkind]
    refine congrArg some (token_eq h ?_ ?_ rfl rfl)
    · simpa using List.takeWhile_prefix _
    · rcases Lexeme.wordKind_cases s.dictionary (c :: ds.takeWhile Lexeme.continuesWord)
        (ds.dropWhile Lexeme.continuesWord) with ⟨k, hk⟩ | hk <;> simp [hk]

theorem symbol_eq : symbol s (byteLength before) (bytes cs) =
    (Lexeme.symbol s.dialect s.dictionary (byteLength before) cs).map
      (outcome (byteLength before)) := by
  rw [symbol, Lexeme.symbol, Lexeme.starting?_bytes, Option.map_map]
  cases hx : Symbol.starting? cs with
  | none => rfl
  | some x =>
    have hpart : x.text.toList <+: cs := by simpa using List.find?_some hx
    have hlength := Text.length_bytes x.text.toList
    rw [Text.bytes_of_ascii (Lexeme.not_wide_of_mem_text x)] at hlength
    exact congrArg some (token_eq h hpart (by simp) rfl (by rw [hlength]))

end

section

variable {s : Scanner} {before cs : List Char}

/-- The first rule that applies is the first of the corresponding rules. -/
theorem rules_eq (h : s.text = before ++ cs) :
    (rules.findSome? fun rule => rule s (byteLength before) (bytes cs)) =
      (Lexeme.rules.findSome? fun rule => rule s.dialect s.dictionary (byteLength before) cs).map
        (outcome (byteLength before)) := by
  have hcons {α β : Type} (f : α → Option β) (a : α) (l : List α) :
      (a :: l).findSome? f = (f a).or (l.findSome? f) := by
    rw [List.findSome?_cons]
    cases f a <;> rfl
  simp only [rules, Lexeme.rules, hcons, List.findSome?_nil, Option.map_or, Option.map_none,
    quotation_eq h, hexNumber_eq h, hexString_eq h, variableName_eq h, number_eq h, word_eq h,
    symbol_eq h]

/-- The rules find the lexeme that the text goes on with. -/
theorem tokenAt_eq {c : Char} (h : s.text = before ++ c :: cs) :
    s.tokenAt (byteLength before) = outcome (byteLength before)
      (Lexeme.read s.dialect s.dictionary (byteLength before) c cs) := by
  rw [tokenAt, bytesFrom_eq h, Lexeme.read, charAt_eq h rfl, rules_eq h]
  cases Lexeme.rules.findSome? _ with
  | none => rfl
  | some r => rfl

/-- The tokens that a scanner finds from a position on are those that are read there. -/
theorem tokensFrom_eq (h : s.text = before ++ cs) (n : Nat) :
    s.tokensFrom n (byteLength before) =
      ((TokenStream.read s.dialect s.dictionary n (byteLength before) cs).tokens,
        (TokenStream.read s.dialect s.dictionary n (byteLength before) cs).failure.map .lexical) := by
  induction n generalizing before cs with
  | zero => rfl
  | succ n ih =>
    rw [tokensFrom, TokenStream.read, next, bytesFrom_eq h, skipGap_bytes]
    cases hgap : Gap.skip s.dialect .blank (byteLength before) cs with
    | error e => rfl
    | ok behind =>
      obtain ⟨pos, rest⟩ := behind
      obtain ⟨gap, rfl, rfl⟩ := Gap.skip_eq_ok hgap
      have h' : s.text = before ++ gap ++ rest := by simpa using h
      simp only [Except.map, length_eq, h', Text.byteLength_append]
      cases rest with
      | nil => simp [Token.final, pure, Except.pure]
      | cons c rest =>
        have hpos := Text.byteLength_pos (List.cons_ne_nil c rest)
        rw [if_pos (by omega), ← Text.byteLength_append, tokenAt_eq h']
        dsimp only
        cases hread : Lexeme.read s.dialect s.dictionary (byteLength (before ++ gap)) c rest with
        | error e => rfl
        | ok l =>
          have hopens := Lexeme.read_opens hread
          obtain ⟨more, hmore⟩ := hopens.spelled
          have hkind : (l.toToken (byteLength (before ++ gap))).kind ≠ .endOfText := hopens.isText
          have hstop : (l.toToken (byteLength (before ++ gap))).stop =
              byteLength (before ++ gap ++ l.spelling) :=
            (Text.byteLength_append ..).symm
          simp only [outcome, if_neg hkind, hstop, ← hmore, List.drop_left,
            ih (show s.text = before ++ gap ++ l.spelling ++ more by simp [h', hmore])]

end

/-- *A scanner finds the token stream.* The tokens that are found among the bytes of a text are
    those of its stream, and the only errors are lexical ones: every piece that is cut out of the
    text lies between two of its characters. -/
theorem tokens_eq (d : Dialect) (text : List Char) :
    (ofText d text).tokens =
      ((TokenStream.ofText d text).tokens, (TokenStream.ofText d text).failure.map .lexical) :=
  tokensFrom_eq (show (ofText d text).text = [] ++ text from rfl) _

end Scanner

end SqlRouting
