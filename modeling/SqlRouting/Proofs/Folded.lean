import SqlRouting.Proofs.Scanner

/-!
# Texts in lower case

How a text is cut into tokens does not depend on the case of its letters: the text in lower case is
cut in the same way (`Lexeme.read_lowered`, `Gap.skip_lowered`). What the tokens spell changes with
it, of course, and so do the characters shown in errors; positions do not.
-/

namespace SqlRouting

/-! ## Letters -/

namespace Text

theorem toLower_eq_self {c : Char} (h : c.isUpper = false) : c.toLower = c := by
  refine dif_neg fun hc => ?_
  rw [show c.isUpper = true from decide_eq_true hc] at h
  cases h

/-- What holds of the capital letters one by one holds of every capital letter. -/
theorem forall_isUpper {p : Char → Prop} (h : ∀ n < 26, p (Char.ofNat (65 + n))) {c : Char}
    (hc : c.isUpper = true) : p c := by
  obtain ⟨hlow, hhigh⟩ : 65 ≤ c.toNat ∧ c.toNat ≤ 90 := of_decide_eq_true hc
  have hp := h (c.toNat - 65) (by omega)
  rwa [Nat.add_sub_cancel' hlow, Char.ofNat_toNat] at hp

/-- What does not tell a capital letter from its small one does not depend on case. -/
theorem apply_toLower {α : Type} {f : Char → α}
    (h : ∀ n < 26, f (Char.ofNat (65 + n)).toLower = f (Char.ofNat (65 + n))) (c : Char) :
    f c.toLower = f c := by
  cases hc : c.isUpper with
  | true => exact forall_isUpper (p := fun c => f c.toLower = f c) h hc
  | false => rw [toLower_eq_self hc]

/-- Only letters have a case. -/
theorem toLower_eq_iff {c x : Char} (hx : x.isAlpha = false) : c.toLower = x ↔ c = x := by
  have halpha : c.toLower.isAlpha = c.isAlpha := apply_toLower (by decide) c
  have hself {c : Char} (h : c.isAlpha = false) : c.toLower = c :=
    toLower_eq_self (Bool.or_eq_false_iff.1 h).1
  constructor
  · rintro rfl
    exact (hself (halpha ▸ hx)).symm
  · rintro rfl
    exact hself hx

theorem isDigit_toLower (c : Char) : c.toLower.isDigit = c.isDigit :=
  apply_toLower (by decide) c

theorem utf8Size_toLower (c : Char) : c.toLower.utf8Size = c.utf8Size :=
  apply_toLower (by decide) c

theorem isBlank_toLower (c : Char) : isBlank c.toLower = isBlank c :=
  apply_toLower (by decide) c

theorem isAsciiBlank_toLower (c : Char) : isAsciiBlank c.toLower = isAsciiBlank c :=
  apply_toLower (by decide) c

theorem toUpper_toLower (c : Char) : c.toLower.toUpper = c.toUpper :=
  apply_toLower (by decide) c

theorem toLower_toLower (c : Char) : c.toLower.toLower = c.toLower :=
  apply_toLower (by decide) c

end Text

open Text

/-! ## Rules -/

namespace Lexeme

variable {d : Dialect} {dict : Dictionary} {pos : Nat} {cs : List Char}

theorem isHexDigit_toLower (c : Char) : isHexDigit c.toLower = isHexDigit c :=
  apply_toLower (by decide) c

theorem startsWord_toLower (c : Char) : startsWord c.toLower = startsWord c :=
  apply_toLower (by decide) c

theorem continuesWord_toLower (c : Char) : continuesWord c.toLower = continuesWord c :=
  apply_toLower (by decide) c

/-- The lexeme in lower case. -/
def lowered (l : Lexeme) : Lexeme :=
  ⟨l.kind, l.spelling.map Char.toLower⟩

/-- What a rule makes of a text, in lower case and without the reason of an error. -/
def found (r : Option (Except LexicalError Lexeme)) : Option (Option Lexeme) :=
  r.map fun r => r.toOption.map lowered

/-- A lexeme that is in lower case already is found as before. -/
theorem found_lowered (kind : TokenKind) (spelling : List Char) :
    found (some (.ok ⟨kind, spelling.map Char.toLower⟩)) = found (some (.ok ⟨kind, spelling⟩)) := by
  have hlower : Char.toLower ∘ Char.toLower = Char.toLower := funext toLower_toLower
  simp only [found, lowered, Option.map_some, Except.toOption, List.map_map, hlower]

section Runs

variable {p : Char → Bool} (hp : ∀ c, p c.toLower = p c)

include hp

theorem takeWhile_map_toLower (cs : List Char) :
    (cs.map Char.toLower).takeWhile p = (cs.takeWhile p).map Char.toLower := by
  rw [List.takeWhile_map, show p ∘ Char.toLower = p from funext hp]

theorem dropWhile_map_toLower (cs : List Char) :
    (cs.map Char.toLower).dropWhile p = (cs.dropWhile p).map Char.toLower := by
  rw [List.dropWhile_map, show p ∘ Char.toLower = p from funext hp]

end Runs

theorem upToQuote?_map_toLower {quote : Char} (hquote : quote.isAlpha = false) (escapes : Bool)
    (cs : List Char) :
    upToQuote? quote escapes (cs.map Char.toLower) =
      (upToQuote? quote escapes cs).map (·.map Char.toLower) := by
  have hbackslash (c : Char) : (c.toLower = '\\') = (c = '\\') :=
    propext (toLower_eq_iff (by decide))
  have hquoted (c : Char) : (c.toLower = quote) = (c = quote) := propext (toLower_eq_iff hquote)
  have hself : quote.toLower = quote := (toLower_eq_iff hquote).2 rfl
  fun_induction upToQuote? quote escapes cs with
  | case1 => rfl
  | case2 => simp [upToQuote?, hself]
  | case3 c hc => simp [upToQuote?, hquoted, hc]
  | case4 c d cs hc ih =>
    simp only [List.map_cons, upToQuote?, hbackslash, hc, if_true, ih, Option.map_map]
    rfl
  | case5 cs hc ih =>
    simp only [List.map_cons, upToQuote?, hself, hc, if_true, ih, Option.map_map]
    simp [Function.comp_def, hself]
  | case6 d cs hd hc =>
    simp only [List.map_cons, upToQuote?, hself, hquoted, hc, hd, if_true]
    simp [hself]
  | case7 c d cs hc hne ih =>
    simp only [List.map_cons] at ih
    simp only [List.map_cons, upToQuote?, hbackslash, hquoted, hc, hne, if_false, ih,
      Option.map_map]
    rfl

theorem quoted?_toLower (c : Char) : quoted? d c.toLower = quoted? d c := by
  simp (disch := decide) only [quoted?, toLower_eq_iff]

/-- No letter quotes. -/
theorem not_isAlpha_of_quoted? {c : Char} {cls : LiteralClass} (h : quoted? d c = some cls) :
    c.isAlpha = false := by
  refine Bool.eq_false_iff.2 fun hc => ?_
  have hne {x : Char} (hx : x.isAlpha = false) : c ≠ x := by
    rintro rfl
    exact Bool.false_ne_true (hx.symm.trans hc)
  rw [quoted?, if_neg (hne (by decide)), if_neg (hne (by decide)), if_neg] at h
  · cases h
  · simpa using fun h => (hne (by decide) h).elim

theorem quotation_lowered (cs : List Char) :
    found (quotation d dict pos (cs.map Char.toLower)) = found (quotation d dict pos cs) := by
  cases cs with
  | nil => rfl
  | cons c cs =>
    rw [List.map_cons, quotation, quotation, quoted?_toLower]
    cases hc : quoted? d c with
    | none => rfl
    | some cls =>
      have hquote := not_isAlpha_of_quoted? hc
      rw [Option.map_some, Option.map_some, (toLower_eq_iff hquote).2 rfl,
        upToQuote?_map_toLower hquote]
      cases upToQuote? c (cls = LiteralClass.chars && d.backslashEscapes) cs with
      | none => rfl
      | some body =>
        have hself : c.toLower = c := (toLower_eq_iff hquote).2 rfl
        simpa [hself] using found_lowered (.literal cls) (c :: body)

/-- The letter `x` of either case. -/
theorem isX_toLower (c : Char) : (c.toLower = 'x' ∨ c.toLower = 'X') ↔ (c = 'x' ∨ c = 'X') :=
  iff_of_eq (apply_toLower (f := fun c => c = 'x' ∨ c = 'X') (by decide) c)

theorem hexNumber_cons (c x : Char) (cs : List Char) : hexNumber d dict pos (c :: x :: cs) =
    if c = '0' ∧ (x = 'x' ∨ x = 'X') then
      some <|
        if (cs.takeWhile isHexDigit).isEmpty then
          .error (.invalidHexDigit (cs.head?.getD ' ') (pos + 2))
        else .ok ⟨LiteralClass.hex, c :: x :: cs.takeWhile isHexDigit⟩
    else none := by
  by_cases hc : c = '0'
  · subst hc
    simp [hexNumber]
  · simp [hexNumber, hc]

theorem hexNumber_lowered (cs : List Char) :
    found (hexNumber d dict pos (cs.map Char.toLower)) = found (hexNumber d dict pos cs) := by
  rcases cs with _ | ⟨c, _ | ⟨x, cs⟩⟩
  · rfl
  · simp [hexNumber]
  · rw [List.map_cons, List.map_cons, hexNumber_cons, hexNumber_cons,
      takeWhile_map_toLower isHexDigit_toLower, List.isEmpty_map]
    simp (disch := decide) only [toLower_eq_iff, isX_toLower]
    split_ifs
    · rfl
    · exact found_lowered _ (c :: x :: cs.takeWhile isHexDigit)
    · rfl

theorem hexString_cons (c x : Char) (cs : List Char) : hexString d dict pos (x :: c :: cs) =
    if c = '\'' ∧ (x = 'x' ∨ x = 'X') then
      some <|
        match (cs.dropWhile isHexDigit).head? with
        | some q =>
          if q = '\'' then .ok ⟨LiteralClass.hex, x :: c :: cs.takeWhile isHexDigit ++ ['\'']⟩
          else .error (.invalidHexDigit q (pos + 2 + (cs.takeWhile isHexDigit).length))
        | none => .error (.unterminatedString pos)
    else none := by
  by_cases hc : c = '\''
  · subst hc
    simp only [hexString, true_and, Bool.or_eq_true, decide_eq_true_eq]
    congr 2
    cases cs.dropWhile isHexDigit with
    | nil => rfl
    | cons q more =>
      by_cases hq : q = '\''
      · subst hq
        rfl
      · simp [hq]
  · simp [hexString, hc]

theorem hexString_lowered (cs : List Char) :
    found (hexString d dict pos (cs.map Char.toLower)) = found (hexString d dict pos cs) := by
  rcases cs with _ | ⟨x, _ | ⟨c, cs⟩⟩
  · rfl
  · simp [hexString]
  · rw [List.map_cons, List.map_cons, hexString_cons, hexString_cons,
      takeWhile_map_toLower isHexDigit_toLower, dropWhile_map_toLower isHexDigit_toLower,
      List.head?_map]
    simp (disch := decide) only [toLower_eq_iff, isX_toLower]
    split_ifs
    · cases (cs.dropWhile isHexDigit).head? with
      | none => rfl
      | some q =>
        simp (disch := decide) only [Option.map_some, toLower_eq_iff]
        split_ifs
        · simpa using found_lowered _ (x :: c :: cs.takeWhile isHexDigit ++ ['\''])
        · rfl
    · rfl

/-- A character of the name of a variable. -/
def isNamed (c : Char) : Bool :=
  continuesWord c || c = '.'

theorem isNamed_toLower (c : Char) : isNamed c.toLower = isNamed c :=
  apply_toLower (by decide) c

theorem variableName_at (cs : List Char) : variableName d dict pos ('@' :: cs) =
    if d.atVariables then
      some (.ok ⟨LiteralClass.atVariable, '@' ::
        if cs.head? = some '@' then '@' :: (cs.drop 1).takeWhile isNamed
        else cs.takeWhile isNamed⟩)
    else none := by
  rw [variableName]
  split_ifs with h₁ h₂
  · obtain ⟨rest, rfl⟩ := List.head?_eq_some_iff.1 h₂
    rfl
  · rcases cs with _ | ⟨x, cs⟩
    · rfl
    · have hx : x ≠ '@' := by simpa using h₂
      simp only [List.cons.injEq, hx, false_and, imp_self, implies_true]
      rfl
  · rfl

theorem variableName_lowered (cs : List Char) :
    found (variableName d dict pos (cs.map Char.toLower)) =
      found (variableName d dict pos cs) := by
  have hat {c : Char} : c.toLower = '@' ↔ c = '@' := toLower_eq_iff (by decide)
  rcases cs with _ | ⟨c, cs⟩
  · rfl
  by_cases hc : c = '@'
  · subst hc
    have hhead : (cs.map Char.toLower).head? = some '@' ↔ cs.head? = some '@' := by
      cases cs <;> simp [hat]
    rw [List.map_cons, hat.2 rfl, variableName_at, variableName_at]
    simp only [hhead, ← List.map_drop, takeWhile_map_toLower isNamed_toLower]
    split_ifs
    · exact found_lowered _ ('@' :: '@' :: _)
    · exact found_lowered _ ('@' :: _)
    · rfl
  · simp [variableName, hc, hat]

theorem opensNumber_map_toLower (cs : List Char) :
    Scanner.opensNumber (cs.map Char.toLower) = Scanner.opensNumber cs := by
  have hpoint {c : Char} : c.toLower = '.' ↔ c = '.' := toLower_eq_iff (by decide)
  rcases cs with _ | ⟨c, _ | ⟨x, cs⟩⟩
  · rfl
  · simp [Scanner.opensNumber, isDigit_toLower]
  · by_cases hc : c = '.'
    · subst hc
      rw [List.map_cons, List.map_cons, hpoint.2 rfl]
      exact isDigit_toLower x
    · simp [Scanner.opensNumber, hc, hpoint, isDigit_toLower]

theorem fraction_map_toLower (cs : List Char) :
    fraction (cs.map Char.toLower) = (fraction cs).map Char.toLower := by
  rcases cs with _ | ⟨c, cs⟩
  · rfl
  by_cases hc : c = '.'
  · subst hc
    simp [fraction, takeWhile_map_toLower isDigit_toLower]
  · have hc' : c.toLower ≠ '.' := fun h => hc ((toLower_eq_iff (by decide)).1 h)
    simp [fraction, hc, hc']

theorem sign_map_toLower (cs : List Char) :
    sign (cs.map Char.toLower) = (sign cs).map Char.toLower := by
  rcases cs with _ | ⟨c, cs⟩
  · rfl
  simp (disch := decide) only [List.map_cons, sign, toLower_eq_iff]
  split_ifs <;> rfl

/-- The letter `e` of either case. -/
theorem isE_toLower (c : Char) : (c.toLower = 'e' || c.toLower = 'E') = (c = 'e' || c = 'E') :=
  apply_toLower (f := fun c => (c = 'e' || c = 'E' : Bool)) (by decide) c

theorem exponent_map_toLower (cs : List Char) :
    exponent (cs.map Char.toLower) = (exponent cs).map Char.toLower := by
  rcases cs with _ | ⟨c, cs⟩
  · rfl
  simp only [List.map_cons, exponent, sign_map_toLower, List.length_map, ← List.map_drop,
    takeWhile_map_toLower isDigit_toLower, List.isEmpty_map, isE_toLower]
  split_ifs <;> simp

theorem number_lowered (cs : List Char) :
    found (number d dict pos (cs.map Char.toLower)) = found (number d dict pos cs) := by
  have hopens := opensNumber_map_toLower cs
  have hnumber (cs : List Char) : number d dict pos cs =
      if Scanner.opensNumber cs then
        let rest := cs.dropWhile Char.isDigit
        let behind := fraction rest ++ exponent (rest.drop (fraction rest).length)
        some (.ok ⟨if behind.isEmpty then LiteralClass.int else LiteralClass.float,
          cs.takeWhile Char.isDigit ++ behind⟩)
      else none := rfl
  rw [hnumber, hnumber, hopens]
  simp only [takeWhile_map_toLower isDigit_toLower, dropWhile_map_toLower isDigit_toLower,
    fraction_map_toLower, List.length_map, ← List.map_drop, exponent_map_toLower, ← List.map_append,
    List.isEmpty_map]
  split_ifs
  · exact found_lowered _ _
  · exact found_lowered _ _
  · rfl

theorem isFollowedByBy_map_toLower (cs : List Char) :
    isFollowedByBy (cs.map Char.toLower) = isFollowedByBy cs := by
  rw [isFollowedByBy, isFollowedByBy, trimStart, trimStart, dropWhile_map_toLower isBlank_toLower]
  rcases cs.dropWhile isBlank with _ | ⟨b, _ | ⟨y, more⟩⟩
  · rfl
  · rfl
  · cases more with
    | nil => simp only [List.map_cons, List.map_nil, toUpper_toLower]
    | cons c more =>
      simp only [List.map_cons, List.head?_cons, Option.any_some, toUpper_toLower,
        continuesWord_toLower]

theorem upper_map_toLower (cs : List Char) :
    upper (String.ofList (cs.map Char.toLower)) = upper (String.ofList cs) := by
  have hupper : Char.toUpper ∘ Char.toLower = Char.toUpper := funext toUpper_toLower
  simp [upper, hupper]

theorem wordKind_map_toLower (word rest : List Char) :
    wordKind dict (word.map Char.toLower) (rest.map Char.toLower) = wordKind dict word rest := by
  rw [wordKind, wordKind, Dictionary.find?, Dictionary.find?, upper_map_toLower,
    isFollowedByBy_map_toLower]

theorem word_lowered (cs : List Char) :
    found (word d dict pos (cs.map Char.toLower)) = found (word d dict pos cs) := by
  cases cs with
  | nil => rfl
  | cons c cs =>
    rw [List.map_cons, word, word, startsWord_toLower,
      takeWhile_map_toLower continuesWord_toLower, dropWhile_map_toLower continuesWord_toLower,
      ← List.map_cons]
    dsimp only
    rw [wordKind_map_toLower]
    split_ifs
    · exact found_lowered _ _
    · rfl

theorem isPrefixOf_map_toLower {part : List Char} (h : ∀ c ∈ part, c.isAlpha = false)
    (cs : List Char) : part.isPrefixOf (cs.map Char.toLower) = part.isPrefixOf cs := by
  induction part generalizing cs with
  | nil => simp
  | cons c part ih =>
    rw [List.forall_mem_cons] at h
    cases cs with
    | nil => rfl
    | cons x cs =>
      have hx : (c == x.toLower) = (c == x) :=
        Bool.eq_iff_iff.2 (by rw [beq_iff_eq, beq_iff_eq, eq_comm, toLower_eq_iff h.1, eq_comm])
      rw [List.map_cons, List.isPrefixOf_cons_cons, List.isPrefixOf_cons_cons, hx, ih h.2]

/-- No letter is part of a symbol. -/
theorem not_isAlpha_of_mem_text (x : Symbol) : ∀ c ∈ x.text.toList, c.isAlpha = false := by
  have h : x.text.toList.all (fun c => !c.isAlpha) = true := by cases x <;> decide
  simpa only [List.all_eq_true, Bool.not_eq_true'] using h

theorem symbol_lowered (cs : List Char) :
    found (symbol d dict pos (cs.map Char.toLower)) = found (symbol d dict pos cs) := by
  simp only [symbol, Symbol.starting?, isPrefixOf_map_toLower (not_isAlpha_of_mem_text _)]

/-! ## Lexemes -/

theorem findSome?_lowered {rs : List Rule} {text text' : List Char}
    (h : ∀ rule ∈ rs, found (rule d dict pos text) = found (rule d dict pos text')) :
    found (rs.findSome? fun rule => rule d dict pos text) =
      found (rs.findSome? fun rule => rule d dict pos text') := by
  induction rs with
  | nil => rfl
  | cons rule rs ih =>
    rw [List.forall_mem_cons] at h
    have hrule := h.1
    rw [List.findSome?_cons, List.findSome?_cons]
    cases hr : rule d dict pos text with
    | none =>
      rw [hr] at hrule
      rw [Option.map_eq_none_iff.1 hrule.symm]
      exact ih h.2
    | some r =>
      rw [hr] at hrule
      obtain ⟨r', hr', _⟩ := Option.map_eq_some_iff.1 hrule.symm
      rw [hr']
      rw [hr'] at hrule
      exact hrule

theorem toOption_getD_error (r : Option (Except LexicalError Lexeme)) (e : LexicalError) :
    (r.getD (.error e)).toOption.map lowered = (found r).join := by
  cases r <;> rfl

/-- The text in lower case starts with the same lexeme, in lower case. -/
theorem read_lowered (c : Char) (cs : List Char) :
    (read d dict pos c.toLower (cs.map Char.toLower)).toOption.map lowered =
      (read d dict pos c cs).toOption.map lowered := by
  have hfound : found (rules.findSome? fun rule => rule d dict pos ((c :: cs).map Char.toLower)) =
      found (rules.findSome? fun rule => rule d dict pos (c :: cs)) := by
    refine findSome?_lowered ?_
    simp only [rules, List.forall_mem_cons]
    exact ⟨quotation_lowered _, hexNumber_lowered _, hexString_lowered _, variableName_lowered _,
      number_lowered _, word_lowered _, symbol_lowered _, by simp⟩
  rw [read, read, toOption_getD_error, toOption_getD_error, ← hfound, List.map_cons]

end Lexeme

/-! ## Gaps -/

/-- The gap before a token ends at the same position in the text in lower case. -/
theorem Gap.skip_lowered (d : Dialect) (g : Gap) (pos : Nat) (cs : List Char) :
    Gap.skip d g pos (cs.map Char.toLower) =
      (Gap.skip d g pos cs).map fun rest => (rest.1, rest.2.map Char.toLower) := by
  have hself {c : Char} (hc : c.isAlpha = false) : c.toLower = c := (toLower_eq_iff hc).2 rfl
  -- Two characters open or close a comment in the one text if they do in the other.
  have hpair {a b c : Char} {cs : List Char} (ha : a.isAlpha = false) (hb : b.isAlpha = false)
      (h : ∀ ds, c = a → cs = b :: ds → False) :
      ∀ ds, c.toLower = a → cs.map Char.toLower = b :: ds → False := by
    intro ds hc hcs
    obtain ⟨x, xs, rfl, hx, _⟩ := List.map_eq_cons_iff.1 hcs
    obtain rfl : x = b := (toLower_eq_iff hb).1 hx
    exact h xs ((toLower_eq_iff ha).1 hc) rfl
  fun_induction Gap.skip d g pos cs with
  | case1 => rfl
  | case2 _ _ cs ih =>
    rw [List.map_cons, List.map_cons, hself (by decide), hself (by decide), Gap.skip, ih]
  | case3 start pos c cs hclose ih =>
    rw [List.map_cons, Gap.skip, utf8Size_toLower, ih]
    exact hpair (by decide) (by decide) hclose
  | case4 => rfl
  | case5 _ c _ ih =>
    rw [List.map_cons, Gap.skip, utf8Size_toLower, ← ih]
    simp (disch := decide) only [toLower_eq_iff]
  | case6 => rfl
  | case7 _ _ ih =>
    rw [List.map_cons, List.map_cons, hself (by decide), Gap.skip, ih]
  | case8 _ _ ih =>
    rw [List.map_cons, List.map_cons, hself (by decide), hself (by decide), Gap.skip, ih]
  | case9 pos c cs hline hblock hc ih =>
    rw [List.map_cons, Gap.skip, isAsciiBlank_toLower, if_pos hc, ih]
    · exact hpair (by decide) (by decide) hline
    · exact hpair (by decide) (by decide) hblock
  | case10 pos c cs hline hblock hc hhash ih =>
    rw [List.map_cons, Gap.skip, isAsciiBlank_toLower, if_neg hc, if_pos, ih]
    · simpa (disch := decide) only [toLower_eq_iff] using hhash
    · exact hpair (by decide) (by decide) hline
    · exact hpair (by decide) (by decide) hblock
  | case11 pos c cs hline hblock hc hhash =>
    rw [List.map_cons, Gap.skip, isAsciiBlank_toLower, if_neg hc, if_neg]
    · rfl
    · simpa (disch := decide) only [toLower_eq_iff] using hhash
    · exact hpair (by decide) (by decide) hline
    · exact hpair (by decide) (by decide) hblock

end SqlRouting
