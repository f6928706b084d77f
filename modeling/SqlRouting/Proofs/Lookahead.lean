import SqlRouting.Proofs.Folded

/-!
# Lexemes before another text

What is read as a lexeme depends on the text behind it, but not in any way: cut that text off
somewhere, and let nothing or a space follow (`Lexeme.CutShort`), and the lexeme is read as before
(`Lexeme.read_cut`). Only whether the words `ORDER` and `GROUP` are keywords is decided anew, since
it depends on the word behind them (`TokenKind.reread`).

A text that has blanks for its comments is cut short at each of them. There `BY` goes on to follow
where it did, and a comment before it makes names of the two words (`TokenKind.before`).
-/

namespace SqlRouting

/-- The text `c :: cs` opens a comment. -/
def Gap.OpensComment (d : Dialect) (c : Char) (cs : List Char) : Prop :=
  OpensLine d c cs ∨ c = '/' ∧ cs.head? = some '*'

theorem Gap.OpensComment.ne_space {d : Dialect} {c : Char} {cs : List Char}
    (h : OpensComment d c cs) : c ≠ ' ' := by
  rcases h with (⟨rfl, _⟩ | ⟨rfl, _⟩) | ⟨rfl, _⟩ <;> decide

namespace Lexeme

/-! ## Texts that are cut short -/

/-- The second text is the first one up to a place where it ends or goes on with a space. -/
inductive CutShort : List Char → List Char → Prop
  | nil (cs : List Char) : CutShort cs []
  | space (cs cs' : List Char) : CutShort cs (' ' :: cs')
  | cons (c : Char) {cs cs' : List Char} (h : CutShort cs cs') : CutShort (c :: cs) (c :: cs')

variable {part cs cs' rest rest' : List Char}

namespace CutShort

theorem refl (cs : List Char) : CutShort cs cs := by
  induction cs with
  | nil => exact .nil []
  | cons c cs ih => exact ih.cons c

theorem append (part : List Char) (h : CutShort cs cs') : CutShort (part ++ cs) (part ++ cs') := by
  induction part with
  | nil => exact h
  | cons c part ih => exact ih.cons c

/-- A part without a space that starts the second text starts the first one. -/
theorem isPrefix (h : CutShort cs cs') (hpart : ' ' ∉ part) (hstarts : part <+: cs') :
    part <+: cs := by
  induction part generalizing cs cs' with
  | nil => exact List.nil_prefix
  | cons a part ih =>
    rw [List.mem_cons, not_or] at hpart
    cases h with
    | nil => simp at hstarts
    | space => exact absurd (List.cons_prefix_cons.1 hstarts).1.symm hpart.1
    | cons c h =>
      obtain ⟨rfl, hmore⟩ := List.cons_prefix_cons.1 hstarts
      exact List.cons_prefix_cons.2 ⟨rfl, ih h hpart.2 hmore⟩

theorem head?_eq (h : CutShort cs cs') {x : Char} (hx : x ≠ ' ') (hhead : cs'.head? = some x) :
    cs.head? = some x := by
  cases h with
  | nil => cases hhead
  | space => exact absurd (Option.some.inj hhead).symm hx
  | cons => exact hhead

/-- What starts no second text starts no first one either, if it is no space. -/
theorem head?_any {p : Char → Bool} (hp : p ' ' = false) (h : CutShort cs cs')
    (hhead : cs'.head?.any p = true) : cs.head?.any p = true := by
  obtain ⟨x, hx, hpx⟩ := (Option.any_eq_true _ _).1 hhead
  have hspace : x ≠ ' ' := by
    rintro rfl
    simp [hp] at hpx
  rw [h.head?_eq hspace hx, Option.any_some, hpx]

/-- What is taken as long as something holds that does not hold of a space is taken before the
    second text as well. -/
theorem takeWhile_append {p : Char → Bool} (hp : p ' ' = false) (h : CutShort rest rest')
    (htake : (part ++ rest).takeWhile p = part) :
    (part ++ rest').takeWhile p = part ∧ (part ++ rest').dropWhile p = rest' := by
  induction part with
  | nil =>
    cases h with
    | nil => simp
    | space => simp [hp]
    | cons c _ =>
      have hc : ¬p c = true := fun hc => by simp [hc] at htake
      simp [hc]
  | cons a part ih =>
    have ha : p a = true := by
      refine Bool.of_not_eq_false fun ha => ?_
      simp [ha] at htake
    simp only [List.cons_append, List.takeWhile_cons_of_pos ha, List.dropWhile_cons_of_pos ha,
      List.cons.injEq, true_and] at htake ⊢
    exact ih htake

/-! ## Numbers -/

theorem fraction_append (h : CutShort rest rest') (hpart : fraction (part ++ rest) = part) :
    fraction (part ++ rest') = part := by
  cases part with
  | nil =>
    -- A point makes a fraction, and the second text starts with none unless the first does.
    have hnone {cs : List Char} (hcs : fraction cs = []) : cs.head? ≠ some '.' := by
      intro hhead
      obtain ⟨ds, rfl⟩ := List.head?_eq_some_iff.1 hhead
      simp [fraction] at hcs
    have hdot := mt (h.head?_eq (by decide)) (hnone hpart)
    rw [List.nil_append]
    unfold fraction
    split
    · simp at hdot
    · rfl
  | cons a part =>
    have ha : a = '.' := Decidable.byContradiction fun ha => by simp [fraction, ha] at hpart
    subst ha
    simp only [List.cons_append, fraction, List.cons.injEq, true_and] at hpart ⊢
    exact (h.takeWhile_append rfl hpart).1

end CutShort

/-- A text starts with an exponent if it does with an `e`, perhaps a sign, and a digit. -/
theorem exponent_ne_nil : exponent cs ≠ [] ↔
    ∃ e sgn x, (e = 'e' ∨ e = 'E') ∧ sgn ∈ [[], ['+'], ['-']] ∧ x.isDigit = true ∧
      e :: (sgn ++ [x]) <+: cs := by
  constructor
  · intro h
    rcases cs with _ | ⟨e, cs⟩
    · exact absurd rfl h
    simp only [exponent, ne_eq, ite_eq_right_iff, Classical.not_imp, Bool.and_eq_true,
      Bool.or_eq_true, decide_eq_true_eq, Bool.not_eq_true', List.isEmpty_eq_false_iff] at h
    obtain ⟨⟨he, hdigits⟩, _⟩ := h
    have hsign : sign cs ∈ [[], ['+'], ['-']] := by
      unfold sign
      split
      · split
        case isTrue hc =>
          simp only [Bool.or_eq_true, decide_eq_true_eq] at hc
          rcases hc with rfl | rfl <;> decide
        case isFalse => decide
      · decide
    obtain ⟨rest, hrest⟩ : sign cs <+: cs := sign_prefix
    generalize sign cs = sgn at hrest hsign hdigits
    subst hrest
    rw [List.drop_left] at hdigits
    cases rest with
    | nil => exact absurd rfl hdigits
    | cons x rest =>
      have hx : x.isDigit = true := Bool.of_not_eq_false fun hx => by simp [hx] at hdigits
      exact ⟨e, sgn, x, he, hsign, hx, rest, by simp⟩
  · rintro ⟨e, sgn, x, he, hsgn, hx, more, rfl⟩
    have hsign : sign (sgn ++ x :: more) = sgn := by
      have hne : x ≠ '+' ∧ x ≠ '-' := by constructor <;> rintro rfl <;> cases hx
      simp only [List.mem_cons, List.not_mem_nil, or_false] at hsgn
      rcases hsgn with rfl | rfl | rfl <;> simp [sign, hne]
    simp [exponent, hsign, he, hx]

namespace CutShort

theorem exponent_eq_nil (h : CutShort cs cs') (hnil : exponent cs = []) : exponent cs' = [] := by
  refine Decidable.byContradiction fun hne => exponent_ne_nil.2 ?_ hnil
  obtain ⟨e, sgn, x, he, hsgn, hx, hprefix⟩ := exponent_ne_nil.1 hne
  refine ⟨e, sgn, x, he, hsgn, hx, h.isPrefix ?_ hprefix⟩
  have hx : x ≠ ' ' := by
    rintro rfl
    cases hx
  simp only [List.mem_cons, List.not_mem_nil, or_false] at hsgn
  rcases he with rfl | rfl <;> rcases hsgn with rfl | rfl | rfl <;> simp [hx.symm]

theorem exponent_append (h : CutShort rest rest') (hpart : exponent (part ++ rest) = part) :
    exponent (part ++ rest') = part := by
  rcases part with _ | ⟨e, part⟩
  · exact h.exponent_eq_nil hpart
  simp only [List.cons_append, exponent] at hpart ⊢
  split at hpart
  case isFalse => cases hpart
  case isTrue hopens =>
    -- Behind the sign the exponent is the digits up to the second text.
    simp only [List.cons.injEq, true_and] at hpart
    have hne : part ≠ [] := by
      rintro rfl
      simp only [List.nil_append, List.append_eq_nil_iff] at hpart
      simp [hpart.2] at hopens
    have hsign (more : List Char) : sign (part ++ more) = sign part := by
      obtain ⟨a, part, rfl⟩ := List.exists_cons_of_ne_nil hne
      rfl
    rw [hsign] at hpart hopens
    rw [hsign]
    obtain ⟨digits, hdigits⟩ : sign part <+: part := sign_prefix
    generalize sign part = sgn at hpart hopens hdigits
    subst hdigits
    rw [List.append_assoc, List.drop_left] at hpart hopens
    rw [List.append_assoc, List.drop_left]
    have htake := List.append_cancel_left hpart
    rw [htake] at hopens
    rw [(h.takeWhile_append rfl htake).1, if_pos hopens]

end CutShort

end Lexeme

/-! ## Kinds -/

/-- The kind that a token of this kind has before the text `rest`: a name that is spelled `ORDER` or
    `GROUP` is a keyword there if `BY` follows. -/
def TokenKind.before (dict : Dictionary) (word : String) (rest : List Char) (kind : TokenKind) :
    TokenKind :=
  if kind = LiteralClass.identifier ∧ Lexeme.isFollowedByBy rest = true then
    match dict.find? word with
    | some .ORDER => Keyword.ORDER
    | some .GROUP => Keyword.GROUP
    | _ => kind
  else kind

/-- The kind that a token of this kind has before the text `rest` if it stood before another text so
    far: the keywords `ORDER` and `GROUP` are names there if `BY` does not follow. -/
def TokenKind.reread (dict : Dictionary) (word : String) (rest : List Char) (kind : TokenKind) :
    TokenKind :=
  if (kind = Keyword.ORDER ∨ kind = Keyword.GROUP) ∧ Lexeme.isFollowedByBy rest = false then
    LiteralClass.identifier
  else kind.before dict word rest

namespace Lexeme

variable {d : Dialect} {dict : Dictionary} {pos pos' : Nat} {cs cs' rest rest' : List Char}

/-- The kinds of words, as far as they depend on the text behind the word. -/
def wordKinds : List TokenKind :=
  [LiteralClass.identifier, Keyword.ORDER, Keyword.GROUP]

theorem before_of_ne {kind : TokenKind} {word : String} (h : kind ≠ LiteralClass.identifier) :
    kind.before dict word rest = kind :=
  if_neg fun h' => h h'.1

theorem reread_of_not_mem {kind : TokenKind} {word : String} (h : kind ∉ wordKinds) :
    kind.reread dict word rest = kind := by
  simp only [wordKinds, List.mem_cons, List.not_mem_nil, or_false, not_or] at h
  rw [TokenKind.reread, if_neg fun h' => h'.1.elim h.2.1 h.2.2, before_of_ne h.1]

/-- No string becomes anything else, and nothing becomes a string. -/
theorem before_eq_chars {kind : TokenKind} {word : String} :
    kind.before dict word rest = .literal .chars ↔ kind = .literal .chars := by
  rw [TokenKind.before]
  split_ifs with h
  · rw [h.1]
    split <;> simp
  · rfl

theorem quotes_before (kind : TokenKind) (word : String) :
    (kind.before dict word rest).quotes = kind.quotes := by
  rw [TokenKind.before]
  split_ifs with h
  · rw [h.1]
    split <;> rfl
  · rfl

/-- What a word is before another text follows from what it is before the first. -/
theorem reread_wordKind {word : List Char} :
    (wordKind dict word rest).reread dict (String.ofList word) rest' =
      wordKind dict word rest' := by
  rw [TokenKind.reread, TokenKind.before, wordKind, wordKind]
  cases dict.find? (String.ofList word) with
  | none => simp
  | some k =>
    cases isFollowedByBy rest <;> cases isFollowedByBy rest' <;> cases k <;> simp

/-- A quoted name is never a keyword. -/
theorem before_quoted {c : Char} {cls : LiteralClass} {kind : TokenKind}
    (hc : quoted? d c = some cls)
    (body : List Char) : kind.before dict (String.ofList (c :: body)) rest = kind := by
  have hhead {k : Keyword} (hk : dict.find? (String.ofList (c :: body)) = some k) :
      k.text.toList.head? = some c := by
    have htext := List.find?_some hk
    have hupper : c.toUpper = c := by
      rw [quoted?] at hc
      split_ifs at hc <;> simp_all
    rw [of_decide_eq_true htext]
    simp [Text.upper, hupper]
  have hne : c ≠ 'O' ∧ c ≠ 'G' := by
    constructor <;> rintro rfl <;> simp [quoted?] at hc
  rw [TokenKind.before]
  split_ifs with h
  · split
    case h_1 hk => exact absurd (Option.some.inj (hhead hk)).symm hne.1
    case h_2 hk => exact absurd (Option.some.inj (hhead hk)).symm hne.2
    case h_3 => rfl
  · rfl

theorem reread_quoted {c : Char} {cls : LiteralClass} (hc : quoted? d c = some cls)
    (body : List Char) :
    (TokenKind.literal cls).reread dict (String.ofList (c :: body)) rest = .literal cls := by
  rw [TokenKind.reread, if_neg (by simp), before_quoted hc]

/-! ## Rules -/

/-- The rule does not depend on what is cut off: if it reads a lexeme, it reads it also before a text
    that is cut short behind the lexeme, and if it does not apply, it does not apply to a text that
    is cut short either. -/
structure Rule.IgnoresRest (d : Dialect) (dict : Dictionary) (rule : Rule) : Prop where
  none {pos pos' : Nat} {c : Char} {cs cs' : List Char} (h : CutShort cs cs')
    (hnone : rule d dict pos (c :: cs) = none) : rule d dict pos' (c :: cs') = none
  ok {pos pos' : Nat} {l : Lexeme} {rest rest' : List Char} (h : CutShort rest rest')
    (hne : l.spelling ≠ []) (hok : rule d dict pos (l.spelling ++ rest) = some (.ok l)) :
    rule d dict pos' (l.spelling ++ rest') =
      some (.ok { l with kind := l.kind.reread dict (String.ofList l.spelling) rest' })

theorem opensNumber_cons (c : Char) (cs : List Char) : Scanner.opensNumber (c :: cs) =
    if c = '.' then cs.head?.any Char.isDigit else c.isDigit := by
  by_cases hc : c = '.'
  · subst hc
    cases cs <;> simp [Scanner.opensNumber]
  · simp [Scanner.opensNumber, hc]

theorem number_eq (pos : Nat) (cs : List Char) : number d dict pos cs =
    if Scanner.opensNumber cs then
      let rest := cs.dropWhile Char.isDigit
      let behind := fraction rest ++ exponent (rest.drop (fraction rest).length)
      some (.ok ⟨if behind.isEmpty then LiteralClass.int else LiteralClass.float,
        cs.takeWhile Char.isDigit ++ behind⟩)
    else none := rfl

/-- A text opens like a number if digits start it, or a point with digits behind. -/
theorem opensNumber_iff {cs : List Char} : Scanner.opensNumber cs = true ↔
    cs.takeWhile Char.isDigit ≠ [] ∨ 1 < (fraction cs).length := by
  have htake {cs : List Char} : cs.takeWhile Char.isDigit ≠ [] ↔
      cs.head?.any Char.isDigit = true := by
    cases cs with
    | nil => simp
    | cons c cs => cases hc : c.isDigit <;> simp [hc]
  cases cs with
  | nil => simp [Scanner.opensNumber, fraction]
  | cons c cs =>
    rw [opensNumber_cons, htake]
    by_cases hc : c = '.'
    · subst hc
      have hpoint : ('.' : Char).isDigit = false := rfl
      simp [fraction, hpoint, List.length_pos_iff, htake]
    · simp [hc, fraction]

theorem number_ignoresRest : number.IgnoresRest d dict where
  none {pos pos' c cs cs'} h hnone := by
    rw [number_eq, opensNumber_cons] at hnone ⊢
    rw [if_neg]
    intro hopens
    simp only [ite_eq_right_iff, reduceCtorEq, imp_false] at hnone
    refine hnone ?_
    split at hopens
    case isTrue hc => rw [if_pos hc, h.head?_any rfl hopens]
    case isFalse hc => rwa [if_neg hc]
  ok {pos pos' l rest rest'} h hne hok := by
    rw [number_eq] at hok
    split at hok
    case isFalse => cases hok
    case isTrue hopens =>
      -- The text is the digits, the fraction, the exponent, and what is behind the number.
      obtain ⟨kind, spelling⟩ := l
      dsimp only at hok hne ⊢
      generalize hcs : spelling ++ rest = cs at hok hopens
      have hsplit := List.takeWhile_append_dropWhile (p := Char.isDigit) (l := cs)
      generalize hwhole : cs.takeWhile Char.isDigit = whole at hok hsplit
      generalize cs.dropWhile Char.isDigit = behind at hok hsplit
      obtain ⟨more, hmore⟩ : fraction behind <+: behind := fraction_prefix
      generalize hfraction : fraction behind = part at hok hmore
      subst hmore
      rw [List.drop_left] at hok
      obtain ⟨rest₀, hrest⟩ : exponent more <+: more := exponent_prefix
      generalize hexponent : exponent more = power at hok hrest
      subst hrest
      obtain ⟨rfl, rfl⟩ : (if (part ++ power).isEmpty then LiteralClass.int else LiteralClass.float :
          TokenKind) = kind ∧ whole ++ (part ++ power) = spelling := by simpa using hok
      obtain rfl : rest = rest₀ := by
        have hall : whole ++ (part ++ power) ++ rest = whole ++ (part ++ power) ++ rest₀ := by
          rw [hcs, ← hsplit]
          simp only [List.append_assoc]
        exact List.append_cancel_left hall
      subst hsplit
      -- Each of them is the same before the other text.
      have hpower := h.exponent_append hexponent
      have hpart := (h.append power).fraction_append hfraction
      obtain ⟨htake, hdrop⟩ := ((h.append power).append part).takeWhile_append rfl hwhole
      have hkind : (if (part ++ power).isEmpty then LiteralClass.int else LiteralClass.float :
          TokenKind) ∉ wordKinds := by split <;> simp [wordKinds]
      have hopens' : Scanner.opensNumber (whole ++ (part ++ (power ++ rest'))) = true := by
        rw [opensNumber_iff] at hopens ⊢
        rw [htake]
        rw [hwhole] at hopens
        rcases whole with _ | ⟨c, whole⟩
        · rw [List.nil_append] at hopens ⊢
          rwa [hpart, ← hfraction]
        · exact .inl (List.cons_ne_nil c whole)
      rw [reread_of_not_mem hkind, number_eq]
      simp only [List.append_assoc, hopens', htake, hdrop, hpart, hpower, List.drop_left, if_true]

theorem symbol_ignoresRest : symbol.IgnoresRest d dict := by
  -- No symbol has a space in it.
  have hcut {x : Symbol} {cs cs' : List Char} (h : CutShort cs cs')
      (hx : x.text.toList <+: cs') : x.text.toList <+: cs :=
    h.isPrefix (by cases x <;> decide) hx
  refine ⟨fun {pos pos' c cs cs'} h hnone => ?_, fun {pos pos' l rest rest'} h hne hok => ?_⟩
  · simp only [symbol, Symbol.starting?, Option.map_eq_none_iff, List.find?_eq_none,
      List.isPrefixOf_iff_prefix] at hnone ⊢
    exact fun x hx hstarts => hnone x hx (hcut (h.cons c) hstarts)
  · obtain ⟨x, hx, hl⟩ := Option.map_eq_some_iff.1 hok
    obtain rfl : (⟨x, x.text.toList⟩ : Lexeme) = l := by simpa using hl
    obtain ⟨_, longer, shorter, hall, hlonger⟩ := List.find?_eq_some_iff_append.1 hx
    rw [reread_of_not_mem (by simp [wordKinds]), symbol, Option.map_eq_some_iff]
    refine ⟨x, List.find?_eq_some_iff_append.2 ⟨?_, longer, shorter, hall, fun y hy => ?_⟩, rfl⟩
    · exact List.isPrefixOf_iff_prefix.2 (List.prefix_append ..)
    · have hy := hlonger y hy
      rw [Bool.not_eq_true', ← Bool.not_eq_true, List.isPrefixOf_iff_prefix] at hy ⊢
      exact mt (hcut (h.append _)) hy

theorem variableName_ignoresRest : variableName.IgnoresRest d dict where
  none {pos pos' c cs cs'} h hnone := by
    by_cases hc : c = '@'
    · subst hc
      rw [variableName_at] at hnone ⊢
      split_ifs at hnone with hat
      rw [if_neg hat]
    · simp [variableName, hc]
  ok {pos pos' l rest rest'} h hne hok := by
    obtain ⟨c, cs, hspelling⟩ := List.exists_cons_of_ne_nil hne
    obtain ⟨kind, spelling⟩ := l
    obtain rfl : spelling = c :: cs := hspelling
    by_cases hc : c = '@'
    case neg => simp [variableName, hc] at hok
    subst hc
    dsimp only at hok ⊢
    rw [List.cons_append, variableName_at] at hok ⊢
    -- A second sign belongs to the name, and none comes with the other text.
    split_ifs at hok with hat htwice
    case pos =>
      obtain ⟨rfl, hname⟩ : .literal .atVariable = kind ∧
          '@' :: ((cs ++ rest).drop 1).takeWhile isNamed = cs := by simpa using hok
      obtain ⟨cs, rfl⟩ : ∃ more, cs = '@' :: more := ⟨_, hname.symm⟩
      simp only [List.cons_append, List.drop_succ_cons, List.drop_zero, List.cons.injEq,
        true_and] at hname
      simp [hat, (h.takeWhile_append rfl hname).1, reread_of_not_mem, wordKinds]
    case neg =>
      obtain ⟨rfl, hname⟩ : .literal .atVariable = kind ∧ (cs ++ rest).takeWhile isNamed = cs := by
        simpa using hok
      have honce := mt ((h.append cs).head?_eq (by decide)) htwice
      rw [if_pos hat, if_neg honce, (h.takeWhile_append rfl hname).1,
        reread_of_not_mem (by simp [wordKinds])]

theorem word_ignoresRest : word.IgnoresRest d dict where
  none {pos pos' c cs cs'} h hnone := by
    rw [word] at hnone ⊢
    split_ifs at hnone with hstarts
    rw [if_neg hstarts]
  ok {pos pos' l rest rest'} h hne hok := by
    obtain ⟨c, cs, hspelling⟩ := List.exists_cons_of_ne_nil hne
    rw [hspelling, List.cons_append, word] at hok ⊢
    split_ifs at hok with hstarts
    obtain ⟨kind, spelling⟩ := l
    obtain ⟨rfl, hall⟩ : wordKind dict (c :: (cs ++ rest).takeWhile continuesWord)
        ((cs ++ rest).dropWhile continuesWord) = kind ∧
        c :: (cs ++ rest).takeWhile continuesWord = spelling := by simpa using hok
    obtain rfl : spelling = c :: cs := hspelling
    -- The word is all that can be read as one, before the one text as before the other.
    have hword : (cs ++ rest).takeWhile continuesWord = cs := (List.cons.inj hall).2
    obtain ⟨htake, hdrop⟩ := h.takeWhile_append rfl hword
    rw [if_pos hstarts, htake, hdrop, hword, reread_wordKind]

theorem hexNumber_ignoresRest : hexNumber.IgnoresRest d dict where
  none {pos pos' c cs cs'} h hnone := by
    cases h with
    | nil => simp [hexNumber]
    | space => simp [hexNumber_cons]
    | cons x h =>
      rw [hexNumber_cons] at hnone ⊢
      split_ifs at hnone with hx
      rw [if_neg hx]
  ok {pos pos' l rest rest'} h hne hok := by
    unfold hexNumber at hok
    split at hok
    case h_2 => cases hok
    case h_1 x cs htext =>
      split_ifs at hok with hx
      generalize hdigits : cs.takeWhile isHexDigit = digits at hok
      dsimp only at hok
      split_ifs at hok with hempty
      · cases hok
      · cases hok
        obtain rfl : digits ++ rest = cs := by simpa using htext
        have htake := (h.takeWhile_append rfl hdigits).1
        simp [hexNumber_cons, htake, hempty, reread_of_not_mem, wordKinds, by simpa using hx]

theorem hexString_ignoresRest : hexString.IgnoresRest d dict where
  none {pos pos' c cs cs'} h hnone := by
    cases h with
    | nil => simp [hexString]
    | space => simp [hexString_cons]
    | cons x h =>
      rw [hexString_cons] at hnone ⊢
      split_ifs at hnone with hx
      rw [if_neg hx]
  ok {pos pos' l rest rest'} h hne hok := by
    unfold hexString at hok
    split at hok
    case h_2 => cases hok
    case h_1 x cs htext =>
      split_ifs at hok with hx
      dsimp only at hok
      split at hok
      case h_2 => cases hok
      case h_3 => cases hok
      case h_1 more hmore =>
        -- The digits end at the quote that closes the string, before the text that may differ.
        have hcs := List.takeWhile_append_dropWhile (p := isHexDigit) (l := cs)
        have hall : ∀ c ∈ cs.takeWhile isHexDigit, isHexDigit c = true :=
          List.all_eq_true.1 List.all_takeWhile
        generalize cs.takeWhile isHexDigit = digits at hcs hall hok
        cases hok
        rw [hmore] at hcs
        subst hcs
        have hquote : isHexDigit '\'' = false := rfl
        simp [hexString_cons, List.takeWhile_append_of_pos hall, List.dropWhile_append_of_pos hall,
          hquote, reread_of_not_mem, wordKinds, by simpa using hx]

/-- Behind its last quote a quotation has no further one, and it is the same before any text that
    does not start with one. -/
theorem upToQuote?_alone {quote : Char} {escapes : Bool} {body : List Char} (hquote : quote ≠ '\\')
    (h : upToQuote? quote escapes cs = some body) :
    (cs.drop body.length).head? ≠ some quote ∧
      ∀ rest : List Char, rest.head? ≠ some quote →
        upToQuote? quote escapes (body ++ rest) = some body := by
  have hescape : ¬(quote = '\\' && escapes) = true := by simp [hquote]
  fun_induction upToQuote? quote escapes cs generalizing body with
  | case1 => cases h
  | case2 =>
    cases h
    exact ⟨by simp, fun rest hrest => upToQuote?_quote hescape hrest⟩
  | case3 => cases h
  | case4 c d cs hpair ih =>
    obtain ⟨b, hb, rfl⟩ := Option.map_eq_some_iff.1 h
    obtain ⟨hdrop, hrest⟩ := ih hb
    exact ⟨by simpa using hdrop, fun rest h => by simp [upToQuote?, hpair, hrest rest h]⟩
  | case5 cs _ ih =>
    obtain ⟨b, hb, rfl⟩ := Option.map_eq_some_iff.1 h
    obtain ⟨hdrop, hrest⟩ := ih hb
    exact ⟨by simpa using hdrop, fun rest h => by simp [upToQuote?, hquote, hrest rest h]⟩
  | case6 d cs hne _ =>
    cases h
    exact ⟨by simpa using hne, fun rest hrest => upToQuote?_quote hescape hrest⟩
  | case7 c d cs hpair hne ih =>
    obtain ⟨b, hb, rfl⟩ := Option.map_eq_some_iff.1 h
    obtain ⟨hdrop, hrest⟩ := ih hb
    refine ⟨by simpa using hdrop, fun rest h => ?_⟩
    rw [List.cons_append, upToQuote?_cons_of_ne hne hpair, hrest rest h, Option.map_some]

theorem quotation_ignoresRest : quotation.IgnoresRest d dict where
  none {pos pos' c cs cs'} h hnone := by
    rw [quotation, Option.map_eq_none_iff] at hnone ⊢
    exact hnone
  ok {pos pos' l rest rest'} h hne hok := by
    obtain ⟨c, cs, hspelling⟩ := List.exists_cons_of_ne_nil hne
    rw [hspelling, List.cons_append, quotation] at hok ⊢
    obtain ⟨cls, hc, hok⟩ := Option.map_eq_some_iff.1 hok
    rw [hc, Option.map_some]
    split at hok
    case h_2 => cases hok
    case h_1 body hbody =>
      obtain ⟨kind, spelling⟩ := l
      obtain ⟨rfl, rfl⟩ : .literal cls = kind ∧ c :: body = spelling := by simpa using hok
      obtain rfl : body = cs := (List.cons.inj hspelling).2
      have hquote : c ≠ '\\' ∧ c ≠ ' ' := by constructor <;> rintro rfl <;> simp [quoted?] at hc
      obtain ⟨halone, hself⟩ := upToQuote?_alone hquote.1 hbody
      rw [List.drop_left] at halone
      -- A quotation ends unless its quote is doubled.
      rw [hself rest' (mt (h.head?_eq hquote.2) halone), reread_quoted hc]

/-! ## Lexemes -/

theorem rules_ignoreRest : ∀ rule ∈ rules, rule.IgnoresRest d dict := by
  simp only [rules, List.forall_mem_cons]
  exact ⟨quotation_ignoresRest, hexNumber_ignoresRest, hexString_ignoresRest,
    variableName_ignoresRest, number_ignoresRest, word_ignoresRest, symbol_ignoresRest, by simp⟩

/-- The lexeme that the first rule to apply reads is read before any text that is cut short. -/
theorem findSome?_cut {rs : List Rule} (hrs : ∀ rule ∈ rs, rule.IgnoresRest d dict) {c : Char}
    {spelling : List Char} {l : Lexeme} (hl : l.spelling = c :: spelling) (h : CutShort rest rest')
    (hread : (rs.findSome? fun rule => rule d dict pos (c :: (spelling ++ rest))) = some (.ok l)) :
    (rs.findSome? fun rule => rule d dict pos' (c :: (spelling ++ rest'))) =
      some (.ok { l with kind := l.kind.reread dict (String.ofList l.spelling) rest' }) := by
  induction rs with
  | nil => cases hread
  | cons rule rs ih =>
    rw [List.forall_mem_cons] at hrs
    rw [List.findSome?_cons] at hread ⊢
    cases hrule : rule d dict pos (c :: (spelling ++ rest)) with
    | none =>
      rw [hrule] at hread
      rw [hrs.1.none (h.append spelling) hrule]
      exact ih hrs.2 hread
    | some found =>
      rw [hrule] at hread
      obtain rfl := Option.some.inj hread
      rw [← List.cons_append, ← hl] at hrule ⊢
      rw [hrs.1.ok h (by simp [hl]) hrule]

/-- A lexeme is read in the same way before a text that is cut short, wherever it stands, but for
    `ORDER` and `GROUP`. -/
theorem read_cut {c : Char} {spelling : List Char} {l : Lexeme} (hl : l.spelling = c :: spelling)
    (h : CutShort rest rest') (hread : read d dict pos c (spelling ++ rest) = .ok l) :
    read d dict pos' c (spelling ++ rest') =
      .ok { l with kind := l.kind.reread dict (String.ofList l.spelling) rest' } := by
  rw [read, Option.getD_eq_iff] at hread
  obtain hread | ⟨_, hread⟩ := hread
  · rw [read, findSome?_cut rules_ignoreRest hl h hread, Option.getD_some]
  · cases hread

/-! ## Comments -/

/-- The texts are the same up to a place where the first of them opens a comment and the
    second has a space, if there is such a place. -/
inductive AgreesUpToComment (d : Dialect) : List Char → List Char → Prop
  | nil : AgreesUpToComment d [] []
  | cons (c : Char) {cs cs' : List Char} (h : AgreesUpToComment d cs cs') :
    AgreesUpToComment d (c :: cs) (c :: cs')
  | comment {c : Char} {cs : List Char} (h : Gap.OpensComment d c cs) (cs' : List Char) :
    AgreesUpToComment d (c :: cs) (' ' :: cs')

namespace AgreesUpToComment

variable {part : List Char}

theorem append_iff :
    AgreesUpToComment d (part ++ cs) (part ++ cs') ↔ AgreesUpToComment d cs cs' := by
  induction part with
  | nil => rfl
  | cons c part ih =>
    refine ⟨fun h => ?_, fun h => .cons c (ih.2 h)⟩
    generalize hcs : c :: part ++ cs = text, hcs' : c :: part ++ cs' = text' at h
    cases h with
    | nil => cases hcs
    | cons _ h =>
      cases hcs
      cases hcs'
      exact ih.1 h
    | comment h _ =>
      cases hcs
      cases hcs'
      exact absurd rfl h.ne_space

theorem refl (cs : List Char) : AgreesUpToComment d cs cs := by
  induction cs with
  | nil => exact .nil
  | cons c cs ih => exact ih.cons c

/-- The second text is the first one, cut short at the comment. -/
theorem cutShort (h : AgreesUpToComment d cs cs') : CutShort cs cs' := by
  induction h with
  | nil => exact .nil []
  | cons c _ ih => exact ih.cons c
  | comment _ cs' => exact .space _ cs'

/-- A comment that opens in the second text opens in the first one. -/
theorem opensComment (h : AgreesUpToComment d cs cs') {c : Char}
    (hopens : Gap.OpensComment d c cs') :
    Gap.OpensComment d c cs := by
  rcases hopens with (⟨hc, hhead⟩ | ⟨hc, hhash⟩) | ⟨hc, hhead⟩
  · exact .inl (.inl ⟨hc, h.cutShort.head?_eq (by decide) hhead⟩)
  · exact .inl (.inr ⟨hc, hhash⟩)
  · exact .inr ⟨hc, h.cutShort.head?_eq (by decide) hhead⟩

/-- No word goes on with a comment. -/
theorem continuesWord_head? (h : AgreesUpToComment d cs cs') :
    cs'.head?.any continuesWord = cs.head?.any continuesWord := by
  cases h with
  | nil => rfl
  | cons c h => rfl
  | comment h cs' => rcases h with (⟨rfl, _⟩ | ⟨rfl, _⟩) | ⟨rfl, _⟩ <;> rfl

/-- Where `BY` follows it still does with a space in the place of a comment. -/
theorem isFollowedByBy (h : AgreesUpToComment d cs cs') (hby : Lexeme.isFollowedByBy cs = true) :
    Lexeme.isFollowedByBy cs' = true := by
  induction h with
  | nil => exact hby
  | cons b h ih =>
    simp only [Lexeme.isFollowedByBy, Text.trimStart] at hby ih ⊢
    by_cases hblank : Text.isBlank b = true
    · rw [List.dropWhile_cons_of_pos hblank] at hby ⊢
      exact ih hby
    · rw [List.dropWhile_cons_of_neg hblank] at hby ⊢
      cases h with
      | nil => exact hby
      | cons y h =>
        dsimp only at hby ⊢
        rwa [h.continuesWord_head?]
      | comment h _ =>
        rcases h with (⟨rfl, _⟩ | ⟨rfl, _⟩) | ⟨rfl, _⟩ <;> simp at hby
  | @comment c cs h cs' =>
    -- Only blanks are skipped before `BY`, so what opens a comment stands in its place.
    have hblank : ¬Text.isBlank c = true := by
      rcases h with (⟨rfl, _⟩ | ⟨rfl, _⟩) | ⟨rfl, _⟩ <;> decide
    rw [Lexeme.isFollowedByBy, Text.trimStart, List.dropWhile_cons_of_neg hblank] at hby
    rcases h with (⟨rfl, _⟩ | ⟨rfl, _⟩) | ⟨rfl, _⟩ <;> cases cs <;> simp at hby

end AgreesUpToComment

/-- A lexeme is read in the same way before texts that agree up to a comment, but for `ORDER` and
    `GROUP`. -/
theorem read_before {c : Char} {spelling : List Char} {l : Lexeme} (hl : l.spelling = c :: spelling)
    (h : AgreesUpToComment d rest rest') (hread : read d dict pos c (spelling ++ rest) = .ok l) :
    read d dict pos c (spelling ++ rest') =
      .ok { l with kind := l.kind.before dict (String.ofList l.spelling) rest' } := by
  rw [read_cut hl h.cutShort hread, TokenKind.reread, if_neg]
  rintro ⟨hkind, hby⟩
  -- The keyword has `BY` behind it, and goes on to have it there.
  have hself : l.kind.reread dict (String.ofList l.spelling) rest = l.kind :=
    congrArg Lexeme.kind (Except.ok.inj ((read_cut hl (.refl rest) hread).symm.trans hread))
  have hrest : isFollowedByBy rest = false :=
    Bool.eq_false_iff.2 fun h' => by simp [h.isFollowedByBy h'] at hby
  rw [TokenKind.reread, if_pos ⟨hkind, hrest⟩] at hself
  rcases hkind with hkind | hkind <;> simp [hkind] at hself

end Lexeme

end SqlRouting
