import SqlRouting.Proofs.Comments
import SqlRouting.Proofs.Facing
import SqlRouting.Proofs.KeptText
import SqlRouting.Proofs.OperandGrammar

/-!
# Excerpts

Some tokens that stand behind one another in a text, from the gap before the first one on, are an
*excerpt* of it (`TokenStream.Excerpt`). Elsewhere the same part of a text may be read differently,
since a lexeme ends where the text does not go on with it, and whether `ORDER` and `GROUP` are
keywords depends on the word behind them. But before the end of a text, or before a space, an
excerpt is read as tokens of the same kinds, unless it ends in a blank, or in such a keyword
(`Excerpt.reread`). So it can be copied, on its own or with a comment behind it
(`TokenStream.Copies`).
-/

namespace SqlRouting

open Text (byteLength isBlank isAsciiBlank)

namespace Lexeme

variable {d : Dialect} {dict : Dictionary} {pos : Nat} {c : Char} {cs rest rest' : List Char}
  {l : Lexeme}

/-! ## Whether `BY` follows -/

theorem isFollowedByBy_of_isBlank (h : isBlank c = true) (cs : List Char) :
    isFollowedByBy (c :: cs) = isFollowedByBy cs := by
  simp only [isFollowedByBy, Text.trimStart, List.dropWhile_cons_of_pos h]

/-- The character is no blank, and not the letter `B` in either case. -/
def opensOther (c : Char) : Bool :=
  !isBlank c && c.toUpper ≠ 'B'

/-- Before anything but a blank and the letter `B` there is no `BY`. -/
theorem isFollowedByBy_of_opensOther (h : opensOther c = true) (cs : List Char) :
    isFollowedByBy (c :: cs) = false := by
  rw [opensOther, Bool.and_eq_true, Bool.not_eq_true', decide_eq_true_eq] at h
  obtain ⟨hblank, hc⟩ := h
  rw [isFollowedByBy, Text.trimStart, List.dropWhile_cons_of_neg (by simp [hblank])]
  cases cs <;> simp [hc]

/-- What is a capital letter in upper case is a letter. -/
theorem isAlpha_of_toUpper {x : Char} (h : c.toUpper = x) (hx : x.isUpper = true) :
    c.isAlpha = true := by
  rw [Char.toUpper] at h
  split at h
  case isTrue hlower => simpa [Char.isAlpha, Char.isLower] using .inr hlower
  case isFalse =>
    rw [Char.isAlpha, h, hx, Bool.true_or]

/-- Whether `BY` follows is seen in the word that comes first. -/
theorem isFollowedByBy_word {word : List Char} (hword : ∀ x ∈ word.tail, continuesWord x = true)
    (hsolid : ∃ x ∈ word, isBlank x = false) (hrest : rest.head?.any continuesWord = false)
    (hrest' : rest'.head?.any continuesWord = false) :
    isFollowedByBy (word ++ rest') = isFollowedByBy (word ++ rest) := by
  induction word with
  | nil => simp at hsolid
  | cons b word ih =>
    rw [List.tail_cons] at hword
    by_cases hb : isBlank b = true
    · rw [List.cons_append, List.cons_append, isFollowedByBy_of_isBlank hb,
        isFollowedByBy_of_isBlank hb]
      refine ih (fun x hx => hword x (List.mem_of_mem_tail hx)) ?_
      simpa [hb] using hsolid
    · have hdrop (cs : List Char) : Text.trimStart (b :: cs) = b :: cs :=
        List.dropWhile_cons_of_neg hb
      -- Behind a single letter no word goes on, so there is no `Y`.
      have hlone {rest : List Char} (h : rest.head?.any continuesWord = false) :
          isFollowedByBy (b :: rest) = false := by
        rw [isFollowedByBy, hdrop]
        cases rest with
        | nil => rfl
        | cons y rest =>
          have hy : y.toUpper ≠ 'Y' := fun hy => by
            simp [continuesWord, Char.isAlphanum, isAlpha_of_toUpper hy (by decide)] at h
          simp [hy]
      rcases word with _ | ⟨y, _ | ⟨z, word⟩⟩
      · exact (hlone hrest').trans (hlone hrest).symm
      · simp only [isFollowedByBy, hdrop, List.cons_append, List.nil_append, hrest, hrest']
      · simp only [isFollowedByBy, hdrop, List.cons_append, List.head?_cons]

theorem quotation_opensOther (h : quotation d dict pos (c :: cs) = some (.ok l)) :
    opensOther c = true := by
  obtain ⟨cls, hc, _⟩ := Option.map_eq_some_iff.1 h
  rw [quoted?] at hc
  split_ifs at hc <;> simp_all <;> decide

theorem hexNumber_opensOther (h : hexNumber d dict pos (c :: cs) = some (.ok l)) :
    opensOther c = true := by
  unfold hexNumber at h
  split at h
  case h_2 => cases h
  case h_1 heq =>
    cases heq
    decide

theorem hexString_opensOther (h : hexString d dict pos (c :: cs) = some (.ok l)) :
    opensOther c = true := by
  unfold hexString at h
  split at h
  case h_2 => cases h
  case h_1 heq =>
    split_ifs at h with hx
    cases heq
    simp only [Bool.or_eq_true, decide_eq_true_eq] at hx
    rcases hx with rfl | rfl <;> decide

theorem variableName_opensOther (h : variableName d dict pos (c :: cs) = some (.ok l)) :
    opensOther c = true := by
  unfold variableName at h
  split at h
  case h_2 => cases h
  case h_1 heq =>
    cases heq
    decide

theorem number_opensOther (h : number d dict pos (c :: cs) = some (.ok l)) :
    opensOther c = true := by
  rw [number_eq, Option.ite_none_right_eq_some, opensNumber_cons] at h
  by_cases hc : c = '.'
  · subst hc
    decide
  · have hdigit : c.isDigit = true := by simpa [hc] using h.1
    have hblank : isBlank c = false :=
      Text.not_isBlank_of_isAlphanum (.inl (by simp [Char.isAlphanum, hdigit]))
    have hne : c.toUpper ≠ 'B' := by
      intro hB
      have hstarts : startsWord c = true := by
        simp [startsWord, isAlpha_of_toUpper hB (by decide)]
      simp [not_isDigit_of_startsWord hstarts] at hdigit
    simp [opensOther, hblank, hne]

theorem symbol_opensOther (h : symbol d dict pos (c :: cs) = some (.ok l)) :
    opensOther c = true := by
  obtain ⟨x, hx, _⟩ := Option.map_eq_some_iff.1 h
  have hstarts := List.find?_some hx
  obtain ⟨a, as, ha, hother⟩ : ∃ a as, x.text.toList = a :: as ∧ opensOther a = true := by
    cases x <;> exact ⟨_, _, rfl, by decide⟩
  rw [ha, List.isPrefixOf_cons_cons, Bool.and_eq_true, beq_iff_eq] at hstarts
  exact hstarts.1 ▸ hother

/-- A lexeme is a word, or it starts neither with a blank nor with the letter `B`. -/
theorem read_starts (hread : read d dict pos c cs = .ok l) :
    l.spelling = c :: cs.takeWhile continuesWord ∨ opensOther c = true := by
  obtain ⟨rule, hrule, h⟩ := exists_rule hread
  simp only [rules, List.mem_cons, List.not_mem_nil, or_false] at hrule
  rcases hrule with rfl | rfl | rfl | rfl | rfl | rfl | rfl
  · exact .inr (quotation_opensOther h)
  · exact .inr (hexNumber_opensOther h)
  · exact .inr (hexString_opensOther h)
  · exact .inr (variableName_opensOther h)
  · exact .inr (number_opensOther h)
  · simp only [word, Option.ite_none_right_eq_some, Option.some.injEq, Except.ok.injEq] at h
    obtain ⟨_, rfl⟩ := h
    exact .inl rfl
  · exact .inr (symbol_opensOther h)

/-- Whether `BY` follows is seen in the lexeme that comes first, unless that is a word of blanks. -/
theorem isFollowedByBy_lexeme {spelling : List Char} (hl : l.spelling = c :: spelling)
    (hread : read d dict pos c (spelling ++ rest) = .ok l)
    (hsolid : ∃ x ∈ l.spelling, isBlank x = false) (h : CutShort rest rest') :
    isFollowedByBy (l.spelling ++ rest') = isFollowedByBy (l.spelling ++ rest) := by
  rcases read_starts hread with hword | hother
  · have htake : (spelling ++ rest).takeWhile continuesWord = spelling := by
      simpa [hl] using hword.symm
    have hrest : rest.head?.any continuesWord = false := by
      have hhead := List.head?_dropWhile_not continuesWord (spelling ++ rest)
      have hsplit := List.takeWhile_append_dropWhile (p := continuesWord) (l := spelling ++ rest)
      rw [htake] at hsplit
      rw [List.append_cancel_left hsplit] at hhead
      cases rest <;> simp_all
    refine isFollowedByBy_word (fun x hx => ?_) hsolid hrest ?_
    · rw [hl, List.tail_cons, ← htake] at hx
      exact List.mem_takeWhile_imp hx
    · exact Bool.eq_false_iff.2 fun h' => by simp [h.head?_any rfl h'] at hrest
  · rw [hl, List.cons_append, List.cons_append, isFollowedByBy_of_opensOther hother,
      isFollowedByBy_of_opensOther hother]

end Lexeme

namespace Gap

variable {d : Dialect} {pos : Nat} {cs rest rest' gap blanks body : List Char}

/-! ## Gaps -/

theorem skip_blank {c : Char} (hc : isAsciiBlank c = true) :
    skip d .blank pos (c :: cs) = skip d .blank (pos + byteLength [c]) cs := by
  have hgap : ∀ x ∈ [c], isAsciiBlank x = true := by simpa using hc
  exact skip_blanks hgap

theorem skip_lineComment {opening : List Char}
    (hopens : opening = ['-', '-'] ∨ opening = ['#'] ∧ d.hashComments = true) (hbody : '\n' ∉ body)
    (hstop : ∀ c ∈ cs.head?, c = '\n') : skip d .blank pos (opening ++ body ++ cs) =
      skip d .blank (pos + byteLength (opening ++ body)) cs := by
  have hline (part : List Char) (hpart : '\n' ∉ part) :
      (part ++ cs).takeWhile (· ≠ '\n') = part ∧ (part ++ cs).dropWhile (· ≠ '\n') = cs := by
    refine Lexeme.takeWhile_append_of_head (fun c hc => ?_) ?_
    · have hne : c ≠ '\n' := by
        rintro rfl
        exact hpart hc
      simpa using hne
    · cases cs <;> simp_all
  rcases hopens with rfl | ⟨rfl, hhash⟩
  · obtain ⟨htake, hdrop⟩ := hline ('-' :: body) (by simpa using hbody)
    have hskip : skip d .blank pos ('-' :: ('-' :: body ++ cs)) = _ :=
      skip_of_opensLine (.inl ⟨rfl, rfl⟩)
    rw [htake, hdrop] at hskip
    simpa [Nat.add_assoc, show '-'.utf8Size = 1 from rfl] using hskip
  · obtain ⟨htake, hdrop⟩ := hline body hbody
    have hskip : skip d .blank pos ('#' :: (body ++ cs)) = _ :=
      skip_of_opensLine (.inr ⟨rfl, hhash⟩)
    rw [htake, hdrop] at hskip
    simpa [Nat.add_assoc, show '#'.utf8Size = 1 from rfl] using hskip

theorem upToClose?_append (hbody : ¬['*', '/'] <:+: body ++ ['*']) (cs : List Char) :
    upToClose? (body ++ ['*', '/'] ++ cs) = some (body ++ ['*', '/']) := by
  induction body with
  | nil => rfl
  | cons c body ih =>
    have hopens : c = '*' → (body ++ ['*', '/'] ++ cs).head? ≠ some '/' := by
      rintro rfl hhead
      cases body with
      | nil => simp at hhead
      | cons a body =>
        obtain rfl : a = '/' := by simpa using hhead
        exact hbody ⟨[], body ++ ['*'], by simp⟩
    rw [List.cons_append, List.cons_append, upToClose?_cons hopens,
      ih fun hinfix => hbody (List.infix_cons hinfix)]
    rfl

theorem skip_blockComment (hbody : ¬['*', '/'] <:+: body ++ ['*']) :
    skip d .blank pos (['/', '*'] ++ body ++ ['*', '/'] ++ cs) =
      skip d .blank (pos + byteLength (['/', '*'] ++ body ++ ['*', '/'])) cs := by
  have hopening : ['/', '*'] ++ body ++ ['*', '/'] ++ cs =
      '/' :: '*' :: (body ++ ['*', '/'] ++ cs) := by simp
  rw [hopening, skip, skip_block, upToClose?_append hbody]
  dsimp only
  rw [List.drop_left]
  congr 1
  simp [show '/'.utf8Size = 1 from rfl, show '*'.utf8Size = 1 from rfl]
  omega

/-- A gap is skipped. -/
theorem Fills.skip_append (h : Fills d rest gap) :
    skip d .blank pos (gap ++ rest) = skip d .blank (pos + byteLength gap) rest := by
  induction h generalizing pos with
  | nil => rfl
  | blank hc _ ih =>
    rw [List.cons_append, skip_blank hc, ih, Nat.add_assoc, ← Text.byteLength_append]
    rfl
  | line hopens hbody hstop _ ih =>
    rw [List.append_assoc, skip_lineComment hopens hbody hstop, ih, Nat.add_assoc,
      ← Text.byteLength_append]
  | block hbody _ ih =>
    rw [List.append_assoc, skip_blockComment hbody, ih, Nat.add_assoc, ← Text.byteLength_append]

/-- What is a gap before a text is one before any text that starts alike. -/
theorem Fills.of_head? (h : Fills d rest gap) (hhead : rest'.head? = rest.head?) :
    Fills d rest' gap := by
  induction h with
  | nil => exact .nil
  | blank hc _ ih => exact .blank hc ih
  | @line opening body gap hopens hbody hstop _ ih =>
    refine .line hopens hbody ?_ ih
    rwa [List.head?_append, hhead, ← List.head?_append]
  | block hbody _ ih => exact .block hbody ih

/-- With the blanks at its end cut off, a gap is one at the end of a text. -/
theorem Fills.of_append_blanks (h : Fills d rest (gap ++ blanks))
    (hblanks : ∀ c ∈ blanks, isBlank c = true) : Fills d [] gap := by
  generalize hall : gap ++ blanks = all at h
  induction h generalizing gap with
  | nil =>
    rw [(List.append_eq_nil_iff.1 hall).1]
    exact .nil
  | blank hc _ ih =>
    rcases List.append_eq_cons_iff.1 hall with ⟨rfl, _⟩ | ⟨gap, rfl, hmore⟩
    · exact .nil
    · exact .blank hc (ih hmore.symm)
  | @line opening body more hopens hbody hstop _ ih =>
    have hopening : ∀ c ∈ opening, isBlank c = false := by
      rcases hopens with rfl | ⟨rfl, _⟩
      · simpa using (by decide : isBlank '-' = false)
      · simpa using (by decide : isBlank '#' = false)
    rcases List.append_eq_append_iff.1 hall with ⟨part, hpart, rfl⟩ | ⟨part, rfl, rfl⟩
    · -- The cut is in the comment, and behind what opens it.
      obtain ⟨inside, rfl, hinside⟩ : ∃ inside, gap = opening ++ inside ∧ inside <+: body := by
        rcases List.append_eq_append_iff.1 hpart with ⟨inside, rfl, rfl⟩ | ⟨inside, rfl, rfl⟩
        · exact ⟨inside, rfl, List.prefix_append ..⟩
        · cases inside with
          | nil => exact ⟨[], by simp, List.nil_prefix⟩
          | cons c inside =>
            have hc := hopening c (by simp)
            rw [hblanks c (by simp)] at hc
            cases hc
      have hfills : Fills d [] (opening ++ inside ++ []) :=
        .line hopens (fun hmem => hbody (hinside.subset hmem)) (by simp) .nil
      rwa [List.append_nil] at hfills
    · refine .line hopens hbody (fun c hc => hstop c ?_) (ih rfl)
      rw [List.append_nil] at hc
      rw [List.append_assoc, List.head?_append, Option.mem_def.1 hc]
      rfl
  | @block body more hbody _ ih =>
    rcases List.append_eq_append_iff.1 hall with ⟨part, hpart, rfl⟩ | ⟨part, rfl, rfl⟩
    · -- A comment does not end in a blank, so nothing of it is cut off.
      rcases List.eq_nil_or_concat' part with rfl | ⟨part, c, rfl⟩
      · rw [List.append_nil] at hpart
        have hfills : Fills d [] (['/', '*'] ++ body ++ ['*', '/'] ++ []) := .block hbody .nil
        rwa [List.append_nil, hpart] at hfills
      · have hlast := congrArg List.getLast? hpart
        have hc : c = '/' := by
          rw [← List.append_assoc, List.getLast?_concat, List.getLast?_append] at hlast
          exact (Option.some.inj hlast).symm
        subst hc
        exact absurd (hblanks '/' (by simp)) (by decide)
    · exact .block hbody (ih rfl)

/-- Whether `BY` follows is seen behind a gap, or there is a comment in between. -/
theorem Fills.exists_isFollowedByBy (h : Fills d rest gap) :
    ∃ seen : Bool, ∀ cs,
      Lexeme.isFollowedByBy (gap ++ cs) = (seen && Lexeme.isFollowedByBy cs) := by
  induction h with
  | nil => exact ⟨true, fun cs => rfl⟩
  | blank hc _ ih =>
    obtain ⟨seen, hseen⟩ := ih
    refine ⟨seen, fun cs => ?_⟩
    rw [List.cons_append, Lexeme.isFollowedByBy_of_isBlank (Text.isBlank_of_isAsciiBlank hc), hseen]
  | line hopens =>
    refine ⟨false, fun cs => ?_⟩
    rcases hopens with rfl | ⟨rfl, _⟩ <;>
      exact Lexeme.isFollowedByBy_of_opensOther (by decide) _
  | block => exact ⟨false, fun cs => Lexeme.isFollowedByBy_of_opensOther (by decide) _⟩

/-- A gap at the end of a text that goes on with a space: the text is skipped to its end, or up to
    what is behind the space. -/
theorem Fills.skip_space (h : Fills d [] gap) (pos : Nat) (hcs : '\n' ∉ cs) :
    (∃ n, skip d .blank pos (gap ++ ' ' :: cs) = .ok (n, [])) ∨
      ∃ n, skip d .blank pos (gap ++ ' ' :: cs) = skip d .blank n cs := by
  induction h generalizing pos with
  | nil => exact .inr ⟨_, skip_blank rfl⟩
  | blank hc _ ih =>
    rw [List.cons_append, skip_blank hc]
    exact ih _
  | @line opening body gap hopens hbody hstop _ ih =>
    cases gap with
    | nil =>
      -- The comment goes on to the end of the text.
      have hskip : skip d .blank pos (opening ++ (body ++ ' ' :: cs) ++ []) = _ :=
        skip_lineComment hopens (by simp [hbody, hcs]) (by simp)
      rw [List.append_nil, ← List.append_assoc] at hskip
      rw [List.append_nil]
      exact .inl ⟨_, hskip⟩
    | cons c gap =>
      rw [List.append_assoc, skip_lineComment hopens hbody (by simpa using hstop)]
      exact ih _
  | block hbody _ ih =>
    rw [List.append_assoc, skip_blockComment hbody]
    exact ih _

end Gap

/-! ## Excerpts -/

namespace Lexeme

variable {d : Dialect} {dict : Dictionary} {pos : Nat} {c : Char} {spelling rest rest' : List Char}
  {l : Lexeme}

/-- Before the text `rest` the lexeme is read, wherever it stands, and no gap starts with it. -/
structure ReadBefore (d : Dialect) (dict : Dictionary) (rest : List Char) (l : Lexeme) : Prop where
  ne_nil : l.spelling ≠ []
  skip : ∀ pos, Gap.skip d .blank pos (l.spelling ++ rest) = .ok (pos, l.spelling ++ rest)
  read : ∀ pos {c cs}, l.spelling ++ rest = c :: cs → Lexeme.read d dict pos c cs = .ok l

/-- What is read as a lexeme at one place is read as it anywhere. -/
theorem ReadBefore.of_read (hl : l.spelling = c :: spelling)
    (hskip : Gap.skip d .blank pos (c :: (spelling ++ rest)) = .ok (pos, c :: (spelling ++ rest)))
    (hread : Lexeme.read d dict pos c (spelling ++ rest) = .ok l) : l.ReadBefore d dict rest := by
  obtain ⟨hopens, hblank⟩ := Gap.skip_stops hskip
  have hself : l.kind.reread dict (String.ofList l.spelling) rest = l.kind :=
    congrArg Lexeme.kind (Except.ok.inj ((read_cut hl (.refl rest) hread).symm.trans hread))
  refine ⟨by simp [hl], fun pos => ?_, fun pos {a cs} hcs => ?_⟩
  · rw [hl]
    exact Gap.skip_eq_self hopens hblank
  · obtain ⟨rfl, rfl⟩ : c = a ∧ spelling ++ rest = cs := by simpa [hl] using hcs
    rw [read_cut hl (.refl rest) hread, hself]

theorem reread_congr {kind : TokenKind} {word : String}
    (h : isFollowedByBy rest' = isFollowedByBy rest) :
    kind.reread dict word rest' = kind.reread dict word rest := by
  rw [TokenKind.reread, TokenKind.reread, TokenKind.before, TokenKind.before, h]

theorem ReadBefore.exists_read (h : l.ReadBefore d dict rest) : ∃ c spelling,
    l.spelling = c :: spelling ∧ Lexeme.read d dict 0 c (spelling ++ rest) = .ok l := by
  obtain ⟨c, spelling, hl⟩ := List.exists_cons_of_ne_nil h.ne_nil
  exact ⟨c, spelling, hl, h.read 0 (by rw [hl]; rfl)⟩

/-- A lexeme is read as well before a text that is cut short. -/
theorem ReadBefore.cut (h : l.ReadBefore d dict rest) (hcut : CutShort rest rest') :
    ReadBefore d dict rest'
      { l with kind := l.kind.reread dict (String.ofList l.spelling) rest' } := by
  obtain ⟨c, spelling, hl, hread⟩ := h.exists_read
  have hskip := h.skip 0
  rw [hl] at hskip
  obtain ⟨hopens, hblank⟩ := Gap.skip_stops hskip
  -- A comment that opened with the lexeme now would have opened with it before.
  have hopens' : ¬Gap.OpensComment d c (spelling ++ rest') := by
    refine fun hc => hopens ?_
    have hcut := hcut.append spelling
    rcases hc with (⟨hc, hhead⟩ | hc) | ⟨hc, hhead⟩
    · exact .inl (.inl ⟨hc, hcut.head?_eq (by decide) hhead⟩)
    · exact .inl (.inr hc)
    · exact .inr ⟨hc, hcut.head?_eq (by decide) hhead⟩
  refine ⟨h.ne_nil, fun pos => ?_, fun pos {a cs} hcs => ?_⟩
  · rw [hl]
    exact Gap.skip_eq_self hopens' hblank
  · obtain ⟨rfl, rfl⟩ : c = a ∧ spelling ++ rest' = cs := by simpa [hl] using hcs
    exact read_cut hl hcut hread

theorem ReadBefore.start_toToken (h : l.ReadBefore d dict rest) (pos : Nat) :
    (l.toToken pos).start = pos := by
  obtain ⟨c, spelling, hl, hread⟩ := h.exists_read
  exact (read_opens hread).start_toToken

theorem ReadBefore.reread_kind (h : l.ReadBefore d dict rest) :
    l.kind.reread dict (String.ofList l.spelling) rest = l.kind := by
  obtain ⟨c, spelling, hl, hread⟩ := h.exists_read
  exact congrArg Lexeme.kind
    (Except.ok.inj ((read_cut hl (.refl rest) hread).symm.trans hread))

end Lexeme

namespace TokenStream

open Lexeme (CutShort isFollowedByBy)

variable {d : Dialect} {dict : Dictionary} {pos n : Nat} {part rest rest' : List Char}
  {ts us : List Token}

/-- The part of a text that stands at the position `pos`, with the text `rest` behind it, is read as
    these tokens. -/
inductive Excerpt (d : Dialect) (dict : Dictionary) (rest : List Char) :
    Nat → List Char → List Token → Prop
  | nil (pos : Nat) : Excerpt d dict rest pos [] []
  | cons {pos : Nat} {gap part : List Char} {l : Lexeme} {ts : List Token}
    (hgap : Gap.Fills d l.spelling gap) (hl : l.ReadBefore d dict (part ++ rest))
    (h : Excerpt d dict rest (pos + byteLength gap + byteLength l.spelling) part ts) :
    Excerpt d dict rest pos (gap ++ (l.spelling ++ part)) (l.toToken (pos + byteLength gap) :: ts)

/-- The tokens that a text starts with are read from a part of it, and the others behind. -/
theorem exists_excerpt {cs : List Char} (h : (read d dict n pos cs).tokens = ts ++ us)
    (hus : us ≠ []) : ∃ m part rest, cs = part ++ rest ∧ Excerpt d dict rest pos part ts ∧
      (read d dict m (pos + byteLength part) rest).tokens = us := by
  induction ts generalizing n pos cs with
  | nil => exact ⟨n, [], cs, rfl, .nil pos, by simpa using h⟩
  | cons t ts ih =>
    cases n with
    | zero => cases h
    | succ n =>
      rcases read_step d dict pos cs with ⟨e, he⟩ | ⟨_, hfinal⟩ |
        ⟨gap, rest, c, spelling, l, rfl, hl, hfills, hskip, hread⟩
      · rw [he] at h
        cases h
      · rw [hfinal] at h
        exact absurd (List.append_eq_nil_iff.1 (List.cons.inj h).2.symm).2 hus
      · rw [read_lexeme hskip hl hread] at h
        obtain ⟨rfl, hmore⟩ := List.cons.inj h
        obtain ⟨m, part, rest, rfl, hexcerpt, hus⟩ := ih hmore
        have hstops := Gap.skip_stops hskip
        refine ⟨m, gap ++ (l.spelling ++ part), rest, by simp, .cons (hfills.of_head? ?_)
          (.of_read hl (Gap.skip_eq_self hstops.1 hstops.2) hread) hexcerpt, ?_⟩
        · simp [hl]
        · rw [← hus]
          simp [Lexeme.toToken, Nat.add_assoc]

namespace Excerpt

/-- The tokens of an excerpt are read, and then what is behind it. -/
theorem read (h : Excerpt d dict rest pos part ts) (n : Nat) :
    TokenStream.read d dict (ts.length + n) pos (part ++ rest) =
      let more := TokenStream.read d dict n (pos + byteLength part) rest
      ⟨ts ++ more.tokens, more.failure⟩ := by
  induction h with
  | nil => simp
  | @cons pos gap part l ts hgap hl _ ih =>
    obtain ⟨c, spelling, hspelling⟩ := List.exists_cons_of_ne_nil hl.ne_nil
    have hskip : Gap.skip d .blank pos (gap ++ (l.spelling ++ part) ++ rest) =
        .ok (pos + byteLength gap, c :: (spelling ++ (part ++ rest))) := by
      have hfills : Gap.Fills d (l.spelling ++ (part ++ rest)) gap :=
        hgap.of_head? (by simp [hspelling])
      rw [List.append_assoc, List.append_assoc, hfills.skip_append, hl.skip, hspelling]
      rfl
    rw [List.length_cons, Nat.add_right_comm,
      read_lexeme hskip hspelling (hl.read _ (by rw [hspelling]; rfl))]
    have hstop : (l.toToken (pos + byteLength gap)).stop =
        pos + byteLength gap + byteLength l.spelling := rfl
    rw [hstop, ih]
    simp [Nat.add_assoc]

/-- Each token is a character at least. -/
theorem length_le (h : Excerpt d dict rest pos part ts) : ts.length ≤ part.length := by
  induction h with
  | nil => simp
  | cons _ hl _ ih =>
    have hpos := List.length_pos_iff.2 hl.ne_nil
    simp only [List.length_cons, List.length_append]
    omega

/-- The last token stops where the excerpt does. -/
theorem stop_getLast (h : Excerpt d dict rest pos part ts) :
    ∀ t ∈ ts.getLast?, t.stop = pos + byteLength part := by
  induction h with
  | nil => simp
  | @cons pos gap part l ts _ _ h ih =>
    intro t ht
    cases ts with
    | nil =>
      obtain rfl : l.toToken (pos + byteLength gap) = t := by simpa using ht
      cases h
      simp [Lexeme.toToken, Nat.add_assoc]
    | cons u ts =>
      rw [List.getLast?_cons_cons] at ht
      rw [ih t ht]
      simp [Nat.add_assoc]

/-- An excerpt may start with its first token. -/
theorem exists_start {t : Token} (h : Excerpt d dict rest pos part (t :: ts)) :
    ∃ gap part', part = gap ++ part' ∧ t.start = pos + byteLength gap ∧
      Excerpt d dict rest t.start part' (t :: ts) := by
  cases h with
  | @cons _ gap part l _ hgap hl h =>
    refine ⟨gap, l.spelling ++ part, rfl, hl.start_toToken _, ?_⟩
    rw [hl.start_toToken]
    rw [← List.nil_append (l.spelling ++ part)]
    exact .cons .nil hl h

/-- Whether `BY` follows is seen in the tokens, if they do not end in a blank. -/
theorem isFollowedByBy_append (h : Excerpt d dict rest pos part ts) (hts : ts ≠ [])
    (hsolid : ∀ x ∈ part.getLast?, isBlank x = false) (hcut : CutShort rest rest') :
    isFollowedByBy (part ++ rest') = isFollowedByBy (part ++ rest) := by
  induction h with
  | nil => exact absurd rfl hts
  | @cons pos gap part l ts hgap hl h ih =>
    obtain ⟨c, spelling, hspelling, hread⟩ := hl.exists_read
    rw [List.append_assoc, List.append_assoc, List.append_assoc, List.append_assoc]
    obtain ⟨seen, hseen⟩ := hgap.exists_isFollowedByBy
    rw [hseen, hseen]
    congr 1
    by_cases hblanks : ∀ x ∈ l.spelling, isBlank x = true
    · -- A word of blanks is passed, and it is not the last token.
      have hne : ts ≠ [] := by
        rintro rfl
        cases h
        obtain ⟨init, x, hx⟩ := (List.eq_nil_or_concat' l.spelling).resolve_left hl.ne_nil
        have hlast := hsolid x (by simp [hx])
        rw [hblanks x (by simp [hx])] at hlast
        cases hlast
      have hpart : part ≠ [] :=
        List.length_pos_iff.1 (Nat.lt_of_lt_of_le (List.length_pos_iff.2 hne) h.length_le)
      have hdrop (cs : List Char) : isFollowedByBy (l.spelling ++ cs) = isFollowedByBy cs := by
        simp only [isFollowedByBy, Text.trimStart, List.dropWhile_append_of_pos hblanks]
      rw [hdrop, hdrop]
      refine ih hne ?_
      exact fun x hx => hsolid x (by simp [List.getLast?_append, Option.mem_def.1 hx])
    · refine Lexeme.isFollowedByBy_lexeme hspelling hread ?_ (hcut.append part)
      simpa using hblanks

/-- An excerpt is read as tokens of the same kinds before a text that is cut short, if it does not
    end in a blank, and not in a keyword that `BY` has to follow either. -/
theorem reread (h : Excerpt d dict rest pos part ts)
    (hsolid : ∀ x ∈ part.getLast?, isBlank x = false)
    (hlast : ∀ t ∈ ts.getLast?, t.kind ≠ Keyword.ORDER ∧ t.kind ≠ Keyword.GROUP)
    (hcut : CutShort rest rest') (hby : isFollowedByBy rest' = false) (pos' : Nat) :
    ∃ ts', Excerpt d dict rest' pos' part ts' ∧ ts'.map Token.kind = ts.map Token.kind := by
  induction h generalizing pos' with
  | nil => exact ⟨[], .nil pos', rfl⟩
  | @cons pos gap part l ts hgap hl h ih =>
    have hmore : ∀ x ∈ part.getLast?, isBlank x = false := fun x hx =>
      hsolid x (by simp [List.getLast?_append, Option.mem_def.1 hx])
    have hkind : l.kind.reread dict (String.ofList l.spelling) (part ++ rest') = l.kind := by
      by_cases hts : ts = []
      · subst hts
        cases h
        obtain ⟨horder, hgroup⟩ := hlast _ rfl
        have hneither : ¬(l.kind = Keyword.ORDER ∨ l.kind = Keyword.GROUP) :=
          not_or.2 ⟨horder, hgroup⟩
        simp [TokenKind.reread, TokenKind.before, hby, hneither]
      · rw [Lexeme.reread_congr (h.isFollowedByBy_append hts hmore hcut), hl.reread_kind]
    have hl' := hl.cut (hcut.append part)
    rw [hkind] at hl'
    obtain ⟨ts', h', hkinds⟩ := ih hmore (fun t ht => hlast t (by
      rw [List.getLast?_cons, Option.mem_def.1 ht]; rfl))
      (pos' + byteLength gap + byteLength l.spelling)
    exact ⟨_, .cons hgap hl' h', by simp [hkinds, Lexeme.toToken]⟩

end Excerpt

end TokenStream

/-! ## Copies -/

namespace TokenStream

open Lexeme (CutShort isFollowedByBy)

variable {d : Dialect} {dict : Dictionary} {pos : Nat} {part rest gap text : List Char}
  {ts : List Token} {kinds : List TokenKind}

/-- Nothing comes behind a text, or a space, and `BY` does not. -/
structure Closes (tail : List Char) : Prop where
  cut : ∀ cs, CutShort cs tail
  notBy : isFollowedByBy tail = false

/-- The text is read as tokens of these kinds wherever it is copied to: it is an excerpt, perhaps
    with a gap behind it. -/
def Copies (d : Dialect) (dict : Dictionary) (text : List Char) (kinds : List TokenKind) : Prop :=
  ∃ part gap, text = part ++ gap ∧ Gap.Fills d [] gap ∧
    ∀ tail, Closes tail → ∀ pos,
      ∃ ts, Excerpt d dict (gap ++ tail) pos part ts ∧ ts.map Token.kind = kinds

theorem closes_nil : Closes [] :=
  ⟨.nil, rfl⟩

/-- An excerpt can be copied with a part of the gap behind it. -/
theorem Excerpt.copies_append (h : Excerpt d dict rest pos part ts)
    (hsolid : ∀ x ∈ part.getLast?, isBlank x = false)
    (hlast : ∀ t ∈ ts.getLast?, t.kind ≠ Keyword.ORDER ∧ t.kind ≠ Keyword.GROUP)
    (hgap : Gap.Fills d [] gap) (hrest : gap <+: rest) :
    Copies d dict (part ++ gap) (ts.map Token.kind) := by
  refine ⟨part, gap, rfl, hgap, fun tail htail pos' => ?_⟩
  obtain ⟨more, rfl⟩ := hrest
  obtain ⟨seen, hseen⟩ := hgap.exists_isFollowedByBy
  refine h.reread hsolid hlast ((htail.cut more).append gap) ?_ pos'
  rw [hseen, htail.notBy, Bool.and_false]

theorem Excerpt.copies (h : Excerpt d dict rest pos part ts)
    (hsolid : ∀ x ∈ part.getLast?, isBlank x = false)
    (hlast : ∀ t ∈ ts.getLast?, t.kind ≠ Keyword.ORDER ∧ t.kind ≠ Keyword.GROUP) :
    Copies d dict part (ts.map Token.kind) := by
  simpa using h.copies_append hsolid hlast .nil List.nil_prefix

/-- A copy on its own has its tokens, and no others. -/
theorem Copies.tokens (h : Copies d (Dictionary.ofDialect d) text kinds) :
    (ofText d text).tokens.map Token.kind = kinds ++ [.endOfText] ∧
      (ofText d text).failure = none := by
  obtain ⟨part, gap, rfl, hgap, hcopy⟩ := h
  obtain ⟨ts, hts, rfl⟩ := hcopy [] closes_nil 0
  have hlength := hts.length_le
  obtain ⟨n, hn⟩ : ∃ n, (part ++ gap).length + 1 = ts.length + (n + 1) :=
    ⟨(part ++ gap).length - ts.length, by simp only [List.length_append]; omega⟩
  have hskip : Gap.skip d .blank (0 + byteLength part) gap =
      .ok (0 + byteLength part + byteLength gap, []) := by
    have hskip : Gap.skip d .blank (0 + byteLength part) (gap ++ []) = _ := hgap.skip_append
    rwa [List.append_nil, Gap.skip] at hskip
  have hread := hts.read (n + 1)
  rw [List.append_nil] at hread
  rw [ofText, hn, hread, TokenStream.read, hskip]
  simp [Token.final]

end TokenStream

end SqlRouting
