import Mathlib.Data.List.Forall2
import SqlRouting.Proofs.Lookahead
import SqlRouting.Proofs.Tiling

/-!
# Comments are blanks

To blank a text is to put a space in the place of each byte of its comments (`blanked`), which
stand in the gaps between its tokens. A text has the same tokens when it is blanked: what is skipped
between tokens is skipped as well when it is blank, and no token depends on a comment behind it but
for the words `ORDER` and `GROUP` (`scan_blanked`).
-/

namespace SqlRouting

open Text (byteLength)

/-! ## Gaps -/

namespace Gap

/-- A gap with a space for each byte of its comments. -/
def blanked : Gap → List Char → List Char
  | .block _, '*' :: '/' :: cs => ' ' :: ' ' :: blanked .blank cs
  | .block start, c :: cs => List.replicate c.utf8Size ' ' ++ blanked (.block start) cs
  | .line, c :: cs =>
    if c = '\n' then c :: blanked .blank cs
    else List.replicate c.utf8Size ' ' ++ blanked .line cs
  | .blank, '-' :: '-' :: cs => ' ' :: ' ' :: blanked .line cs
  | .blank, '/' :: '*' :: cs => ' ' :: ' ' :: blanked (.block 0) cs
  | .blank, c :: cs =>
    if Text.isAsciiBlank c then c :: blanked .blank cs else ' ' :: blanked .line cs
  | _, [] => []

variable {d : Dialect} {rest rest' gap body : List Char}

theorem blanked_line (hbody : '\n' ∉ body) (hstop : ∀ c ∈ gap.head?, c = '\n') :
    blanked .line (body ++ gap) = List.replicate (byteLength body) ' ' ++ blanked .blank gap := by
  induction body with
  | nil =>
    cases gap with
    | nil => rfl
    | cons c gap =>
      obtain rfl : c = '\n' := hstop c rfl
      rfl
  | cons c body ih =>
    rw [List.mem_cons, not_or] at hbody
    rw [List.cons_append, blanked, if_neg (Ne.symm hbody.1), ih hbody.2, ← List.append_assoc,
      List.replicate_append_replicate]
    rfl

theorem blanked_block {start : Nat} (hbody : ¬['*', '/'] <:+: body ++ ['*']) :
    blanked (.block start) (body ++ ['*', '/'] ++ gap) =
      List.replicate (byteLength body + 2) ' ' ++ blanked .blank gap := by
  induction body with
  | nil => rfl
  | cons c body ih =>
    have hopens (cs : List Char) (hc : c = '*') (hcs : body ++ ['*', '/'] ++ gap = '/' :: cs) :
        False := by
      cases body with
      | nil => simp at hcs
      | cons a body =>
        obtain rfl : a = '/' := (List.cons.inj hcs).1
        exact hbody ⟨[], body ++ ['*'], by simp [hc]⟩
    rw [List.cons_append, List.cons_append, blanked, ih fun hinfix => hbody (List.infix_cons hinfix),
      ← List.append_assoc, List.replicate_append_replicate, byteLength, Nat.add_assoc]
    exact hopens

/-! What becomes of blanks and of the two kinds of comments. -/

theorem blanked_blank {c : Char} (hc : Text.isAsciiBlank c = true) :
    blanked .blank (c :: gap) = c :: blanked .blank gap := by
  rw [blanked, if_pos hc]
  all_goals
    rintro _ rfl rfl
    cases hc

theorem blanked_lineComment {opening : List Char}
    (hopens : opening = ['-', '-'] ∨ opening = ['#']) (hbody : '\n' ∉ body)
    (hstop : ∀ c ∈ gap.head?, c = '\n') : blanked .blank (opening ++ body ++ gap) =
      List.replicate (byteLength (opening ++ body)) ' ' ++ blanked .blank gap := by
  rcases hopens with rfl | rfl
  · have hsize : byteLength (['-', '-'] ++ body) = byteLength body + 2 := by
      rw [Text.byteLength_append, Nat.add_comm]
      rfl
    change ' ' :: ' ' :: blanked .line (body ++ gap) = _
    rw [blanked_line hbody hstop, hsize]
    rfl
  · have hsize : byteLength (['#'] ++ body) = byteLength body + 1 := by
      rw [Text.byteLength_append, Nat.add_comm]
      rfl
    change ' ' :: blanked .line (body ++ gap) = _
    rw [blanked_line hbody hstop, hsize]
    rfl

theorem blanked_blockComment (hbody : ¬['*', '/'] <:+: body ++ ['*']) :
    blanked .blank (['/', '*'] ++ body ++ ['*', '/'] ++ gap) =
      List.replicate (byteLength (['/', '*'] ++ body ++ ['*', '/'])) ' ' ++ blanked .blank gap := by
  have hsize : byteLength (['/', '*'] ++ body ++ ['*', '/']) = byteLength body + 2 + 2 := by
    rw [List.append_assoc, Text.byteLength_append, Text.byteLength_append, Nat.add_comm]
    rfl
  change ' ' :: ' ' :: blanked (.block 0) (body ++ ['*', '/'] ++ gap) = _
  rw [blanked_block hbody, hsize]
  rfl

theorem isAsciiBlank_of_mem_spaces {n : Nat} {c : Char} (h : c ∈ List.replicate n ' ') :
    Text.isAsciiBlank c = true := by
  rw [(List.mem_replicate.1 h).2]
  rfl

theorem byteLength_spaces (n : Nat) : byteLength (List.replicate n ' ') = n := by
  induction n with
  | zero => rfl
  | succ n ih => rw [List.replicate_succ, byteLength, ih, Nat.add_comm]; rfl

/-- A line comment before the text `rest` ends before a line break of the gap or with it. -/
theorem head?_of_append (h : ∀ c ∈ (gap ++ rest).head?, c = '\n') : ∀ c ∈ gap.head?, c = '\n' := by
  cases gap with
  | nil => simp
  | cons c gap => exact h

/-- A blanked gap consists of blanks. -/
theorem Fills.isAsciiBlank (h : Fills d rest gap) :
    ∀ c ∈ Gap.blanked .blank gap, Text.isAsciiBlank c = true := by
  have hspaces {n : Nat} {gap : List Char} (h : ∀ c ∈ gap, Text.isAsciiBlank c = true) :
      ∀ c ∈ List.replicate n ' ' ++ gap, Text.isAsciiBlank c = true := fun c hc =>
    (List.mem_append.1 hc).elim isAsciiBlank_of_mem_spaces (h c)
  induction h with
  | nil => simp [Gap.blanked]
  | blank hc _ ih =>
    rw [blanked_blank hc]
    exact List.forall_mem_cons.2 ⟨hc, ih⟩
  | line hopens hbody hstop _ ih =>
    rw [blanked_lineComment (hopens.imp_right And.left) hbody (head?_of_append hstop)]
    exact hspaces ih
  | block hbody _ ih =>
    rw [blanked_blockComment hbody]
    exact hspaces ih

/-- A blanked gap takes as many bytes as the gap. -/
theorem Fills.byteLength_blanked (h : Fills d rest gap) :
    byteLength (Gap.blanked .blank gap) = byteLength gap := by
  induction h with
  | nil => rfl
  | blank hc _ ih => rw [blanked_blank hc, byteLength, byteLength, ih]
  | line hopens hbody hstop _ ih =>
    rw [blanked_lineComment (hopens.imp_right And.left) hbody (head?_of_append hstop),
      Text.byteLength_append, byteLength_spaces, ih, ← Text.byteLength_append]
  | block hbody _ ih =>
    rw [blanked_blockComment hbody, Text.byteLength_append, byteLength_spaces, ih,
      ← Text.byteLength_append]

/-- A gap and its blanked form agree up to the first comment of the gap. -/
theorem Fills.agrees (h : Fills d rest gap) (hrest : Lexeme.AgreesUpToComment d rest rest') :
    Lexeme.AgreesUpToComment d (gap ++ rest) (Gap.blanked .blank gap ++ rest') := by
  have hcomment (c : Char) (part more gap : List Char)
      (h : OpensComment d c (part ++ more)) : Lexeme.AgreesUpToComment d (c :: part ++ more)
        (List.replicate (byteLength (c :: part)) ' ' ++ gap) := by
    obtain ⟨n, hn⟩ := Nat.exists_eq_add_one.2 (Text.byteLength_pos (List.cons_ne_nil c part))
    rw [hn]
    exact .comment h _
  -- Behind the first comment anything may follow, so only blanks need the induction hypothesis.
  induction h with
  | nil => exact hrest
  | blank hc _ ih =>
    rw [blanked_blank hc]
    exact ih.cons _
  | @line opening body gap hopens hbody hstop _ _ =>
    rw [blanked_lineComment (hopens.imp_right And.left) hbody (head?_of_append hstop)]
    rcases hopens with rfl | ⟨rfl, hhash⟩
    · simpa using hcomment '-' ('-' :: body) (gap ++ rest) (blanked .blank gap ++ rest')
        (.inl (.inl ⟨rfl, rfl⟩))
    · simpa using hcomment '#' body (gap ++ rest) (blanked .blank gap ++ rest')
        (.inl (.inr ⟨rfl, hhash⟩))
  | @block body gap hbody _ _ =>
    rw [blanked_blockComment hbody]
    simpa using hcomment '/' ('*' :: body ++ ['*', '/']) (gap ++ rest) (blanked .blank gap ++ rest')
      (.inr ⟨rfl, rfl⟩)

variable {g : Gap} {pos pos' : Nat} {c : Char} {cs cs' : List Char}

/-- The gap before a token ends where neither a blank nor a comment follows. -/
theorem skip_stops (h : skip d g pos cs = .ok (pos', c :: cs')) :
    ¬OpensComment d c cs' ∧ ¬Text.isAsciiBlank c = true := by
  fun_induction skip d g pos cs with
  | case1 => cases h
  | case2 _ _ _ ih => exact ih h
  | case3 _ _ _ _ _ ih => exact ih h
  | case4 => cases h
  | case5 _ _ _ ih => exact ih h
  | case6 => cases h
  | case7 _ _ ih => exact ih h
  | case8 _ _ ih => exact ih h
  | case9 _ _ _ _ _ _ ih => exact ih h
  | case10 _ _ _ _ _ _ _ ih => exact ih h
  | case11 pos c cs hline hblock hblank hhash =>
    cases h
    refine ⟨?_, hblank⟩
    rintro ((⟨rfl, hhead⟩ | ⟨rfl, h⟩) | ⟨rfl, hhead⟩)
    · obtain ⟨ds, rfl⟩ := List.head?_eq_some_iff.1 hhead
      exact hline ds rfl rfl
    · exact hhash (by simpa using h)
    · obtain ⟨ds, rfl⟩ := List.head?_eq_some_iff.1 hhead
      exact hblock ds rfl rfl

theorem skip_eq_self (hopens : ¬OpensComment d c cs)
    (hblank : ¬Text.isAsciiBlank c = true) : skip d .blank pos (c :: cs) = .ok (pos, c :: cs) := by
  rw [OpensComment, not_or] at hopens
  rw [skip_of_not_opens hopens.1 hopens.2, if_neg hblank]

theorem skip_blanks (h : ∀ c ∈ gap, Text.isAsciiBlank c = true) :
    skip d .blank pos (gap ++ cs) = skip d .blank (pos + byteLength gap) cs := by
  induction gap generalizing pos with
  | nil => rfl
  | cons c gap ih =>
    rw [List.forall_mem_cons] at h
    have hopens {a : Char} (ha : Text.isAsciiBlank a = false) : c ≠ a := by
      rintro rfl
      exact absurd h.1 (by simp [ha])
    rw [List.cons_append, skip_of_not_opens, if_pos h.1, ih h.2, byteLength, utf8Size_of_isAsciiBlank h.1,
      Nat.add_assoc]
    · rintro (⟨rfl, _⟩ | ⟨rfl, _⟩)
      · exact hopens (by decide) rfl
      · exact hopens (by decide) rfl
    · rintro ⟨rfl, _⟩
      exact hopens (by decide) rfl

/-- With blanks for its comments a gap ends at the same token, whatever the text behind the token has
    become, as long as no comment opens with the token now. -/
theorem skip_blanked {pos₀ : Nat} {text rest rest' : List Char}
    (hskip : skip d g pos₀ text = .ok (pos', c :: rest)) (hfills : Fills d (c :: rest) gap)
    (hagree : Lexeme.AgreesUpToComment d rest rest') :
    skip d .blank pos (blanked .blank gap ++ c :: rest') =
      .ok (pos + byteLength gap, c :: rest') := by
  obtain ⟨hopens, hblank⟩ := skip_stops hskip
  rw [skip_blanks hfills.isAsciiBlank, hfills.byteLength_blanked]
  exact skip_eq_self (fun h => hopens (hagree.opensComment h)) hblank

end Gap

/-! ## Texts -/

namespace Text

/-- The text cut before the byte `n`; all of it is before a cut that cannot be made. -/
def cut (n : Nat) (cs : List Char) : List Char × List Char :=
  (splitBytes? n cs).getD (cs, [])

theorem cut_append (before after : List Char) :
    cut (byteLength before) (before ++ after) = (before, after) := by
  rw [cut, splitBytes?_append, Option.getD_some]

end Text

/-- The token with the kind that it has in this text. -/
def Token.within (dict : Dictionary) (text : List Char) (t : Token) : Token :=
  { t with kind := t.kind.before dict t.literal (Text.cut t.stop text).2 }

theorem Token.start_within (dict : Dictionary) (text : List Char) (t : Token) :
    (t.within dict text).start = t.start := by
  rw [start, within, Lexeme.quotes_before, start]

namespace TokenStream

/-- The text `cs`, which stands at the position `pos`, with the gaps before these tokens blanked. -/
def blankGaps : (pos : Nat) → List Token → List Char → List Char
  | _, [], cs => cs
  | pos, t :: ts, cs =>
    let (gap, rest) := Text.cut (t.start - pos) cs
    let (spelling, rest) := Text.cut (t.stop - t.start) rest
    Gap.blanked .blank gap ++ spelling ++ blankGaps t.stop ts rest

/-- The text with a space for each byte of its comments, which stand between its tokens. -/
def blanked (d : Dialect) (text : List Char) : List Char :=
  blankGaps 0 (ofText d text).tokens text

variable {d : Dialect} {dict : Dictionary} {pos n : Nat} {cs cs' rest : List Char}

variable (d dict pos) in
/-- What reading a token amounts to: the text cannot be read, or it is a gap up to its end, or a gap
    and a lexeme. -/
theorem read_step (cs : List Char) :
    (∃ e, ∀ n, read d dict (n + 1) pos cs = ⟨[], some e⟩) ∨
    (Gap.Fills d [] cs ∧
      ∀ n, read d dict (n + 1) pos cs = ⟨[Token.final (pos + byteLength cs)], none⟩) ∨
    ∃ gap rest : List Char, ∃ c spelling, ∃ l : Lexeme, cs = gap ++ (l.spelling ++ rest) ∧
      l.spelling = c :: spelling ∧ Gap.Fills d (l.spelling ++ rest) gap ∧
      Gap.skip d .blank pos cs = .ok (pos + byteLength gap, c :: (spelling ++ rest)) ∧
      Lexeme.read d dict (pos + byteLength gap) c (spelling ++ rest) = .ok l := by
  cases hskip : Gap.skip d .blank pos cs with
  | error e => exact .inl ⟨e, fun n => by rw [read, hskip]⟩
  | ok behind =>
    obtain ⟨pos', rest⟩ := behind
    obtain ⟨gap, rfl, rfl, hfills⟩ := Gap.skip_fills hskip
    cases rest with
    | nil => exact .inr (.inl ⟨by simpa using hfills, fun n => by rw [read, hskip]; simp⟩)
    | cons c rest =>
      cases hread : Lexeme.read d dict (pos + byteLength gap) c rest with
      | error e => exact .inl ⟨e, fun n => by rw [read, hskip]; simp only [hread]⟩
      | ok l =>
        obtain ⟨more, hmore⟩ := (Lexeme.read_opens hread).spelled
        obtain ⟨a, spelling, hl⟩ := List.exists_cons_of_ne_nil (Lexeme.read_opens hread).ne_nil
        obtain ⟨rfl, rfl⟩ : a = c ∧ spelling ++ more = rest := by simpa [hl] using hmore
        exact .inr (.inr ⟨gap, more, a, spelling, l, by rw [hmore], hl, hmore ▸ hfills, rfl, hread⟩)

/-- Behind a gap a lexeme is read as a token. -/
theorem read_lexeme {pos' : Nat} {spelling : List Char} {c : Char} {l : Lexeme}
    (hskip : Gap.skip d .blank pos cs = .ok (pos', c :: (spelling ++ rest)))
    (hl : l.spelling = c :: spelling)
    (hread : Lexeme.read d dict pos' c (spelling ++ rest) = .ok l) (n : Nat) :
    read d dict (n + 1) pos cs =
      let more := read d dict n (l.toToken pos').stop rest
      ⟨l.toToken pos' :: more.tokens, more.failure⟩ := by
  rw [read, hskip]
  simp [hread, hl]

theorem blankGaps_cons {l : Lexeme} (hl : l.Opens (l.spelling ++ rest)) (gap : List Char)
    (ts : List Token) :
    blankGaps pos (l.toToken (pos + byteLength gap) :: ts) (gap ++ (l.spelling ++ rest)) =
      Gap.blanked .blank gap ++
        (l.spelling ++ blankGaps (l.toToken (pos + byteLength gap)).stop ts rest) := by
  have hgap : (l.toToken (pos + byteLength gap)).start - pos = byteLength gap := by
    rw [hl.start_toToken, Nat.add_sub_cancel_left]
  have hspelling : (l.toToken (pos + byteLength gap)).stop -
      (l.toToken (pos + byteLength gap)).start = byteLength l.spelling := by
    rw [hl.start_toToken, Lexeme.toToken, Nat.add_sub_cancel_left]
  simp only [blankGaps, hgap, hspelling, Text.cut_append, List.append_assoc]

theorem blankGaps_final (pos : Nat) (cs : List Char) :
    blankGaps pos [Token.final (pos + byteLength cs)] cs = Gap.blanked .blank cs := by
  have hgap : Text.cut (byteLength cs) cs = (cs, []) := by
    simpa using Text.cut_append cs []
  have hend : Text.cut 0 [] = ([], []) := rfl
  simp only [blankGaps, Token.start_final, Nat.add_sub_cancel_left, hgap]
  simp [Token.final, hend]

/-- The token of a lexeme within a text is the one of the lexeme before the text behind it. -/
theorem within_toToken (l : Lexeme) (rest : List Char) {before : List Char}
    (hpos : byteLength before = pos) :
    (l.toToken pos).within dict (before ++ (l.spelling ++ rest)) =
      Lexeme.toToken { l with kind := l.kind.before dict (String.ofList l.spelling) rest } pos := by
  have hbehind : (Text.cut (l.toToken pos).stop (before ++ (l.spelling ++ rest))).2 = rest := by
    rw [Lexeme.toToken, ← hpos, ← Text.byteLength_append, ← List.append_assoc, Text.cut_append]
  rw [Token.within, hbehind]
  have hliteral : Lexeme.literal
      { l with kind := l.kind.before dict (String.ofList l.spelling) rest } = l.literal := by
    simp only [Lexeme.literal, Lexeme.before_eq_chars]
  by_cases hk : l.kind = LiteralClass.identifier
  · have hspelled : l.literal = String.ofList l.spelling := by simp [Lexeme.literal, hk]
    rw [Lexeme.toToken, Lexeme.toToken, hliteral, hspelled]
  · rw [Lexeme.toToken, Lexeme.toToken, hliteral, Lexeme.before_of_ne hk, Lexeme.before_of_ne hk]

variable (d dict) in
/-- Reading a text whose gaps are blanked. The induction is on the number of tokens; the rest of the
    text has to agree with its blanked form up to a comment, so that the lexeme before it is read
    in the same way. -/
theorem read_blankGaps (pos : Nat) (cs : List Char) (hn : cs.length < n) :
    let stream := read d dict n pos cs
    let cs' := blankGaps pos stream.tokens cs
    Lexeme.AgreesUpToComment d cs cs' ∧ byteLength cs' = byteLength cs ∧
      ∀ before : List Char, byteLength before = pos → ∀ m, cs'.length < m →
        read d dict m pos cs' =
          ⟨stream.tokens.map (·.within dict (before ++ cs')), stream.failure⟩ := by
  induction n generalizing pos cs with
  | zero => omega
  | succ n ih =>
    dsimp only
    rcases read_step d dict pos cs with ⟨e, he⟩ | ⟨hfills, hfinal⟩ |
      ⟨gap, rest, c, spelling, l, hcs, hl, hfills, hskip, hread⟩
    · -- What cannot be read stays as it is.
      rw [he, blankGaps]
      refine ⟨.refl cs, rfl, fun before _ m hm => ?_⟩
      obtain ⟨m, rfl⟩ := Nat.exists_eq_add_one.2 (Nat.zero_lt_of_lt hm)
      rw [he]
      rfl
    · rw [hfinal, blankGaps_final]
      refine ⟨by simpa using hfills.agrees .nil, hfills.byteLength_blanked, fun before _ m hm => ?_⟩
      obtain ⟨m, rfl⟩ := Nat.exists_eq_add_one.2 (Nat.zero_lt_of_lt hm)
      have hskip : Gap.skip d .blank pos (Gap.blanked .blank cs ++ []) =
          .ok (pos + byteLength cs, []) := by
        rw [Gap.skip_blanks hfills.isAsciiBlank, Gap.skip, hfills.byteLength_blanked]
      rw [List.append_nil] at hskip
      rw [read, hskip]
      simp [Token.within, Token.final, Lexeme.before_of_ne]
    · -- The token is the same, and the texts behind it agree by the induction hypothesis.
      have hopens := Lexeme.read_opens hread
      rw [← List.cons_append, ← hl] at hopens
      have hrest : rest.length < n := by
        simp [hcs, hl] at hn
        omega
      rw [read_lexeme hskip hl hread, hcs, blankGaps_cons hopens]
      obtain ⟨hagree, hlength, hmore⟩ := ih (l.toToken (pos + byteLength gap)).stop rest hrest
      generalize blankGaps (l.toToken (pos + byteLength gap)).stop
        (read d dict n (l.toToken (pos + byteLength gap)).stop rest).tokens rest = rest' at *
      refine ⟨hfills.agrees (Lexeme.AgreesUpToComment.append_iff.2 hagree), ?_,
        fun before hbefore m hm => ?_⟩
      · simp [hfills.byteLength_blanked, hlength]
      obtain ⟨m, rfl⟩ := Nat.exists_eq_add_one.2 (Nat.zero_lt_of_lt hm)
      have hskip' : Gap.skip d .blank pos (Gap.blanked .blank gap ++ (l.spelling ++ rest')) =
          .ok (pos + byteLength gap, c :: (spelling ++ rest')) := by
        rw [hl] at hfills ⊢
        exact Gap.skip_blanked hskip hfills (Lexeme.AgreesUpToComment.append_iff.2 hagree)
      have hbehind : byteLength (before ++ Gap.blanked .blank gap) = pos + byteLength gap := by
        rw [Text.byteLength_append, hbefore, hfills.byteLength_blanked]
      have htokens := hmore (before ++ Gap.blanked .blank gap ++ l.spelling)
        (by rw [Text.byteLength_append, hbehind]; rfl) m (by simp [hl] at hm; omega)
      have htoken : (l.toToken (pos + byteLength gap)).within dict _ = _ :=
        within_toToken l rest' hbehind
      rw [List.append_assoc] at htoken
      rw [read_lexeme hskip' (by exact hl) (Lexeme.read_before hl hagree hread), List.map_cons, htoken]
      simp only [List.append_assoc] at htokens
      exact congrArg (fun more : TokenStream => (⟨_ :: more.tokens, more.failure⟩ : TokenStream))
        htokens

/-- With the gaps blanked a text has the same tokens, but for `ORDER` and `GROUP`, and the same
    error if there is one. -/
theorem ofText_blanked (d : Dialect) (text : List Char) :
    ofText d (blanked d text) =
      ⟨(ofText d text).tokens.map (·.within (Dictionary.ofDialect d) (blanked d text)),
        (ofText d text).failure⟩ := by
  obtain ⟨-, -, htokens⟩ :=
    read_blankGaps d (Dictionary.ofDialect d) 0 text (Nat.lt_succ_self text.length)
  exact htokens [] rfl _ (Nat.lt_succ_self _)

theorem byteLength_blanked (d : Dialect) (text : List Char) :
    byteLength (blanked d text) = byteLength text :=
  (read_blankGaps d (Dictionary.ofDialect d) 0 text (Nat.lt_succ_self text.length)).2.1

end TokenStream

open TokenStream (blanked)

/-- *Comments are blanks, but not before `BY`.* With a space for each byte of its comments a text
    has tokens with the same literals at the same positions, and the same error if there is one.
    The tokens are of the same kinds as well, with one exception: a name `ORDER` or `GROUP` with a
    comment between it and `BY` becomes a keyword. -/
theorem scan_blanked (d : Dialect) (text : List Char) :
    let (tokens, failure) := (Scanner.ofText d text).tokens
    let tokens' := tokens.map (·.within (Dictionary.ofDialect d) (blanked d text))
    byteLength (blanked d text) = byteLength text ∧
      (Scanner.ofText d (blanked d text)).tokens = (tokens', failure) ∧
      List.Forall₂ (fun t t' => t'.literal = t.literal ∧ t'.start = t.start ∧ t'.stop = t.stop)
        tokens tokens' := by
  simp only [Scanner.tokens_eq, TokenStream.ofText_blanked]
  refine ⟨TokenStream.byteLength_blanked d text, trivial, List.forall₂_map_right_iff.2 ?_⟩
  exact List.forall₂_same.2 fun t _ => ⟨rfl, Token.start_within _ _ t, rfl⟩

/-- A comment hides `BY` from `ORDER`. -/
theorem order_before_comment : ∃ text : List Char,
    (Scanner.ofText .mySql text).tokens.2 = none ∧
      (Scanner.ofText .mySql (blanked .mySql text)).tokens ≠ (Scanner.ofText .mySql text).tokens := by
  refine ⟨"SELECT * FROM t ORDER/**/BY a".toList, ?_⟩
  simp only [Scanner.tokens_eq]
  decide +kernel

end SqlRouting
