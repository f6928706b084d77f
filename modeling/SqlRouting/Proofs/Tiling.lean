import SqlRouting.Proofs.Scanner

/-!
# Tokens tile the text

Nothing of a text is lost when it is cut into tokens. Each token spans a part of the text, which is
its literal, for a string with the quotes around it (`Token.Spans`); one part follows the other, and
what is left between them are blanks and complete comments (`Gap.Fills`). So a text is its tokens
with gaps between them (`Tiles`), up to its end or to the place where no token can be read.
-/

namespace SqlRouting

open Text (byteLength)

/-! ## Gaps -/

/-- What may stand between tokens, with the text `rest` behind it: blanks and complete
    comments. A comment that ends with its line does so at a line break, which is a
    blank, or at the end of the text; any other ends with the first `*/`. -/
inductive Gap.Fills (d : Dialect) (rest : List Char) : List Char → Prop
  | nil : Fills d rest []
  | blank {c : Char} {gap : List Char} (hc : Text.isAsciiBlank c = true) (h : Fills d rest gap) :
    Fills d rest (c :: gap)
  | line {opening body gap : List Char}
    (hopens : opening = ['-', '-'] ∨ opening = ['#'] ∧ d.hashComments = true)
    (hbody : '\n' ∉ body) (hstop : ∀ c ∈ (gap ++ rest).head?, c = '\n') (h : Fills d rest gap) :
    Fills d rest (opening ++ body ++ gap)
  | block {body gap : List Char} (hbody : ¬['*', '/'] <:+: body ++ ['*']) (h : Fills d rest gap) :
    Fills d rest (['/', '*'] ++ body ++ ['*', '/'] ++ gap)

namespace Gap

variable {d : Dialect} {pos pos' : Nat} {cs cs' : List Char}

/-- The text up to the first `*/` has none before. -/
theorem upToClose?_first {body : List Char} (h : upToClose? cs = some body) :
    ∃ inside, body = inside ++ ['*', '/'] ∧ ¬['*', '/'] <:+: inside ++ ['*'] := by
  fun_induction upToClose? cs generalizing body with
  | case1 cs =>
    cases h
    exact ⟨[], rfl, fun hinfix => absurd hinfix.length_le (by decide)⟩
  | case2 c cs hc ih =>
    obtain ⟨body', hbody, rfl⟩ := Option.map_eq_some_iff.1 h
    obtain ⟨inside, rfl, hinside⟩ := ih hbody
    refine ⟨c :: inside, rfl, fun hinfix => ?_⟩
    obtain ⟨rest, hrest⟩ := upToClose?_eq_some hbody
    rcases List.infix_cons_iff.1 hinfix with hprefix | hinfix
    -- Two characters that close would have been taken for the end.
    · obtain ⟨rfl, hslash⟩ := List.cons_prefix_cons.1 hprefix
      cases inside with
      | nil => simp at hslash
      | cons a inside =>
        obtain ⟨rfl, _⟩ := List.cons_prefix_cons.1 hslash
        exact hc (inside ++ ['*', '/'] ++ rest) rfl hrest.symm
    · exact hinside hinfix
  | case3 => cases h

/-- A comment that ends with its line fills the line. -/
theorem Fills.of_opensLine {c : Char} {ds rest gap : List Char} (h : Fills d rest gap)
    (hline : OpensLine d c ds) (hstop : ∀ c ∈ (gap ++ rest).head?, c = '\n') :
    Fills d rest (c :: ds.takeWhile (· ≠ '\n') ++ gap) := by
  have hbody (es : List Char) : '\n' ∉ es.takeWhile (· ≠ '\n') := fun hmem => by
    simpa using List.all_eq_true.1 List.all_takeWhile _ hmem
  rcases hline with ⟨rfl, hhead⟩ | ⟨rfl, hhash⟩
  · obtain ⟨es, rfl⟩ := List.head?_eq_some_iff.1 hhead
    have hfills : Fills d rest (['-', '-'] ++ es.takeWhile (· ≠ '\n') ++ gap) :=
      h.line (.inl rfl) (hbody es) hstop
    simpa using hfills
  · exact h.line (.inr ⟨rfl, hhash⟩) (hbody ds) hstop

/-- What is skipped between tokens are blanks and complete comments. -/
theorem skip_fills (h : skip d .blank pos cs = .ok (pos', cs')) :
    ∃ gap, cs = gap ++ cs' ∧ pos' = pos + byteLength gap ∧ Fills d cs' gap := by
  induction hn : cs.length using Nat.strongRecOn generalizing pos cs with
  | _ n ih =>
  subst hn
  cases cs with
  | nil =>
    rw [skip] at h
    cases h
    exact ⟨[], rfl, rfl, .nil⟩
  | cons c ds =>
    by_cases hline : OpensLine d c ds
    · rw [skip_of_opensLine hline] at h
      obtain ⟨gap, hgap, rfl, hfills⟩ :=
        ih _ (Nat.lt_succ_of_le (List.dropWhile_suffix _).length_le) h rfl
      have hds : ds = ds.takeWhile (· ≠ '\n') ++ gap ++ cs' := by
        rw [List.append_assoc, ← hgap, List.takeWhile_append_dropWhile]
      have hsize : c.utf8Size = 1 := by rcases hline with ⟨rfl, _⟩ | ⟨rfl, _⟩ <;> rfl
      refine ⟨c :: ds.takeWhile (· ≠ '\n') ++ gap, by simpa using hds, ?_,
        hfills.of_opensLine hline ?_⟩
      · simp [hsize, Nat.add_assoc]
      · rw [← hgap]
        intro a ha
        have hnot := List.head?_dropWhile_not (· ≠ '\n') ds
        rw [Option.mem_def.1 ha] at hnot
        simpa using hnot
    · by_cases hblock : c = '/' ∧ ds.head? = some '*'
      · obtain ⟨rfl, hhead⟩ := hblock
        obtain ⟨es, rfl⟩ := List.head?_eq_some_iff.1 hhead
        rw [skip, skip_block] at h
        cases hbody : upToClose? es with
        | none => simp [hbody] at h
        | some body =>
          obtain ⟨rest, rfl⟩ := upToClose?_eq_some hbody
          obtain ⟨inside, rfl, hinside⟩ := upToClose?_first hbody
          simp only [hbody, List.drop_left] at h
          obtain ⟨gap, rfl, rfl, hfills⟩ := ih _ (by simp; omega) h rfl
          refine ⟨_, ?_, ?_, .block hinside hfills⟩
          · simp
          · simp [show '/'.utf8Size = 1 from rfl, show '*'.utf8Size = 1 from rfl]
            omega
      · rw [skip_of_not_opens hline hblock] at h
        split_ifs at h with hc
        · obtain ⟨gap, rfl, rfl, hfills⟩ := ih _ (Nat.lt_succ_self _) h rfl
          refine ⟨c :: gap, rfl, ?_, .blank hc hfills⟩
          rw [Text.byteLength_cons, utf8Size_of_isAsciiBlank hc, Nat.add_assoc]
        · cases h
          exact ⟨[], rfl, rfl, .nil⟩

end Gap

/-! ## Spans -/

/-- The token spans a part of the text: from a character on up to one behind it, which
    is not the same, unless the token is the one at the end. That part is its literal;
    for a string it is the literal between two quotes. -/
structure Token.Spans (text : List Char) (t : Token) : Prop where
  /-- Where it starts is no negative number cut off at zero. -/
  fits : byteLength t.literal.toList + t.kind.quotes ≤ t.stop
  start_lt : t.kind ≠ .endOfText → t.start < t.stop
  final : t.kind = .endOfText → t.start = byteLength text ∧ t.stop = byteLength text
  verbatim : t.kind ≠ .literal .chars → Text.slice? text t.start t.stop = some t.literal.toList
  quoted : t.kind = .literal .chars → ∃ q, (q = '\'' ∨ q = '"') ∧
    Text.slice? text t.start t.stop = some (q :: t.literal.toList ++ [q])

variable {d : Dialect} {dict : Dictionary} {text before cs : List Char} {n : Nat}

/-- A token spans the lexeme that it is made of. -/
theorem Lexeme.Opens.spans {l : Lexeme} (hl : l.Opens cs) (htext : text = before ++ cs) :
    (l.toToken (byteLength before)).Spans text := by
  obtain ⟨rest, rfl⟩ := hl.spelled
  have hstart : (l.toToken (byteLength before)).start = byteLength before := hl.start_toToken
  have hslice : Text.slice? text (l.toToken (byteLength before)).start
      (l.toToken (byteLength before)).stop = some l.spelling :=
    Text.slice?_eq_some_iff.2 ⟨before, rest, by simp [htext], hstart.symm, rfl⟩
  have hpos := hl.byteLength_pos
  refine ⟨?_, fun _ => ?_, fun hk => absurd hk hl.isText, fun hk => ?_, fun hk => ?_⟩
  · have hlength := hl.byteLength_spelling
    simp only [toToken]
    omega
  · rw [hstart]
    exact Nat.lt_add_of_pos_right hpos
  · rw [hslice, ← literal_toList hk]
    rfl
  · obtain ⟨q, hq, hs⟩ := hl.spelling_of_chars hk
    exact ⟨q, hq, hslice.trans (congrArg some hs)⟩

theorem Token.spans_final (text : List Char) : (Token.final (byteLength text)).Spans text where
  fits := Nat.zero_le _
  start_lt hk := absurd rfl hk
  final _ := ⟨Token.start_final _, rfl⟩
  verbatim _ := Text.slice?_eq_some_iff.2 ⟨text, [], by simp [Token.final], by simp, by simp [Token.final]⟩
  quoted hk := by cases hk

/-! ## Tiles -/

/-- From the position `pos` on, the text is gaps and the parts that the tokens span in
    turn, up to where the last of them stops. -/
def Tiles (d : Dialect) (text : List Char) : (pos : Nat) → List Token → Prop
  | _, [] => True
  | pos, t :: ts => t.Spans text ∧ Tiles d text t.stop ts ∧
      ∃ gap rest, Text.slice? text pos t.start = some gap ∧
        Text.slice? text t.start (byteLength text) = some rest ∧ Gap.Fills d rest gap

/-- A token does not stop before it starts. -/
theorem Token.Spans.start_le_stop {t : Token} (h : t.Spans text) : t.start ≤ t.stop := by
  by_cases hk : t.kind = .endOfText
  · exact Nat.le_of_eq ((h.final hk).1.trans (h.final hk).2.symm)
  · exact Nat.le_of_lt (h.start_lt hk)

namespace Tiles

variable {pos : Nat} {ts : List Token}

theorem spans (h : Tiles d text pos ts) : ∀ t ∈ ts, t.Spans text := by
  induction ts generalizing pos with
  | nil => simp
  | cons t ts ih => exact List.forall_mem_cons.2 ⟨h.1, ih h.2.1⟩

/-- None of the tokens starts before that position. -/
theorem le_start (h : Tiles d text pos ts) : ∀ t ∈ ts, pos ≤ t.start := by
  induction ts generalizing pos with
  | nil => simp
  | cons t ts ih =>
    obtain ⟨hspans, hmore, gap, rest, hgap, _⟩ := h
    have hpos : pos ≤ t.start := by
      obtain ⟨_, _, _, rfl, hstop⟩ := Text.slice?_eq_some_iff.1 hgap
      omega
    refine List.forall_mem_cons.2 ⟨hpos, fun u hu => ?_⟩
    exact Nat.le_trans hpos (Nat.le_trans hspans.start_le_stop (ih hmore u hu))

theorem pairwise (h : Tiles d text pos ts) : ts.Pairwise (·.stop ≤ ·.start) := by
  induction ts generalizing pos with
  | nil => exact .nil
  | cons t ts ih => exact .cons h.2.1.le_start (ih h.2.1)

end Tiles

/-- The tokens that are read tile the text from where they are read. -/
theorem TokenStream.read_tiles (htext : text = before ++ cs) :
    Tiles d text (byteLength before) (read d dict n (byteLength before) cs).tokens := by
  induction n generalizing before cs with
  | zero => trivial
  | succ n ih =>
    rw [read]
    cases hgap : Gap.skip d .blank (byteLength before) cs with
    | error e => trivial
    | ok behind =>
      obtain ⟨pos, rest⟩ := behind
      obtain ⟨gap, rfl, rfl, hfills⟩ := Gap.skip_fills hgap
      have hslice : Text.slice? text (byteLength before) (byteLength before + byteLength gap) =
          some gap := Text.slice?_eq_some_iff.2 ⟨before, rest, by simpa using htext, rfl, rfl⟩
      have hrest : Text.slice? text (byteLength before + byteLength gap) (byteLength text) =
          some rest := Text.slice?_eq_some_iff.2 ⟨before ++ gap, [], by simpa using htext, by simp,
            by simp [htext, Nat.add_assoc]⟩
      cases rest with
      | nil =>
        have hend : byteLength before + byteLength gap = byteLength text := by simp [htext]
        dsimp only
        rw [hend] at hslice hrest ⊢
        refine ⟨Token.spans_final text, trivial, gap, [], ?_⟩
        rw [Token.start_final]
        exact ⟨hslice, hrest, hfills⟩
      | cons c rest =>
        dsimp only
        rw [← Text.byteLength_append] at hslice hrest ⊢
        cases hread : Lexeme.read d dict (byteLength (before ++ gap)) c rest with
        | error e => trivial
        | ok l =>
          have hopens := Lexeme.read_opens hread
          obtain ⟨more, hmore⟩ := hopens.spelled
          have hstart : (l.toToken (byteLength (before ++ gap))).start = byteLength (before ++ gap) :=
            hopens.start_toToken
          refine ⟨hopens.spans (by simpa using htext), ?_, gap, c :: rest, ?_⟩
          · have hstop : (l.toToken (byteLength (before ++ gap))).stop =
                byteLength (before ++ gap ++ l.spelling) := (Text.byteLength_append ..).symm
            rw [hstop, ← hmore, List.drop_left]
            exact ih (by simp [htext, ← hmore])
          · rw [hstart]
            exact ⟨hslice, hrest, hfills⟩

/-- *Cutting a text into tokens loses nothing.* The tokens that a scanner finds in a text tile it:
    each spans a part of its own, their parts follow one another, and the gaps before them are blanks
    and complete comments. The token at the end of the text comes last, and it is missing only where
    there is an error. -/
theorem scan_tiles (d : Dialect) (text : List Char) :
    let (tokens, failure) := (Scanner.ofText d text).tokens
    (∀ t ∈ tokens, t.Spans text) ∧ tokens.Pairwise (·.stop ≤ ·.start) ∧ Tiles d text 0 tokens ∧
      (failure = none → tokens ≠ []) ∧
      ∀ t more, t :: more <:+ tokens → (t.kind = .endOfText ↔ more = [] ∧ failure = none) := by
  rw [Scanner.tokens_eq]
  have htiles : Tiles d text 0 (TokenStream.ofText d text).tokens :=
    TokenStream.read_tiles (show text = [] ++ text from rfl)
  refine ⟨htiles.spans, htiles.pairwise, htiles, fun hnone => ?_, fun t more hmore => ?_⟩
  · exact TokenStream.ofText_ne_nil (by simpa using hnone)
  · simpa using TokenStream.ofText_closed hmore

end SqlRouting
