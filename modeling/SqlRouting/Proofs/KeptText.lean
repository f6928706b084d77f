import SqlRouting.Proofs.AtEnd.Operand
import SqlRouting.Proofs.Rows
import SqlRouting.Proofs.Tiling
import SqlRouting.Proofs.Written.Layout

/-!
# Text that is kept

What is no value is kept as it is written. An operand of a single token is kept as that token. Any
other text that is kept reaches from the first token to the one *behind* the last, and then the
blanks at its end are cut off: so a comment that follows the last token is kept as well, and of a
name that ends in a blank beyond ASCII the end is lost. The text is the one from the first token to
the last exactly if neither is there (`CutsGap`).
-/

namespace SqlRouting

open Text (byteLength slice? isBlank isAsciiBlank trimEnd)

/-! ## Cutting off blanks -/

namespace Text

/-- Texts that are cut at the same byte are cut alike. -/
theorem append_inj_of_byteLength {cs cs' ds ds' : List Char} (h : cs ++ ds = cs' ++ ds')
    (hlength : byteLength cs = byteLength cs') : cs = cs' ∧ ds = ds' := by
  have hsplit := splitBytes?_append cs ds
  rw [h, hlength, splitBytes?_append] at hsplit
  simpa [eq_comm] using hsplit

/-- Two slices of a text that meet are one. -/
theorem slice?_append {cs part part' : List Char} {start mid stop : Nat}
    (h : slice? cs start mid = some part) (h' : slice? cs mid stop = some part') :
    slice? cs start stop = some (part ++ part') := by
  obtain ⟨before, after, rfl, rfl, rfl⟩ := slice?_eq_some_iff.1 h
  obtain ⟨before', after', heq, hlength, rfl⟩ := slice?_eq_some_iff.1 h'
  -- Both slices lie behind the same text up to where they meet.
  rw [← byteLength_append] at hlength
  rw [List.append_assoc before'] at heq
  obtain ⟨rfl, rfl⟩ := append_inj_of_byteLength heq hlength.symm
  exact slice?_eq_some_iff.2 ⟨before, after', by simp, rfl, by simp [Nat.add_assoc]⟩

/-- What is cut off at the end are blanks. -/
theorem exists_blanks_of_trimEnd (cs : List Char) :
    ∃ blanks, cs = trimEnd cs ++ blanks ∧ ∀ c ∈ blanks, isBlank c = true := by
  refine ⟨(cs.reverse.takeWhile isBlank).reverse, ?_, fun c hc => ?_⟩
  · rw [trimEnd, ← List.reverse_append, List.takeWhile_append_dropWhile, List.reverse_reverse]
  · exact List.mem_takeWhile_imp (List.mem_reverse.1 hc)

/-- All blanks at the end are cut off. -/
theorem isBlank_getLast_trimEnd {cs : List Char} :
    ∀ c ∈ (trimEnd cs).getLast?, isBlank c = false := by
  intro c hc
  have hnot := List.head?_dropWhile_not isBlank cs.reverse
  rw [trimEnd, List.getLast?_reverse, Option.mem_def] at hc
  simpa [hc] using hnot

/-- Cutting off the blanks cuts off just `ds` if these are blanks and there are none before them. -/
theorem trimEnd_append_eq_iff {cs ds : List Char} :
    trimEnd (cs ++ ds) = cs ↔
      (∀ d ∈ ds, isBlank d = true) ∧ ∀ c ∈ cs.getLast?, isBlank c = false := by
  constructor
  · intro h
    obtain ⟨blanks, hsplit, hblanks⟩ := exists_blanks_of_trimEnd (cs ++ ds)
    rw [h] at hsplit
    obtain rfl : ds = blanks := List.append_cancel_left hsplit
    exact ⟨hblanks, h ▸ isBlank_getLast_trimEnd⟩
  · rintro ⟨hds, hcs⟩
    exact trimEnd_append (by cases hlast : cs.getLast? <;> simp_all) hds

end Text

/-- Cutting off blanks cuts off what is between two tokens, and no more: there is no comment, and
    the token before does not end in a blank itself. -/
structure CutsGap (written gap : List Char) : Prop where
  gap : ∀ c ∈ gap, isAsciiBlank c = true
  written : ∀ c ∈ written.getLast?, isBlank c = false

/-- A gap has no blanks but ASCII blanks, since what is in comments is not all blank. -/
theorem Gap.Fills.isAsciiBlank_of_isBlank {d : Dialect} {rest gap : List Char}
    (h : Gap.Fills d rest gap) (hblank : ∀ c ∈ gap, isBlank c = true) :
    ∀ c ∈ gap, Text.isAsciiBlank c = true := by
  induction h with
  | nil => simp
  | blank hc _ ih =>
    obtain ⟨_, hblank⟩ := List.forall_mem_cons.1 hblank
    exact List.forall_mem_cons.2 ⟨hc, ih hblank⟩
  | line hopens =>
    rcases hopens with rfl | ⟨rfl, _⟩
    · exact absurd (hblank '-' (by simp)) (by decide)
    · exact absurd (hblank '#' (by simp)) (by decide)
  | block => exact absurd (hblank '/' (by simp)) (by decide)

/-- Cutting off blanks leaves what is written before a gap exactly if it cuts off the gap. -/
theorem Gap.Fills.trimEnd_eq_iff {d : Dialect} {rest gap written : List Char}
    (h : Gap.Fills d rest gap) : trimEnd (written ++ gap) = written ↔ CutsGap written gap := by
  rw [Text.trimEnd_append_eq_iff]
  constructor
  · rintro ⟨hgap, hwritten⟩
    exact ⟨h.isAsciiBlank_of_isBlank hgap, hwritten⟩
  · rintro ⟨hgap, hwritten⟩
    exact ⟨fun c hc => Text.isBlank_of_isAsciiBlank (hgap c hc), hwritten⟩

/-- Blanks that are cut off are as long as the gap exactly if they are the gap. -/
theorem byteLength_trimEnd_eq_iff {written gap : List Char} :
    byteLength (trimEnd (written ++ gap)) = byteLength written ↔
      trimEnd (written ++ gap) = written := by
  obtain ⟨blanks, hsplit, _⟩ := Text.exists_blanks_of_trimEnd (written ++ gap)
  exact ⟨fun h => (Text.append_inj_of_byteLength hsplit h.symm).1.symm, congrArg byteLength⟩

/-! ## Stretches of tokens -/

/-- The tokens `read` reach from `first` to `last`; they are written `written` in the text, and
    what is left between them and the token `next` is `gap`. -/
structure Stretch (d : Dialect) (text : List Char) (read : List Token) (first last next : Token)
    (written gap : List Char) : Prop where
  head : read.head? = some first
  getLast : read.getLast? = some last
  written_eq : slice? text first.start last.stop = some written
  gap_eq : slice? text last.stop next.start = some gap
  fills : ∃ rest, Gap.Fills d rest gap

theorem Token.At.spans {text : List Char} {t : Token} (h : t.At text) : t.Spans text := by
  cases h with
  | lexeme htext hl => exact hl.spans htext
  | final => exact Token.spans_final text

/-- Between two tokens of a text there is nothing but a gap. -/
theorem Tiles.exists_gap {d : Dialect} {text : List Char} {pos : Nat} {before more : List Token}
    {last next : Token} (h : Tiles d text pos (before ++ last :: next :: more)) :
    ∃ gap rest, slice? text last.stop next.start = some gap ∧ Gap.Fills d rest gap := by
  induction before generalizing pos with
  | nil =>
    obtain ⟨_, ⟨_, _, gap, rest, hgap, _, hfills⟩, _⟩ := h
    exact ⟨gap, rest, hgap, hfills⟩
  | cons t before ih => exact ih h.2.1

section

variable {database : Database} {d : Dialect} {text : String} {c c' c'' : Cursor}

/-- Between two places of a cursor there is a stretch of tokens. -/
theorem Cursor.Behind.exists_stretch (hc : Cursor.ofText database d text = .ok c)
    (hbehind : c.Behind text.toList c') {read : List Token}
    (htokens : c'.tokens = read ++ c''.tokens) (hread : read ≠ []) :
    ∃ last written gap,
      Stretch d text.toList read c'.current last c''.current written gap := by
  have htiles : Tiles d text.toList 0 c.tokens := by
    rw [(Cursor.ofText_eq_ok hc).1]
    exact TokenStream.read_tiles (show text.toList = [] ++ text.toList from rfl)
  obtain ⟨init, last, rfl⟩ := (List.eq_nil_or_concat' read).resolve_left hread
  obtain ⟨before, hbefore⟩ := hbehind.tokens_suffix
  have hall : c.tokens = (before ++ init) ++ last :: c''.current :: c''.ahead := by
    rw [← hbefore, htokens]
    simp [Cursor.tokens]
  obtain ⟨gap, rest, hgap, hfills⟩ := Tiles.exists_gap (hall ▸ htiles)
  have hlast : last ∈ c'.tokens := by simp [htokens]
  have hat := (hbehind.stands.tokens_at last hlast).boundaries
  obtain ⟨written, hwritten⟩ := hbehind.stands.current_at.boundaries.1.exists_slice? hat.2.1
    (Nat.le_trans (hbehind.stands.start_le hlast) hat.2.2)
  have hhead : (init ++ [last]).head? = some c'.current := by
    have hfirst := congrArg List.head? htokens
    rw [List.head?_append_of_ne_nil _ (by simp)] at hfirst
    exact hfirst.symm
  exact ⟨last, written, gap, by simpa using hhead, by simp, hwritten, hgap, rest, hfills⟩

end

namespace Grammar

open SqlRouting.Parser

variable {κ : Type} {text : List Char} {s s₁ s' : ParseState κ} {kept : String}

/-- What is kept up to a token is a stretch with the gap behind it, less the blanks at its end. -/
theorem toList_of_textSince {d : Dialect} {read : List Token} {first last : Token}
    {written gap : List Char} (h : textSince first.start s = .ok kept s')
    (hs : s.cursor.text = text) (hle : first.start ≤ s.cursor.current.start)
    (hstretch : Stretch d text read first last s.cursor.current written gap) :
    kept.toList = trimEnd (written ++ gap) := by
  simp only [textSince, current_bind, bind_eq_ok, slice_eq_ok, pure_eq_ok] at h
  obtain ⟨part, _, ⟨hpart, rfl⟩, rfl, _⟩ := h
  rw [Nat.max_eq_left hle, hs,
    Text.slice?_append hstretch.written_eq hstretch.gap_eq] at hpart
  obtain rfl := Option.some.inj hpart
  simp

/-! ## Operands -/

/-- A group is at least two tokens. -/
theorem skipParentheses_shrinks {part : String} (h : skipParentheses s = .ok part s')
    (hs : s.cursor.Closed) (hopen : s.cursor.isSymbol .leftParen = true) :
    s'.cursor.ahead.length + 2 ≤ s.cursor.ahead.length := by
  simp only [skipParentheses, cursor_bind, current_bind, ite_eq_ok, bind_eq_ok, pure_eq_ok,
    slice_eq_ok, hopen, not_true, false_and, or_false, true_and] at h
  obtain ⟨_, s₁, hadvance, _, s₂, hskip, _, _, ⟨_, rfl⟩, _, s₃, hadvance', _, rfl⟩ := h
  have hkind : s.cursor.current.kind = .symbol .leftParen := of_decide_eq_true hopen
  obtain ⟨hrun, hclosed⟩ := skipToClosing_run (E := Scope.all κ) hskip
  obtain ⟨hs₂, hlt⟩ := shrinks_of_advance hadvance hs (by simp [hkind]) hrun
  obtain ⟨_, hlt'⟩ := shrinks_of_advance (E := Scope.all κ) hadvance' hs₂ (by simp [hclosed]) .refl
  omega

/-- There is something to join exactly behind a joint. -/
theorem skipJoint_found {found : Bool} (h : skipJoint s = .ok found s') :
    (s.cursor.isOperator || s.cursor.isSymbol .dot) = found := by
  simp only [skipJoint, isJoint_bind, cursor_bind, ite_eq_ok, bind_eq_ok, pure_eq_ok] at h
  rcases h with ⟨hjoint, _, _, _, _, _, _, _, _, _, _, _, _,
    ⟨_, _, _, _, _, _, _, rfl, _⟩ | ⟨_, _, _, _, rfl, _⟩⟩ | ⟨hjoint, rfl, _⟩
  · exact hjoint
  · exact hjoint
  · simpa using hjoint

/-- What is joined to an operand is at least a token. -/
theorem skipJoined_shrinks {u : Unit} (h : skipJoined s = .ok u s') (hs : s.cursor.Closed)
    (hjoint : (s.cursor.isOperator || s.cursor.isSymbol .dot) = true) :
    s'.cursor.ahead.length < s.cursor.ahead.length := by
  simp only [skipJoined, loop, cursor_bind, Cursor.movesLeft, iterate, bind_eq_ok, ite_eq_ok,
    pure_eq_ok] at h
  obtain ⟨found, s₁, hfirst, h⟩ := h
  obtain rfl : true = found := hjoint.symm.trans (skipJoint_found hfirst)
  obtain ⟨hs₁, hlt⟩ := skipJoint_shrinks hs hfirst
  rcases h with ⟨_, hmore⟩ | ⟨hfound, _⟩
  · have hle := (Moves.length_le (iterate_moves (E := Scope.all κ) skipJoint_moves _) hs₁ hmore).2
    omega
  · exact absurd rfl hfound

/-- What makes more than a single operand of one is at least a token. -/
theorem skipComposite_shrinks (h : skipComposite s = .ok true s') (hs : s.cursor.Closed) :
    s'.cursor.ahead.length < s.cursor.ahead.length := by
  obtain ⟨hfound, part, s₁, hparens, hjoined⟩ := skipComposite_eq_ok.1 h
  by_cases hopen : s.cursor.isSymbol .leftParen = true
  · have hlt := skipParentheses_shrinks hparens hs hopen
    have hs₁ := (Moves.length_le (E := Scope.all κ) skipParentheses_moves hs hparens).1
    have hle := (Moves.length_le (E := Scope.all κ) skipJoined_moves hs₁ hjoined).2
    omega
  · rw [skipParentheses, cursor_bind, if_neg hopen] at hparens
    obtain ⟨_, rfl⟩ := pure_eq_ok.1 hparens
    exact skipJoined_shrinks hjoined hs (by simpa [hopen] using hfound)

theorem eq_of_getD_eq_other {n : Option Number} {literal : String}
    (h : (n.map Expression.number).getD (.other literal) = .other kept) : kept = literal := by
  cases n with
  | none => exact (Expression.other.inj h).symm
  | some n => cases h

/-- A single token that is no value, name or string is kept as its literal. -/
theorem literal_of_atom {t : Token} (h : atom t s = .ok (.other kept) s') :
    kept = t.literal ∧ t.kind ≠ .literal .chars := by
  rw [atom] at h
  generalize hkind : t.kind = kind at h
  split at h
  case h_1 =>
    simp only [bind_eq_ok, pure_eq_ok, reduceCtorEq, false_and, and_false, exists_false] at h
  -- A number that does not fit is kept, too.
  case h_3 | h_4 => exact ⟨eq_of_getD_eq_other (pure_eq_ok.1 h).1, by simp⟩
  case h_7 hchars _ _ _ _ =>
    obtain ⟨h, _⟩ := pure_eq_ok.1 h
    exact ⟨(Expression.other.inj h).symm, hchars⟩
  all_goals exact absurd (pure_eq_ok.1 h).1 (by simp)

theorem next_of_takeName {t : Token} (h : takeName s = .ok t s') :
    s.cursor.next = .ok s'.cursor := by
  obtain ⟨_, c, hnext, rfl⟩ := takeName_eq_ok.1 h
  split <;> exact hnext

/-- A dot with the name behind it is at least a token. -/
theorem dotted_shrinks {name : Token} {found : Bool} {s₂ s₃ : ParseState κ} {u : Unit}
    (hdot : s.cursor.current.kind = .symbol .dot) (hs : s.cursor.Closed)
    (hadvance : advance s = .ok u s₂) (hname : takeName s₂ = .ok name s₃)
    (hcomposite : skipComposite s₃ = .ok found s') :
    s'.cursor.ahead.length < s.cursor.ahead.length := by
  obtain ⟨hs₂, hlt⟩ := shrinks_of_advance (E := Scope.all κ) hadvance hs (by simp [hdot]) .refl
  have hnext := next_of_takeName hname
  have hle := (Cursor.tokens_suffix_of_next hs₂ hnext).length_le
  have hle' :=
    (Moves.length_le (E := Scope.all κ) skipComposite_moves (hs₂.next hnext) hcomposite).2
  simp only [Cursor.tokens, List.length_cons] at hle
  omega

/-- An operand has a token at least. If it is kept as text, then it is this one, or it is cut out of
    the text from its first token on and has another one. -/
theorem unsignedOperand_kept {e : Expression} (h : unsignedOperand s = .ok e s')
    (hs : s.cursor.Closed) (hend : s.cursor.isEnd = false) :
    s'.cursor.ahead.length < s.cursor.ahead.length ∧ ∀ kept, e = .other kept →
      s.cursor.ahead = s'.cursor.tokens ∧ kept = s.cursor.current.literal ∧
          s.cursor.current.kind ≠ .literal .chars ∨
        s'.cursor.ahead.length + 2 ≤ s.cursor.ahead.length ∧
          textSince s.cursor.current.start s' = .ok kept s' := by
  have hkind : s.cursor.current.kind ≠ .endOfText := by simpa [Cursor.isEnd] using hend
  simp only [unsignedOperand, current_bind, cursor_bind, ite_eq_ok, bind_eq_ok, pure_eq_ok] at h
  rcases h with ⟨hopen, _, s₁, hparens, _, s₂, hjoined, _, s₃, htext, rfl, rfl⟩ |
    ⟨_, value, s₁, hatom, _, s₂, hadvance, dotted, s₃, hdot, h⟩
  · obtain rfl := eq_of_textSince htext
    have hlt := skipParentheses_shrinks hparens hs hopen
    have hs₁ := (Moves.length_le (E := Scope.all κ) skipParentheses_moves hs hparens).1
    have hle := (Moves.length_le (E := Scope.all κ) skipJoined_moves hs₁ hjoined).2
    refine ⟨by omega, ?_⟩
    rintro _ ⟨⟩
    exact .inr ⟨by omega, htext⟩
  obtain ⟨value', s₁', hatom', hcursor⟩ := atom_cursor s.cursor.current s
  obtain ⟨rfl, rfl⟩ := EStateM.Result.ok.inj (hatom.symm.trans hatom')
  obtain ⟨hs₂, hlt⟩ := shrinks_of_advance (E := Scope.all κ) hadvance (hcursor ▸ hs)
    (by rwa [hcursor]) .refl
  have hahead := ahead_of_advance hadvance (hcursor ▸ hs) (by rwa [hcursor])
  rw [hcursor] at hlt hahead
  obtain ⟨hdotted, hdot⟩ := skipIf_eq_ok.1 hdot
  cases dotted with
  | true =>
    -- Behind the dot there is a name, or nothing: the dot is the second token in any case.
    have hdotKind : s₂.cursor.current.kind = .symbol .dot := by simpa [Cursor.isAny] using hdotted
    rcases h with ⟨_, name, s₄, hname, composite, s₅, hcomposite, h⟩ | ⟨hfalse, _⟩
    · have hlt' := dotted_shrinks hdotKind hs₂ hdot hname hcomposite
      rcases h with ⟨_, _, s₆, htext, rfl, rfl⟩ | ⟨_, _, s₆, hmark, rfl, rfl⟩
      · obtain rfl := eq_of_textSince htext
        refine ⟨by omega, ?_⟩
        rintro _ ⟨⟩
        exact .inr ⟨by omega, htext⟩
      · obtain ⟨s₆', hmark', hcursor'⟩ := markOwner_cursor s.cursor.current s₅
        obtain ⟨_, rfl⟩ := EStateM.Result.ok.inj (hmark.symm.trans hmark')
        exact ⟨by rw [hcursor']; omega, by simp⟩
    · exact absurd rfl hfalse
  | false =>
    obtain rfl : s₂ = s₃ := hdot
    rcases h with ⟨hfalse, _⟩ | ⟨_, composite, s₄, hcomposite, h⟩
    · cases hfalse
    rcases h with ⟨rfl, _, s₅, htext, rfl, rfl⟩ | ⟨hcomposite', rfl, rfl⟩
    · obtain rfl := eq_of_textSince htext
      have hlt' := skipComposite_shrinks hcomposite hs₂
      refine ⟨by omega, ?_⟩
      rintro _ ⟨⟩
      exact .inr ⟨by omega, htext⟩
    · obtain rfl : composite = false := by simpa using hcomposite'
      obtain rfl := (skipComposite_eq_ok.1 hcomposite).2
      refine ⟨hlt, ?_⟩
      rintro kept rfl
      exact .inl ⟨hahead, literal_of_atom hatom⟩

/-- Behind signs there is something, and they are passed. -/
theorem signs_shrinks {n : Nat} {before : List Symbol} (h : signs n s = .ok before s')
    (hs : s.cursor.Closed) (hne : before ≠ []) :
    s'.cursor.Closed ∧ s'.cursor.isEnd = false ∧
      s'.cursor.ahead.length < s.cursor.ahead.length := by
  induction n generalizing s before with
  | zero => exact absurd (pure_eq_ok.1 h).1.symm hne
  | succ n ih =>
    simp only [signs, cursor_bind, ite_eq_ok, bind_eq_ok, refuseEnd_eq_ok, pure_eq_ok] at h
    rcases h with ⟨hsign, _, s₁, hadvance, _, _, ⟨hend, rfl⟩, more, s₂, hmore, _, rfl⟩ | ⟨_, rfl, _⟩
    · have hkind : s.cursor.current.kind ≠ .endOfText := fun hk => by
        simp [Cursor.isSymbol, hk] at hsign
      obtain ⟨hs₁, hlt⟩ := shrinks_of_advance (E := Scope.all κ) hadvance hs hkind .refl
      by_cases hnil : more = []
      · subst hnil
        obtain rfl := signs_eq_nil hmore
        exact ⟨hs₁, hend, hlt⟩
      · obtain ⟨hs₂, hend₂, hlt₂⟩ := ih hmore hs₁ hnil
        exact ⟨hs₂, hend₂, by omega⟩
    · exact absurd rfl hne

/-- An operand that is kept as text is a single token, or it is cut out of the text from its first
    token on and has another one. -/
theorem operand_kept (h : operand s = .ok (.other kept) s') (hs : s.cursor.Closed)
    (hend : s.cursor.isEnd = false) :
    s.cursor.ahead = s'.cursor.tokens ∧ kept = s.cursor.current.literal ∧
        s.cursor.current.kind ≠ .literal .chars ∨
      s'.cursor.ahead.length + 2 ≤ s.cursor.ahead.length ∧
        textSince s.cursor.current.start s' = .ok kept s' := by
  simp only [operand, current_bind, cursor_bind, bind_eq_ok, ite_eq_ok, pure_eq_ok,
    List.isEmpty_iff] at h
  obtain ⟨before, s₁, hsigns, value, s₂, hvalue, ⟨rfl, rfl, rfl⟩ | ⟨hne, h⟩⟩ := h
  · obtain rfl := signs_eq_nil hsigns
    exact (unsignedOperand_kept hvalue hs hend).2 kept rfl
  · obtain ⟨hs₁, hend₁, hlt⟩ := signs_shrinks hsigns hs hne
    obtain ⟨hlt', _⟩ := unsignedOperand_kept hvalue hs₁ hend₁
    -- A number keeps its value; all else behind signs is cut out.
    cases value with
    | number n => cases (pure_eq_ok.1 h).1
    | _ =>
      simp only [bind_eq_ok, pure_eq_ok] at h
      obtain ⟨text, s₃, htext, hkept, rfl⟩ := h
      obtain rfl := Expression.other.inj hkept
      obtain rfl := eq_of_textSince htext
      exact .inr ⟨by omega, htext⟩

/-! ## Rows of assignments -/

/-- An assignment has a token at least: the sign between the column and its value. -/
theorem insertAssignment_shrinks {s s' : ParseState InsertClauses} {table : Option String}
    {entry : Column × Expression} (h : insertAssignment table s = .ok entry s')
    (hs : s.cursor.Closed) :
    s'.cursor.Closed ∧ s'.cursor.ahead.length < s.cursor.ahead.length := by
  simp only [insertAssignment, cursor_bind, bind_eq_ok, ite_eq_ok, pure_eq_ok, unexpected_eq_ok,
    false_and, and_false, exists_false, false_or] at h
  obtain ⟨_, target, s₁, htarget, column, s₂, hcolumn, _, s₃, hequal, value, s₄, hvalue, _, s₅,
    hadd, rfl, rfl⟩ := h
  obtain ⟨hs₂, hle⟩ := Moves.length_le (E := Scope.all InsertClauses)
    (operand_moves.bind fun _ => columnOfTable_moves table _) hs
    (bind_eq_ok.2 ⟨_, _, htarget, hcolumn⟩)
  obtain ⟨hkind, hadvance⟩ := accept_eq_ok.1 hequal
  obtain ⟨hs₅, hlt⟩ := shrinks_of_advance (E := Scope.all InsertClauses) hadvance hs₂
    (by simp [hkind])
    ((operand_moves hvalue).trans (addColumn_moves (fun _ _ _ _ => trivial) _ hadd))
  exact ⟨hs₅, by omega⟩

/-- So has a row of them. -/
theorem insertAssignments_shrink {s s' : ParseState InsertClauses} {table : Option String}
    {row : List (Column × Expression)}
    (h : commaSeparated (insertAssignment table) s = .ok row s') (hs : s.cursor.Closed) :
    s'.cursor.ahead.length < s.cursor.ahead.length := by
  have hmoves : Moves (Scope.all _) (insertAssignment table) :=
    insertAssignment_moves (fun _ _ _ _ => trivial) table
  obtain ⟨entry, s₁, hentry, hmore⟩ :=
    separatedBy_first hmoves (skipSymbol_moves (by decide)) h
  obtain ⟨_, hlt⟩ := insertAssignment_shrinks hentry hs
  have hle := (hmore.tokens_suffix ((hmoves hentry).on ⟨List.suffix_rfl, hs⟩)).length_le
  simp only [Cursor.tokens, List.length_cons] at hle
  omega

theorem cursor_of_markRows {s s' : ParseState InsertClauses} {u : Unit}
    (h : markRows s = .ok u s') : s'.cursor = s.cursor := by
  simp only [markRows, insertTable, current_bind, routing_bind, bind_eq_ok, pure_eq_ok] at h
  obtain ⟨_, _, ⟨rfl, rfl⟩, h⟩ := h
  obtain rfl := addMark_eq_ok.1 h
  rfl

section

variable {database : Database} {d : Dialect} {text : String} {c : Cursor}
  (hc : Cursor.ofText database d text = .ok c)
include hc

omit hc in
/-- A cursor that has come closer to the end of the text has passed a token. -/
theorem ne_nil_of_shrinks {c' c'' : Cursor} {read : List Token}
    (hread : read ++ c''.tokens = c'.tokens) (hlt : c''.ahead.length < c'.ahead.length) :
    read ≠ [] := by
  rintro rfl
  have hlength := congrArg List.length hread
  simp only [Cursor.tokens, List.nil_append, List.length_cons] at hlength
  omega

/-- What is kept of an operand: a token, or a stretch of them with the gap behind, less the blanks
    at its end. -/
theorem operand_keeps (hbehind : c.Behind text.toList s.cursor) (hend : s.cursor.isEnd = false)
    (h : operand s = .ok (.other kept) s') :
    ∃ read first last written gap, s.cursor.tokens = read ++ s'.cursor.tokens ∧
      Stretch d text.toList read first last s'.cursor.current written gap ∧
      kept.toList = (if read.length = 1 then written else trimEnd (written ++ gap)) ∧
      (kept.toList = written ↔ read.length = 1 ∨ CutsGap written gap) := by
  have hs := hbehind.stands
  obtain ⟨read, hread⟩ := (operand_safe.stands hs h).behind.tokens_suffix
  have hlength := congrArg List.length hread
  simp only [Cursor.tokens, List.length_append, List.length_cons] at hlength
  rcases operand_kept h hs.closed hend with ⟨hahead, rfl, hchars⟩ | ⟨hlt, htext⟩
  · -- The only token is written as its literal.
    have htokens : s.cursor.tokens = [s.cursor.current] ++ s'.cursor.tokens := by
      rw [Cursor.tokens, hahead]
      rfl
    obtain ⟨last, written, gap, hstretch⟩ := hbehind.exists_stretch hc htokens (by simp)
    obtain rfl : s.cursor.current = last := by simpa using hstretch.getLast
    obtain rfl : s.cursor.current.literal.toList = written := by
      have hspans := hs.current_at.spans
      exact Option.some.inj ((hspans.verbatim hchars).symm.trans hstretch.written_eq)
    exact ⟨_, _, _, _, gap, htokens, hstretch, by simp, by simp⟩
  · have hne : read.length ≠ 1 := by omega
    have hnil := ne_nil_of_shrinks hread (by omega)
    obtain ⟨last, written, gap, hstretch⟩ := hbehind.exists_stretch hc hread.symm hnil
    have hkept := toList_of_textSince htext (operand_safe.stands hs h).stands.text_eq
      (operand_safe.stands hs h).start_le hstretch
    obtain ⟨rest, hfills⟩ := hstretch.fills
    refine ⟨read, _, last, written, gap, hread.symm, hstretch, by rw [if_neg hne, hkept], ?_⟩
    rw [hkept, hfills.trimEnd_eq_iff]
    simp [hne]

/-- What is kept of a row of assignments: the stretch of tokens behind its keyword with the gap
    behind, less the blanks at its end. The rows stop where this text stops. -/
theorem insertSet_keeps {s s' : ParseState InsertClauses} {u : Unit}
    (hbehind : c.Behind text.toList s.cursor)
    (hset : s.cursor.isKeyword s.cursor.dialect.insertSet = true) (h : insertSet s = .ok u s') :
    ∃ row keyword read first last written gap,
      s'.body.clauses.rows = s.body.clauses.rows ++ [row] ∧
      s.cursor.tokens = keyword :: (read ++ s'.cursor.tokens) ∧
      Stretch d text.toList read first last s'.cursor.current written gap ∧
      row.text.toList = trimEnd (written ++ gap) ∧
      s'.body.clauses.rowsStop = some (first.start + byteLength row.text.toList) ∧
      (row.text.toList = written ↔ CutsGap written gap) ∧
      (s'.body.clauses.rowsStop = some last.stop ↔ CutsGap written gap) := by
  have hs := hbehind.stands
  rcases insertSet_reads h ⟨hbehind.tokens_suffix, hs.closed⟩ with ⟨hmissing, _⟩ |
    ⟨s₁, s₂, s₃, row, text', count, hadvance, hmark, _, hrow, htext, _, rfl⟩
  · rw [hset] at hmissing
    cases hmissing
  obtain ⟨k, hkind⟩ := Cursor.exists_of_isKeyword hset
  have hfirst := (advance_safe.stands hs hadvance).behind
  have hkeyword := ahead_of_advance hadvance hs.closed (by simp [hkind])
  have hcursor := cursor_of_markRows hmark
  rw [← hcursor] at hfirst hkeyword htext ⊢
  have hmore := (commaSeparated_safe (insertAssignment_safe _)).stands hfirst.stands hrow
  obtain ⟨read, hread⟩ := hmore.behind.tokens_suffix
  have hnil := ne_nil_of_shrinks hread (insertAssignments_shrink hrow hfirst.stands.closed)
  obtain ⟨last, written, gap, hstretch⟩ :=
    (hbehind.trans hfirst).exists_stretch hc hread.symm hnil
  have hkept := toList_of_textSince htext hmore.stands.text_eq hmore.start_le hstretch
  obtain ⟨rest, hfills⟩ := hstretch.fills
  refine ⟨⟨.SET, text', count, rowConditions row⟩, s.cursor.current, read, _, last, written, gap,
    rfl, ?_, hstretch, hkept, rfl, ?_, ?_⟩
  · rw [Cursor.tokens, hkeyword, hread]
  · rw [hkept, hfills.trimEnd_eq_iff]
  · obtain ⟨_, _, _, hstart, hstop⟩ := Text.slice?_eq_some_iff.1 hstretch.written_eq
    rw [← hfills.trimEnd_eq_iff, ← byteLength_trimEnd_eq_iff, ← hkept, ← hstop, ← hstart]
    simp

end

end Grammar

/-! ## From the start of a text -/

/-- The cursor on the start of a text, what the parser reads there, and where that leads, if it
    succeeds. -/
def Parser.runOn? {κ α : Type} [Inhabited κ] (p : Parser κ α) (database : Database) (d : Dialect)
    (text : String) : Option (Cursor × α × ParseState κ) :=
  match Cursor.ofText database d text with
  | .error _ => none
  | .ok c =>
    match p (ParseState.start c) with
    | .ok a s => some (c, a, s)
    | .error _ _ => none

theorem Parser.exists_of_runOn? {κ α β : Type} [Inhabited κ] {p : Parser κ α} {database : Database}
    {d : Dialect} {text : String} {f : Cursor × α × ParseState κ → β} {b : β}
    (h : (runOn? p database d text).map f = some b) :
    ∃ c a s, Cursor.ofText database d text = .ok c ∧ p (ParseState.start c) = .ok a s ∧
      f (c, a, s) = b := by
  obtain ⟨⟨c, a, s⟩, hrun, hf⟩ := Option.map_eq_some_iff.1 h
  rw [runOn?] at hrun
  split at hrun
  · cases hrun
  · rename_i c' hc
    split at hrun
    · rename_i a' s' hp
      cases hrun
      exact ⟨_, _, _, hc, hp, hf⟩
    · cases hrun

/-- *What is kept is what has been read, and what follows it.* An operand that is kept as text is a
    single token, or it is the stretch of its tokens with the gap behind, less the blanks at the
    end. The latter is the text from the first token to the last exactly if the gap has no comment
    and the last token does not end in a blank. The same holds of a row of assignments, and where
    the rows stop is where its text stops. -/
theorem kept_text {database : Database} {d : Dialect} {text : String} {c : Cursor}
    (hc : Cursor.ofText database d text = .ok c) :
    (∀ {κ : Type} {s s' : ParseState κ} {kept : String}, c.Behind text.toList s.cursor →
      s.cursor.isEnd = false → Grammar.operand s = .ok (.other kept) s' →
      ∃ read first last written gap, s.cursor.tokens = read ++ s'.cursor.tokens ∧
        Stretch d text.toList read first last s'.cursor.current written gap ∧
        kept.toList = (if read.length = 1 then written else trimEnd (written ++ gap)) ∧
        (kept.toList = written ↔ read.length = 1 ∨ CutsGap written gap)) ∧
    ∀ {s s' : ParseState InsertClauses}, c.Behind text.toList s.cursor →
      s.cursor.isKeyword s.cursor.dialect.insertSet = true → Grammar.insertSet s = .ok () s' →
      ∃ row keyword read first last written gap,
        s'.body.clauses.rows = s.body.clauses.rows ++ [row] ∧
        s.cursor.tokens = keyword :: (read ++ s'.cursor.tokens) ∧
        Stretch d text.toList read first last s'.cursor.current written gap ∧
        row.text.toList = trimEnd (written ++ gap) ∧
        s'.body.clauses.rowsStop = some (first.start + byteLength row.text.toList) ∧
        (row.text.toList = written ↔ CutsGap written gap) ∧
        (s'.body.clauses.rowsStop = some last.stop ↔ CutsGap written gap) :=
  ⟨fun hbehind hend h => Grammar.operand_keeps hc hbehind hend h,
    fun hbehind hset h => Grammar.insertSet_keeps hc hbehind hset h⟩

/-- A call that something is added to, and a row of assignments. -/
theorem kept_text_call : (∃ c s read first last written gap,
      Cursor.ofText .mySql .mySql "a + f(b, ?) , c" = .ok c ∧
      Grammar.operand (ParseState.start (κ := DeleteClauses) c) = .ok (.other "a + f(b, ?)") s ∧
      c.tokens = read ++ s.cursor.tokens ∧
      Stretch .mySql "a + f(b, ?) , c".toList read first last s.cursor.current written gap ∧
      ("a + f(b, ?)".toList = written ↔ read.length = 1 ∨ CutsGap written gap)) ∧
    ∃ c s row keyword read first last written gap,
      Cursor.ofText .mySql .mySql "SET a = ?, b = 'x' ON" = .ok c ∧
      Grammar.insertSet (ParseState.start c) = .ok () s ∧ s.body.clauses.rows = [row] ∧
      row.text = "a = ?, b = 'x'" ∧ c.tokens = keyword :: (read ++ s.cursor.tokens) ∧
      Stretch .mySql "SET a = ?, b = 'x' ON".toList read first last s.cursor.current written gap ∧
      (s.body.clauses.rowsStop = some last.stop ↔ CutsGap written gap) := by
  constructor
  · have hrun : (Parser.runOn? (κ := DeleteClauses) Grammar.operand .mySql .mySql
        "a + f(b, ?) , c").map (fun r => (r.1.isEnd, r.2.1)) =
          some (false, .other "a + f(b, ?)") := by decide +kernel
    obtain ⟨c, e, s, hc, hrun, hf⟩ := Parser.exists_of_runOn? hrun
    obtain ⟨hend, rfl⟩ := Prod.mk.inj hf
    obtain ⟨read, first, last, written, gap, htokens, hstretch, _, hwritten⟩ :=
      (kept_text hc).1 (.refl (Cursor.stands_of_ofText hc)) hend hrun
    exact ⟨c, s, read, first, last, written, gap, hc, hrun, htokens, hstretch, hwritten⟩
  · have hrun : (Parser.runOn? Grammar.insertSet .mySql .mySql "SET a = ?, b = 'x' ON").map
        (fun r => (r.1.isKeyword r.1.dialect.insertSet,
          r.2.2.body.clauses.rows.map InsertedRow.text)) =
        some (true, ["a = ?, b = 'x'"]) := by decide +kernel
    obtain ⟨c, u, s, hc, hrun, hf⟩ := Parser.exists_of_runOn? hrun
    obtain ⟨hset, hrows⟩ := Prod.mk.inj hf
    obtain ⟨row, keyword, read, first, last, written, gap, hrow, htokens, hstretch, _, _, _,
      hstop⟩ := (kept_text hc).2 (.refl (Cursor.stands_of_ofText hc)) hset hrun
    have hrow : s.body.clauses.rows = [row] := hrow
    rw [hrow] at hrows
    exact ⟨c, s, row, keyword, read, first, last, written, gap, hc, hrun, hrow,
      (List.cons.inj hrows).1, htokens, hstretch, hstop⟩

/-- A comment behind the last token is kept with it, by an operand and by a row of assignments, and
    the rows stop behind the comment. -/
theorem kept_text_comment :
    (Parser.runOn? (κ := DeleteClauses) Grammar.operand .mySql .mySql "a + b /* c */, d").map
        (fun r => (r.2.1, r.2.2.cursor.tokens)) =
      some (.other "a + b /* c */",
        [⟨.symbol .comma, ",", 14⟩, ⟨.literal .identifier, "d", 16⟩, Token.final 16]) ∧
    (TokenStream.ofText .mySql "a + b /* c */, d".toList).tokens.map Token.stop =
      [1, 3, 5, 14, 16, 16] ∧
    slice? "a + b /* c */, d".toList 0 5 = some "a + b".toList ∧
    (∃ body, Statement.parse .mySql .mySql "INSERT INTO t SET a = 1 /* c */" = .ok (.insert body) ∧
      body.clauses.rows.map InsertedRow.text = ["a = 1 /* c */"] ∧
      body.clauses.rowsStop = some 31) ∧
    (TokenStream.ofText .mySql "INSERT INTO t SET a = 1 /* c */".toList).tokens.map Token.stop =
      [6, 11, 13, 17, 19, 21, 23, 31] ∧
    slice? "INSERT INTO t SET a = 1 /* c */".toList 18 23 = some "a = 1".toList := by
  refine ⟨by decide +kernel, by decide +kernel, by decide +kernel, ⟨{
    tables := ⟨[⟨"t", none⟩]⟩
    conditions := ⟨[⟨⟨"a", some "t"⟩, .equal, [.number (.integer 1)]⟩]⟩
    marks := [.table 12 "t", .insertValues 18 "t"]
    clauses := {
      columns := [⟨"a", some "t"⟩]
      rows := [⟨.SET, "a = 1 /* c */", 0, ⟨[⟨⟨"a", some "t"⟩, .equal, [.number (.integer 1)]⟩]⟩⟩]
      rowsStop := some 31 } }, by decide +kernel, rfl, rfl⟩, by decide +kernel, by decide +kernel⟩

end SqlRouting
