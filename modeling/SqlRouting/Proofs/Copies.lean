import SqlRouting.Proofs.SortEntries
import SqlRouting.Proofs.Words

/-!
# Copies of entries

A column that is derived for an entry of `ORDER BY` or `GROUP BY` is a copy of the entry, under an
alias. A name is copied without its quotes and without what stands around its dot; any other
expression is copied as it is written, perhaps with a comment behind it. On its own the copy is read
as tokens of the same kinds as the entry (`parse_copies`), if the entry is *plain*: without quotes
the parts of a name have to be words of their kinds, and an expression must not end in a blank, or
in `ORDER` or `GROUP` before a `BY` (`SortEntry.IsPlain`).
-/

namespace SqlRouting

open Text (byteLength slice? isBlank)
open TokenStream (Excerpt Copies)

/-! ## Stretches -/

/-- A stretch of tokens is an excerpt of the text, before the gap behind it. -/
theorem Cursor.Behind.exists_excerpt {database : Database} {d : Dialect} {text : String}
    {c c' c'' : Cursor} (hc : Cursor.ofText database d text = .ok c)
    (hbehind : c.Behind text.toList c') {read : List Token} {first last : Token}
    {written gap : List Char} (htokens : c'.tokens = read ++ c''.tokens)
    (hstretch : Stretch d text.toList read first last c''.current written gap) :
    ∃ rest, Excerpt d (Dictionary.ofDialect d) rest first.start written read ∧ gap <+: rest := by
  obtain ⟨before, hbefore⟩ := hbehind.tokens_suffix
  have hstream : (TokenStream.ofText d text.toList).tokens = before ++ (read ++ c''.tokens) := by
    rw [← htokens, hbefore, (Cursor.ofText_eq_ok hc).1]
  obtain ⟨n, part₀, rest₀, htext, _, hmore⟩ :=
    TokenStream.exists_excerpt hstream (by simp [Cursor.tokens])
  obtain ⟨_, part₁, rest, rfl, hexcerpt, _⟩ :=
    TokenStream.exists_excerpt hmore (by simp [Cursor.tokens])
  obtain ⟨t, ts, rfl⟩ : ∃ t ts, read = t :: ts := by
    cases read with
    | nil => cases hstretch.head
    | cons t ts => exact ⟨t, ts, rfl⟩
  obtain rfl : t = first := by simpa using hstretch.head
  obtain ⟨gap₀, part, rfl, hstart, hexcerpt⟩ := hexcerpt.exists_start
  have hstop := hexcerpt.stop_getLast last hstretch.getLast
  -- Both are the text from the first token to where the last one stops.
  have hpart : slice? text.toList t.start last.stop = some part :=
    Text.slice?_eq_some_iff.2 ⟨part₀ ++ gap₀, rest, by simp [htext], by simp [hstart],
      by rw [hstop, hstart]; simp⟩
  obtain rfl := Option.some.inj (hpart.symm.trans hstretch.written_eq)
  refine ⟨rest, hexcerpt, ?_⟩
  obtain ⟨before', more, hall, hlength, _⟩ := Text.slice?_eq_some_iff.1 hstretch.gap_eq
  have hsame : before' ++ (gap ++ more) = part₀ ++ gap₀ ++ part ++ rest := by
    rw [← List.append_assoc, ← hall, htext]
    simp
  obtain ⟨_, hrest⟩ := Text.append_inj_of_byteLength hsame (by
    rw [hlength, hstop, hstart]
    simp [Nat.add_assoc])
  exact ⟨more, hrest⟩

/-! ## What names are read from -/

/-- The name, with its owner or not, is read from these tokens. At the end of a text the name behind
    the owner may be missing. -/
inductive Expression.Names : Expression → List Token → Prop
  | identifier {t : Token} (ht : t.kind = LiteralClass.identifier) :
    Names (.identifier (Text.unquoted t.literal)) [t]
  | property {owner dot name : Token} (hdot : dot.kind = .symbol .dot) :
    Names (.property (Text.unquoted owner.literal) (Text.unquoted name.literal)) [owner, dot, name]
  | owner {owner dot : Token} (hdot : dot.kind = .symbol .dot) :
    Names (.property (Text.unquoted owner.literal) "") [owner, dot]

/-- A name without a dot is a single token. -/
theorem Expression.Names.eq_singleton {e : Expression} {read : List Token} (h : e.Names read)
    (hdot : ∀ t ∈ read, t.kind ≠ .symbol .dot) :
    ∃ t, read = [t] ∧ t.kind = LiteralClass.identifier := by
  cases h with
  | identifier ht => exact ⟨_, rfl, ht⟩
  | property h | owner h => exact absurd h (hdot _ (by simp))

/-- The expression is a name, with its owner or not. -/
def Expression.isName : Expression → Bool
  | identifier _ | property _ _ => true
  | placeholder _ | text _ | number _ | other _ => false

namespace Grammar

open SqlRouting.Parser

variable {κ : Type} {text : List Char} {s s' : ParseState κ} {e : Expression}

theorem atom_names {t : Token} (h : atom t s = .ok e s') (he : e.isName = true) : e.Names [t] := by
  rw [atom] at h
  generalize hkind : t.kind = kind at h
  split at h
  case h_1 =>
    simp only [bind_eq_ok, pure_eq_ok] at h
    obtain ⟨_, _, _, rfl, _⟩ := h
    cases he
  case h_3 | h_4 =>
    obtain ⟨rfl, _⟩ := pure_eq_ok.1 h
    have hnumber (n : Option Number) :
        ((n.map Expression.number).getD (.other t.literal)).isName = false := by
      cases n <;> rfl
    rw [hnumber] at he
    cases he
  case h_6 =>
    obtain ⟨rfl, _⟩ := pure_eq_ok.1 h
    exact .identifier hkind
  all_goals
    obtain ⟨rfl, _⟩ := pure_eq_ok.1 h
    cases he

/-- A dot and the name behind it make a name of the token before. -/
theorem dotted_names {s₁ : ParseState κ} {owner name : Token} {u : Unit}
    (hdot : s.cursor.current.kind = .symbol .dot) (hs : s.cursor.Stands text)
    (hadvance : advance s = .ok u s₁) (hname : takeName s₁ = .ok name s') :
    ∃ read, s.cursor.tokens = read ++ s'.cursor.tokens ∧
      (Expression.property (Text.unquoted owner.literal) (Text.unquoted name.literal)).Names
        (owner :: read) := by
  have htokens : s.cursor.tokens = s.cursor.current :: s₁.cursor.tokens := by
    rw [Cursor.tokens, ahead_of_advance hadvance hs.closed (by simp [hdot])]
  have hs₁ := (advance_safe.stands hs hadvance).stands
  obtain ⟨rfl, _⟩ := takeName_eq_ok.1 hname
  rw [htokens]
  rcases Cursor.next_eq_ok hs₁.closed (next_of_takeName hname) with ⟨hend, hsame⟩ | ⟨_, hnext, _⟩
  · -- At the end of the text there is no name.
    rw [hsame, hs₁.current_at.eq_final hend]
    exact ⟨[_], rfl, .owner hdot⟩
  · rw [hnext]
    exact ⟨[_, _], rfl, .property hdot⟩

theorem unsignedOperand_names (h : unsignedOperand s = .ok e s') (hs : s.cursor.Stands text)
    (hend : s.cursor.isEnd = false) (he : e.isName = true) :
    ∃ read, s.cursor.tokens = read ++ s'.cursor.tokens ∧ e.Names read := by
  have hkind : s.cursor.current.kind ≠ .endOfText := by simpa [Cursor.isEnd] using hend
  simp only [unsignedOperand, current_bind, cursor_bind, ite_eq_ok, bind_eq_ok, pure_eq_ok] at h
  rcases h with ⟨_, _, _, _, _, _, _, _, _, _, rfl, _⟩ |
    ⟨_, value, s₁, hatom, _, s₂, hadvance, dotted, s₃, hdot, h⟩
  · cases he
  obtain ⟨value', s₁', hatom', hcursor⟩ := atom_cursor s.cursor.current s
  obtain ⟨rfl, rfl⟩ := EStateM.Result.ok.inj (hatom.symm.trans hatom')
  have hahead := ahead_of_advance hadvance (hcursor ▸ hs.closed) (by rwa [hcursor])
  rw [hcursor] at hahead
  have htokens : s.cursor.tokens = s.cursor.current :: s₂.cursor.tokens := congrArg _ hahead
  have hs₂ := (advance_safe.stands (hcursor ▸ hs) hadvance).stands
  obtain ⟨hdotted, hdot⟩ := skipIf_eq_ok.1 hdot
  cases dotted with
  | true =>
    have hdotKind : s₂.cursor.current.kind = .symbol .dot := by simpa [Cursor.isAny] using hdotted
    rcases h with ⟨_, name, s₄, hname, composite, s₅, hcomposite, h⟩ | ⟨hfalse, _⟩
    case inr => exact absurd rfl hfalse
    rcases h with ⟨_, _, _, _, rfl, _⟩ | ⟨hcomposite', _, s₆, hmark, rfl, rfl⟩
    · cases he
    obtain rfl : composite = false := by simpa using hcomposite'
    obtain rfl := (skipComposite_eq_ok.1 hcomposite).2
    obtain ⟨s₆', hmark', hcursor'⟩ := markOwner_cursor s.cursor.current s₄
    obtain ⟨_, rfl⟩ := EStateM.Result.ok.inj (hmark.symm.trans hmark')
    obtain ⟨read, hread, hnames⟩ := dotted_names hdotKind hs₂ hdot hname
    exact ⟨_ :: read, by rw [hcursor', htokens, hread, List.cons_append], hnames⟩
  | false =>
    obtain rfl : s₂ = s₃ := hdot
    rcases h with ⟨hfalse, _⟩ | ⟨_, composite, s₄, hcomposite, h⟩
    case inl => cases hfalse
    rcases h with ⟨_, _, _, _, rfl, _⟩ | ⟨hcomposite', rfl, rfl⟩
    · cases he
    obtain rfl : composite = false := by simpa using hcomposite'
    obtain rfl := (skipComposite_eq_ok.1 hcomposite).2
    exact ⟨[_], htokens, atom_names hatom he⟩

theorem operand_names (h : operand s = .ok e s') (hs : s.cursor.Stands text)
    (hend : s.cursor.isEnd = false) (he : e.isName = true) :
    ∃ read, s.cursor.tokens = read ++ s'.cursor.tokens ∧ e.Names read := by
  simp only [operand, current_bind, cursor_bind, bind_eq_ok, ite_eq_ok, pure_eq_ok,
    List.isEmpty_iff] at h
  obtain ⟨before, s₁, hsigns, value, s₂, hvalue, ⟨rfl, rfl, rfl⟩ | ⟨_, h⟩⟩ := h
  · obtain rfl := signs_eq_nil hsigns
    exact unsignedOperand_names hvalue hs hend he
  · -- Behind signs there is a number, or the text is kept.
    cases value with
    | number n =>
      obtain ⟨rfl, _⟩ := pure_eq_ok.1 h
      cases he
    | _ =>
      simp only [bind_eq_ok, pure_eq_ok] at h
      obtain ⟨_, _, _, rfl, _⟩ := h
      cases he

end Grammar

/-! ## Entries -/

namespace SortEntry

/-- What the entry is copied as, if it is a column. -/
def copy? (e : SortEntry) : Option String :=
  (Grammar.sortColumn? e.expression).bind SortKey.qualifiedName?

/-- The copy of the entry reads like the entry: without their quotes the parts of a name are words
    of the same kinds; a text that is kept ends neither in a blank nor in a keyword that needs a
    `BY` behind it. -/
def IsPlain (dict : Dictionary) (text : List Char) (e : SortEntry) : Prop :=
  if e.expression.isName then
    (∀ t ∈ e.tokens.head?, t.IsBare dict) ∧ ∀ t ∈ e.tokens.getLast?, t.IsBare dict
  else ∀ t ∈ e.tokens.getLast?,
    t.EndsSolid text ∧ t.kind ≠ Keyword.ORDER ∧ t.kind ≠ Keyword.GROUP

end SortEntry

/-- A name whose parts are bare is copied with its tokens. -/
theorem Expression.Names.copies {dict : Dictionary} {e : Expression} {read : List Token}
    (h : e.Names read) (hfirst : ∀ t ∈ read.head?, t.IsBare dict)
    (hlast : ∀ t ∈ read.getLast?, t.IsBare dict) {copy : String}
    (hcopy : (Grammar.sortColumn? e).bind SortKey.qualifiedName? = some copy) :
    Copies .mySql dict copy.toList (read.map Token.kind) := by
  cases h with
  | @identifier t _ =>
    obtain rfl := Option.some.inj hcopy
    obtain ⟨hname, hkind⟩ := hlast t rfl
    have hcopies : Copies .mySql dict _ _ := Copies.nil.word hname Copies.closes_word
    rw [List.append_nil, hkind] at hcopies
    exact hcopies
  | @property owner dot name hdot =>
    obtain rfl := Option.some.inj hcopy
    obtain ⟨howner, hownerKind⟩ := hfirst owner rfl
    obtain ⟨hname, hkind⟩ := hlast name rfl
    have hcopies : Copies .mySql dict _ _ := ((Copies.nil.word hname Copies.closes_word).dot
      (fun tail _ => ?_)).word howner fun tail _ => Copies.dot_word _ tail
    · rw [List.append_nil, hkind, hownerKind] at hcopies
      simpa [hdot] using hcopies
    · obtain ⟨c, cs, hc, hstarts⟩ := hname.exists_cons
      simp [hc, Lexeme.not_isDigit_of_startsWord hstarts]
  | @owner owner dot hdot =>
    -- A dot is no word.
    have hkind := (hlast dot rfl).kind_eq
    rw [hdot] at hkind
    rcases Lexeme.wordKind_cases dict (Text.unquoted dot.literal).toList [] with ⟨k, hword⟩ | hword
    · cases hword.symm.trans hkind
    · cases hword.symm.trans hkind

/-- Of a text that does not end in a blank nothing is cut off, but of the gap behind it. -/
theorem Text.exists_trimEnd {written : List Char} (gap : List Char)
    (h : ∀ c ∈ written.getLast?, isBlank c = false) : ∃ kept blanks, gap = kept ++ blanks ∧
      trimEnd (written ++ gap) = written ++ kept ∧ ∀ c ∈ blanks, isBlank c = true := by
  obtain ⟨blanks, hsplit, hblanks⟩ := exists_blanks_of_trimEnd (written ++ gap)
  rcases List.append_eq_append_iff.1 hsplit with ⟨kept, hkept, rfl⟩ | ⟨part, hpart, rfl⟩
  · exact ⟨kept, blanks, rfl, hkept, hblanks⟩
  · rcases List.eq_nil_or_concat' part with rfl | ⟨part, c, rfl⟩
    · rw [List.append_nil] at hpart
      exact ⟨[], gap, rfl, by rw [List.append_nil, ← hpart], fun c hc => hblanks c (by simp [hc])⟩
    · have hc := h c (by rw [hpart, ← List.append_assoc, List.getLast?_concat]; rfl)
      rw [hblanks c (by simp)] at hc
      cases hc

/-- An entry that is a name is read from the parts of the name. -/
theorem SortEntry.Reads.names {c c' : Cursor} {text : List Char} {e : SortEntry} (h : e.Reads c c')
    (hs : c.Stands text) (hname : e.expression.isName = true) : e.expression.Names e.tokens := by
  obtain ⟨s, s₁, s', rfl, hend, hoperand, htokens, _⟩ := h
  obtain ⟨read, hread, hnames⟩ := Grammar.operand_names hoperand hs hend hname
  exact List.append_cancel_right (htokens.symm.trans hread) ▸ hnames

/-- An expression that is no name is copied as it is written, or with the gap behind it less the
    blanks at the end. -/
theorem SortEntry.Reads.exists_kept {database : Database} {text : String} {start c c' : Cursor}
    {e : SortEntry} (h : e.Reads c c') (hstart : Cursor.ofText database .mySql text = .ok start)
    (hbehind : start.Behind text.toList c) {copy : String} (hcopy : e.copy? = some copy)
    (hname : e.expression.isName = false) : ∃ last written gap rest behind,
      e.tokens.getLast? = some last ∧
      Excerpt .mySql (Dictionary.ofDialect .mySql) rest c.current.start written e.tokens ∧
      (last.EndsSolid text.toList → ∀ x ∈ written.getLast?, isBlank x = false) ∧
      Gap.Fills .mySql behind gap ∧ gap <+: rest ∧
      (copy.toList = written ∨ copy.toList = Text.trimEnd (written ++ gap)) := by
  have hs := hbehind.stands
  obtain ⟨tokens, expression, direction⟩ := e
  obtain ⟨s, s₁, s', rfl, hend, hoperand, htokens, _⟩ := h
  dsimp only at hoperand htokens hname ⊢
  obtain ⟨kept, rfl⟩ : ∃ kept, expression = .other kept := by
    cases expression with
    | other kept => exact ⟨kept, rfl⟩
    | identifier | property => cases hname
    | placeholder | text | number => cases hcopy
  obtain rfl : kept = copy := Option.some.inj hcopy
  obtain ⟨read, first, last, written, gap, hread, hstretch, hkept, _⟩ :=
    Grammar.operand_keeps hstart hbehind hend hoperand
  obtain rfl := List.append_cancel_right (htokens.symm.trans hread)
  obtain rfl : s.cursor.current = first := by
    have hhead := congrArg List.head? hread
    rw [List.head?_append, hstretch.head] at hhead
    exact Option.some.inj hhead
  have hmem : last ∈ s.cursor.tokens := by
    simp [hread, List.mem_of_getLast? hstretch.getLast]
  obtain ⟨rest, hexcerpt, hrest⟩ := hbehind.exists_excerpt hstart hread hstretch
  obtain ⟨behind, hfills⟩ := hstretch.fills
  refine ⟨last, written, gap, rest, behind, hstretch.getLast, hexcerpt,
    hstretch.not_isBlank_getLast hs hmem, hfills, hrest, ?_⟩
  rw [hkept]
  split
  · exact .inl rfl
  · exact .inr rfl

/-- A plain entry is copied with all of its tokens. -/
theorem SortEntry.Reads.copies {database : Database} {text : String} {start c c' : Cursor}
    {e : SortEntry} (h : e.Reads c c') (hstart : Cursor.ofText database .mySql text = .ok start)
    (hbehind : start.Behind text.toList c) {copy : String} (hcopy : e.copy? = some copy)
    (hplain : e.IsPlain (Dictionary.ofDialect .mySql) text.toList) :
    Copies .mySql (Dictionary.ofDialect .mySql) copy.toList (e.tokens.map Token.kind) := by
  cases hname : e.expression.isName with
  | true =>
    rw [IsPlain, if_pos hname] at hplain
    exact (h.names hbehind.stands hname).copies hplain.1 hplain.2 hcopy
  | false =>
    obtain ⟨last, written, gap, rest, behind, hgetLast, hexcerpt, hsolid, hfills, hrest, hkept⟩ :=
      h.exists_kept hstart hbehind hcopy hname
    rw [IsPlain, if_neg (by simp [hname])] at hplain
    have hsolid := hsolid (hplain last hgetLast).1
    have hlast := fun t ht => (hplain t ht).2
    rcases hkept with hkept | hkept
    · rw [hkept]
      exact hexcerpt.copies hsolid hlast
    · -- The gap behind is kept up to the blanks at its end.
      obtain ⟨gap, blanks, rfl, htrim, hblanks⟩ := Text.exists_trimEnd gap hsolid
      rw [hkept, htrim]
      exact hexcerpt.copies_append hsolid hlast (hfills.of_append_blanks hblanks)
        ((List.prefix_append gap blanks).trans hrest)

namespace HasSortEntries

variable {database : Database} {d : Dialect} {text : String} {grouped sorted : List SortEntry}
  {e : SortEntry}

/-- A plain entry of a select is copied with all of its tokens. -/
theorem copies (h : HasSortEntries database .mySql text grouped sorted)
    (he : e ∈ sorted ++ grouped) {copy : String} (hcopy : e.copy? = some copy)
    (hplain : e.IsPlain (Dictionary.ofDialect .mySql) text.toList) :
    Copies .mySql (Dictionary.ofDialect .mySql) copy.toList (e.tokens.map Token.kind) := by
  obtain ⟨start, c, c', hstart, hbehind, hreads⟩ := h.exists_reads he
  exact hreads.copies hstart hbehind hcopy hplain

/-- An entry without dots and quotes is plain, if none of its tokens ends in a blank or is a keyword
    only before `BY`. -/
theorem isPlain_of_not_quoted (h : HasSortEntries database d text grouped sorted)
    (he : e ∈ sorted ++ grouped) (hdot : ∀ t ∈ e.tokens, t.kind ≠ .symbol .dot)
    (hquote : ∀ t ∈ e.tokens, t.literal.toList.any Text.isNameQuote = false)
    (hsolid : ∀ t ∈ e.tokens,
      t.EndsSolid text.toList ∧ t.kind ≠ Keyword.ORDER ∧ t.kind ≠ Keyword.GROUP) :
    e.IsPlain (Dictionary.ofDialect d) text.toList := by
  rw [SortEntry.IsPlain]
  split
  case isTrue hname =>
    obtain ⟨start, c, c', hstart, hbehind, hreads⟩ := h.exists_reads he
    obtain ⟨t, ht, hkind⟩ := (hreads.names hbehind.stands hname).eq_singleton hdot
    have hmem : t ∈ (TokenStream.ofText d text.toList).tokens := by
      obtain ⟨s, s₁, s', rfl, _, _, htokens, _⟩ := hreads
      rw [← (Cursor.ofText_eq_ok hstart).1]
      exact hbehind.tokens_suffix.subset (by simp [htokens, ht])
    have hbare := TokenStream.isBare hmem hkind (hquote t (by simp [ht]))
    exact ⟨by simpa [ht] using hbare, by simpa [ht] using hbare⟩
  case isFalse => exact fun t ht => hsolid t (List.mem_of_getLast? ht)

end HasSortEntries

/-! ## Columns -/

/-- A column that is derived from an entry: what the entry is copied as, under an alias. -/
structure SortColumn where
  entry : SortEntry
  copy : String
  asName : String
  copy_eq : entry.copy? = some copy
  isWord : Lexeme.IsWord asName.toList

/-- The column as it is added to the text. -/
def SortColumn.text (column : SortColumn) : String :=
  derivedText column.copy column.asName

/-- The columns that are derived for what entries are recorded as are copies of some of the
    entries. -/
theorem SortItem.exists_columns {c : SelectClauses} {stem : String}
    (hstem : Lexeme.IsWord stem.toList) {f : SortEntry → Option (SortKey × Direction)}
    (hf : ∀ {e key direction}, f e = some (key, direction) → e.copy? = key.qualifiedName?)
    {es : List SortEntry} (k : Nat) {items : List SortItem}
    (h : items.map SortItem.written = es.filterMap f) :
    ∃ columns : List SortColumn, (unlistedColumns c stem k items).map
        (fun (name, asName) => derivedText name asName) = columns.map SortColumn.text ∧
      (columns.map SortColumn.entry).Sublist es := by
  induction es generalizing k items with
  | nil =>
    obtain rfl : items = [] := by simpa using h
    exact ⟨[], rfl, .slnil⟩
  | cons e es ih =>
    cases hkey : f e with
    | none =>
      rw [List.filterMap_cons_none hkey] at h
      obtain ⟨columns, htexts, hsub⟩ := ih k h
      exact ⟨columns, htexts, hsub.cons e⟩
    | some key =>
      rw [List.filterMap_cons_some hkey, List.map_eq_cons_iff] at h
      obtain ⟨item, items, rfl, hitem, h⟩ := h
      cases hunlisted : item.isUnlisted c with
      | false =>
        obtain ⟨columns, htexts, hsub⟩ := ih k h
        exact ⟨columns, by simpa [unlistedColumns, hunlisted] using htexts, hsub.cons e⟩
      | true =>
        obtain ⟨columns, htexts, hsub⟩ := ih (k + 1) h
        obtain ⟨name, hname⟩ := exists_qualifiedName hunlisted
        have hcopy : e.copy? = some name := by
          rw [hf (hkey.trans (congrArg some hitem.symm)), ← hname]
          rfl
        refine ⟨⟨e, name, stem ++ toString k, hcopy, hstem.append_number k⟩ :: columns, ?_,
          hsub.cons_cons e⟩
        rw [List.map_cons, ← htexts]
        simp [unlistedColumns, hunlisted, hname, SortColumn.text]

namespace SortEntry

variable {e : SortEntry} {key : SortKey} {d : Direction}

theorem copy?_of_column? (h : e.column? = some (key, d)) : e.copy? = key.qualifiedName? := by
  obtain ⟨_, hkey, heq⟩ := Option.map_eq_some_iff.1 h
  obtain ⟨rfl, _⟩ := Prod.mk.inj heq
  rw [copy?, hkey, Option.bind_some]

/-- A place is not copied, and neither is the value that it is written as. -/
theorem copy?_of_key? (h : e.key? = some (key, d)) : e.copy? = key.qualifiedName? := by
  rw [key?] at h
  split at h
  case h_1 hindex =>
    split at h
    case isTrue =>
      obtain ⟨rfl, _⟩ := Prod.mk.inj (Option.some.inj h)
      rw [copy?, hindex]
      rfl
    case isFalse => cases h
  case h_2 => exact copy?_of_column? h

end SortEntry

/-- The texts of the derived columns are those of the parts of averages, and then of copies of
    entries: first of some that the select sorts by, then of some that it groups by. -/
theorem Statement.sortColumns {database : Database} {d : Dialect} {text : String}
    {body : Body SelectClauses} (h : Statement.parse database d text = .ok (.select body)) :
    ∃ grouped sorted : List SortEntry, HasSortEntries database d text grouped sorted ∧
      ∀ stop texts, Mark.items stop texts ∈ body.marks → ∃ columns : List SortColumn,
        (columns.map SortColumn.entry).Sublist (sorted ++ grouped) ∧
        texts = body.clauses.items.flatMap SelectItem.derivedTexts ++
          columns.map SortColumn.text := by
  obtain ⟨read, grouped, sorted, hentries, hderives, hgroups, horders⟩ := Statement.readEntries h
  refine ⟨grouped, sorted, hentries, fun stop texts hmark => ?_⟩
  have horders : read.clauses.orderBy.map SortItem.written = sorted.filterMap SortEntry.key? := by
    have hitems := congrArg (List.filterMap id) horders
    simpa [List.filterMap_map, Function.comp_def] using hitems
  have horderStem : Lexeme.IsWord "ORDER_BY_DERIVED_".toList := by
    constructor <;> simp [Lexeme.startsWord, Lexeme.continuesWord]
  have hgroupStem : Lexeme.IsWord "GROUP_BY_DERIVED_".toList := by
    constructor <;> simp [Lexeme.startsWord, Lexeme.continuesWord]
  obtain ⟨orders, horderTexts, horderSub⟩ :=
    SortItem.exists_columns (c := read.clauses) horderStem SortEntry.copy?_of_key? 0 horders
  obtain ⟨groups, hgroupTexts, hgroupSub⟩ :=
    SortItem.exists_columns (c := read.clauses) hgroupStem SortEntry.copy?_of_column? 0 hgroups
  refine ⟨orders ++ groups, by simpa using horderSub.append hgroupSub, ?_⟩
  have hmem : Mark.items stop texts ∈ body.marks.filter Mark.isItems :=
    List.mem_filter.2 ⟨hmark, rfl⟩
  rw [hderives.itemsMarks] at hmem
  split at hmem
  case isTrue => cases hmem
  case isFalse =>
    obtain ⟨_, rfl⟩ := Mark.items.inj (List.mem_singleton.1 hmem)
    rw [List.map_append, ← horderTexts, ← hgroupTexts, Body.derivedColumns,
      funext SelectItem.derivedTexts_eq]
    simp [derivedText, List.map_flatMap]

/-- Texts are alike up to their last spaces, and behind them. -/
theorem Text.append_space_inj {cs cs' word word' : List Char} (hword : ' ' ∉ word)
    (hword' : ' ' ∉ word') (h : cs ++ ' ' :: word = cs' ++ ' ' :: word') :
    cs = cs' ∧ word = word' := by
  rcases List.append_eq_append_iff.1 h with ⟨part, rfl, hpart⟩ | ⟨part, rfl, hpart⟩
  · cases part with
    | nil => exact ⟨(List.append_nil cs).symm, (List.cons.inj hpart).2⟩
    | cons c part => exact absurd ((List.cons.inj hpart).2 ▸ by simp) hword
  · cases part with
    | nil => exact ⟨List.append_nil cs', (List.cons.inj hpart).2.symm⟩
    | cons c part => exact absurd ((List.cons.inj hpart).2 ▸ by simp) hword'

/-- An alias is a word, so the text of a column tells what it is a copy of. -/
theorem derivedText_inj {copy copy' asName asName' : String}
    (hword : Lexeme.IsWord asName.toList) (hword' : Lexeme.IsWord asName'.toList)
    (h : derivedText copy asName = derivedText copy' asName') : copy = copy' := by
  have hspace : Lexeme.continuesWord ' ' = false := by decide
  have hchars : (copy.toList ++ " AS".toList) ++ ' ' :: asName.toList =
      (copy'.toList ++ " AS".toList) ++ ' ' :: asName'.toList := by
    simpa [derivedText] using congrArg String.toList h
  obtain ⟨hcopies, _⟩ :=
    Text.append_space_inj (hword.not_mem hspace) (hword'.not_mem hspace) hchars
  exact String.toList_inj.1 (List.append_cancel_right hcopies)

/-! ## Copies in a select -/

/-- *Copies are read like what they are copied from.* The columns that are derived from a select are
    the parts of its averages, and copies of some of the entries that it sorts by and then groups
    by. Lexed on its own, the copy of a plain entry has tokens of the same kinds as the entry, and
    no others. -/
theorem parse_copies {database : Database} {text : String} {body : Body SelectClauses}
    (h : Statement.parse database .mySql text = .ok (.select body)) :
    ∃ grouped sorted : List SortEntry, HasSortEntries database .mySql text grouped sorted ∧
      ∀ stop texts, Mark.items stop texts ∈ body.marks → ∃ columns : List SortColumn,
        (columns.map SortColumn.entry).Sublist (sorted ++ grouped) ∧
        texts = body.clauses.items.flatMap SelectItem.derivedTexts ++
          columns.map SortColumn.text ∧
        ∀ column ∈ columns, column.entry.IsPlain (Dictionary.ofDialect .mySql) text.toList →
          let copied := TokenStream.ofText .mySql column.copy.toList
          copied.tokens.map Token.kind = column.entry.tokens.map Token.kind ++ [.endOfText] ∧
            copied.failure = none := by
  obtain ⟨grouped, sorted, hentries, hcolumns⟩ := Statement.sortColumns h
  refine ⟨grouped, sorted, hentries, fun stop texts hmark => ?_⟩
  obtain ⟨columns, hsub, htexts⟩ := hcolumns stop texts hmark
  refine ⟨columns, hsub, htexts, fun column hcolumn hplain => ?_⟩
  have hmem := hsub.subset (List.mem_map_of_mem hcolumn)
  exact (hentries.copies hmem column.copy_eq hplain).tokens

/-- An expression is copied with the comment behind it. -/
theorem parse_copies_comment :
    ∃ body, Statement.parse .mySql .mySql "SELECT a FROM t ORDER BY b + 1 /* c */" =
        .ok (.select body) ∧
      Mark.items 9 ["b + 1 /* c */ AS ORDER_BY_DERIVED_0"] ∈ body.marks ∧
      ∃ grouped sorted : List SortEntry,
        HasSortEntries .mySql .mySql "SELECT a FROM t ORDER BY b + 1 /* c */" grouped sorted ∧
        ∀ stop texts, Mark.items stop texts ∈ body.marks → ∃ columns : List SortColumn,
          (columns.map SortColumn.entry).Sublist (sorted ++ grouped) ∧
          texts = body.clauses.items.flatMap SelectItem.derivedTexts ++
            columns.map SortColumn.text ∧
          ∀ column ∈ columns, column.entry.IsPlain (Dictionary.ofDialect .mySql)
              "SELECT a FROM t ORDER BY b + 1 /* c */".toList ∧
            let copied := TokenStream.ofText .mySql column.copy.toList
            copied.tokens.map Token.kind = column.entry.tokens.map Token.kind ++ [.endOfText] ∧
              copied.failure = none := by
  have hparse : Statement.parse .mySql .mySql "SELECT a FROM t ORDER BY b + 1 /* c */" =
      .ok (.select {
        tables := ⟨[⟨"t", none⟩]⟩
        marks := [.items 9 ["b + 1 /* c */ AS ORDER_BY_DERIVED_0"], .table 14 "t"]
        clauses := {
          selectListStop := 9
          items := [.plain "a" none]
          orderBy := [⟨.column none "b + 1 /* c */", .ascending, .ascending,
            some "ORDER_BY_DERIVED_0"⟩] } }) := by decide +kernel
  obtain ⟨grouped, sorted, hentries, hcolumns⟩ := parse_copies hparse
  refine ⟨_, hparse, by simp, grouped, sorted, hentries, fun stop texts hmark => ?_⟩
  obtain ⟨columns, hsub, htexts, hcopies⟩ := hcolumns stop texts hmark
  refine ⟨columns, hsub, htexts, fun column hcolumn => ?_⟩
  have hmem := hsub.subset (List.mem_map_of_mem hcolumn)
  have hdue :
      ((tokensDue .order .mySql .mySql "SELECT a FROM t ORDER BY b + 1 /* c */").drop 2).dropLast =
        [⟨LiteralClass.identifier, "b", 26⟩, ⟨Symbol.plus, "+", 28⟩, ⟨LiteralClass.int, "1", 30⟩] :=
    by decide +kernel
  have htokens := hentries.mem_due_order (by decide +kernel) hmem
  rw [hdue] at htokens
  have hplain : column.entry.IsPlain (Dictionary.ofDialect .mySql)
      "SELECT a FROM t ORDER BY b + 1 /* c */".toList := by
    refine hentries.isPlain_of_not_quoted hmem (fun t ht => ?dot) (fun t ht => ?quote)
      (fun t ht => ?solid)
    all_goals
      have ht := htokens t ht
      simp only [List.mem_cons, List.not_mem_nil, or_false] at ht
    case dot => rcases ht with rfl | rfl | rfl <;> decide
    case quote => rcases ht with rfl | rfl | rfl <;> decide
    case solid =>
      rcases ht with rfl | rfl | rfl
      · exact ⟨⟨[], 'b', by decide +kernel, by decide⟩, by decide, by decide⟩
      · exact ⟨⟨[], '+', by decide +kernel, by decide⟩, by decide, by decide⟩
      · exact ⟨⟨[], '1', by decide +kernel, by decide⟩, by decide, by decide⟩
  exact ⟨hplain, hcopies column hcolumn hplain⟩

/-- The copy of a quoted name may be a keyword. -/
theorem copy_of_quoted_keyword :
    ∃ (body : Body SelectClauses) (grouped sorted : List SortEntry) (column : SortColumn),
      Statement.parse .mySql .mySql "SELECT a FROM t ORDER BY `select`" = .ok (.select body) ∧
      HasSortEntries .mySql .mySql "SELECT a FROM t ORDER BY `select`" grouped sorted ∧
      Mark.items 9 [column.text] ∈ body.marks ∧ column.entry ∈ sorted ++ grouped ∧
      (TokenStream.ofText .mySql column.copy.toList).tokens.map Token.kind ≠
        column.entry.tokens.map Token.kind ++ [.endOfText] := by
  have hparse : Statement.parse .mySql .mySql "SELECT a FROM t ORDER BY `select`" =
      .ok (.select {
        tables := ⟨[⟨"t", none⟩]⟩
        marks := [.items 9 ["select AS ORDER_BY_DERIVED_0"], .table 14 "t"]
        clauses := {
          selectListStop := 9
          items := [.plain "a" none]
          orderBy := [⟨.column none "select", .ascending, .ascending,
            some "ORDER_BY_DERIVED_0"⟩] } }) := by decide +kernel
  obtain ⟨grouped, sorted, hentries, hcolumns⟩ := Statement.sortColumns hparse
  obtain ⟨columns, hsub, htexts⟩ := hcolumns 9 ["select AS ORDER_BY_DERIVED_0"] (by simp)
  obtain ⟨column, rfl⟩ : ∃ column, columns = [column] := by
    have hlength := congrArg List.length htexts
    refine List.length_eq_one_iff.1 ?_
    simpa [SelectItem.derivedTexts] using hlength.symm
  have htext : column.text = "select AS ORDER_BY_DERIVED_0" := by
    simpa [SelectItem.derivedTexts] using htexts.symm
  have hmem : column.entry ∈ sorted ++ grouped := hsub.subset (by simp)
  have hstem : Lexeme.IsWord "ORDER_BY_DERIVED_0".toList := by
    constructor <;> simp [Lexeme.startsWord, Lexeme.continuesWord]
  have hcopy : column.copy = "select" := derivedText_inj column.isWord hstem htext
  have hdue :
      ((tokensDue .order .mySql .mySql "SELECT a FROM t ORDER BY `select`").drop 2).dropLast =
        [⟨LiteralClass.identifier, "`select`", 33⟩] := by decide +kernel
  have htokens := hentries.mem_due_order (by decide +kernel) hmem
  rw [hdue] at htokens
  refine ⟨_, grouped, sorted, column, hparse, hentries, by simp [htext], hmem, fun heq => ?_⟩
  -- The copy is read as a keyword, which no token of the entry is.
  have hkinds : (TokenStream.ofText .mySql "select".toList).tokens.map Token.kind =
      [TokenKind.keyword .SELECT] ++ [.endOfText] := by decide +kernel
  rw [hcopy, hkinds] at heq
  have hselect : TokenKind.keyword .SELECT ∈ column.entry.tokens.map Token.kind := by
    simp [← List.append_cancel_right heq]
  obtain ⟨t, ht, hkind⟩ := List.mem_map.1 hselect
  obtain rfl := List.mem_singleton.1 (htokens t ht)
  cases hkind

end SqlRouting
