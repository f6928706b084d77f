import SqlRouting.Proofs.AtEnd
import SqlRouting.Proofs.Derived
import SqlRouting.Proofs.Faults

/-!
# The entries of `GROUP BY` and `ORDER BY`

What stands between the commas of a `GROUP BY` or an `ORDER BY` is an *entry*: an expression and
perhaps a direction. Both clauses read their entries alike. To sort by an entry, it has to be a
column, or a number for a place in the select list; any other value is refused. To group by an
entry it has to be a column as well, but one that is a value is passed over: nothing is recorded of
it, not even an error (`parse_sortEntries`).
-/

namespace SqlRouting

/-! ## Entries -/

/-- An entry of `GROUP BY` or `ORDER BY`: the expression, the tokens that it is read from, and the
    direction behind it. -/
structure SortEntry where
  tokens : List Token
  expression : Expression
  direction : Direction
  deriving DecidableEq

/-- The key of the item and its direction. -/
def SortItem.written (item : SortItem) : SortKey × Direction :=
  (item.key, item.direction)

namespace SortEntry

/-- The entry is read from one cursor to another. -/
def Reads (e : SortEntry) (c c' : Cursor) : Prop :=
  ∃ s s₁ s' : ParseState SelectClauses, s.cursor = c ∧ c.isEnd = false ∧
    Grammar.operand s = .ok e.expression s₁ ∧ c.tokens = e.tokens ++ s₁.cursor.tokens ∧
    Grammar.direction s₁ = .ok e.direction s' ∧ s'.cursor = c'

/-- The column that the entry is, unless it is a value. -/
def column? (e : SortEntry) : Option (SortKey × Direction) :=
  (Grammar.sortColumn? e.expression).map (·, e.direction)

/-- What the entry sorts by: a column, or a place in the select list. -/
def key? (e : SortEntry) : Option (SortKey × Direction) :=
  match e.expression with
  | .number (.integer index) =>
    if 0 < index then some (.position index.toNat, e.direction) else none
  | _ => e.column?

/-- Values are no columns, and all else is one. -/
theorem column?_eq_none {e : SortEntry} : e.column? = none ↔ e.expression.isValue = true := by
  rw [column?, Option.map_eq_none_iff]
  cases e.expression <;> simp [Grammar.sortColumn?, Expression.isValue]

end SortEntry

/-- The entries are read from one cursor to another, with commas between them and none behind. -/
inductive SortEntries : Cursor → List SortEntry → Cursor → Prop
  | last {c c' : Cursor} {e : SortEntry} (h : e.Reads c c')
    (hend : c'.current.kind ≠ .symbol .comma) : SortEntries c [e] c'
  | cons {c c₁ c₂ c' : Cursor} {e : SortEntry} {es : List SortEntry} (h : e.Reads c c₁)
    (hcomma : c₁.current.kind = .symbol .comma) (hnext : c₁.next = .ok c₂)
    (hmore : SortEntries c₂ es c') : SortEntries c (e :: es) c'

theorem SortEntries.ne_nil {c c' : Cursor} {es : List SortEntry} (h : SortEntries c es c') :
    es ≠ [] := by
  cases h <;> simp

section

variable (start : Cursor) (text : List Char) (part : SelectPart) (behind : List Keyword)

/-- The entries of a clause of a text that is read from the cursor `start` on, between the tokens
    from where the clause is due and those that it leaves: there are none if its keyword is missing,
    and otherwise they stand behind the keyword and `BY`, and perhaps some more keywords behind
    them. -/
inductive SortClause (due left : List Token) : List SortEntry → Prop
  | missing (h : ¬part.Starts due) (hleft : left = due) : SortClause due left []
  | read {keyword «by» : Token} {c c' : Cursor} {es : List SortEntry} {skipped : List Token}
    (hdue : due = keyword :: «by» :: c.tokens) (hkeyword : keyword.kind = .keyword part.keyword)
    (hby : «by».kind = .keyword .BY) (hbehind : start.Behind text c)
    (hentries : SortEntries c es c') (hleft : c'.tokens = skipped ++ left)
    (hskipped : ∀ t ∈ skipped, ∃ k ∈ behind, t.kind = .keyword k) :
    SortClause due left es

end

/-- A clause has entries exactly if its keyword is there. -/
theorem SortClause.ne_nil_iff {start : Cursor} {text : List Char} {part : SelectPart}
    {behind : List Keyword} {due left : List Token} {es : List SortEntry}
    (h : SortClause start text part behind due left es) : es ≠ [] ↔ part.Starts due := by
  cases h with
  | missing h hleft => simp [h]
  | read hdue hkeyword hby hbehind hentries hleft hskipped =>
    simp [hentries.ne_nil, hdue, SelectPart.Starts, hkeyword]

/-- In the text there is a select that groups by the one list of entries and sorts by the other. -/
def HasSortEntries (database : Database) (d : Dialect) (text : String)
    (grouped sorted : List SortEntry) : Prop :=
  ∃ start, Cursor.ofText database d text = .ok start ∧
    SortClause start text.toList .groups d.skippedBehindGroupBy (tokensDue .groups database d text)
      (tokensBehind .groups database d text) grouped ∧
    SortClause start text.toList .order [] (tokensDue .order database d text)
      (tokensBehind .order database d text) sorted

/-! ## Where entries stand -/

/-- Behind an entry the cursor has moved on in the text. -/
theorem SortEntry.Reads.behind {start c c' : Cursor} {text : List Char} {e : SortEntry}
    (h : e.Reads c c') (hbehind : start.Behind text c) : start.Behind text c' := by
  obtain ⟨s, s₁, s', rfl, _, hoperand, _, hdirection, rfl⟩ := h
  have hfirst := Grammar.operand_safe.stands hbehind.stands hoperand
  exact hbehind.trans
    (hfirst.trans (Grammar.direction_safe.stands hfirst.stands hdirection)).behind

/-- Each of the entries is read somewhere in the text. -/
theorem SortEntries.exists_reads {start c c' : Cursor} {text : List Char} {es : List SortEntry}
    (h : SortEntries c es c') (hbehind : start.Behind text c) :
    ∀ e ∈ es, ∃ c₁ c₂, start.Behind text c₁ ∧ e.Reads c₁ c₂ := by
  induction h with
  | last h =>
    intro e he
    obtain rfl := List.mem_singleton.1 he
    exact ⟨_, _, hbehind, h⟩
  | cons h _ hnext _ ih =>
    have hfirst := h.behind hbehind
    refine List.forall_mem_cons.2 ⟨⟨_, _, hbehind, h⟩, ih ?_⟩
    exact hfirst.trans (hfirst.stands.next hnext)

theorem SortClause.exists_reads {start : Cursor} {text : List Char} {part : SelectPart}
    {skips : List Keyword} {due left : List Token} {es : List SortEntry}
    (h : SortClause start text part skips due left es) :
    ∀ e ∈ es, ∃ c₁ c₂, start.Behind text c₁ ∧ e.Reads c₁ c₂ := by
  cases h with
  | missing => nofun
  | read _ _ _ hbehind hentries => exact hentries.exists_reads hbehind

/-- The tokens of an entry stand behind the first two of its clause, and before the last one. -/
theorem SortClause.mem_due {start : Cursor} {text : List Char} {part : SelectPart}
    {skips : List Keyword} {due left : List Token} {es : List SortEntry}
    (h : SortClause start text part skips due left es) :
    ∀ e ∈ es, ∀ t ∈ e.tokens, t ∈ (due.drop 2).dropLast := by
  cases h with
  | missing => nofun
  | read hdue _ _ hbehind hentries =>
    intro e he t ht
    obtain ⟨c₁, c₂, hbehind₁, s, s₁, s', rfl, _, _, htokens, _⟩ :=
      hentries.exists_reads (.refl hbehind.stands) e he
    obtain ⟨before, hbefore⟩ := hbehind₁.tokens_suffix
    rw [hdue, List.drop_succ_cons, List.drop_succ_cons, List.drop_zero, ← hbefore, htokens,
      ← List.append_assoc, List.dropLast_append_of_ne_nil (by simp [Cursor.tokens])]
    simp [ht]

namespace HasSortEntries

variable {database : Database} {d : Dialect} {text : String} {grouped sorted : List SortEntry}
  {e : SortEntry}

theorem exists_reads (h : HasSortEntries database d text grouped sorted)
    (he : e ∈ sorted ++ grouped) : ∃ start c c', Cursor.ofText database d text = .ok start ∧
      start.Behind text.toList c ∧ e.Reads c c' := by
  obtain ⟨start, hstart, hgrouped, hsorted⟩ := h
  obtain ⟨c, c', hbehind, hreads⟩ : ∃ c c', start.Behind text.toList c ∧ e.Reads c c' := by
    rcases List.mem_append.1 he with he | he
    · exact hsorted.exists_reads e he
    · exact hgrouped.exists_reads e he
  exact ⟨start, c, c', hstart, hbehind, hreads⟩

/-- If a select does not group, then its entries have their tokens in its `ORDER BY`. -/
theorem mem_due_order (h : HasSortEntries database d text grouped sorted)
    (hnone : ¬SelectPart.groups.Starts (tokensDue .groups database d text))
    (he : e ∈ sorted ++ grouped) :
    ∀ t ∈ e.tokens, t ∈ ((tokensDue .order database d text).drop 2).dropLast := by
  obtain ⟨start, _, hgrouped, hsorted⟩ := h
  obtain rfl : grouped = [] := by simpa using mt hgrouped.ne_nil_iff.1 hnone
  rw [List.append_nil] at he
  exact hsorted.mem_due e he

end HasSortEntries

/-! ## Reading entries -/

namespace Grammar

open SqlRouting.Parser

variable {stream : List Token} {start : Cursor} {text : List Char}
  {s s' : ParseState SelectClauses}

/-- The entry that an expression and a direction behind it are. -/
theorem exists_entry {e : Expression} {d : Direction} {s₁ : ParseState SelectClauses}
    (hend : s.cursor.isEnd = false) (hoperand : operand s = .ok e s₁)
    (hdirection : direction s₁ = .ok d s') (hs : s.On stream) :
    ∃ tokens, SortEntry.Reads ⟨tokens, e, d⟩ s.cursor s'.cursor ∧
      s'.On stream ∧ s'.body.clauses = s.body.clauses := by
  have hrun : Run (Scope.withoutClauses _) stream s s₁ := operand_moves hoperand
  have hrun' : Run (Scope.withoutClauses _) stream s s' := hrun.trans (direction_moves hdirection)
  obtain ⟨tokens, htokens⟩ := hrun.tokens_suffix hs
  exact ⟨tokens, ⟨s, s₁, s', rfl, hend, hoperand, htokens.symm, hdirection, rfl⟩, hrun'.on hs,
    clauses_of_run hrun' hs⟩

theorem sortItem_written {key : SortKey} {direction : Direction} {item : SortItem}
    (h : sortItem key direction s = .ok item s') : item.written = (key, direction) ∧ s = s' := by
  simp only [sortItem, dialect_bind, bind_eq_ok, pure_eq_ok] at h
  obtain ⟨_, _, hclauses, rfl, rfl⟩ := h
  exact ⟨rfl, (pure_eq_ok.1 hclauses).2⟩

/-- An entry to group by is recorded if it is a column. -/
theorem groupItem_entry {u : Unit} (h : groupItem s = .ok u s') (hs : s.On stream) :
    ∃ (e : SortEntry) (items : List SortItem), e.Reads s.cursor s'.cursor ∧ s'.On stream ∧
      s'.body.clauses = { s.body.clauses with groupBy := s.body.clauses.groupBy ++ items } ∧
      items.map SortItem.written = e.column?.toList := by
  simp only [groupItem, bind_eq_ok, refuseEnd_eq_ok] at h
  obtain ⟨_, _, ⟨hend, rfl⟩, e, s₁, hoperand, d, s₂, hdirection, h⟩ := h
  obtain ⟨tokens, hreads, hon, hclauses⟩ := exists_entry hend hoperand hdirection hs
  cases hkey : sortColumn? e with
  | none =>
    simp only [hkey, pure_eq_ok] at h
    obtain ⟨_, rfl⟩ := h
    exact ⟨_, [], hreads, hon, by simp [hclauses], by simp [SortEntry.column?, hkey]⟩
  | some key =>
    simp only [hkey, bind_eq_ok] at h
    obtain ⟨item, s₃, hitem, hmodify⟩ := h
    obtain ⟨hwritten, rfl⟩ := sortItem_written hitem
    obtain rfl := modifyClauses_eq_ok.1 hmodify
    exact ⟨_, [item], hreads, ⟨hon.tokens, hon.closed⟩, by rw [hclauses],
      by simp [SortEntry.column?, hkey, hwritten]⟩

/-- A positive number is a place, and any other value is refused. -/
theorem orderKey_eq_ok {e : Expression} {key : SortKey} (h : orderKey e s = .ok key s')
    (tokens : List Token) (d : Direction) :
    SortEntry.key? ⟨tokens, e, d⟩ = some (key, d) ∧ s = s' := by
  cases e with
  | number n =>
    cases n with
    | integer index =>
      simp only [orderKey, ite_eq_ok, pure_eq_ok, throw_eq_ok, and_false, or_false] at h
      obtain ⟨hpos, rfl, rfl⟩ := h
      exact ⟨if_pos hpos, rfl⟩
    | double bits => exact (unexpected_eq_ok.1 h).elim
  | placeholder index => exact (unexpected_eq_ok.1 h).elim
  | text content => exact (unexpected_eq_ok.1 h).elim
  | identifier name | property owner name | other text =>
    obtain ⟨rfl, rfl⟩ := pure_eq_ok.1 h
    exact ⟨rfl, rfl⟩

/-- Every entry to sort by is recorded. -/
theorem orderItem_entry {u : Unit} (h : orderItem s = .ok u s') (hs : s.On stream) :
    ∃ (e : SortEntry) (items : List SortItem), e.Reads s.cursor s'.cursor ∧ s'.On stream ∧
      s'.body.clauses = { s.body.clauses with orderBy := s.body.clauses.orderBy ++ items } ∧
      items.map (fun item => some item.written) = [e.key?] := by
  simp only [orderItem, bind_eq_ok, refuseEnd_eq_ok] at h
  obtain ⟨_, _, ⟨hend, rfl⟩, e, s₁, hoperand, d, s₂, hdirection, key, s₃, hkey, item, s₄, hitem,
    hmodify⟩ := h
  obtain ⟨tokens, hreads, hon, hclauses⟩ := exists_entry hend hoperand hdirection hs
  obtain ⟨hwritten, rfl⟩ := sortItem_written hitem
  obtain rfl := modifyClauses_eq_ok.1 hmodify
  obtain ⟨hentry, rfl⟩ := orderKey_eq_ok hkey tokens d
  exact ⟨_, [item], hreads, ⟨hon.tokens, hon.closed⟩, by rw [hclauses], by simp [hwritten, hentry]⟩

/-- Entry by entry a clause records what its entries are recorded as. -/
theorem commaSeparated_entries {item : Parser SelectClauses Unit}
    {T : List SortEntry → SelectClauses → SelectClauses → Prop} (hmoves : Moves (Scope.all _) item)
    (hitem : ∀ {s u s'}, item s = .ok u s' → s.On stream →
      ∃ e, e.Reads s.cursor s'.cursor ∧ s'.On stream ∧ T [e] s.body.clauses s'.body.clauses)
    (hcons : ∀ {e es c c₁ c'}, T [e] c c₁ → T es c₁ c' → T (e :: es) c c')
    {us : List Unit} (h : commaSeparated item s = .ok us s') (hs : s.On stream) :
    ∃ es, SortEntries s.cursor es s'.cursor ∧ s'.On stream ∧
      T es s.body.clauses s'.body.clauses := by
  rw [commaSeparated, separatedBy, cursor_bind] at h
  have hn : s.cursor.ahead.length < s.cursor.movesLeft := Nat.lt_succ_self _
  generalize s.cursor.movesLeft = n at h hn
  induction n generalizing s us with
  | zero => omega
  | succ n ih =>
    simp only [collect, ite_eq_ok, bind_eq_ok, pure_eq_ok] at h
    obtain ⟨u, s₁, hfirst, found, s₂, hcomma, h⟩ := h
    obtain ⟨e, hreads, hon₁, hrecords⟩ := hitem hfirst hs
    obtain ⟨_, hle⟩ := Run.length_le (hmoves hfirst) hs.closed
    have hclauses : s₂.body.clauses = s₁.body.clauses :=
      clauses_of_run (skipSymbol_moves (by decide) hcomma) hon₁
    rcases h with ⟨rfl, us', s₃, hmore, rfl, rfl⟩ | ⟨hnone, rfl, rfl⟩
    · -- An entry does not move the cursor back, and a comma moves it on.
      obtain ⟨_, hlt⟩ := skipIf_shrinks (by simp) hon₁.closed hcomma
      have hon₂ : s₂.On stream :=
        (skipSymbol_moves (E := Scope.all _) (by decide) hcomma).on hon₁
      obtain ⟨es, hentries, hon₃, hrest⟩ := ih hon₂ hmore (by omega)
      obtain ⟨hfound, hadvance⟩ := skipIf_eq_ok.1 hcomma
      obtain ⟨c, hnext, rfl⟩ := advance_eq_ok.1 hadvance
      have hkind : s₁.cursor.current.kind = .symbol .comma := by
        simpa [Cursor.isAny] using hfound
      exact ⟨e :: es, .cons hreads hkind hnext hentries, hon₃, hcons hrecords (hclauses ▸ hrest)⟩
    · obtain rfl : found = false := by simpa using hnone
      obtain ⟨hfound, rfl⟩ := skipIf_eq_ok.1 hcomma
      exact ⟨[e], .last hreads (by simpa [Cursor.isAny] using hfound), hon₁, hrecords⟩

/-- What is skipped are keywords of the list. -/
theorem skipAll_keywords {κ : Type} {s s' : ParseState κ} {keywords : List Keyword} {u : Unit}
    (h : skipAll keywords s = .ok u s') (hs : s.cursor.Closed) :
    ∃ skipped, s.cursor.tokens = skipped ++ s'.cursor.tokens ∧
      ∀ t ∈ skipped, ∃ k ∈ keywords, t.kind = .keyword k := by
  refine (loop_rel (R := fun s s' => s.cursor.Closed → s'.cursor.Closed ∧
    ∃ skipped, s.cursor.tokens = skipped ++ s'.cursor.tokens ∧
      ∀ t ∈ skipped, ∃ k ∈ keywords, t.kind = .keyword k)
    (fun s hs => ⟨hs, [], rfl, by simp⟩) (fun h₁ h₂ hs => ?_) (fun {s b s'} h hs => ?_) h hs).2
  · obtain ⟨hs₁, skipped, htokens, hall⟩ := h₁ hs
    obtain ⟨hs', skipped', htokens', hall'⟩ := h₂ hs₁
    exact ⟨hs', skipped ++ skipped', by rw [htokens, htokens', List.append_assoc],
      List.forall_mem_append.2 ⟨hall, hall'⟩⟩
  · simp only [cursor_bind, ite_eq_ok, bind_eq_ok, pure_eq_ok, trace_eq_ok] at h
    rcases h with ⟨hkeyword, _, _, rfl, _, s₂, hadvance, _, rfl⟩ | ⟨_, _, rfl⟩
    · obtain ⟨k, hkind, hk⟩ := Cursor.isKeyword_iff.1 hkeyword
      have hahead := ahead_of_advance hadvance hs (by simp [hkind])
      obtain ⟨c, hnext, rfl⟩ := advance_eq_ok.1 hadvance
      exact ⟨hs.next hnext, [s.cursor.current], by rw [Cursor.tokens]; exact congrArg _ hahead,
        by simpa using ⟨k, hk, hkind⟩⟩
    · exact ⟨hs, [], rfl, by simp⟩

/-- A clause is missing, or it is read behind its keyword and `BY`. -/
theorem behind_by (part : SelectPart) {p : Parser SelectClauses Unit} {u : Unit}
    (h : (skipKeyword [part.keyword] >>= fun found =>
      if found then accept Keyword.BY >>= fun _ => p else pure ()) s = .ok u s')
    (hs : s.On stream) (hstands : s.cursor.Stands text) : ¬part.Starts s.cursor.tokens ∧ s = s' ∨
      ∃ (keyword «by» : Token) (s₁ : ParseState SelectClauses),
        s.cursor.tokens = keyword :: «by» :: s₁.cursor.tokens ∧
        keyword.kind = .keyword part.keyword ∧ «by».kind = .keyword .BY ∧ s₁.On stream ∧
        s.cursor.Behind text s₁.cursor ∧ s₁.body.clauses = s.body.clauses ∧
        s₁.cursor.dialect = s.cursor.dialect ∧
        p s₁ = .ok () s' := by
  rcases skipKeyword_then_eq_ok.1 h with ⟨hnone, heq⟩ | ⟨hfound, s₁, hadvance, h⟩
  · refine .inl ⟨fun hstarts => ?_, heq⟩
    rw [Cursor.isKeyword_singleton.2 (Option.some.inj hstarts)] at hnone
    cases hnone
  · obtain ⟨_, s₂, haccept, hp⟩ := bind_eq_ok.1 h
    have hkind := Cursor.isKeyword_singleton.1 hfound
    obtain ⟨hby, hadvance'⟩ := accept_eq_ok.1 haccept
    have hfirst : Run (Scope.withoutClauses _) stream s s₁ :=
      advance_run hadvance (by simp [hkind])
    have hon := hfirst.on hs
    have hrun : Run (Scope.withoutClauses _) stream s s₂ :=
      hfirst.trans (advance_run hadvance' (by simp [hby]))
    have hfirst' := (advance_safe.stands hstands hadvance).behind
    refine .inr ⟨_, _, s₂, ?_, hkind, hby, hrun.on hs,
      hfirst'.trans (advance_safe.stands hfirst'.stands hadvance').behind, clauses_of_run hrun hs,
      hrun.dialect_eq hs, hp⟩
    rw [Cursor.tokens, ahead_of_advance hadvance hs.closed (by simp [hkind]), Cursor.tokens,
      ahead_of_advance hadvance' hon.closed (by simp [hby])]

/-- A `GROUP BY` records those of its entries that are columns. -/
theorem groupBy_entries {u : Unit} (h : groupBy s = .ok u s') (hs : s.On stream)
    (hstart : start.Behind text s.cursor) : ∃ (es : List SortEntry) (items : List SortItem),
      SortClause start text .groups s.cursor.dialect.skippedBehindGroupBy s.cursor.tokens
        s'.cursor.tokens es ∧
      s'.On stream ∧ s'.body.clauses = { s.body.clauses with
        groupBy := s.body.clauses.groupBy ++ items, groupByStop := s'.body.clauses.groupByStop } ∧
      items.map SortItem.written = es.filterMap SortEntry.column? := by
  rcases behind_by .groups h hs hstart.stands with ⟨hmissing, rfl⟩ |
    ⟨keyword, «by», s₁, hdue, hkeyword, hby, hon₁, hbehind, hclauses₁, hdialect₁, h⟩
  · exact ⟨[], [], .missing hmissing rfl, hs, by simp, rfl⟩
  simp only [dialect_bind, current_bind, bind_eq_ok] at h
  obtain ⟨_, s₂, hitems, _, s₃, hskipped, hstop⟩ := h
  have hmoves : Moves (Scope.all _) groupItem := groupItem_moves fun _ _ _ _ => trivial
  rw [(commaSeparated_moves hmoves hitems).dialect_eq hon₁, hdialect₁] at hskipped
  have hentries := commaSeparated_entries
    (T := fun es c c' => ∃ items, c' = { c with groupBy := c.groupBy ++ items } ∧
      items.map SortItem.written = es.filterMap SortEntry.column?)
    hmoves (fun {s u s'} h hs => ?entry) (fun {e es c c₁ c'} hfirst hrest => ?append) hitems hon₁
  case entry =>
    obtain ⟨e, items, hreads, hon, hclauses, hwritten⟩ := groupItem_entry h hs
    exact ⟨e, hreads, hon, items, hclauses, by rw [hwritten]; cases hc : e.column? <;> simp [hc]⟩
  case append =>
    obtain ⟨items, rfl, hitems⟩ := hfirst
    obtain ⟨items', rfl, hitems'⟩ := hrest
    exact ⟨items ++ items', by simp, by
      rw [List.map_append, hitems, hitems', ← List.filterMap_append, List.singleton_append]⟩
  obtain ⟨es, hes, hon₂, items, hclauses, hwritten⟩ := hentries
  obtain ⟨skipped, hleft, hkeywords⟩ := skipAll_keywords hskipped hon₂.closed
  have hrun : Run (Scope.withoutClauses _) stream s₂ s₃ := skipAll_moves _ hskipped
  have hon₃ := hrun.on hon₂
  rw [← clauses_of_run hrun hon₂, hclauses₁] at hclauses
  obtain rfl := modifyClauses_eq_ok.1 hstop
  exact ⟨es, items, .read hdue hkeyword hby (hstart.trans hbehind) hes hleft hkeywords,
    ⟨hon₃.tokens, hon₃.closed⟩, by rw [hclauses], hwritten⟩

/-- An `ORDER BY` records all of its entries. -/
theorem orderBy_entries {u : Unit} (h : orderBy s = .ok u s') (hs : s.On stream)
    (hstart : start.Behind text s.cursor) : ∃ (es : List SortEntry) (items : List SortItem),
      SortClause start text .order [] s.cursor.tokens s'.cursor.tokens es ∧ s'.On stream ∧
      s'.body.clauses = { s.body.clauses with orderBy := s.body.clauses.orderBy ++ items } ∧
      items.map (fun item => some item.written) = es.map SortEntry.key? := by
  rcases behind_by .order h hs hstart.stands with ⟨hmissing, rfl⟩ |
    ⟨keyword, «by», s₁, hdue, hkeyword, hby, hon₁, hbehind, hclauses₁, _, h⟩
  · exact ⟨[], [], .missing hmissing rfl, hs, by simp, rfl⟩
  simp only [bind_eq_ok, pure_eq_ok] at h
  obtain ⟨_, s₂, hitems, _, rfl⟩ := h
  have hmoves : Moves (Scope.all _) orderItem := orderItem_moves fun _ _ _ _ => trivial
  have hentries := commaSeparated_entries
    (T := fun es c c' => ∃ items : List SortItem,
      c' = { c with orderBy := c.orderBy ++ items } ∧
        items.map (fun item => some item.written) = es.map SortEntry.key?)
    hmoves (fun {s u s'} h hs => ?entry) (fun {e es c c₁ c'} hfirst hrest => ?append) hitems hon₁
  case entry =>
    obtain ⟨e, items, hreads, hon, hclauses, hwritten⟩ := orderItem_entry h hs
    exact ⟨e, hreads, hon, items, hclauses, hwritten⟩
  case append =>
    obtain ⟨items, rfl, hitems⟩ := hfirst
    obtain ⟨items', rfl, hitems'⟩ := hrest
    exact ⟨items ++ items', by simp, by rw [List.map_append, hitems, hitems']; rfl⟩
  obtain ⟨es, hes, hon₂, items, hclauses, hwritten⟩ := hentries
  exact ⟨es, items, .read hdue hkeyword hby (hstart.trans hbehind) hes (List.nil_append _).symm
    (by simp), hon₂,
    by rw [hclauses, hclauses₁], hwritten⟩

/-- Where a select groups and where it sorts, the cursor stands in the text behind its start. -/
theorem SelectRun.follows {c : Cursor} (r : SelectRun (ParseState.start c)) (hc : c.Stands text) :
    Follows text (ParseState.start c) r.narrowed ∧ Follows text (ParseState.start c) r.grouped := by
  have h₁ := selectHead_safe.stands (s := ParseState.start c) hc r.selectHead
  have h₂ := h₁.trans (fromClause_safe.stands h₁.stands r.fromClause)
  have h₃ := h₂.trans ((markTables_safe _).stands h₂.stands r.markTables)
  have h₄ := h₃.trans (whereClause_safe.stands h₃.stands r.whereClause)
  exact ⟨h₄, h₄.trans (groupBy_safe.stands h₄.stands r.groupBy)⟩

/-- What has been read of a select groups by those of its entries that are columns, and sorts by all
    of its entries. -/
theorem SelectRun.sortEntries {database : Database} {d : Dialect} {text : String} {c : Cursor}
    (hc : Cursor.ofText database d text = .ok c) (r : SelectRun (ParseState.start c)) :
    ∃ grouped sorted : List SortEntry, HasSortEntries database d text grouped sorted ∧
      r.skipped.body.clauses.groupBy.map SortItem.written =
        grouped.filterMap SortEntry.column? ∧
      r.skipped.body.clauses.orderBy.map (fun item => some item.written) =
        sorted.map SortEntry.key? := by
  obtain ⟨_, hclosed, hdialect⟩ := Cursor.ofText_eq_ok hc
  obtain ⟨hnarrowed, hlisted⟩ := r.asListed hclosed
  have hdue (part : SelectPart) : tokensDue part database d text = (r.due part).cursor.tokens := by
    simp only [tokensDue, tokensBehindList, hc, r.tokensLeft_selectUpTo]
  have hbehind (part : SelectPart) :
      tokensBehind part database d text = (r.behind part).cursor.tokens := by
    simp only [tokensBehind, tokensBehindList, hc, r.tokensLeft_selectThrough]
  have hd : r.narrowed.cursor.dialect = d := by
    obtain ⟨hhead, hjoined, hmarked, hwhere, _⟩ := r.runs (.start hclosed)
    exact ((((hhead.trans hjoined).trans hmarked).trans hwhere).dialect_eq (.start hclosed)).trans
      hdialect
  obtain ⟨hstart, hstart'⟩ := r.follows (Cursor.stands_of_ofText hc)
  obtain ⟨grouped, groups, hgrouped, hon, hclauses, hwritten⟩ :=
    groupBy_entries r.groupBy hnarrowed hstart.behind
  obtain ⟨sorted, orders, hsorted, hon', hclauses', hwritten'⟩ :=
    orderBy_entries r.orderBy hon hstart'.behind
  obtain ⟨limit, hskipped⟩ := r.clauses_skipped hon'
  rw [hd] at hgrouped
  refine ⟨grouped, sorted, ⟨c, hc, ?_⟩, ?_⟩
  · rw [hdue, hdue, hbehind, hbehind]
    exact ⟨hgrouped, hsorted⟩
  · rw [hskipped, hclauses', hclauses]
    exact ⟨by simpa [hlisted.groupBy_eq] using hwritten,
      by simpa [hlisted.orderBy_eq] using hwritten'⟩

end Grammar

/-! ## Selects -/

/-- New aliases change nothing of what is written. -/
theorem SortItem.Renames.map_written {c : SelectClauses} {stem : String}
    {written items : List SortItem} (h : Renames c stem written items) :
    items.map SortItem.written = written.map SortItem.written := by
  refine List.ext_getElem? fun i => ?_
  rw [List.getElem?_map, List.getElem?_map, h i, Option.map_map]
  congr 1
  funext item
  simp only [Function.comp_apply]
  split <;> rfl

/-- The entries of a select, as they are read before anything is derived from them. -/
theorem Statement.readEntries {database : Database} {d : Dialect} {text : String}
    {body : Body SelectClauses} (h : Statement.parse database d text = .ok (.select body)) :
    ∃ (read : Body SelectClauses) (grouped sorted : List SortEntry),
      HasSortEntries database d text grouped sorted ∧ read.Derives body ∧
      read.clauses.groupBy.map SortItem.written = grouped.filterMap SortEntry.column? ∧
      read.clauses.orderBy.map (fun item => some item.written) = sorted.map SortEntry.key? := by
  obtain ⟨c, hc, hread⟩ := Statement.parse_eq_ok h
  obtain ⟨_, hclosed, _⟩ := Cursor.ofText_eq_ok hc
  cases hread with | select hkind hselect => ?_
  obtain ⟨r, rfl⟩ := Grammar.select_eq_ok hselect
  obtain ⟨grouped, sorted, hentries, hgroups, horders⟩ := r.sortEntries hc
  exact ⟨_, grouped, sorted, hentries, Body.derives (r.asRead hclosed) (r.isPlain hclosed), hgroups,
    horders⟩

/-- The entries of a select, and what it groups and sorts by in the end. -/
theorem Statement.sortEntries {database : Database} {d : Dialect} {text : String}
    {body : Body SelectClauses} (h : Statement.parse database d text = .ok (.select body)) :
    ∃ grouped sorted : List SortEntry, HasSortEntries database d text grouped sorted ∧
      body.clauses.groupBy.map SortItem.written = grouped.filterMap SortEntry.column? ∧
      (sorted ≠ [] → body.clauses.orderBy.map (fun item => some item.written) =
        sorted.map SortEntry.key?) ∧
      (sorted = [] → body.clauses.orderBy = body.clauses.groupBy) := by
  obtain ⟨read, grouped, sorted, hentries, hderives, hgroups, horders⟩ := Statement.readEntries h
  have hnil : read.clauses.orderBy = [] ↔ sorted = [] := by
    rw [← List.map_eq_nil_iff, horders, List.map_eq_nil_iff]
  refine ⟨grouped, sorted, hentries, hderives.groupBy.map_written.trans hgroups, fun hne => ?_,
    fun heq => hderives.orderBy_eq (hnil.2 heq)⟩
  have hwritten := congrArg (List.map some) (hderives.orderBy (hnil.not.2 hne)).map_written
  rw [List.map_map, List.map_map] at hwritten
  exact hwritten.trans horders

/-- *No entry is lost, unless it is a value to group by.* A select that sorts has an item for each
    entry of its `ORDER BY`, in their order: the column that the entry is, or the place in the
    select list that it numbers. It groups by those entries of its `GROUP BY` that are columns, in
    their order; so it has an item for each entry exactly if none of them is a value. -/
theorem parse_sortEntries {database : Database} {d : Dialect} {text : String}
    {body : Body SelectClauses} (h : Statement.parse database d text = .ok (.select body)) :
    ∃ grouped sorted : List SortEntry, HasSortEntries database d text grouped sorted ∧
      body.clauses.groupBy.map SortItem.written = grouped.filterMap SortEntry.column? ∧
      (body.clauses.groupBy.length = grouped.length ↔
        ∀ e ∈ grouped, e.expression.isValue = false) ∧
      (sorted ≠ [] → body.clauses.orderBy.map (fun item => some item.written) =
        sorted.map SortEntry.key?) ∧
      (sorted = [] → body.clauses.orderBy = body.clauses.groupBy) := by
  obtain ⟨grouped, sorted, hentries, hgroups, horders, hcopied⟩ := Statement.sortEntries h
  refine ⟨grouped, sorted, hentries, hgroups, ?_, horders, hcopied⟩
  have hlength := congrArg List.length hgroups
  rw [List.length_map] at hlength
  rw [hlength, List.length_filterMap_eq_countP, List.countP_eq_length]
  refine forall₂_congr fun e _ => ?_
  rw [Option.isSome_iff_ne_none, ← Bool.not_eq_true, ← SortEntry.column?_eq_none]

/-- An entry to group by and two to sort by, one of them a place. -/
theorem parse_sortEntries_place :
    ∃ body, Statement.parse .mySql .mySql "SELECT a FROM t GROUP BY b ORDER BY c DESC, 2" =
        .ok (.select body) ∧
      body.clauses.orderBy.map SortItem.written =
        [(.column none "c", .descending), (.position 2, .ascending)] ∧
      ∃ grouped sorted : List SortEntry,
        HasSortEntries .mySql .mySql "SELECT a FROM t GROUP BY b ORDER BY c DESC, 2"
          grouped sorted ∧
        body.clauses.groupBy.map SortItem.written = grouped.filterMap SortEntry.column? ∧
        (body.clauses.groupBy.length = grouped.length ↔
          ∀ e ∈ grouped, e.expression.isValue = false) ∧
        (sorted ≠ [] → body.clauses.orderBy.map (fun item => some item.written) =
          sorted.map SortEntry.key?) ∧
        (sorted = [] → body.clauses.orderBy = body.clauses.groupBy) := by
  have hparse : Statement.parse .mySql .mySql "SELECT a FROM t GROUP BY b ORDER BY c DESC, 2" =
      .ok (.select {
        tables := ⟨[⟨"t", none⟩]⟩
        marks := [.items 9 ["c AS ORDER_BY_DERIVED_0", "b AS GROUP_BY_DERIVED_0"], .table 14 "t"]
        clauses := {
          selectListStop := 9
          groupByStop := 27
          items := [.plain "a" none]
          groupBy := [⟨.column none "b", .ascending, .ascending, some "GROUP_BY_DERIVED_0"⟩]
          orderBy := [⟨.column none "c", .descending, .ascending, some "ORDER_BY_DERIVED_0"⟩,
            ⟨.position 2, .ascending, .ascending, none⟩] } }) := by decide +kernel
  exact ⟨_, hparse, rfl, parse_sortEntries hparse⟩

/-- A place to group by is lost, but one to sort by is not. -/
theorem groupBy_place_lost :
    (∃ body grouped sorted, Statement.parse .mySql .mySql "SELECT a FROM t GROUP BY 1" =
        .ok (.select body) ∧
      HasSortEntries .mySql .mySql "SELECT a FROM t GROUP BY 1" grouped sorted ∧
      body.clauses.groupBy.length ≠ grouped.length) ∧
    ∃ body, Statement.parse .mySql .mySql "SELECT a FROM t ORDER BY 1" = .ok (.select body) ∧
      body.clauses.orderBy.map SortItem.written = [(.position 1, .ascending)] := by
  constructor
  · have hparse : Statement.parse .mySql .mySql "SELECT a FROM t GROUP BY 1" = .ok (.select {
        tables := ⟨[⟨"t", none⟩]⟩
        marks := [.table 14 "t"]
        clauses := { selectListStop := 9, groupByStop := 26, items := [.plain "a" none] } }) := by
      decide +kernel
    obtain ⟨grouped, sorted, hentries, _⟩ := Statement.sortEntries hparse
    have ⟨_, _, hgrouped, _⟩ := hentries
    have hstarts : SelectPart.groups.Starts
        (tokensDue .groups .mySql .mySql "SELECT a FROM t GROUP BY 1") := by decide +kernel
    have hne := List.length_pos_iff.2 (hgrouped.ne_nil_iff.2 hstarts)
    exact ⟨_, grouped, sorted, hparse, hentries, Nat.ne_of_lt hne⟩
  · exact ⟨{
      tables := ⟨[⟨"t", none⟩]⟩
      marks := [.table 14 "t"]
      clauses := {
        selectListStop := 9
        items := [.plain "a" none]
        orderBy := [⟨.position 1, .ascending, .ascending, none⟩] } }, by decide +kernel, rfl⟩

end SqlRouting
