import SqlRouting.Proofs.Moves.Statement
import SqlRouting.Proofs.Outside

/-!
# The clauses of a select

A clause is due where the one before it stops. If its keyword is there, it is read and recorded; if
not, nothing of it is recorded, and the next clause is due at the same place. What is left behind
the last clause is skipped. So a clause gets lost if one before it stops too early, at a token that
it does not know: then its keyword is among the tokens that are skipped. This module says exactly
when that happens (`parse_clauses`).
-/

namespace SqlRouting

open SqlRouting.Parser

/-! ## Tables -/

theorem Tables.add_ne_empty (ts : Tables) (t : Table) : ts.add t ≠ {} := by
  intro h
  have hempty : (ts.add t).toList = [] := congrArg Tables.toList h
  cases hcontains : ts.contains t.name with
  | false =>
    rw [toList_add_of_not_contains hcontains] at hempty
    simp at hempty
  | true =>
    rw [toList_add_of_contains hcontains] at hempty
    simp [contains, hempty] at hcontains

section

variable {κ : Type} {E : Scope κ} {stream : List Token} {s s' : ParseState κ}

/-- Tables that are recorded are kept. -/
theorem Run.tables_ne_empty (h : Run E stream s s') (hs : s.On stream)
    (htables : s.body.tables ≠ {}) : s'.body.tables ≠ {} := by
  refine h.rel (R := fun s s' => s.body.tables ≠ {} → s'.body.tables ≠ {}) (fun _ h => h)
    (fun h₁ h₂ h => h₂ (h₁ h)) ?_ hs htables
  intro s s' hs hmove htables
  cases hmove with
  | table _ t => exact Tables.add_ne_empty _ t
  | _ => exact htables

end

namespace Grammar

section

variable {κ : Type} {stream : List Token} {s s' : ParseState κ} {u : Unit}

theorem tableFactor_tables (h : tableFactor s = .ok u s') : s'.body.tables ≠ {} := by
  simp only [tableFactor, recordTable, cursor_bind, ite_eq_ok, bind_eq_ok, throw_eq_ok, false_and,
    and_false, exists_false, false_or] at h
  obtain ⟨_, t, s₁, _, asName, s₂, _, _, s₃, htable, hmark⟩ := h
  obtain rfl := modifyRouting_eq_ok.1 htable
  obtain rfl := addMark_eq_ok.1 hmark
  exact Tables.add_ne_empty _ _

/-- The first of the tables is always read. -/
theorem tableReferences_tables {single : Bool} (h : tableReferences single s = .ok u s')
    (hs : s.On stream) : s'.body.tables ≠ {} := by
  obtain ⟨_, s₁, hlist, hsingle⟩ := bind_eq_ok.1 h
  simp only [routing_bind, ite_eq_ok, throw_eq_ok, and_false, false_or, pure_eq_ok] at hsingle
  obtain ⟨_, _, rfl⟩ := hsingle
  have hT : (Scope.all κ).tables := trivial
  obtain ⟨_, s₂, hfirst, hrest⟩ : ∃ u s₂, tableReference s = .ok u s₂ ∧
      Run (Scope.all κ) stream s₂ s₁ :=
    separatedBy_first (tableReference_moves hT) (skipSymbol_moves (by decide)) hlist
  -- The first table is recorded before anything else, and then tables are only added.
  obtain ⟨_, s₃, hfactor, hjoined⟩ := bind_eq_ok.1 hfirst
  have hon := (tableFactor_moves hT hfactor).on hs
  have hjoined : Run (Scope.all κ) stream s₃ s₂ :=
    (tableHints_moves.bind fun _ => loop_moves (joinedTable_moves hT)) hjoined
  exact (hjoined.trans hrest).tables_ne_empty hon (tableFactor_tables hfactor)

/-- Tables are recorded exactly if there is a `FROM`. -/
theorem fromClause_tables (h : fromClause s = .ok u s') (hs : s.On stream)
    (hempty : s.body.tables = {}) :
    s'.body.tables ≠ {} ↔ s.cursor.current.kind = .keyword .FROM := by
  obtain ⟨_, s₁, hrefuse, h⟩ := bind_eq_ok.1 h
  obtain ⟨_, rfl⟩ := refuse_eq_ok.1 hrefuse
  rw [← Cursor.isKeyword_singleton]
  rcases skipKeyword_then_eq_ok.1 h with ⟨hnone, rfl⟩ | ⟨hfrom, s₁, hadvance, h⟩
  · simp [hnone, hempty]
  · have hkind := Cursor.isKeyword_singleton.1 hfrom
    have hrun : Run (Scope.all κ) stream s s₁ := advance_run hadvance (by simp [hkind])
    exact iff_of_true (tableReferences_tables h (hrun.on hs)) hfrom

end

end Grammar

/-! ## Where clauses are due -/

/-- A clause of a select that starts with a keyword of its own. -/
inductive SelectPart where
  | tables | conditions | groups | order | limit
  deriving DecidableEq, Repr

/-- The keyword that the clause starts with. -/
def SelectPart.keyword : SelectPart → Keyword
  | tables => .FROM
  | conditions => .WHERE
  | groups => .GROUP
  | order => .ORDER
  | limit => .LIMIT

/-- How many clauses are due before this one. -/
def SelectPart.index : SelectPart → Nat
  | tables => 0
  | conditions => 1
  | groups => 2
  | order => 3
  | limit => 4

namespace Grammar

/-- What is read between the select list, in which there are `owners`, and a clause. -/
def selectUpTo (owners : List Token) : SelectPart → Parser SelectClauses Unit
  | .tables => return ()
  | .conditions => do
    fromClause
    markTables owners
    let _ ← tableAlias
  | .groups => do
    fromClause
    markTables owners
    whereClause
  | .order => do
    fromClause
    markTables owners
    whereClause
    groupBy
    having
  | .limit => do
    fromClause
    markTables owners
    whereClause
    groupBy
    having
    orderBy

/-- What is read from the select list, in which there are `owners`, through a clause. -/
def selectThrough (owners : List Token) : SelectPart → Parser SelectClauses Unit
  | .tables => fromClause
  | .conditions => selectUpTo owners .groups
  | .groups => selectUpTo owners .order
  | .order => selectUpTo owners .limit
  | .limit => selectClauses owners

end Grammar

/-- The tokens of a text that are left behind its select list and what `rest` reads then. -/
def tokensBehindList (rest : List Token → Parser SelectClauses Unit) (database : Database)
    (d : Dialect) (text : String) : List Token :=
  match Cursor.ofText database d text with
  | .ok c => tokensLeft ((Grammar.selectHead >>= rest) (ParseState.start c))
  | .error _ => []

/-- The tokens of a text from where a clause of its select is due. -/
def tokensDue (part : SelectPart) : Database → Dialect → String → List Token :=
  tokensBehindList fun owners => Grammar.selectUpTo owners part

/-- The tokens of a text from where a clause of its select stops. -/
def tokensBehind (part : SelectPart) : Database → Dialect → String → List Token :=
  tokensBehindList fun owners => Grammar.selectThrough owners part

/-- The tokens of a text that are skipped behind its select. -/
def tokensSkipped : Database → Dialect → String → List Token :=
  tokensBehindList Grammar.selectClauses

namespace Grammar

variable {stream : List Token}

/-- If its keyword is under the cursor, a clause is read from the token behind it on. -/
theorem suffix_of_keyword {κ : Type} {E : Scope κ} {s s' : ParseState κ} {k : Keyword}
    {p : Parser κ Unit} {u : Unit} (hs : s.On stream)
    (h : (skipKeyword [k] >>= fun found => if found then p else pure ()) s = .ok u s')
    (hp : Moves E p) (hkind : s.cursor.current.kind = .keyword k) :
    s'.cursor.tokens <:+ s.cursor.ahead := by
  rcases skipKeyword_then_eq_ok.1 h with ⟨hnone, _⟩ | ⟨_, s₁, hadvance, h⟩
  · exact absurd (Cursor.isKeyword_singleton.2 hkind) (by simp [hnone])
  · have hpassed : Run E stream s s₁ := advance_run hadvance (by simp [hkind])
    rw [ahead_of_advance hadvance hs.closed (by simp [hkind])]
    exact Run.tokens_suffix (hp h) (hpassed.on hs)

/-- If its keyword is not under the cursor, nothing of a clause is read. -/
theorem eq_of_no_keyword {κ : Type} {s s' : ParseState κ} {k : Keyword} {p : Parser κ Unit}
    {u : Unit} (h : (skipKeyword [k] >>= fun found => if found then p else pure ()) s = .ok u s')
    (hkind : s.cursor.current.kind ≠ .keyword k) : s' = s := by
  rcases skipKeyword_then_eq_ok.1 h with ⟨_, heq⟩ | ⟨hfound, _⟩
  · exact heq.symm
  · exact absurd (Cursor.isKeyword_singleton.1 hfound) hkind

theorem limit_dialect {s s' : ParseState SelectClauses} {u : Unit} (h : limit s = .ok u s')
    (hs : s.On stream) : s'.cursor.dialect = s.cursor.dialect := by
  rcases limit_eq_ok (E := Scope.marksOnly _) h hs with
    ⟨_, rfl⟩ | ⟨_, s₁, _, _, _, hrun, _, _, _, rfl⟩
  · rfl
  · exact hrun.dialect_eq hs

/-- Reading a limit does not move the cursor back. -/
theorem limit_suffix {s s' : ParseState SelectClauses} {u : Unit} (h : limit s = .ok u s')
    (hs : s.On stream) : s'.cursor.tokens <:+ s.cursor.tokens := by
  rcases limit_eq_ok (E := Scope.marksOnly _) h hs with
    ⟨_, rfl⟩ | ⟨_, s₁, _, _, _, hrun, _, _, _, rfl⟩
  · exact List.suffix_rfl
  · exact hrun.tokens_suffix hs

namespace SelectRun

variable {s : ParseState SelectClauses}

/-- The state in which a clause is due. -/
def due (r : SelectRun s) : SelectPart → ParseState SelectClauses
  | .tables => r.listed
  | .conditions => r.aliased
  | .groups => r.narrowed
  | .order => r.grouped
  | .limit => r.ordered

/-- The state that a clause leaves behind. -/
def behind (r : SelectRun s) : SelectPart → ParseState SelectClauses
  | .tables => r.joined
  | .conditions => r.narrowed
  | .groups => r.grouped
  | .order => r.ordered
  | .limit => r.limited

theorem tokensLeft_selectUpTo (r : SelectRun s) (part : SelectPart) :
    tokensLeft ((Grammar.selectHead >>= fun owners => selectUpTo owners part) s) =
      (r.due part).cursor.tokens := by
  rw [bind_of_eq_ok r.selectHead]
  cases part with
  | tables => rfl
  | conditions =>
    rw [selectUpTo, bind_of_eq_ok r.fromClause, bind_of_eq_ok r.markTables,
      bind_of_eq_ok r.tableAlias]
    rfl
  | groups =>
    rw [selectUpTo, bind_of_eq_ok r.fromClause, bind_of_eq_ok r.markTables, r.whereClause]
    rfl
  | order =>
    rw [selectUpTo, bind_of_eq_ok r.fromClause, bind_of_eq_ok r.markTables,
      bind_of_eq_ok r.whereClause, bind_of_eq_ok r.groupBy, r.having]
    rfl
  | limit =>
    rw [selectUpTo, bind_of_eq_ok r.fromClause, bind_of_eq_ok r.markTables,
      bind_of_eq_ok r.whereClause, bind_of_eq_ok r.groupBy, bind_of_eq_ok r.having,
      r.orderBy]
    rfl

theorem selectClauses (r : SelectRun s) :
    Grammar.selectClauses r.owners r.listed = .ok () r.limited := by
  rw [Grammar.selectClauses, bind_of_eq_ok r.fromClause, bind_of_eq_ok r.markTables,
    bind_of_eq_ok r.whereClause, bind_of_eq_ok r.groupBy, bind_of_eq_ok r.having,
    bind_of_eq_ok r.orderBy, bind_of_eq_ok r.limit, r.selectRest]

theorem tokensLeft_selectThrough (r : SelectRun s) (part : SelectPart) :
    tokensLeft ((Grammar.selectHead >>= fun owners => selectThrough owners part) s) =
      (r.behind part).cursor.tokens := by
  cases part with
  | tables =>
    rw [bind_of_eq_ok r.selectHead, selectThrough, r.fromClause]
    rfl
  | conditions => exact r.tokensLeft_selectUpTo .groups
  | groups => exact r.tokensLeft_selectUpTo .order
  | order => exact r.tokensLeft_selectUpTo .limit
  | limit =>
    rw [bind_of_eq_ok r.selectHead, selectThrough, r.selectClauses]
    rfl

/-- A clause whose keyword does not stand where it is due is not read at all. -/
theorem behind_eq_due (r : SelectRun s) (hs : s.On stream) (part : SelectPart)
    (hkind : (r.due part).cursor.current.kind ≠ .keyword part.keyword) :
    r.behind part = r.due part := by
  cases part with
  | tables =>
    obtain ⟨_, s₁, hrefuse, h⟩ := bind_eq_ok.1 r.fromClause
    obtain ⟨_, rfl⟩ := refuse_eq_ok.1 hrefuse
    exact eq_of_no_keyword h hkind
  | conditions =>
    have h := r.whereClause
    rw [Grammar.whereClause, bind_of_eq_ok r.tableAlias] at h
    exact eq_of_no_keyword h hkind
  | groups => exact eq_of_no_keyword r.groupBy hkind
  | order => exact eq_of_no_keyword r.orderBy hkind
  | limit =>
    rcases limit_eq_ok (E := Scope.marksOnly _) r.limit (r.run.on hs) with
      ⟨_, heq⟩ | ⟨hfound, _⟩
    · exact heq.symm
    · exact absurd (Cursor.isKeyword_singleton.1 hfound) hkind

/-- A clause whose keyword stands where it is due is read: what is skipped comes behind the
    keyword. -/
theorem suffix_of_due (r : SelectRun s) (hs : s.On stream) (part : SelectPart)
    (hkind : (r.due part).cursor.current.kind = .keyword part.keyword) :
    r.limited.cursor.tokens <:+ (r.due part).cursor.ahead := by
  obtain ⟨hlisted, hjoined, hmarked, hnarrowed, hgrouped, hordered⟩ := r.runs hs
  have hs₁ := hlisted.on hs
  have hs₂ := hjoined.on hs₁
  have hs₃ := hmarked.on hs₂
  have hs₄ := hnarrowed.on hs₃
  have hs₅ := hgrouped.on hs₄
  have hs₆ := hordered.on hs₅
  -- What is skipped is behind every clause.
  have hbehind₆ := limit_suffix r.limit hs₆
  have hbehind₅ := hbehind₆.trans (hordered.tokens_suffix hs₅)
  have hbehind₄ := hbehind₅.trans (hgrouped.tokens_suffix hs₄)
  have hbehind₂ := (hbehind₄.trans (hnarrowed.tokens_suffix hs₃)).trans
    (hmarked.tokens_suffix hs₂)
  have hE : ∀ t c c', SelectClauses.Step t c c' → Scope.select.clauses t c c' := fun _ _ _ h => h
  cases part with
  | tables =>
    obtain ⟨_, s₁, hrefuse, h⟩ := bind_eq_ok.1 r.fromClause
    obtain ⟨_, rfl⟩ := refuse_eq_ok.1 hrefuse
    have hread : Moves Scope.select (tableReferences false) := tableReferences_moves trivial _
    exact hbehind₂.trans (suffix_of_keyword hs₁ h hread hkind)
  | conditions =>
    have haliased : Run Scope.select stream r.marked r.aliased := tableAlias_moves r.tableAlias
    have h := r.whereClause
    rw [Grammar.whereClause, bind_of_eq_ok r.tableAlias] at h
    have hread : Moves Scope.select (do comparisons; refuse [.OR]) :=
      (comparisons_moves trivial).bind fun _ => refuse_moves _
    exact hbehind₄.trans (suffix_of_keyword (haliased.on hs₃) h hread hkind)
  | groups => exact hbehind₅.trans (suffix_of_keyword hs₄ r.groupBy (groupItems_moves hE) hkind)
  | order => exact hbehind₆.trans (suffix_of_keyword hs₅ r.orderBy (orderItems_moves hE) hkind)
  | limit =>
    rcases limit_eq_ok (E := Scope.marksOnly _) r.limit hs₆ with
      ⟨hnone, _⟩ | ⟨_, s₁, _, _, _, _, hsuffix, _, _, heq⟩
    · exact absurd (hnone.symm.trans (Cursor.isKeyword_singleton.2 hkind)) (by decide)
    · rw [heq]
      exact hsuffix

/-- If none of the clauses from the one that is due to the last is there, a select stops where this
    one is due. Only behind the tables a table alias is looked for in between. -/
theorem due_eq_limited (r : SelectRun s) (hs : s.On stream) {part : SelectPart}
    (hpart : part ≠ .tables)
    (hnone : ∀ later : SelectPart, part.index ≤ later.index →
      (r.due later).cursor.current.kind ≠ .keyword later.keyword) :
    r.due part = r.limited := by
  have hstays (later : SelectPart) (hle : part.index ≤ later.index) :
      r.behind later = r.due later :=
    r.behind_eq_due hs later (hnone later hle)
  -- Every clause is due where the one before it stops.
  have hlimit : r.due .limit = r.limited := (hstays .limit (by cases part <;> decide)).symm
  cases part with
  | tables => exact absurd rfl hpart
  | conditions =>
    exact (hstays .conditions (by decide)).symm.trans ((hstays .groups (by decide)).symm.trans
      ((hstays .order (by decide)).symm.trans hlimit))
  | groups =>
    exact (hstays .groups (by decide)).symm.trans ((hstays .order (by decide)).symm.trans hlimit)
  | order => exact (hstays .order (by decide)).symm.trans hlimit
  | limit => exact hlimit

/-- A select stops at the keyword of a clause only if it has read this clause or a later one. At a
    `FROM` it may also stop because of a table alias that it has read without one. -/
theorem exists_later (r : SelectRun s) (hs : s.On stream) {part : SelectPart}
    (hstop : r.limited.cursor.current.kind = .keyword part.keyword) :
    (∃ later : SelectPart, part.index ≤ later.index ∧
      (r.due later).cursor.current.kind = .keyword later.keyword) ∨
    part = .tables ∧ (r.due .conditions).cursor.tokens ≠ (r.behind .tables).cursor.tokens := by
  refine Classical.byContradiction fun h => ?_
  obtain ⟨hnone, halias⟩ := not_or.1 h
  have hnone (later : SelectPart) (hle : part.index ≤ later.index) :
      (r.due later).cursor.current.kind ≠ .keyword later.keyword :=
    fun hkind => hnone ⟨later, hle, hkind⟩
  by_cases hpart : part = .tables
  · subst hpart
    -- Without an alias the `FROM` would stand where it is due.
    have hlimited : r.due .conditions = r.limited :=
      r.due_eq_limited hs (by decide) fun later _ => hnone later (Nat.zero_le _)
    have htokens := Classical.not_not.1 (not_and.1 halias rfl)
    rw [hlimited, r.behind_eq_due hs .tables (hnone .tables (Nat.le_refl _))] at htokens
    exact hnone .tables (Nat.le_refl _) ((List.cons.inj htokens).1 ▸ hstop)
  · exact hnone part (Nat.le_refl _) (r.due_eq_limited hs hpart hnone ▸ hstop)

/-- A select does not stop at what may not follow it. -/
theorem limited_not_mem (r : SelectRun s) (hs : s.On stream) :
    r.limited.cursor.current.kind ∉ (Keyword.UNION :: .INTERSECT :: .EXCEPT :: .MINUS ::
      s.cursor.dialect.refusedBehindSelect).map TokenKind.keyword := by
  have hdialect : r.limited.cursor.dialect = s.cursor.dialect :=
    (limit_dialect r.limit (r.run.on hs)).trans (r.run.dialect_eq hs)
  have hrest := r.selectRest
  simp only [Grammar.selectRest, bind_eq_ok, dialect_bind, refuse_eq_ok] at hrest
  obtain ⟨_, _, ⟨hsets, rfl⟩, hrefused, -⟩ := hrest
  rw [hdialect] at hrefused
  intro hmem
  obtain ⟨k, hk, hkind⟩ := List.mem_map.1 hmem
  simp only [Cursor.isKeyword, ← hkind, decide_eq_false_iff_not] at hsets hrefused
  have hsplit : k ∈ [.UNION, .INTERSECT, .EXCEPT, .MINUS] ++ s.cursor.dialect.refusedBehindSelect :=
    hk
  exact (List.mem_append.1 hsplit).elim hsets hrefused

end SelectRun

namespace SelectRun

variable {database : Database} {d : Dialect} {text : String} {c : Cursor}
  (r : SelectRun (ParseState.start c)) (hc : Cursor.ofText database d text = .ok c)
include hc

theorem tokensDue_eq (part : SelectPart) :
    tokensDue part database d text = (r.due part).cursor.tokens := by
  simp only [tokensDue, tokensBehindList, hc]
  exact r.tokensLeft_selectUpTo part

theorem tokensBehind_eq (part : SelectPart) :
    tokensBehind part database d text = (r.behind part).cursor.tokens := by
  simp only [tokensBehind, tokensBehindList, hc]
  exact r.tokensLeft_selectThrough part

theorem tokensSkipped_eq : tokensSkipped database d text = r.limited.cursor.tokens := by
  simp only [tokensSkipped, tokensBehindList, hc]
  rw [bind_of_eq_ok r.selectHead, r.selectClauses]
  rfl

end SelectRun

/-! ## What is recorded -/

namespace SelectRun

variable {c : Cursor} (r : SelectRun (ParseState.start c)) (hc : c.Closed)

include hc

/-- Behind its `FROM` a select records no tables. -/
theorem tables_eq : r.skipped.body.deriveColumns.deriveOrder.tables = r.joined.body.tables := by
  have hs := ParseState.On.start (κ := SelectClauses) hc
  obtain ⟨hlisted, hjoined, _⟩ := r.runs hs
  have hE : ∀ t c c', SelectClauses.Step t c c' → Scope.select.withoutTables.clauses t c c' :=
    fun _ _ _ h => h
  obtain ⟨_, howners⟩ := selectHead_run hE r.selectHead hs
  have hrest : Run Scope.select.withoutTables c.tokens r.joined r.ordered :=
    ((markTables_run r.markTables howners).trans (whereClause_moves trivial r.whereClause)).trans
      (r.run_ordered hE)
  have hs₂ := hjoined.on (hlisted.on hs)
  exact (r.routing_eq (hrest.on hs₂)).1.trans (hrest.tables_eq hs₂ id)

/-- The tables of a select are those behind its `FROM`, if it has one. -/
theorem tables_ne_empty_iff : r.skipped.body.deriveColumns.deriveOrder.tables ≠ {} ↔
    (r.due .tables).cursor.current.kind = .keyword .FROM := by
  have hs := ParseState.On.start (κ := SelectClauses) hc
  have hE : ∀ t c c', SelectClauses.Step t c c' → Scope.select.withoutTables.clauses t c c' :=
    fun _ _ _ h => h
  obtain ⟨hhead, _⟩ := selectHead_run hE r.selectHead hs
  rw [r.tables_eq hc]
  exact fromClause_tables r.fromClause (hhead.on hs) (hhead.tables_eq hs id)

/-- Without a `WHERE` a select has no conditions. -/
theorem conditions_eq_empty (hkind : (r.due .conditions).cursor.current.kind ≠ .keyword .WHERE) :
    r.skipped.body.deriveColumns.deriveOrder.conditions = {} := by
  have hs := ParseState.On.start (κ := SelectClauses) hc
  obtain ⟨hhead, howners⟩ :=
    selectHead_run (E := Scope.select.withoutConditions) (fun _ _ _ h => h) r.selectHead hs
  have hrun : Run Scope.select.withoutConditions c.tokens (ParseState.start c) r.aliased :=
    ((hhead.trans (fromClause_moves trivial r.fromClause)).trans
      (markTables_run r.markTables howners)).trans (tableAlias_moves r.tableAlias)
  have heq : r.narrowed = r.aliased := r.behind_eq_due hs .conditions hkind
  rw [r.conditions_eq (heq ▸ hrun.on hs), heq]
  exact hrun.conditions_eq hs id

/-- The limit of a select is that of its `LIMIT`, if it has one. -/
theorem limit_isSome_iff : r.skipped.body.deriveColumns.deriveOrder.clauses.limit.isSome ↔
    (r.due .limit).cursor.current.kind = .keyword .LIMIT := by
  have hs := ParseState.On.start (κ := SelectClauses) hc
  have hordered := r.run.on hs
  -- The only clause that sets a limit is the last one.
  have hnone : r.ordered.body.clauses.limit = none := limit_eq_of_run r.run hs
  obtain ⟨n, hskipped⟩ := skipRest_body r.skipRest
  have hlimit : r.skipped.body.deriveColumns.deriveOrder.clauses.limit =
      r.limited.body.clauses.limit :=
    (derive_limit _).trans (congrArg (·.clauses.limit) hskipped)
  rw [hlimit, ← Cursor.isKeyword_singleton, due]
  rcases limit_eq_ok (E := Scope.marksOnly _) r.limit hordered with
    ⟨hmissing, heq⟩ | ⟨hfound, s₁, _, _, _, _, _, _, _, heq⟩
  · simp [hmissing, ← heq, hnone]
  · simp [hfound, heq]

end SelectRun

end Grammar

/-! ## What is skipped -/

/-- The token is a keyword that a clause of a select starts with. -/
def Token.startsClause (t : Token) : Bool :=
  t.kind ∈ [Keyword.FROM, .WHERE, .GROUP, .ORDER, .LIMIT].map TokenKind.keyword

/-- No clause starts outside of parentheses among the tokens, up to the first semicolon there;
    before them `depth` groups are open. -/
def NoClause (depth : Nat) (ts : List Token) : Prop :=
  ∀ t ∈ (outside depth ts).takeWhile (·.kind ≠ .symbol .semicolon), t.startsClause = false

instance (depth : Nat) (ts : List Token) : Decidable (NoClause depth ts) :=
  inferInstanceAs (Decidable (∀ t ∈ (outside depth ts).takeWhile _, t.startsClause = false))

theorem noClause_cons (depth : Nat) (stop : Token) (rest : List Token) :
    NoClause depth (stop :: rest) ↔ depth = 0 ∧ stop.kind = .symbol .semicolon ∨
      (depth = 0 → stop.startsClause = false) ∧ NoClause (stop.depthBehind depth) rest := by
  simp only [NoClause, outside]
  by_cases hdepth : depth = 0
  · rw [if_pos hdepth]
    by_cases hsemicolon : stop.kind = .symbol .semicolon
    · simp [hdepth, hsemicolon]
    · rw [List.takeWhile_cons_of_pos (by simpa using hsemicolon)]
      simp [hdepth, hsemicolon]
  · simp [hdepth]

/-- The clause starts with the first of the tokens. -/
def SelectPart.Starts (part : SelectPart) (ts : List Token) : Prop :=
  ts.head?.map Token.kind = some (.keyword part.keyword)

instance (part : SelectPart) (ts : List Token) : Decidable (part.Starts ts) :=
  inferInstanceAs (Decidable (_ = _))

/-- *The clauses of a select.* A clause whose keyword stands where it is due is read, and nothing
    up to that keyword is skipped; a clause whose keyword stands elsewhere stops where it is due.
    There are tables, conditions and a limit only with a clause that is read. The skipped tokens
    begin where the select stops. That is at no operator on sets of rows nor at another keyword that
    is refused there, and at the keyword of a clause only if this clause or a later one has been
    read, or if a table alias has been read without a `FROM`. No clause is lost exactly if the
    select stops at a semicolon or at the end of the text, or neither where it stops nor behind is
    the keyword of a clause that belongs to it. -/
theorem parse_clauses {database : Database} {d : Dialect} {text : String}
    {body : Body SelectClauses} (h : Statement.parse database d text = .ok (.select body)) :
    (∀ part : SelectPart, part.Starts (tokensDue part database d text) →
      tokensSkipped database d text <:+ (tokensDue part database d text).tail) ∧
    (∀ part : SelectPart, ¬part.Starts (tokensDue part database d text) →
      tokensBehind part database d text = tokensDue part database d text) ∧
    (body.tables ≠ {} ↔ SelectPart.tables.Starts (tokensDue .tables database d text)) ∧
    (body.conditions ≠ {} → SelectPart.conditions.Starts (tokensDue .conditions database d text)) ∧
    (body.clauses.limit.isSome ↔ SelectPart.limit.Starts (tokensDue .limit database d text)) ∧
    ∃ read stop rest, (TokenStream.ofText d text.toList).tokens = read ++ stop :: rest ∧
      tokensSkipped database d text = stop :: rest ∧
      stop.kind ∉ (Keyword.UNION :: .INTERSECT :: .EXCEPT :: .MINUS ::
        d.refusedBehindSelect).map TokenKind.keyword ∧
      (∀ part : SelectPart, part.Starts (stop :: rest) →
        (∃ later : SelectPart, part.index ≤ later.index ∧
          later.Starts (tokensDue later database d text)) ∨
        part = .tables ∧ tokensDue .conditions database d text ≠
          tokensBehind .tables database d text) ∧
      (NoClause (depthBehind 0 read) (stop :: rest) ↔
        stop.kind = .endOfText ∨ depthBehind 0 read = 0 ∧ stop.kind = .symbol .semicolon ∨
        (depthBehind 0 read = 0 → stop.startsClause = false) ∧
          NoClause (stop.depthBehind (depthBehind 0 read)) rest) := by
  obtain ⟨c, hc, hread⟩ := Statement.parse_eq_ok h
  obtain ⟨htokens, hclosed, rfl⟩ := Cursor.ofText_eq_ok hc
  cases hread with | select hkind hselect => ?_
  obtain ⟨r, rfl⟩ := Grammar.select_eq_ok hselect
  have hs := ParseState.On.start (κ := SelectClauses) hclosed
  have hstarts (part : SelectPart) : part.Starts (r.due part).cursor.tokens ↔
      (r.due part).cursor.current.kind = .keyword part.keyword := by
    simp [SelectPart.Starts, Cursor.tokens]
  simp only [r.tokensDue_eq hc, r.tokensBehind_eq hc, r.tokensSkipped_eq hc, hstarts]
  have hlimited := Grammar.limit_on r.limit (r.run.on hs)
  obtain ⟨read, hstream⟩ := hlimited.tokens
  refine ⟨r.suffix_of_due hs, fun part hkind => ?_, r.tables_ne_empty_iff hclosed,
    fun hconditions => ?_, r.limit_isSome_iff hclosed, read, r.limited.cursor.current,
    r.limited.cursor.ahead, by rw [← htokens, ← hstream]; rfl, rfl, r.limited_not_mem hs,
    fun part hstop => r.exists_later hs (by simpa [SelectPart.Starts] using hstop), ?_⟩
  · rw [r.behind_eq_due hs part hkind]
  · exact Decidable.byContradiction fun hnone => hconditions (r.conditions_eq_empty hclosed hnone)
  -- The end of the text is the last token, so behind it nothing can be lost.
  rw [noClause_cons]
  refine ⟨.inr, ?_⟩
  rintro (hend | h)
  · have hrest := (hlimited.closed _ _ List.suffix_rfl).1 hend
    exact .inr ⟨fun _ => by simp [Token.startsClause, hend], by simp [hrest.1, NoClause, outside]⟩
  · exact h

/-- Clauses that stand where they are due are recorded. -/
theorem parse_clauses_limit :
    ∃ body, Statement.parse .mySql .mySql "SELECT a FROM t LIMIT 5" = .ok (.select body) ∧
      SelectPart.tables.Starts (tokensDue .tables .mySql .mySql "SELECT a FROM t LIMIT 5") ∧
      body.tables ≠ {} ∧
      SelectPart.limit.Starts (tokensDue .limit .mySql .mySql "SELECT a FROM t LIMIT 5") ∧
      body.clauses.limit.isSome := by
  have hparse : Statement.parse .mySql .mySql "SELECT a FROM t LIMIT 5" = .ok (.select {
      tables := ⟨[⟨"t", none⟩]⟩
      marks := [.table 14 "t", .rowCount 22 5]
      clauses := {
        selectListStop := 9
        items := [.plain "a" none]
        limit := some ⟨.mySql, none, some (.literal 5)⟩ } }) := by decide +kernel
  have hfrom : SelectPart.tables.Starts
      (tokensDue .tables .mySql .mySql "SELECT a FROM t LIMIT 5") := by decide +kernel
  have hlimit : SelectPart.limit.Starts
      (tokensDue .limit .mySql .mySql "SELECT a FROM t LIMIT 5") := by decide +kernel
  obtain ⟨_, _, htables, _, hrecorded, _⟩ := parse_clauses hparse
  exact ⟨_, hparse, hfrom, htables.2 hfrom, hlimit, hrecorded.2 hlimit⟩

/-- The select list stops behind a sign, and the `FROM` behind the number is skipped. -/
theorem clauses_behind_sign :
    ∃ body, Statement.parse .mySql .mySql "SELECT -1 FROM t" = .ok (.select body) ∧
      body.tables = {} ∧
      ∃ read, (TokenStream.ofText .mySql "SELECT -1 FROM t".toList).tokens =
          read ++ tokensSkipped .mySql .mySql "SELECT -1 FROM t" ∧
        ¬NoClause (depthBehind 0 read) (tokensSkipped .mySql .mySql "SELECT -1 FROM t") := by
  refine ⟨{ clauses := { selectListStop := 8, items := [.plain "-" none] } }, by decide +kernel,
    rfl, (TokenStream.ofText .mySql "SELECT -1 FROM t".toList).tokens.take 2, ?_, ?_⟩
  · decide +kernel
  · decide +kernel

end SqlRouting
