import SqlRouting.Proofs.Moves.Statement

/-!
# What a select lists and sorts by

Besides marks, tables and conditions, reading a select records the items of its list and of its
`GROUP BY` and `ORDER BY`. An item of the list has nothing derived yet, and there is a star among
them exactly if that is noted (`SelectClauses.Listed`). An item to sort by has the alias under which
the list shows its key (`SelectClauses.aliasFor?`); the list is complete by then.
-/

namespace SqlRouting

namespace SelectItem

/-- The item is a star. -/
def isStar : SelectItem → Bool
  | star _ => true
  | aggregation _ _ | plain _ _ => false

/-- What has been derived from the item. -/
def derived : SelectItem → List Aggregation
  | aggregation _ derived => derived
  | star _ | plain _ _ => []

end SelectItem

/-- The alias of the item is the one under which the select list shows its key. -/
def SortItem.IsAliased (c : SelectClauses) (item : SortItem) : Prop :=
  item.asName = item.qualifiedName?.bind c.aliasFor?

/-- The clauses are as reading leaves them. -/
structure SelectClauses.AsRead (c : SelectClauses) : Prop where
  containsStar : c.containsStar = c.items.any (·.isStar)
  derived : ∀ item ∈ c.items, item.derived = []
  groupBy : ∀ item ∈ c.groupBy, item.IsAliased c
  orderBy : ∀ item ∈ c.orderBy, item.IsAliased c

/-- The clauses are as reading leaves them before it comes to `GROUP BY`. -/
structure SelectClauses.AsListed (c : SelectClauses) : Prop extends c.AsRead where
  groupBy_eq : c.groupBy = []
  orderBy_eq : c.orderBy = []

/-- The scope without clauses. -/
def Scope.withoutClauses (κ : Type) : Scope κ :=
  ⟨True, True, fun _ _ _ => False⟩

namespace Grammar

open SqlRouting.Parser

variable {stream : List Token} {s s' : ParseState SelectClauses}

/-! ## Select lists -/

theorem clauses_of_run (h : Run (Scope.withoutClauses SelectClauses) stream s s')
    (hs : s.On stream) : s'.body.clauses = s.body.clauses :=
  h.clauses_eq hs fun _ _ _ => id

theorem plainItem_eq_ok {start : Nat} {owners : List Token} {r : SelectItem × List Token}
    (h : plainItem start owners s = .ok r s') :
    ∃ expression asName, r.1 = .plain expression asName := by
  simp only [plainItem, cursor_bind, bind_eq_ok, pure_eq_ok] at h
  obtain ⟨_, _, _, text, _, _, asName, _, _, rfl, _⟩ := h
  exact ⟨_, asName, rfl⟩

theorem aggregationItem_eq_ok {function : AggregateFunction} {first : Token}
    {r : SelectItem × List Token} (h : aggregationItem function first s = .ok r s') :
    r.1.isStar = false ∧ r.1.derived = [] := by
  simp only [aggregationItem, cursor_bind, ite_eq_ok, bind_eq_ok, pure_eq_ok] at h
  rcases h with ⟨_, _, _, _, ⟨_, h⟩ | ⟨_, _, _, _, rfl, _⟩⟩ | ⟨_, h⟩
  · obtain ⟨_, _, hitem⟩ := plainItem_eq_ok h
    simp [hitem, SelectItem.isStar, SelectItem.derived]
  · simp [SelectItem.isStar, SelectItem.derived]
  · obtain ⟨_, _, hitem⟩ := plainItem_eq_ok h
    simp [hitem, SelectItem.isStar, SelectItem.derived]

theorem starItem_eq_ok {owner : Option String} {item : SelectItem}
    (h : starItem owner s = .ok item s') : item = .star owner := by
  simp only [starItem, bind_eq_ok, pure_eq_ok] at h
  obtain ⟨_, _, _, rfl, _⟩ := h
  rfl

/-- Reading an item of the list changes nothing of the clauses, but a star is noted. -/
theorem selectItem_clauses {r : SelectItem × List Token} (h : selectItem s = .ok r s')
    (hs : s.On stream) : s'.body.clauses = { s.body.clauses with
      containsStar := s.body.clauses.containsStar || r.1.isStar } ∧ r.1.derived = [] := by
  have hplain {c : SelectClauses} {item : SelectItem} (hitem : item.isStar = false)
      (hc : c = s.body.clauses) : c = { s.body.clauses with
        containsStar := s.body.clauses.containsStar || item.isStar } := by simp [hc, hitem]
  simp only [selectItem, cursor_bind, current_bind, ite_eq_ok, bind_eq_ok, pure_eq_ok] at h
  rcases h with ⟨hstar, _, s₁, hnote, _, s₂, hadvance, _, s₃, hitem, rfl, rfl⟩ | ⟨_, h⟩
  · -- The star is noted first, and nothing of the clauses changes from there on.
    obtain rfl := modifyClauses_eq_ok.1 hnote
    have hkind : s.cursor.current.kind = .symbol .star := of_decide_eq_true hstar
    have hs₁ : ({ s with body := { s.body with
        clauses := { s.body.clauses with containsStar := true } } } : ParseState _).On stream :=
      ⟨hs.tokens, hs.closed⟩
    have hrun : Run (Scope.withoutClauses _) stream _ s₂ := advance_run hadvance (by simp [hkind])
    have hrun' := hrun.trans (starItem_moves none hitem)
    obtain rfl := starItem_eq_ok hitem
    refine ⟨?_, rfl⟩
    rw [clauses_of_run hrun' hs₁]
    simp [SelectItem.isStar]
  cases hfunction : aggregateFunction? s.cursor.current with
  | some function =>
    simp only [hfunction, bind_eq_ok] at h
    obtain ⟨_, s₁, hadvance, h⟩ := h
    have hrun : Run (Scope.withoutClauses _) stream s s₁ :=
      advance_run hadvance (aggregateFunction?_kind hfunction)
    obtain ⟨hstar, hderived⟩ := aggregationItem_eq_ok h
    obtain ⟨hrun', _⟩ := aggregationItem_run (E := Scope.withoutClauses _) h (hrun.on hs)
    exact ⟨hplain hstar (clauses_of_run (hrun.trans hrun') hs), hderived⟩
  | none =>
    simp only [hfunction, bind_eq_ok, ite_eq_ok, pure_eq_ok] at h
    obtain ⟨part, s₁, hpart, h⟩ := h
    obtain ⟨hrun, howners⟩ := itemPart_run (E := Scope.withoutClauses _) hpart hs
    rcases h with ⟨_, _, s₂, hnote, _, s₃, hitem, rfl, rfl⟩ | ⟨_, h⟩
    · -- A star with an owner is noted behind the part that it is read with.
      obtain rfl := modifyClauses_eq_ok.1 hnote
      have hs₂ : ({ s₁ with body := { s₁.body with
          clauses := { s₁.body.clauses with containsStar := true } } } : ParseState _).On stream :=
        ⟨(hrun.on hs).tokens, (hrun.on hs).closed⟩
      have hrun' : Run (Scope.withoutClauses _) stream _ s₃ := starItem_moves _ hitem
      obtain rfl := starItem_eq_ok hitem
      refine ⟨?_, rfl⟩
      rw [clauses_of_run hrun' hs₂, clauses_of_run hrun hs]
      simp [SelectItem.isStar]
    · obtain ⟨_, _, hitem⟩ := plainItem_eq_ok h
      obtain ⟨hrun', _⟩ := plainItem_run h (hrun.on hs) howners
      refine ⟨hplain (by simp [hitem, SelectItem.isStar])
        (clauses_of_run (hrun.trans hrun') hs), by simp [hitem, SelectItem.derived]⟩

theorem selectList_asListed {owners : List Token} (h : selectList s = .ok owners s')
    (hs : s.On stream) (hread : s.body.clauses.AsListed) :
    s'.On stream ∧ s'.body.clauses.AsListed := by
  simp only [selectList, commaSeparated, current_bind, bind_eq_ok, pure_eq_ok] at h
  obtain ⟨lists, s₁, hlists, _, s₂, hstop, rfl, rfl⟩ := h
  have hitems : s.On stream → s.body.clauses.AsListed →
      s₁.On stream ∧ s₁.body.clauses.AsListed := by
    refine separatedBy_rel (R := fun s s' => s.On stream → s.body.clauses.AsListed →
      s'.On stream ∧ s'.body.clauses.AsListed) (fun _ hs h => ⟨hs, h⟩)
      (fun h₁ h₂ hs h => (h₁ hs h).elim h₂) (fun {s a s'} h hs hread => ?_)
      (fun {s b s'} h hs hread => ?_) hlists
    · simp only [bind_eq_ok, pure_eq_ok] at h
      obtain ⟨r, s₁, hitem, _, s₂, hmodify, rfl, rfl⟩ := h
      obtain ⟨hclauses, hderived⟩ := selectItem_clauses hitem hs
      have hon := (selectItem_run (E := Scope.all _) (fun _ _ _ _ => trivial) hitem hs).1.on hs
      obtain rfl := modifyClauses_eq_ok.1 hmodify
      refine ⟨⟨hon.tokens, hon.closed⟩, ?_⟩
      -- Before the item is appended, its star has been noted.
      rw [hclauses]
      exact ⟨⟨by simp [hread.containsStar], by simpa [or_imp, forall_and, hderived] using
        hread.derived, by simp [hread.groupBy_eq], by simp [hread.orderBy_eq]⟩,
        hread.groupBy_eq, hread.orderBy_eq⟩
    · have hrun : Run (Scope.withoutClauses _) stream s s' := skipSymbol_moves (by decide) h
      exact ⟨hrun.on hs, clauses_of_run hrun hs ▸ hread⟩
  obtain ⟨hon, hlisted⟩ := hitems hs hread
  obtain rfl := modifyClauses_eq_ok.1 hstop
  exact ⟨⟨hon.tokens, hon.closed⟩, ⟨hlisted.containsStar, hlisted.derived, hlisted.groupBy,
    hlisted.orderBy⟩, hlisted.groupBy_eq, hlisted.orderBy_eq⟩

/-! ## Grouping and sorting -/

theorem sortItem_eq_ok {key : SortKey} {direction : Direction} {item : SortItem}
    (h : sortItem key direction s = .ok item s') : item.IsAliased s.body.clauses ∧ s = s' := by
  simp only [sortItem, dialect_bind, bind_eq_ok, pure_eq_ok] at h
  obtain ⟨_, _, hclauses, rfl, rfl⟩ := h
  obtain ⟨rfl, rfl⟩ := pure_eq_ok.1 hclauses
  exact ⟨rfl, rfl⟩

theorem groupItem_asRead {u : Unit} (h : groupItem s = .ok u s') (hs : s.On stream)
    (hread : s.body.clauses.AsRead) : s'.On stream ∧ s'.body.clauses.AsRead := by
  simp only [groupItem, bind_eq_ok, refuseEnd_eq_ok] at h
  obtain ⟨_, _, ⟨_, rfl⟩, e, s₁, hoperand, d, s₂, hdirection, h⟩ := h
  have hrun : Run (Scope.withoutClauses _) stream s s₂ :=
    (operand_moves hoperand).trans (direction_moves hdirection)
  have hon := hrun.on hs
  rw [← clauses_of_run hrun hs] at hread
  cases hkey : sortColumn? e with
  | none =>
    simp only [hkey, pure_eq_ok] at h
    obtain ⟨_, rfl⟩ := h
    exact ⟨hon, hread⟩
  | some key =>
    simp only [hkey, bind_eq_ok] at h
    obtain ⟨item, s₃, hitem, hmodify⟩ := h
    obtain ⟨haliased, rfl⟩ := sortItem_eq_ok hitem
    obtain rfl := modifyClauses_eq_ok.1 hmodify
    refine ⟨⟨hon.tokens, hon.closed⟩, hread.containsStar, hread.derived, ?_, hread.orderBy⟩
    simpa [or_imp, forall_and] using ⟨hread.groupBy, haliased⟩

/-- What every item of a list keeps is kept up to its end. -/
theorem commaSeparated_asRead {α : Type} {item : Parser SelectClauses α} {as : List α}
    (hitem : ∀ {s a s'}, item s = .ok a s' → s.On stream → s.body.clauses.AsRead →
      s'.On stream ∧ s'.body.clauses.AsRead)
    (h : commaSeparated item s = .ok as s') (hs : s.On stream) (hread : s.body.clauses.AsRead) :
    s'.On stream ∧ s'.body.clauses.AsRead := by
  refine separatedBy_rel (R := fun s s' => s.On stream → s.body.clauses.AsRead →
    s'.On stream ∧ s'.body.clauses.AsRead) (fun _ hs h => ⟨hs, h⟩)
    (fun h₁ h₂ hs h => (h₁ hs h).elim h₂) hitem (fun {s b s'} h hs hread => ?_) h hs hread
  have hrun : Run (Scope.withoutClauses _) stream s s' := skipSymbol_moves (by decide) h
  exact ⟨hrun.on hs, clauses_of_run hrun hs ▸ hread⟩

theorem groupBy_asRead {u : Unit} (h : groupBy s = .ok u s') (hs : s.On stream)
    (hread : s.body.clauses.AsRead) : s'.On stream ∧ s'.body.clauses.AsRead := by
  rcases skipKeyword_then_eq_ok.1 h with ⟨_, rfl⟩ | ⟨hkeyword, s₁, hadvance, h⟩
  · exact ⟨hs, hread⟩
  simp only [groupItems, dialect_bind, current_bind, bind_eq_ok] at h
  obtain ⟨_, s₂, haccept, _, s₃, hitems, _, s₄, hskipped, hstop⟩ := h
  have hkind := Cursor.isKeyword_singleton.1 hkeyword
  have hrun : Run (Scope.withoutClauses _) stream s s₂ :=
    (advance_run hadvance (by simp [hkind])).trans (accept_moves (by decide) haccept)
  rw [← clauses_of_run hrun hs] at hread
  obtain ⟨hon, hread⟩ := commaSeparated_asRead groupItem_asRead hitems (hrun.on hs) hread
  have hrun : Run (Scope.withoutClauses _) stream s₃ s₄ := skipAll_moves _ hskipped
  have hon₄ := hrun.on hon
  rw [← clauses_of_run hrun hon] at hread
  obtain rfl := modifyClauses_eq_ok.1 hstop
  exact ⟨⟨hon₄.tokens, hon₄.closed⟩, hread.containsStar, hread.derived, hread.groupBy,
    hread.orderBy⟩

theorem orderItem_asRead {u : Unit} (h : orderItem s = .ok u s') (hs : s.On stream)
    (hread : s.body.clauses.AsRead) : s'.On stream ∧ s'.body.clauses.AsRead := by
  simp only [orderItem, bind_eq_ok, refuseEnd_eq_ok] at h
  obtain ⟨_, _, ⟨_, rfl⟩, e, s₁, hoperand, d, s₂, hdirection, key, s₃, hkey, item, s₄, hitem,
    hmodify⟩ := h
  have hrun : Run (Scope.withoutClauses _) stream s s₃ :=
    ((operand_moves hoperand).trans (direction_moves hdirection)).trans (orderKey_moves e hkey)
  have hon := hrun.on hs
  rw [← clauses_of_run hrun hs] at hread
  obtain ⟨haliased, rfl⟩ := sortItem_eq_ok hitem
  obtain rfl := modifyClauses_eq_ok.1 hmodify
  refine ⟨⟨hon.tokens, hon.closed⟩, hread.containsStar, hread.derived, hread.groupBy, ?_⟩
  simpa [or_imp, forall_and] using ⟨hread.orderBy, haliased⟩

theorem orderBy_asRead {u : Unit} (h : orderBy s = .ok u s') (hs : s.On stream)
    (hread : s.body.clauses.AsRead) : s'.On stream ∧ s'.body.clauses.AsRead := by
  rcases skipKeyword_then_eq_ok.1 h with ⟨_, rfl⟩ | ⟨hkeyword, s₁, hadvance, h⟩
  · exact ⟨hs, hread⟩
  simp only [orderItems, bind_eq_ok, pure_eq_ok] at h
  obtain ⟨_, s₂, haccept, _, s₃, hitems, _, rfl⟩ := h
  have hkind := Cursor.isKeyword_singleton.1 hkeyword
  have hrun : Run (Scope.withoutClauses _) stream s s₂ :=
    (advance_run hadvance (by simp [hkind])).trans (accept_moves (by decide) haccept)
  rw [← clauses_of_run hrun hs] at hread
  exact commaSeparated_asRead orderItem_asRead hitems (hrun.on hs) hread

/-! ## Selects -/

theorem selectHead_asListed {owners : List Token} (h : selectHead s = .ok owners s')
    (hs : s.On stream) (hread : s.body.clauses.AsListed) :
    s'.On stream ∧ s'.body.clauses.AsListed := by
  simp only [selectHead, bind_eq_ok] at h
  obtain ⟨_, s₁, haccept, _, s₂, hdistinct, _, s₃, hoptions, hlist⟩ := h
  have hrun : Run (Scope.withoutClauses _) stream s s₃ := ((accept_moves (by decide)
    haccept).trans (distinct_moves hdistinct)).trans (selectOptions_moves hoptions)
  rw [← clauses_of_run hrun hs] at hread
  exact selectList_asListed hlist (hrun.on hs) hread

namespace SelectRun

variable {c : Cursor} (r : SelectRun (ParseState.start c))

/-- Between its list and its `GROUP BY` a select changes nothing of its clauses. -/
theorem clauses_narrowed (hc : c.Closed) :
    r.narrowed.On c.tokens ∧ r.narrowed.body.clauses = r.listed.body.clauses := by
  have hs := ParseState.On.start (κ := SelectClauses) hc
  have hE : ∀ t c c', SelectClauses.Step t c c' → (Scope.all _).clauses t c c' :=
    fun _ _ _ _ => trivial
  obtain ⟨hhead, howners⟩ := selectHead_run hE r.selectHead hs
  have hon := hhead.on hs
  have hrun : Run (Scope.withoutClauses _) c.tokens r.listed r.narrowed :=
    ((fromClause_moves trivial r.fromClause).trans (markTables_run r.markTables howners)).trans
      (whereClause_moves trivial r.whereClause)
  exact ⟨hrun.on hon, clauses_of_run hrun hon⟩

/-- Before its `GROUP BY` a select sorts by nothing. -/
theorem asListed (hc : c.Closed) :
    r.narrowed.On c.tokens ∧ r.narrowed.body.clauses.AsListed := by
  obtain ⟨_, hlisted⟩ := selectHead_asListed r.selectHead (ParseState.On.start hc)
    ⟨⟨rfl, nofun, nofun, nofun⟩, rfl, rfl⟩
  obtain ⟨hon, hclauses⟩ := r.clauses_narrowed hc
  exact ⟨hon, hclauses ▸ hlisted⟩

/-- Behind its `ORDER BY` a select changes nothing of its clauses but the limit. -/
theorem clauses_skipped (hon : r.ordered.On c.tokens) :
    ∃ limit, r.skipped.body.clauses = { r.ordered.body.clauses with limit } := by
  obtain ⟨n, hskipped⟩ := skipRest_body r.skipRest
  rw [hskipped]
  rcases limit_eq_ok (E := Scope.withoutClauses _) r.limit hon with
    ⟨_, heq⟩ | ⟨_, s₁, offset, rowCount, database, hrun, _, _, _, heq⟩
  · exact ⟨r.ordered.body.clauses.limit, by rw [← heq]⟩
  · refine ⟨some ⟨database, offset.map Prod.fst, some rowCount.1⟩, ?_⟩
    rw [heq, ← clauses_of_run hrun hon]

/-- A select that has been read to its end is as reading leaves it. -/
theorem asRead (hc : c.Closed) : r.skipped.body.clauses.AsRead := by
  obtain ⟨hon, hlisted⟩ := r.asListed hc
  obtain ⟨hon, hread⟩ := groupBy_asRead r.groupBy hon hlisted.toAsRead
  obtain ⟨hon, hread⟩ := orderBy_asRead r.orderBy hon hread
  obtain ⟨limit, hclauses⟩ := r.clauses_skipped hon
  rw [hclauses]
  exact ⟨hread.containsStar, hread.derived, hread.groupBy, hread.orderBy⟩

end SelectRun

end Grammar

end SqlRouting
