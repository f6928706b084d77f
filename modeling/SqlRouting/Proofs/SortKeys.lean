import SqlRouting.Proofs.Derived

/-!
# Sort keys

Rows from several shards are merged in the order of the keys that a select sorts or groups by. For
that the keys have to be in the rows: as an item of the select list, or as a derived column. They
are if the list has no star (`parse_sortKeys`). If it has one, even that of a single table, it is
taken to show every key, and no column is derived for those of other tables.
-/

namespace SqlRouting

/-- The rows have the key `name` of the item: as an item of the select list, by its expression or by
    its alias, or as a derived column. -/
def SortItem.IsShown (body : Body SelectClauses) (item : SortItem) (name : String) : Prop :=
  (∃ listed ∈ body.clauses.items, listed.isWritten name = true ∨ listed.isAliased name = true) ∨
    ∃ asName start texts, item.asName = some asName ∧ Mark.items start texts ∈ body.marks ∧
      name ++ " AS " ++ asName ∈ texts

namespace SelectItem

variable {item : SelectItem}

theorem isWritten_withoutDerived (item : SelectItem) (name : String) :
    item.withoutDerived.isWritten name = item.isWritten name := by
  cases item <;> rfl

theorem isAliased_withoutDerived (item : SelectItem) (name : String) :
    item.withoutDerived.isAliased name = item.isAliased name := by
  cases item <;> rfl

theorem isStar_withoutDerived (item : SelectItem) :
    item.withoutDerived.isStar = item.isStar := by
  cases item <;> rfl

theorem isStar_iff : item.isStar = true ↔ ∃ owner, item = star owner := by
  cases item <;> simp [isStar]

end SelectItem

namespace SortItem

variable {c : SelectClauses} {stem : String} {k : Nat} {items : List SortItem}

/-- The column of an item that the list does not show is among those derived, under the alias that
    the item gets. -/
theorem mem_unlistedColumns {i : Nat} {item : SortItem} {name : String}
    (hitem : items[i]? = some item) (hunlisted : item.isUnlisted c = true)
    (hname : item.qualifiedName? = some name) :
    (name, stem ++ toString (k + (items.take i).countP (·.isUnlisted c))) ∈
      unlistedColumns c stem k items := by
  induction items generalizing i k with
  | nil => simp at hitem
  | cons first items ih =>
    cases i with
    | zero =>
      obtain rfl : first = item := by simpa using hitem
      simp [unlistedColumns, hunlisted, hname]
    | succ i =>
      rw [List.getElem?_cons_succ] at hitem
      cases hfirst : first.isUnlisted c with
      | true =>
        obtain ⟨first', hfirst'⟩ := exists_qualifiedName hfirst
        have hmem := @ih (k + 1) i hitem
        simp only [unlistedColumns, List.filter_cons, hfirst, if_true, List.filterMap_cons, hfirst',
          List.zipIdx_cons, List.map_cons, List.take_succ_cons, List.countP_cons]
        refine List.mem_cons_of_mem _ ?_
        rwa [Nat.add_right_comm, Nat.add_assoc] at hmem
      | false =>
        have hmem := @ih k i hitem
        simpa [unlistedColumns, hfirst] using hmem

/-- An item that is renamed has been written, and its alias is new only if the list does not show
    it. -/
theorem Renames.exists_written {written : List SortItem} {item : SortItem}
    (h : Renames c stem written items) (hitem : item ∈ items) :
    ∃ (i : Nat) (w : SortItem), written[i]? = some w ∧
      (if w.isUnlisted c then
        { w with asName := some (stem ++ toString ((written.take i).countP (·.isUnlisted c))) }
      else w) = item := by
  obtain ⟨i, hi⟩ := List.mem_iff_getElem?.1 hitem
  have hwritten := h i
  rw [hi] at hwritten
  exact ⟨i, Option.map_eq_some_iff.1 hwritten.symm⟩

end SortItem

/-- Every derived column is marked. -/
theorem Body.Derives.exists_mark {read body : Body SelectClauses} (h : read.Derives body)
    {column : String × String} (hcolumn : column ∈ read.derivedColumns body) :
    ∃ start texts, Mark.items start texts ∈ body.marks ∧
      column.1 ++ " AS " ++ column.2 ∈ texts := by
  have hmarks := h.itemsMarks
  rw [if_neg (List.ne_nil_of_mem hcolumn)] at hmarks
  have hmem := (List.mem_filter.1 (hmarks ▸ List.mem_singleton_self _)).1
  exact ⟨_, _, hmem, List.mem_map.2 ⟨column, hcolumn, rfl⟩⟩

/-- The items to sort or group by are those that are written, with their columns among those that
    are derived. -/
structure Body.SortsBy (read body : Body SelectClauses) (stem : String)
    (written items : List SortItem) : Prop where
  renames : SortItem.Renames read.clauses stem written items
  aliased : ∀ item ∈ written, item.IsAliased read.clauses
  columns : ∀ column ∈ SortItem.unlistedColumns read.clauses stem 0 written,
    column ∈ read.derivedColumns body

namespace Body.SortsBy

variable {read body : Body SelectClauses} {stem : String} {written items : List SortItem}
  {item : SortItem}

/-- Without a star every item is shown, by the list or by a derived column. -/
theorem isShown {name : String} (h : SortsBy read body stem written items)
    (hderives : read.Derives body) (hstar : read.clauses.containsStar = false)
    (hitem : item ∈ items) (hname : item.qualifiedName? = some name) : item.IsShown body name := by
  obtain ⟨i, w, hw, heq⟩ := h.renames.exists_written hitem
  split at heq
  case isTrue hunlisted =>
    -- An item that the list does not show has got a column, which is marked.
    subst heq
    have hcolumn := h.columns _ (SortItem.mem_unlistedColumns hw hunlisted hname)
    obtain ⟨start, texts, hmark, htext⟩ := hderives.exists_mark hcolumn
    exact .inr ⟨_, start, texts, rfl, hmark, by simpa using htext⟩
  case isFalse hlisted =>
    -- Any other is shown by an item of the list as it was read, so by one of the derived select.
    subst heq
    have hany : (read.clauses.items.any fun listed =>
        listed.isWritten name || listed.isAliased name) = true := by
      simp only [SortItem.isUnlisted, hstar, hname, Option.any_some] at hlisted
      exact eq_true_of_ne_false fun hnone => hlisted (by rw [hnone]; rfl)
    obtain ⟨shown, hmem, hshown⟩ := List.any_eq_true.1 hany
    rw [← hderives.items] at hmem
    obtain ⟨listed, hlisted, rfl⟩ := List.mem_map.1 hmem
    rw [SelectItem.isWritten_withoutDerived, SelectItem.isAliased_withoutDerived,
      Bool.or_eq_true] at hshown
    exact .inl ⟨listed, hlisted, hshown⟩

/-- With a star no item has an alias. -/
theorem asName_eq_none (h : SortsBy read body stem written items)
    (hstar : read.clauses.containsStar = true) (hitem : item ∈ items) : item.asName = none := by
  obtain ⟨i, w, hw, heq⟩ := h.renames.exists_written hitem
  have hlisted : w.isUnlisted read.clauses = false := by simp [SortItem.isUnlisted, hstar]
  rw [hlisted] at heq
  obtain rfl : w = item := heq
  rw [h.aliased w (List.mem_of_getElem? hw)]
  cases w.qualifiedName? <;> simp [SelectClauses.aliasFor?, hstar]

end Body.SortsBy

/-- *Sort keys.* If the select list has no star, every key to sort or group by is shown: by the list,
    or by a derived column. If it has one, of whatever tables, no item to sort or group by has an
    alias, and so none has a derived column. -/
theorem parse_sortKeys {database : Database} {d : Dialect} {text : String}
    {body : Body SelectClauses} (h : Statement.parse database d text = .ok (.select body))
    {item : SortItem} (hitem : item ∈ body.clauses.orderBy ++ body.clauses.groupBy) :
    ((∀ owner, SelectItem.star owner ∉ body.clauses.items) →
      ∀ name, item.qualifiedName? = some name → item.IsShown body name) ∧
    ((∃ owner, SelectItem.star owner ∈ body.clauses.items) → item.asName = none) := by
  obtain ⟨read, _, hread, hderives⟩ := parse_derived h
  have hstar : read.clauses.containsStar = true ↔
      ∃ owner, SelectItem.star owner ∈ body.clauses.items := by
    rw [hread.containsStar, ← hderives.items, List.any_map]
    simp [SelectItem.isStar_withoutDerived, SelectItem.isStar_iff]
  have hgrouped : read.SortsBy body "GROUP_BY_DERIVED_" read.clauses.groupBy
      body.clauses.groupBy :=
    ⟨hderives.groupBy, hread.groupBy, fun column hcolumn => by
      simp [Body.derivedColumns, hcolumn]⟩
  have hkeys : ∃ stem written items, read.SortsBy body stem written items ∧ item ∈ items := by
    rcases List.mem_append.1 hitem with horder | hgroup
    · by_cases hnil : read.clauses.orderBy = []
      · -- A select that does not sort is sorted by its groups.
        exact ⟨_, _, _, hgrouped, hderives.orderBy_eq hnil ▸ horder⟩
      · exact ⟨_, _, _, ⟨hderives.orderBy hnil, hread.orderBy, fun column hcolumn => by
          simp [Body.derivedColumns, hcolumn]⟩, horder⟩
    · exact ⟨_, _, _, hgrouped, hgroup⟩
  obtain ⟨stem, written, items, hsorts, hmem⟩ := hkeys
  refine ⟨fun hnone name hname => hsorts.isShown hderives ?_ hmem hname,
    fun hsome => hsorts.asName_eq_none (hstar.2 hsome) hmem⟩
  exact Bool.eq_false_iff.2 fun hcontains => (hstar.1 hcontains).elim hnone

/-- A column is derived for the key of another table than the list names. -/
theorem parse_sortKeys_join :
    ∃ body, Statement.parse .mySql .mySql "SELECT o.a FROM o JOIN i ON o.a = i.a ORDER BY i.b" =
        .ok (.select body) ∧
      ∃ item ∈ body.clauses.orderBy ++ body.clauses.groupBy,
        item.qualifiedName? = some "i.b" ∧ (∀ owner, SelectItem.star owner ∉ body.clauses.items) ∧
        item.IsShown body "i.b" := by
  have hparse : Statement.parse .mySql .mySql
      "SELECT o.a FROM o JOIN i ON o.a = i.a ORDER BY i.b" = .ok (.select {
        tables := ⟨[⟨"o", none⟩, ⟨"i", none⟩]⟩
        marks := [.table 7 "o", .items 11 ["i.b AS ORDER_BY_DERIVED_0"], .table 16 "o",
          .table 23 "i", .table 28 "o", .table 34 "i", .table 47 "i"]
        clauses := {
          selectListStop := 11
          items := [.plain "o.a" none]
          orderBy := [⟨.column (some "i") "b", .ascending, .ascending,
            some "ORDER_BY_DERIVED_0"⟩] } }) := by decide +kernel
  have hnone : ∀ owner, SelectItem.star owner ∉ [SelectItem.plain "o.a" none] := by simp
  exact ⟨_, hparse, _, List.mem_cons_self .., by decide, hnone,
    (parse_sortKeys hparse (List.mem_cons_self ..)).1 hnone "i.b" (by decide)⟩

/-- Beside the star of one table no column is derived for the key of another. -/
theorem sortKey_beside_star :
    ∃ body, Statement.parse .mySql .mySql "SELECT o.* FROM o JOIN i ON o.a = i.a ORDER BY i.b" =
        .ok (.select body) ∧
      SelectItem.star none ∉ body.clauses.items ∧
      (∀ owner, SelectItem.star (some owner) ∈ body.clauses.items →
        Text.sameLetters owner "i" = false) ∧
      ∃ item ∈ body.clauses.orderBy, item.key = .column (some "i") "b" ∧
        ¬item.IsShown body "i.b" := by
  refine ⟨{
    tables := ⟨[⟨"o", none⟩, ⟨"i", none⟩]⟩
    marks := [.table 7 "o", .table 16 "o", .table 23 "i", .table 28 "o", .table 34 "i",
      .table 47 "i"]
    clauses := {
      containsStar := true
      selectListStop := 11
      items := [.star (some "o")]
      orderBy := [⟨.column (some "i") "b", .ascending, .ascending, none⟩] } },
    by decide +kernel, by decide, ?_, _, List.mem_singleton_self _, rfl, ?_⟩
  · rintro owner howner
    obtain rfl : owner = "o" := by simpa using howner
    decide
  · rintro (⟨listed, hlisted, hshown⟩ | ⟨asName, start, texts, hasName, _⟩)
    · obtain rfl := List.mem_singleton.1 hlisted
      revert hshown
      decide
    · cases hasName

end SqlRouting
