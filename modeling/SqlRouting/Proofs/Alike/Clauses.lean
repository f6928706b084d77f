import SqlRouting.Grammar.Statement
import SqlRouting.Proofs.Alike

/-!
# Clauses that are alike

The clauses of statements that two alike runs read. A select needs most care: its derived columns
depend on whether an item of the list is a column that is sorted by, which is found out by comparing
pieces of the text. All these comparisons disregard case, so they cannot tell alike pieces apart.
-/

namespace SqlRouting

variable {P : Pairing}

/-- Names that may be missing, alike in the two runs where they are the same. -/
theorem Text.Alike.rel_eq {a a' : Option String} (h : Option.Rel (Text.Alike P) a a')
    (hP : P.Exact) : a = a' := by
  cases h with
  | none => rfl
  | some h => rw [Text.Alike.eq h hP.fold]

/-- Lists whose items are alike are the same if alike items are. -/
theorem eq_of_forall₂ {α : Type} {R : α → α → Prop} {as bs : List α} (h : List.Forall₂ R as bs)
    (hR : ∀ a b, R a b → a = b) : as = bs := by
  simpa using List.Forall₂.imp hR h

/-! ## Select items -/

/-- The two calls are of the same function, with alike arguments and aliases. -/
structure Aggregation.Alike (P : Pairing) (a b : Aggregation) : Prop where
  function : a.function = b.function
  inner : Text.Alike P a.inner b.inner
  asName : Option.Rel (Text.Alike P) a.asName b.asName

namespace Aggregation.Alike

variable {a b : Aggregation}

theorem expression (h : a.Alike P b) : Text.Alike P a.expression b.expression := by
  rw [Aggregation.expression, Aggregation.expression, h.function]
  exact (Text.Alike.refl _).append h.inner

theorem label (h : a.Alike P b) : Text.Alike P a.label b.label := by
  rw [Aggregation.label, Aggregation.label]
  rcases rel_cases h.asName with ⟨ha, hb⟩ | ⟨_, _, ha, hb, hname⟩
  · rw [ha, hb]
    exact h.expression
  · rw [ha, hb]
    exact hname

theorem eq (h : a.Alike P b) (hP : P.Exact) : a = b := by
  obtain ⟨function, inner, asName⟩ := a
  obtain ⟨function', inner', asName'⟩ := b
  obtain rfl : function = function' := h.function
  obtain rfl : inner = inner' := h.inner.eq hP.fold
  obtain rfl : asName = asName' := Text.Alike.rel_eq h.asName hP
  rfl

end Aggregation.Alike

/-- The two items are of the same shape, with alike texts. -/
inductive SelectItem.Alike (P : Pairing) : SelectItem → SelectItem → Prop where
  | star {owner owner' : Option String} :
    Option.Rel (Text.Alike P) owner owner' → Alike P (.star owner) (.star owner')
  | aggregation {call call' : Aggregation} {derived derived' : List Aggregation} :
    call.Alike P call' → List.Forall₂ (Aggregation.Alike P) derived derived' →
      Alike P (.aggregation call derived) (.aggregation call' derived')
  | plain {expression expression' : String} {asName asName' : Option String} :
    Text.Alike P expression expression' → Option.Rel (Text.Alike P) asName asName' →
      Alike P (.plain expression asName) (.plain expression' asName')

namespace SelectItem.Alike

variable {item item' : SelectItem}

theorem expression (h : item.Alike P item') :
    Text.Alike P item.expression item'.expression := by
  cases h with
  | star howner =>
    cases howner with
    | none => exact .refl _
    | some howner => exact Text.Alike.append howner (.refl _)
  | aggregation hcall => exact hcall.expression
  | plain hexpression => exact hexpression

theorem asName? (h : item.Alike P item') :
    Option.Rel (Text.Alike P) item.asName? item'.asName? := by
  cases h with
  | star => exact .none
  | aggregation hcall => exact hcall.asName
  | plain _ hname => exact hname

theorem isWritten_eq (h : item.Alike P item') {name name' : String}
    (hname : Text.Alike P name name') : item.isWritten name = item'.isWritten name' :=
  h.expression.sameLetters_eq hname

theorem isAliased_eq (h : item.Alike P item') {name name' : String}
    (hname : Text.Alike P name name') : item.isAliased name = item'.isAliased name' :=
  Text.Alike.any_sameLetters_eq h.asName? hname

theorem eq (h : item.Alike P item') (hP : P.Exact) : item = item' := by
  cases h with
  | star howner => rw [Text.Alike.rel_eq howner hP]
  | aggregation hcall hderived =>
    rw [hcall.eq hP, eq_of_forall₂ hderived fun _ _ h => h.eq hP]
  | plain hexpression hname => rw [hexpression.eq hP.fold, Text.Alike.rel_eq hname hP]

end SelectItem.Alike

/-! ## Sort items -/

/-- The two keys are the same position, or columns with alike owners and names. -/
inductive SortKey.Alike (P : Pairing) : SortKey → SortKey → Prop where
  | column {owner owner' : Option String} {name name' : String} :
    Option.Rel (Text.Alike P) owner owner' → Text.Alike P name name' →
      Alike P (.column owner name) (.column owner' name')
  | position (index : Nat) : Alike P (.position index) (.position index)

theorem SortKey.Alike.qualifiedName? {key key' : SortKey} (h : key.Alike P key') :
    Option.Rel (Text.Alike P) key.qualifiedName? key'.qualifiedName? := by
  cases h with
  | position => exact .none
  | column howner hname =>
    cases howner with
    | none => exact .some hname
    | some howner => exact .some ((Text.Alike.append howner (.refl ".")).append hname)

theorem SortKey.Alike.eq {key key' : SortKey} (h : key.Alike P key') (hP : P.Exact) :
    key = key' := by
  cases h with
  | position => rfl
  | column howner hname => rw [Text.Alike.rel_eq howner hP, hname.eq hP.fold]

/-- The two items sort in the same way by alike keys, under alike aliases. -/
structure SortItem.Alike (P : Pairing) (item item' : SortItem) : Prop where
  key : item.key.Alike P item'.key
  direction : item.direction = item'.direction
  nulls : item.nulls = item'.nulls
  asName : Option.Rel (Text.Alike P) item.asName item'.asName

theorem SortItem.Alike.qualifiedName? {item item' : SortItem} (h : item.Alike P item') :
    Option.Rel (Text.Alike P) item.qualifiedName? item'.qualifiedName? :=
  h.key.qualifiedName?

theorem SortItem.Alike.eq {item item' : SortItem} (h : item.Alike P item') (hP : P.Exact) :
    item = item' := by
  obtain ⟨key, direction, nulls, asName⟩ := item
  obtain ⟨key', direction', nulls', asName'⟩ := item'
  obtain rfl : key = key' := h.key.eq hP
  obtain rfl : direction = direction' := h.direction
  obtain rfl : nulls = nulls' := h.nulls
  obtain rfl : asName = asName' := Text.Alike.rel_eq h.asName hP
  rfl

/-! ## Clauses by kind -/

/-- The two selects have alike clauses, at the same places. -/
structure SelectClauses.Alike (P : Pairing) (s s' : SelectClauses) : Prop where
  containsStar : s.containsStar = s'.containsStar
  selectListStop : s.selectListStop = s'.selectListStop
  groupByStop : s.groupByStop = s'.groupByStop
  items : List.Forall₂ (SelectItem.Alike P) s.items s'.items
  groupBy : List.Forall₂ (SortItem.Alike P) s.groupBy s'.groupBy
  orderBy : List.Forall₂ (SortItem.Alike P) s.orderBy s'.orderBy
  limit : s.limit = s'.limit

theorem SelectClauses.Alike.eq {s s' : SelectClauses} (h : s.Alike P s') (hP : P.Exact) :
    s = s' := by
  have hsort {as bs : List SortItem} (h : List.Forall₂ (SortItem.Alike P) as bs) : as = bs :=
    eq_of_forall₂ h fun _ _ h => h.eq hP
  obtain ⟨containsStar, selectListStop, groupByStop, items, groupBy, orderBy, limit⟩ := s
  obtain ⟨containsStar', selectListStop', groupByStop', items', groupBy', orderBy', limit'⟩ := s'
  obtain rfl : containsStar = containsStar' := h.containsStar
  obtain rfl : selectListStop = selectListStop' := h.selectListStop
  obtain rfl : groupByStop = groupByStop' := h.groupByStop
  obtain rfl : items = items' := eq_of_forall₂ h.items fun _ _ h => h.eq hP
  obtain rfl : groupBy = groupBy' := hsort h.groupBy
  obtain rfl : orderBy = orderBy' := hsort h.orderBy
  obtain rfl : limit = limit' := h.limit
  rfl

/-- The two rows have alike texts, and they say the same about their columns if names are the
    same. -/
structure InsertedRow.Alike (P : Pairing) (row row' : InsertedRow) : Prop where
  keyword : row.keyword = row'.keyword
  text : Text.Alike P row.text row'.text
  parameters : row.parameters = row'.parameters
  conditions : P.names → row.conditions = row'.conditions

theorem InsertedRow.Alike.eq {row row' : InsertedRow} (h : row.Alike P row') (hP : P.Exact) :
    row = row' := by
  obtain ⟨keyword, text, parameters, conditions⟩ := row
  obtain ⟨keyword', text', parameters', conditions'⟩ := row'
  obtain rfl : keyword = keyword' := h.keyword
  obtain rfl : text = text' := h.text.eq hP.fold
  obtain rfl : parameters = parameters' := h.parameters
  obtain rfl : conditions = conditions' := h.conditions hP.names
  rfl

/-- The two inserts have alike columns and rows, at the same places. -/
structure InsertClauses.Alike (P : Pairing) (i i' : InsertClauses) : Prop where
  columns : List.Forall₂ (Column.Alike P) i.columns i'.columns
  rows : List.Forall₂ (InsertedRow.Alike P) i.rows i'.rows
  columnsStop : i.columnsStop = i'.columnsStop
  rowsStop : i.rowsStop = i'.rowsStop
  duplicateKeyColumns : List.Forall₂ (Column.Alike P) i.duplicateKeyColumns i'.duplicateKeyColumns

theorem InsertClauses.Alike.eq {i i' : InsertClauses} (h : i.Alike P i') (hP : P.Exact) :
    i = i' := by
  have hcolumns {as bs : List Column} (h : List.Forall₂ (Column.Alike P) as bs) : as = bs :=
    eq_of_forall₂ h fun _ _ h => h.eq hP.names
  obtain ⟨columns, rows, columnsStop, rowsStop, duplicateKeyColumns⟩ := i
  obtain ⟨columns', rows', columnsStop', rowsStop', duplicateKeyColumns'⟩ := i'
  obtain rfl : columns = columns' := hcolumns h.columns
  obtain rfl : rows = rows' := eq_of_forall₂ h.rows fun _ _ h => h.eq hP
  obtain rfl : columnsStop = columnsStop' := h.columnsStop
  obtain rfl : rowsStop = rowsStop' := h.rowsStop
  obtain rfl : duplicateKeyColumns = duplicateKeyColumns' := hcolumns h.duplicateKeyColumns
  rfl

/-- The two assignments have alike columns and values. -/
def Assignment.Alike (P : Pairing) (a b : Column × Expression) : Prop :=
  a.1.Alike P b.1 ∧ a.2.Alike P b.2

/-- The two updates have alike assignments. -/
structure UpdateClauses.Alike (P : Pairing) (u u' : UpdateClauses) : Prop where
  assignments : List.Forall₂ (Assignment.Alike P) u.assignments u'.assignments

theorem UpdateClauses.Alike.eq {u u' : UpdateClauses} (h : u.Alike P u') (hP : P.Exact) :
    u = u' := by
  obtain ⟨assignments⟩ := u
  obtain ⟨assignments'⟩ := u'
  have heq : assignments = assignments' :=
    eq_of_forall₂ h.assignments fun _ _ h => Prod.ext (h.1.eq hP.names) (h.2.eq hP)
  rw [heq]

/-! ## Statements -/

/-- The two bodies have alike routing parts and clauses. -/
structure Body.Alike {κ : Type} (P : Pairing) (C : κ → κ → Prop) (b b' : Body κ) : Prop where
  routing : b.toRouting.Alike P b'.toRouting
  clauses : C b.clauses b'.clauses

theorem Body.Alike.eq {κ : Type} {C : κ → κ → Prop} {b b' : Body κ} (h : b.Alike P C b')
    (hP : P.Exact) (hC : ∀ s s', C s s' → s = s') : b = b' := by
  obtain ⟨routing, clauses⟩ := b
  obtain ⟨routing', clauses'⟩ := b'
  obtain rfl : routing = routing' := h.routing.eq hP
  obtain rfl : clauses = clauses' := hC _ _ h.clauses
  rfl

/-- The two statements are of the same kind and alike. -/
inductive Statement.Alike (P : Pairing) : Statement → Statement → Prop where
  | select {b b' : Body SelectClauses} :
    b.Alike P (SelectClauses.Alike P) b' → Alike P (.select b) (.select b')
  | insert {b b' : Body InsertClauses} :
    b.Alike P (InsertClauses.Alike P) b' → Alike P (.insert b) (.insert b')
  | update {b b' : Body UpdateClauses} :
    b.Alike P (UpdateClauses.Alike P) b' → Alike P (.update b) (.update b')
  | delete {b b' : Body DeleteClauses} : b.Alike P Eq b' → Alike P (.delete b) (.delete b')

namespace Statement.Alike

variable {s s' : Statement}

theorem routing (h : s.Alike P s') : s.routing.Alike P s'.routing := by
  cases h with
  | select hb | insert hb | update hb | delete hb => exact hb.routing

theorem keyword_eq (h : s.Alike P s') : s.keyword = s'.keyword := by
  cases h <;> rfl

theorem limit?_eq (h : s.Alike P s') : s.limit? = s'.limit? := by
  cases h with
  | select hb => exact hb.clauses.limit
  | insert | update | delete => rfl

theorem eq (h : s.Alike P s') (hP : P.Exact) : s = s' := by
  cases h with
  | select hb => rw [hb.eq hP fun _ _ hC => hC.eq hP]
  | insert hb => rw [hb.eq hP fun _ _ hC => hC.eq hP]
  | update hb => rw [hb.eq hP fun _ _ hC => hC.eq hP]
  | delete hb => rw [hb.eq hP fun _ _ hC => hC]

end Statement.Alike

/-! ## The aliases of sort items -/

/-- The alias under which a name is found in the select list. -/
theorem SelectClauses.Alike.aliasFor? {s s' : SelectClauses} (h : s.Alike P s')
    {name name' : String} (hname : Text.Alike P name name') :
    Option.Rel (Text.Alike P) (s.aliasFor? name) (s'.aliasFor? name') := by
  rw [SelectClauses.aliasFor?, SelectClauses.aliasFor?, h.containsStar]
  split
  · exact .none
  have hfind := forall₂_find? h.items
    (p := fun item => item.isWritten name || item.isAliased name)
    (q := fun item => item.isWritten name' || item.isAliased name')
    fun _ _ hitem => by rw [hitem.isWritten_eq hname, hitem.isAliased_eq hname]
  generalize s.items.find? _ = found at hfind ⊢
  generalize s'.items.find? _ = found' at hfind ⊢
  cases hfind with
  | none => exact .none
  | some hitem =>
    simp only [Option.bind_some, hitem.isWritten_eq hname]
    split
    · exact hitem.asName?
    · exact .some hname

/-! ## Derived columns -/

theorem derivedText_alike {expression expression' asName asName' : String}
    (h : Text.Alike P expression expression') (hname : Text.Alike P asName asName') :
    Text.Alike P (derivedText expression asName) (derivedText expression' asName') :=
  (h.append (.refl " AS ")).append hname

namespace SelectItem

theorem averageParts_alike (k : Nat) {inner inner' : String} (h : Text.Alike P inner inner') :
    List.Forall₂ (Aggregation.Alike P) (averageParts k inner) (averageParts k inner') :=
  .cons ⟨rfl, h, .some (.refl _)⟩ (.cons ⟨rfl, h, .some (.refl _)⟩ .nil)

/-- The items up to the next average are passed over, so the cases are those of the items rather
    than those of the recursion. -/
theorem deriveAverages_alike {items items' : List SelectItem}
    (h : List.Forall₂ (SelectItem.Alike P) items items') (k : Nat) :
    List.Forall₂ (SelectItem.Alike P) (deriveAverages k items) (deriveAverages k items') := by
  induction h generalizing k with
  | nil => exact .nil
  | cons hitem _ ih =>
    cases hitem with
    | star howner => exact .cons (.star howner) (ih k)
    | plain hexpression hname => exact .cons (.plain hexpression hname) (ih k)
    | @aggregation call call' derived derived' hcall hderived =>
      obtain ⟨function, inner, asName⟩ := call
      obtain ⟨function', inner', asName'⟩ := call'
      obtain rfl : function = function' := hcall.function
      cases function with
      | avg =>
        exact .cons (.aggregation hcall (List.rel_append hderived
          (averageParts_alike k hcall.inner))) (ih (k + 1))
      | max | min | sum | count => exact .cons (.aggregation hcall hderived) (ih k)

theorem derivedTexts_alike {item item' : SelectItem} (h : item.Alike P item') :
    List.Forall₂ (Text.Alike P) item.derivedTexts item'.derivedTexts := by
  cases h with
  | star => exact .nil
  | plain => exact .nil
  | aggregation _ hderived =>
    exact List.rel_map (fun _ _ hd => derivedText_alike hd.expression hd.label) hderived

theorem holds_eq {item item' : SelectItem} (h : item.Alike P item') {sort sort' : SortItem}
    (hsort : sort.Alike P sort') : item.holds sort = item'.holds sort' := by
  rw [holds, holds]
  rcases rel_cases h.asName? with ⟨ha, hb⟩ | ⟨_, _, ha, hb, hname⟩
  · rw [ha, hb]
    rcases rel_cases hsort.qualifiedName? with ⟨hk, hl⟩ | ⟨_, _, hk, hl, hkey⟩
    · rw [hk, hl]
      rfl
    · rw [hk, hl]
      exact h.isWritten_eq hkey
  · rw [ha, hb]
    rcases rel_cases hsort.asName with ⟨hk, hl⟩ | ⟨_, _, hk, hl, hsortName⟩
    · rw [hk, hl]
    · rw [hk, hl]
      exact hname.sameLetters_eq hsortName

end SelectItem

namespace SortItem

theorem isMissing_eq {s s' : SelectClauses} (hs : s.Alike P s') {item item' : SortItem}
    (h : item.Alike P item') : item.isMissing s = item'.isMissing s' := by
  have hholds : (s.items.any (·.holds item)) = s'.items.any (·.holds item') :=
    forall₂_any_eq hs.items fun _ _ hitem => SelectItem.holds_eq hitem h
  rw [isMissing, isMissing, hholds, hs.containsStar]
  rcases rel_cases h.qualifiedName? with ⟨hk, hl⟩ | ⟨_, _, hk, hl, _⟩ <;> rw [hk, hl]
  rfl

theorem deriveMissing_alike {s s' : SelectClauses} (hs : s.Alike P s') (stem : String)
    {items items' : List SortItem} (h : List.Forall₂ (SortItem.Alike P) items items') (k : Nat) :
    List.Forall₂ (SortItem.Alike P) (deriveMissing s stem k items).1
        (deriveMissing s' stem k items').1 ∧
      List.Forall₂ (Text.Alike P) (deriveMissing s stem k items).2
        (deriveMissing s' stem k items').2 := by
  induction h generalizing k with
  | nil => exact ⟨.nil, .nil⟩
  | @cons item item' items items' hitem _ ih =>
    have hkept : List.Forall₂ (SortItem.Alike P) (item :: (deriveMissing s stem k items).1)
        (item' :: (deriveMissing s' stem k items').1) := .cons hitem (ih k).1
    rw [deriveMissing, deriveMissing, isMissing_eq hs hitem]
    rcases rel_cases hitem.qualifiedName? with ⟨hk, hl⟩ | ⟨_, _, hk, hl, hname⟩
    · rw [hk, hl]
      exact ⟨hkept, (ih k).2⟩
    · rw [hk, hl]
      dsimp only
      split
      case isTrue =>
        exact ⟨.cons ⟨hitem.key, hitem.direction, hitem.nulls, .some (.refl _)⟩ (ih (k + 1)).1,
          .cons (derivedText_alike hname (.refl _)) (ih (k + 1)).2⟩
      case isFalse => exact ⟨hkept, (ih k).2⟩

end SortItem

namespace Body

variable {b b' : Body SelectClauses}

theorem deriveColumns_alike (h : b.Alike P (SelectClauses.Alike P) b') :
    b.deriveColumns.Alike P (SelectClauses.Alike P) b'.deriveColumns := by
  have hitems := SelectItem.deriveAverages_alike h.clauses.items 0
  have horder := SortItem.deriveMissing_alike h.clauses "ORDER_BY_DERIVED_" h.clauses.orderBy 0
  have hgroup := SortItem.deriveMissing_alike h.clauses "GROUP_BY_DERIVED_" h.clauses.groupBy 0
  have haverages := List.rel_flatMap hitems fun _ _ hitem => SelectItem.derivedTexts_alike hitem
  have htexts := List.rel_append (List.rel_append haverages horder.2) hgroup.2
  refine ⟨⟨h.routing.tables, h.routing.conditions, ?_, h.routing.parameters⟩,
    ⟨h.clauses.containsStar, h.clauses.selectListStop, h.clauses.groupByStop, hitems, hgroup.1,
      horder.1, h.clauses.limit⟩⟩
  dsimp only [deriveColumns]
  rw [forall₂_isEmpty_eq htexts, h.clauses.selectListStop]
  split
  · exact h.routing.marks
  · exact Mark.Alike.insert (.items _ htexts) h.routing.marks

theorem deriveOrder_alike (h : b.Alike P (SelectClauses.Alike P) b') :
    b.deriveOrder.Alike P (SelectClauses.Alike P) b'.deriveOrder := by
  rw [deriveOrder, deriveOrder, forall₂_isEmpty_eq h.clauses.groupBy,
    forall₂_isEmpty_eq h.clauses.orderBy, h.clauses.groupByStop]
  split
  · exact h
  · exact ⟨⟨h.routing.tables, h.routing.conditions, Mark.Alike.insert (.refl _) h.routing.marks,
      h.routing.parameters⟩, ⟨h.clauses.containsStar, h.clauses.selectListStop,
      h.clauses.groupByStop, h.clauses.items, h.clauses.groupBy, h.clauses.groupBy,
      h.clauses.limit⟩⟩

end Body

end SqlRouting
