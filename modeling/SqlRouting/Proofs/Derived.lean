import Mathlib.Data.List.Nodup
import SqlRouting.Proofs.Clauses
import SqlRouting.Proofs.Growth
import SqlRouting.Proofs.Listed
import SqlRouting.Select.Derived

/-!
# What is derived from a select

To merge the results of several shards, a select is given columns that it does not list: the count
and the sum behind each average, and the columns that it sorts or groups by. Whether the list shows
such a column is found out twice, by different means: first the item takes over the alias under
which the list shows it, later the list is searched for an item with this alias. The two agree
(`SortItem.isMissing_eq_isUnlisted`). So exactly the columns are derived that the list does not
show, and each can be told by its alias (`parse_derived`).

But a star is taken to show all columns, even if it is that of one table alone: then nothing is
derived, and an item to sort by may not be in the list at all (`parse_sortKeys`).
-/

namespace SqlRouting

/-! ## Aliases -/

/-- Names of one stem are told apart by their numbers. -/
theorem stem_injective (stem : String) : Function.Injective fun n : Nat => stem ++ toString n := by
  intro m n h
  have hdigits : (toString m).toList = (toString n).toList := by
    simpa using congrArg String.toList h
  rw [Nat.toString_eq_repr, Nat.toString_eq_repr, Nat.toList_repr, Nat.toList_repr] at hdigits
  simpa using congrArg (Nat.ofDigitChars 10 · 0) hdigits

namespace SelectItem

/-- The item is an average. -/
def isAverage : SelectItem → Bool
  | aggregation call _ => call.function = .avg
  | star _ | plain _ _ => false

/-- The item without what has been derived from it. -/
def withoutDerived : SelectItem → SelectItem
  | aggregation call _ => aggregation call []
  | star owner => star owner
  | plain expression asName => plain expression asName

/-- The item with the parts that it needs if it is an average, `k` averages having come before. -/
def withParts (k : Nat) : SelectItem → SelectItem
  | aggregation call derived =>
    aggregation call (if call.function = .avg then derived ++ averageParts k call.inner else derived)
  | star owner => star owner
  | plain expression asName => plain expression asName

theorem deriveAverages_cons (k : Nat) (item : SelectItem) (items : List SelectItem) :
    deriveAverages k (item :: items) =
      item.withParts k :: deriveAverages (if item.isAverage then k + 1 else k) items := by
  cases item with
  | aggregation call derived =>
    obtain ⟨function, inner, asName⟩ := call
    cases function <;> simp [deriveAverages, withParts, isAverage]
  | star owner => rfl
  | plain expression asName => rfl

end SelectItem

namespace SortItem

/-- The key of the item is a column, and the select list does not show it: there is no star in the
    list, and no item that is written like the column or has it for an alias. -/
def isUnlisted (c : SelectClauses) (item : SortItem) : Bool :=
  !c.containsStar && item.qualifiedName?.any fun name =>
    !c.items.any fun listed => listed.isWritten name || listed.isAliased name

variable {c : SelectClauses} {item : SortItem} {name : String}

/-- Looking for the alias under which the list shows a key, and then for the item with this alias,
    finds the key exactly if the list shows it. -/
theorem any_holds (hname : item.qualifiedName? = some name) (h : item.IsAliased c)
    (hstar : c.containsStar = false) : c.items.any (·.holds item) =
      c.items.any fun listed => listed.isWritten name || listed.isAliased name := by
  have hasName : item.asName = (c.items.find? fun listed => listed.isWritten name ||
      listed.isAliased name).bind fun listed =>
        if listed.isWritten name then listed.asName? else some name := by
    rw [h, hname, Option.bind_some, SelectClauses.aliasFor?, hstar]
    rfl
  cases hfound : c.items.find? fun listed => listed.isWritten name || listed.isAliased name with
  | none =>
    -- The key has no alias, so only an item that is written like it could hold it.
    rw [hfound, Option.bind_none] at hasName
    rw [List.find?_eq_none] at hfound
    have hnone : ∀ listed ∈ c.items, listed.holds item = false := by
      intro listed hlisted
      have hnot := hfound listed hlisted
      simp only [Bool.or_eq_true, not_or, Bool.not_eq_true] at hnot
      cases hlisted : listed.asName? with
      | some asName => simp [SelectItem.holds, hlisted, hasName]
      | none => simp [SelectItem.holds, hlisted, hname, hnot.1]
    rw [List.any_eq_false.2 (by simpa using hnone), List.any_eq_false.2 hfound]
  | some listed =>
    have hmem := List.mem_of_find?_eq_some hfound
    have hshown := List.find?_some hfound
    rw [hfound, Option.bind_some] at hasName
    have hholds : listed.holds item = true := by
      split at hasName
      case isTrue hwritten =>
        cases hlisted : listed.asName? with
        | some asName => simp [SelectItem.holds, hlisted, hasName, Text.sameLetters_self]
        | none => simp [SelectItem.holds, hlisted, hname, hwritten]
      case isFalse hwritten =>
        rw [Bool.or_eq_true] at hshown
        obtain ⟨asName, hlisted, hsame⟩ :=
          (Option.any_eq_true _ _).1 (hshown.resolve_left hwritten)
        simp [SelectItem.holds, hlisted, hasName, hsame]
    rw [List.any_eq_true.2 ⟨listed, hmem, hholds⟩, List.any_eq_true.2 ⟨listed, hmem, hshown⟩]

/-- The two ways to look for a key agree on whether its column has to be derived. -/
theorem isMissing_eq_isUnlisted (h : item.IsAliased c) : item.isMissing c = item.isUnlisted c := by
  cases hname : item.qualifiedName? with
  | none => simp [isMissing, isUnlisted, hname]
  | some name =>
    cases hstar : c.containsStar with
    | true => simp [isMissing, isUnlisted, hstar]
    | false =>
      have hholds := any_holds hname h hstar
      simp [isMissing, isUnlisted, hstar, hname, hholds]

/-- The columns of the items that the list does not show, each with an alias made of a stem and a
    number. -/
def unlistedColumns (c : SelectClauses) (stem : String) (k : Nat) (items : List SortItem) :
    List (String × String) :=
  (((items.filter (·.isUnlisted c)).filterMap (·.qualifiedName?)).zipIdx k).map fun (name, n) =>
    (name, stem ++ toString n)

variable {stem : String} {k : Nat} {items : List SortItem}

theorem exists_qualifiedName (h : item.isUnlisted c = true) :
    ∃ name, item.qualifiedName? = some name := by
  rw [isUnlisted, Bool.and_eq_true] at h
  obtain ⟨name, hname, _⟩ := (Option.any_eq_true _ _).1 h.2
  exact ⟨name, hname⟩

theorem deriveMissing_of_unlisted (stem : String) (k : Nat) (items : List SortItem)
    (h : item.IsAliased c) (hunlisted : item.isUnlisted c = true) :
    ∃ name, item.qualifiedName? = some name ∧ deriveMissing c stem k (item :: items) =
      ({ item with asName := some (stem ++ toString k) } ::
          (deriveMissing c stem (k + 1) items).1,
        derivedText name (stem ++ toString k) :: (deriveMissing c stem (k + 1) items).2) := by
  have hmissing := (isMissing_eq_isUnlisted h).trans hunlisted
  obtain ⟨name, hname⟩ := exists_qualifiedName hunlisted
  exact ⟨name, hname, by simp [deriveMissing, hname, hmissing]⟩

theorem deriveMissing_of_listed (h : item.IsAliased c) (hlisted : item.isUnlisted c = false) :
    deriveMissing c stem k (item :: items) =
      (item :: (deriveMissing c stem k items).1, (deriveMissing c stem k items).2) := by
  have hpresent := (isMissing_eq_isUnlisted h).trans hlisted
  cases hname : item.qualifiedName? with
  | none => simp [deriveMissing, hname]
  | some name => simp [deriveMissing, hname, hpresent]

/-- The items that the list does not show are numbered; all others keep their aliases. -/
theorem getElem?_deriveMissing (h : ∀ item ∈ items, item.IsAliased c) (i : Nat) :
    (deriveMissing c stem k items).1[i]? = items[i]?.map fun item =>
      if item.isUnlisted c then
        { item with
          asName := some (stem ++ toString (k + (items.take i).countP (·.isUnlisted c))) }
      else item := by
  induction items generalizing k i with
  | nil => simp [deriveMissing]
  | cons first items ih =>
    have hrest := fun item hitem => h item (List.mem_cons_of_mem first hitem)
    have hfirst := h first (List.mem_cons_self ..)
    cases hunlisted : first.isUnlisted c with
    | true =>
      -- The numbers of the items behind this one start one higher.
      obtain ⟨name, _, heq⟩ := deriveMissing_of_unlisted stem k items hfirst hunlisted
      rw [heq]
      cases i with
      | zero => simp [hunlisted]
      | succ i => simp [ih hrest, hunlisted, Nat.add_assoc, Nat.add_comm 1]
    | false =>
      rw [deriveMissing_of_listed hfirst hunlisted]
      cases i with
      | zero => simp [hunlisted]
      | succ i => simp [ih hrest, hunlisted]

theorem deriveMissing_eq_nil : (deriveMissing c stem k items).1 = [] ↔ items = [] := by
  cases items with
  | nil => simp [deriveMissing]
  | cons item items =>
    rw [deriveMissing]
    split
    · split <;> simp
    · simp

/-- The texts are those of the columns that the list does not show. -/
theorem deriveMissing_texts (h : ∀ item ∈ items, item.IsAliased c) :
    (deriveMissing c stem k items).2 =
      (unlistedColumns c stem k items).map fun (name, asName) => derivedText name asName := by
  induction items generalizing k with
  | nil => rfl
  | cons first items ih =>
    have hrest := fun item hitem => h item (List.mem_cons_of_mem first hitem)
    have hfirst := h first (List.mem_cons_self ..)
    cases hunlisted : first.isUnlisted c with
    | true =>
      obtain ⟨name, hname, heq⟩ := deriveMissing_of_unlisted stem k items hfirst hunlisted
      rw [heq, ih hrest]
      simp [unlistedColumns, hunlisted, hname]
    | false =>
      rw [deriveMissing_of_listed hfirst hunlisted, ih hrest]
      simp [unlistedColumns, hunlisted]

/-- The aliases are the stem with one number after the other. -/
theorem aliases_unlistedColumns (c : SelectClauses) (stem : String) (k : Nat)
    (items : List SortItem) : ∃ n, (unlistedColumns c stem k items).map Prod.snd =
      (List.range' k n).map fun k => stem ++ toString k := by
  refine ⟨((items.filter (·.isUnlisted c)).filterMap (·.qualifiedName?)).length, ?_⟩
  rw [unlistedColumns, List.map_map, ← List.zipIdx_map_snd, List.map_map]
  rfl

end SortItem

namespace SelectItem

variable {k : Nat} {items : List SelectItem}

/-- Every average is given its parts; all other items stay. -/
theorem getElem?_deriveAverages (k : Nat) (items : List SelectItem) (i : Nat) :
    (deriveAverages k items)[i]? = items[i]?.map fun item =>
      item.withParts (k + (items.take i).countP (·.isAverage)) := by
  induction items generalizing k i with
  | nil => simp [deriveAverages]
  | cons item items ih =>
    rw [deriveAverages_cons]
    cases i with
    | zero => simp
    | succ i =>
      cases haverage : item.isAverage with
      | true => simp [ih, haverage, Nat.add_comm, Nat.add_left_comm]
      | false => simp [ih, haverage]

/-- The columns derived from the item, each with its alias. -/
def derivedColumns (item : SelectItem) : List (String × String) :=
  item.derived.map fun d => (d.expression, d.label)

/-- The aliases of the parts that an average needs. -/
def partAliases (k : Nat) : List String :=
  ["AVG_DERIVED_COUNT_" ++ toString k, "AVG_DERIVED_SUM_" ++ toString k]

theorem aliases_withParts {item : SelectItem} (h : item.derived = []) :
    (item.withParts k).derivedColumns.map Prod.snd =
      if item.isAverage then partAliases k else [] := by
  cases item with
  | aggregation call derived =>
    obtain rfl : derived = [] := h
    by_cases havg : call.function = .avg
    · simp [withParts, derivedColumns, SelectItem.derived, isAverage, havg, averageParts,
        partAliases, Aggregation.label]
      exact ⟨rfl, rfl⟩
    · simp [withParts, derivedColumns, SelectItem.derived, isAverage, havg]
  | star owner => rfl
  | plain expression asName => rfl

theorem aliases_deriveAverages (h : ∀ item ∈ items, item.derived = []) :
    ((deriveAverages k items).flatMap derivedColumns).map Prod.snd =
      (List.range' k (items.countP (·.isAverage))).flatMap partAliases := by
  induction items generalizing k with
  | nil => rfl
  | cons item items ih =>
    have hrest := fun item' hitem => h item' (List.mem_cons_of_mem item hitem)
    rw [deriveAverages_cons, List.flatMap_cons, List.map_append,
      aliases_withParts (h item (List.mem_cons_self ..)), ih hrest]
    cases haverage : item.isAverage with
    | true => simp [haverage, List.range'_succ]
    | false => simp [haverage]

end SelectItem

/-! ## Marks -/

namespace Mark

/-- The mark is the place for further select items. -/
def isItems : Mark → Bool
  | items _ _ => true
  | table _ _ | orderBy _ | insertValues _ _ | offset _ _ | rowCount _ _ => false

/-- The mark is the place for an `ORDER BY`. -/
def isOrderBy : Mark → Bool
  | orderBy _ => true
  | table _ _ | items _ _ | insertValues _ _ | offset _ _ | rowCount _ _ => false

/-- The mark is for something derived. -/
def isDerived (m : Mark) : Bool :=
  m.isItems || m.isOrderBy

variable {p : Mark → Bool} {m : Mark}

/-- Among marks that are looked for, one that is not makes no difference. -/
theorem filter_insert_of_neg (hm : p m = false) (ms : List Mark) :
    (m.insert ms).filter p = ms.filter p := by
  rw [insert]
  generalize prefixLength _ ms = n
  induction ms generalizing n with
  | nil => cases n <;> simp [hm]
  | cons m' ms ih =>
    cases n with
    | zero => simp [hm]
    | succ n => simp [List.insertIdx_succ_cons, List.filter_cons, ih]

/-- The first mark of those that are looked for is the only one. -/
theorem filter_insert_of_pos (hm : p m = true) {ms : List Mark} (hms : ms.filter p = []) :
    (m.insert ms).filter p = [m] := by
  have hperm := (perm_insert m ms).filter p
  rw [List.filter_cons_of_pos hm, hms] at hperm
  exact List.perm_singleton.1 hperm

end Mark

/-- Nothing that is derived is marked. -/
def Routing.IsPlain (r : Routing) : Prop :=
  ∀ m ∈ r.marks, m.isDerived = false

theorem Routing.IsPlain.filter {r : Routing} (h : r.IsPlain) {p : Mark → Bool}
    (hp : ∀ m, p m = true → m.isDerived = true) : r.marks.filter p = [] := by
  refine List.filter_eq_nil_iff.2 fun m hm hpm => ?_
  exact Bool.false_ne_true ((h m hm).symm.trans (hp m hpm))

/-- While a text is read nothing that is derived is marked. -/
theorem Run.isPlain {κ : Type} {E : Scope κ} {stream : List Token} {s s' : ParseState κ}
    (h : Run E stream s s') (hs : s.On stream) (hplain : s.body.IsPlain) : s'.body.IsPlain := by
  refine h.rel (R := fun s s' => s.body.IsPlain → s'.body.IsPlain) (fun _ h => h)
    (fun h₁ h₂ h => h₂ (h₁ h)) (fun {s s'} hs hmove hplain => ?_) hs hplain
  cases hmove with
  | @mark t m ht hm =>
    intro n hn
    rcases List.mem_cons.1 ((Mark.perm_insert m s.body.marks).mem_iff.1 hn) with rfl | hn
    · cases hm with
      | table | insertValues => rfl
    · exact hplain n hn
  | _ => exact hplain

namespace Grammar

theorem SelectRun.isPlain {c : Cursor} (r : SelectRun (ParseState.start c)) (hc : c.Closed) :
    r.skipped.body.IsPlain := by
  have hs := ParseState.On.start (κ := SelectClauses) hc
  have hordered := r.run.on hs
  have hplain : r.ordered.body.IsPlain := r.run.isPlain hs fun _ h => absurd h List.not_mem_nil
  obtain ⟨n, hskipped⟩ := Parser.skipRest_body r.skipRest
  rw [hskipped]
  rcases limit_eq_ok (E := Scope.marksOnly _) r.limit hordered with
    ⟨_, heq⟩ | ⟨_, s₁, offset, rowCount, database, hrun, _, _, _, heq⟩
  · exact heq ▸ hplain
  · -- The marks of a limit are its numbers.
    have hvalue (mark : Nat → Int → Mark) (hmark : ∀ start n, (mark start n).isDerived = false)
        (value : LimitValue × Nat) : ∀ m ∈ marksOfLimitValue mark value, m.isDerived = false := by
      obtain ⟨n | index, start⟩ := value <;> simp [marksOfLimitValue, hmark]
    rw [heq]
    intro m hm
    rcases List.mem_append.1 hm with hm | hm
    · exact hrun.isPlain hordered hplain m hm
    rcases List.mem_append.1 hm with hm | hm
    · cases offset with
      | none => cases hm
      | some value => exact hvalue .offset (fun _ _ => rfl) value m hm
    · exact hvalue .rowCount (fun _ _ => rfl) rowCount m hm

end Grammar

/-! ## What is derived -/

/-- The columns derived from what has been read of a select, each with its alias: the parts of its
    averages, then what it sorts by, then what it groups by. -/
def Body.derivedColumns (read body : Body SelectClauses) : List (String × String) :=
  body.clauses.items.flatMap SelectItem.derivedColumns ++
    (SortItem.unlistedColumns read.clauses "ORDER_BY_DERIVED_" 0 read.clauses.orderBy ++
      SortItem.unlistedColumns read.clauses "GROUP_BY_DERIVED_" 0 read.clauses.groupBy)

/-- The items are those written, but each that the list does not show has an alias made of the stem
    and the number of such items before it. -/
def SortItem.Renames (c : SelectClauses) (stem : String) (written items : List SortItem) : Prop :=
  ∀ i : Nat, items[i]? = written[i]?.map fun item =>
    if item.isUnlisted c then
      { item with asName := some (stem ++ toString ((written.take i).countP (·.isUnlisted c))) }
    else item

/-- The one select is the other, as it has been read, with all that is derived from it. -/
structure Body.Derives (read body : Body SelectClauses) : Prop where
  items : body.clauses.items.map SelectItem.withoutDerived = read.clauses.items
  /-- The `k`-th average has its count and its sum, and nothing else has any. -/
  averages : ∀ i call derived, body.clauses.items[i]? = some (.aggregation call derived) →
    derived = if call.function = .avg then
      let k := toString ((body.clauses.items.take i).countP (·.isAverage))
      [⟨.count, call.inner, some ("AVG_DERIVED_COUNT_" ++ k)⟩,
        ⟨.sum, call.inner, some ("AVG_DERIVED_SUM_" ++ k)⟩]
    else []
  groupBy : SortItem.Renames read.clauses "GROUP_BY_DERIVED_" read.clauses.groupBy
    body.clauses.groupBy
  orderBy : read.clauses.orderBy ≠ [] →
    SortItem.Renames read.clauses "ORDER_BY_DERIVED_" read.clauses.orderBy body.clauses.orderBy
  /-- A select that does not sort is sorted by its groups. -/
  orderBy_eq : read.clauses.orderBy = [] → body.clauses.orderBy = body.clauses.groupBy
  itemsMarks : body.marks.filter Mark.isItems =
    if read.derivedColumns body = [] then []
    else [.items body.clauses.selectListStop ((read.derivedColumns body).map
      fun (expression, asName) => expression ++ " AS " ++ asName)]
  aliases : ((read.derivedColumns body).map Prod.snd).Nodup
  orderByMarks : body.marks.filter Mark.isOrderBy =
    if read.clauses.orderBy = [] ∧ read.clauses.groupBy ≠ [] then
      [.orderBy body.clauses.groupByStop]
    else []

/-- Names whose stems differ in a character are different. -/
theorem append_ne_append {stem stem' : String} (i : Nat) {a b : Char}
    (ha : stem.toList[i]? = some a) (hb : stem'.toList[i]? = some b) (hne : a ≠ b)
    (s t : String) : stem ++ s ≠ stem' ++ t := by
  intro heq
  have hchars : (stem.toList ++ s.toList)[i]? = (stem'.toList ++ t.toList)[i]? := by
    simpa using congrArg (·.toList[i]?) heq
  rw [List.getElem?_append_left (List.getElem?_eq_some_iff.1 ha).1,
    List.getElem?_append_left (List.getElem?_eq_some_iff.1 hb).1, ha, hb] at hchars
  exact hne (Option.some.inj hchars)

theorem nodup_partAliases (n : Nat) : ((List.range' 0 n).flatMap SelectItem.partAliases).Nodup := by
  have hne (k l : Nat) : "AVG_DERIVED_COUNT_" ++ toString k ≠ "AVG_DERIVED_SUM_" ++ toString l :=
    append_ne_append 12 (a := 'C') (b := 'S') (by decide) (by decide) (by decide) _ _
  refine List.nodup_flatMap.2 ⟨fun k _ => by simp [SelectItem.partAliases], ?_⟩
  have hrange : (List.range' 0 n).Nodup := List.nodup_range'
  refine hrange.imp fun {k l} hkl => ?_
  intro s hk hl
  simp only [SelectItem.partAliases, List.mem_cons, List.not_mem_nil, or_false] at hk hl
  rcases hk with rfl | rfl <;> rcases hl with hl | hl
  · exact hkl (stem_injective _ hl)
  · exact hne k l hl
  · exact hne l k hl.symm
  · exact hkl (stem_injective _ hl)

/-- The aliases of derived columns are told apart by their stems and numbers. -/
theorem nodup_aliases (m n o : Nat) :
    ((List.range' 0 m).flatMap SelectItem.partAliases ++
      (((List.range' 0 n).map fun k => "ORDER_BY_DERIVED_" ++ toString k) ++
        (List.range' 0 o).map fun k => "GROUP_BY_DERIVED_" ++ toString k)).Nodup := by
  have hnumbered (stem : String) (n : Nat) :
      ((List.range' 0 n).map fun k => stem ++ toString k).Nodup :=
    List.Nodup.map (stem_injective stem) List.nodup_range'
  have hparts (s : String) (hs : s ∈ (List.range' 0 m).flatMap SelectItem.partAliases) :
      ∃ (stem : String) (k : Nat), s = stem ++ toString k ∧ stem.toList[0]? = some 'A' := by
    obtain ⟨k, _, hk⟩ := List.mem_flatMap.1 hs
    simp only [SelectItem.partAliases, List.mem_cons, List.not_mem_nil, or_false] at hk
    rcases hk with rfl | rfl
    · exact ⟨_, k, rfl, by decide⟩
    · exact ⟨_, k, rfl, by decide⟩
  refine List.nodup_append.2 ⟨nodup_partAliases m,
    List.nodup_append.2 ⟨hnumbered _ n, hnumbered _ o, fun s hs t ht => ?_⟩, fun s hs t ht => ?_⟩
  · obtain ⟨k, _, rfl⟩ := List.mem_map.1 hs
    obtain ⟨l, _, rfl⟩ := List.mem_map.1 ht
    exact append_ne_append 0 (a := 'O') (b := 'G') (by decide) (by decide) (by decide) _ _
  · obtain ⟨stem, k, rfl, hstem⟩ := hparts s hs
    rcases List.mem_append.1 ht with ht | ht
    · obtain ⟨l, _, rfl⟩ := List.mem_map.1 ht
      exact append_ne_append 0 (b := 'O') hstem (by decide) (by decide) _ _
    · obtain ⟨l, _, rfl⟩ := List.mem_map.1 ht
      exact append_ne_append 0 (b := 'G') hstem (by decide) (by decide) _ _

namespace SelectItem

theorem withoutDerived_withParts (k : Nat) {item : SelectItem} (h : item.derived = []) :
    (item.withParts k).withoutDerived = item := by
  cases item with
  | aggregation call derived =>
    obtain rfl : derived = [] := h
    rfl
  | star owner => rfl
  | plain expression asName => rfl

theorem derived_of_withParts {k : Nat} {item : SelectItem} {call : Aggregation}
    {derived : List Aggregation} (h : item.derived = [])
    (heq : item.withParts k = .aggregation call derived) :
    derived = if call.function = .avg then averageParts k call.inner else [] := by
  cases item with
  | aggregation call' derived' =>
    obtain rfl : derived' = [] := h
    obtain ⟨rfl, rfl⟩ := SelectItem.aggregation.inj heq
    rfl
  | star owner => cases heq
  | plain expression asName => cases heq

theorem isAverage_withParts (k : Nat) (item : SelectItem) :
    (item.withParts k).isAverage = item.isAverage := by
  cases item <;> rfl

theorem withoutDerived_deriveAverages {k : Nat} {items : List SelectItem}
    (h : ∀ item ∈ items, item.derived = []) :
    (deriveAverages k items).map withoutDerived = items := by
  induction items generalizing k with
  | nil => rfl
  | cons item items ih =>
    have hrest := fun item' hitem => h item' (List.mem_cons_of_mem item hitem)
    rw [deriveAverages_cons, List.map_cons, ih hrest,
      withoutDerived_withParts k (h item (List.mem_cons_self ..))]

/-- As many items are averages as before. -/
theorem countP_take_deriveAverages (k : Nat) (items : List SelectItem) (i : Nat) :
    ((deriveAverages k items).take i).countP (·.isAverage) =
      (items.take i).countP (·.isAverage) := by
  induction items generalizing k i with
  | nil => simp [deriveAverages]
  | cons item items ih =>
    rw [deriveAverages_cons]
    cases i with
    | zero => rfl
    | succ i => simp [List.countP_cons, isAverage_withParts, ih]

theorem derivedTexts_eq (item : SelectItem) :
    item.derivedTexts = item.derivedColumns.map fun (expression, asName) =>
      derivedText expression asName := by
  cases item with
  | aggregation call derived => simp [derivedTexts, derivedColumns, SelectItem.derived]
  | star owner => rfl
  | plain expression asName => rfl

end SelectItem

namespace Body

variable {read : Body SelectClauses}

theorem deriveOrder_orderBy (b : Body SelectClauses) : b.deriveOrder.clauses.orderBy =
    if b.clauses.orderBy = [] then b.clauses.groupBy else b.clauses.orderBy := by
  rw [deriveOrder]
  cases hgroup : b.clauses.groupBy with
  | nil => cases horder : b.clauses.orderBy <;> simp [horder]
  | cons => cases horder : b.clauses.orderBy <;> simp [hgroup, horder]

theorem deriveOrder_marks (b : Body SelectClauses) : b.deriveOrder.marks =
    if b.clauses.orderBy = [] ∧ b.clauses.groupBy ≠ [] then
      (Mark.orderBy b.clauses.groupByStop).insert b.marks
    else b.marks := by
  rw [deriveOrder]
  cases hgroup : b.clauses.groupBy with
  | nil => simp
  | cons => cases horder : b.clauses.orderBy <;> simp

/-- Deriving an order leaves all other clauses as they are. -/
theorem deriveOrder_clauses (b : Body SelectClauses) :
    { b.deriveOrder.clauses with orderBy := b.clauses.orderBy } = b.clauses := by
  rw [deriveOrder]
  split
  · rfl
  · rfl

/-- The texts of the derived columns are marked, if there are any. -/
theorem deriveColumns_marks (hread : read.clauses.AsRead) (body : Body SelectClauses)
    (hitems : body.clauses.items = SelectItem.deriveAverages 0 read.clauses.items) :
    read.deriveColumns.marks = if read.derivedColumns body = [] then read.marks
      else (Mark.items read.clauses.selectListStop ((read.derivedColumns body).map
        fun (expression, asName) => expression ++ " AS " ++ asName)).insert read.marks := by
  have htexts : body.clauses.items.flatMap SelectItem.derivedTexts ++
      (SortItem.deriveMissing read.clauses "ORDER_BY_DERIVED_" 0 read.clauses.orderBy).2 ++
      (SortItem.deriveMissing read.clauses "GROUP_BY_DERIVED_" 0 read.clauses.groupBy).2 =
        (read.derivedColumns body).map fun (expression, asName) => derivedText expression asName := by
    rw [SortItem.deriveMissing_texts hread.orderBy, SortItem.deriveMissing_texts hread.groupBy,
      funext SelectItem.derivedTexts_eq, derivedColumns, List.map_append, List.map_append,
      List.map_flatMap, List.append_assoc]
  have hmarks : read.deriveColumns.marks =
      if ((read.derivedColumns body).map fun (expression, asName) =>
        derivedText expression asName).isEmpty then read.marks
      else (Mark.items read.clauses.selectListStop ((read.derivedColumns body).map
        fun (expression, asName) => derivedText expression asName)).insert read.marks := by
    rw [← htexts, hitems]
    rfl
  rw [hmarks]
  simp [derivedText]

theorem derive_items : read.deriveColumns.deriveOrder.clauses.items =
    SelectItem.deriveAverages 0 read.clauses.items :=
  congrArg (·.items) (deriveOrder_clauses read.deriveColumns)

theorem derive_groupBy : read.deriveColumns.deriveOrder.clauses.groupBy =
    (SortItem.deriveMissing read.clauses "GROUP_BY_DERIVED_" 0 read.clauses.groupBy).1 :=
  congrArg (·.groupBy) (deriveOrder_clauses read.deriveColumns)

/-- Nothing to sort by is added or dropped with the columns. -/
theorem deriveColumns_orderBy_eq_nil :
    read.deriveColumns.clauses.orderBy = [] ↔ read.clauses.orderBy = [] :=
  SortItem.deriveMissing_eq_nil

theorem deriveColumns_groupBy_eq_nil :
    read.deriveColumns.clauses.groupBy = [] ↔ read.clauses.groupBy = [] :=
  SortItem.deriveMissing_eq_nil

/-- The derived columns have the only mark of items. -/
theorem derive_itemsMarks (hread : read.clauses.AsRead) (hplain : read.IsPlain) :
    let body := read.deriveColumns.deriveOrder
    body.marks.filter Mark.isItems =
      if read.derivedColumns body = [] then []
      else [.items body.clauses.selectListStop ((read.derivedColumns body).map
        fun (expression, asName) => expression ++ " AS " ++ asName)] := by
  intro body
  have hnone : read.marks.filter Mark.isItems = [] :=
    hplain.filter fun m hm => by simp [Mark.isDerived, hm]
  have hlist : body.marks.filter Mark.isItems = read.deriveColumns.marks.filter Mark.isItems := by
    rw [deriveOrder_marks]
    split
    · exact Mark.filter_insert_of_neg rfl _
    · rfl
  have hstop : body.clauses.selectListStop = read.clauses.selectListStop :=
    congrArg (·.selectListStop) (deriveOrder_clauses read.deriveColumns)
  rw [hlist, deriveColumns_marks hread body derive_items, hstop]
  split
  · exact hnone
  · exact Mark.filter_insert_of_pos rfl hnone

/-- The order that is copied from the groups has the only mark of an order. -/
theorem derive_orderByMarks (hread : read.clauses.AsRead) (hplain : read.IsPlain) :
    let body := read.deriveColumns.deriveOrder
    body.marks.filter Mark.isOrderBy =
      if read.clauses.orderBy = [] ∧ read.clauses.groupBy ≠ [] then
        [.orderBy body.clauses.groupByStop]
      else [] := by
  intro body
  have hnone : read.marks.filter Mark.isOrderBy = [] :=
    hplain.filter fun m hm => by simp [Mark.isDerived, hm]
  have hlist : read.deriveColumns.marks.filter Mark.isOrderBy = [] := by
    rw [deriveColumns_marks hread body derive_items]
    split
    · exact hnone
    · rw [Mark.filter_insert_of_neg rfl, hnone]
  have hstop : body.clauses.groupByStop = read.clauses.groupByStop :=
    congrArg (·.groupByStop) (deriveOrder_clauses read.deriveColumns)
  have hcopied : (read.deriveColumns.clauses.orderBy = [] ∧
      read.deriveColumns.clauses.groupBy ≠ []) ↔
        (read.clauses.orderBy = [] ∧ read.clauses.groupBy ≠ []) :=
    and_congr deriveColumns_orderBy_eq_nil deriveColumns_groupBy_eq_nil.not
  rw [deriveOrder_marks, hstop]
  simp only [hcopied]
  split
  · exact Mark.filter_insert_of_pos rfl hlist
  · exact hlist

/-- The columns that are derived have different aliases. -/
theorem derive_aliases (hread : read.clauses.AsRead) :
    ((read.derivedColumns read.deriveColumns.deriveOrder).map Prod.snd).Nodup := by
  obtain ⟨n, hn⟩ :=
    SortItem.aliases_unlistedColumns read.clauses "ORDER_BY_DERIVED_" 0 read.clauses.orderBy
  obtain ⟨o, ho⟩ :=
    SortItem.aliases_unlistedColumns read.clauses "GROUP_BY_DERIVED_" 0 read.clauses.groupBy
  rw [derivedColumns, derive_items, List.map_append, List.map_append,
    SelectItem.aliases_deriveAverages hread.derived, hn, ho]
  exact nodup_aliases _ n o

/-- All that is derived from what has been read of a select. -/
theorem derives (hread : read.clauses.AsRead) (hplain : read.IsPlain) :
    Derives read read.deriveColumns.deriveOrder := by
  have horderBy := deriveOrder_orderBy read.deriveColumns
  constructor
  case items => rw [derive_items, SelectItem.withoutDerived_deriveAverages hread.derived]
  case averages =>
    intro i call derived h
    rw [derive_items, SelectItem.getElem?_deriveAverages, Option.map_eq_some_iff] at h
    obtain ⟨item, hitem, heq⟩ := h
    have hfresh := hread.derived item (List.mem_of_getElem? hitem)
    rw [SelectItem.derived_of_withParts hfresh heq, Nat.zero_add, derive_items,
      SelectItem.countP_take_deriveAverages]
    rfl
  case groupBy =>
    intro i
    rw [derive_groupBy, SortItem.getElem?_deriveMissing hread.groupBy]
    simp only [Nat.zero_add]
  case orderBy =>
    intro hne i
    rw [horderBy, if_neg (deriveColumns_orderBy_eq_nil.not.2 hne)]
    refine (SortItem.getElem?_deriveMissing hread.orderBy i).trans ?_
    simp only [Nat.zero_add]
  case orderBy_eq =>
    -- The groups are copied after their columns have been derived.
    intro hnil
    rw [horderBy, if_pos (deriveColumns_orderBy_eq_nil.2 hnil), derive_groupBy]
    rfl
  case itemsMarks => exact derive_itemsMarks hread hplain
  case aliases => exact derive_aliases hread
  case orderByMarks => exact derive_orderByMarks hread hplain

end Body

/-! ## Texts -/

/-- What is read of a select, up to the end of its text. -/
def Grammar.selectRead : Parser SelectClauses Unit := do
  selectClauses (← selectHead)
  Parser.skipRest

/-- What is read of the select in a text, before anything is derived from it. -/
def readBody? (database : Database) (d : Dialect) (text : String) : Option (Body SelectClauses) :=
  match Cursor.ofText database d text with
  | .ok c =>
    match Grammar.selectRead (ParseState.start c) with
    | .ok _ s => some s.body
    | .error _ _ => none
  | .error _ => none

/-- *Derived columns.* A select is what has been read of its text, where every item to sort or group
    by has the alias under which the select list shows it, together with what is derived from it:
    the parts of its averages, and a column for each item to sort or group by that the select list
    does not show. These columns, and no others, are marked, under aliases that are all different. -/
theorem parse_derived {database : Database} {d : Dialect} {text : String}
    {body : Body SelectClauses} (h : Statement.parse database d text = .ok (.select body)) :
    ∃ read, readBody? database d text = some read ∧ read.clauses.AsRead ∧ read.Derives body := by
  obtain ⟨c, hc, hread⟩ := Statement.parse_eq_ok h
  obtain ⟨_, hclosed, _⟩ := Cursor.ofText_eq_ok hc
  cases hread with | select hkind hselect => ?_
  obtain ⟨r, rfl⟩ := Grammar.select_eq_ok hselect
  have hrun : Grammar.selectRead (ParseState.start c) = .ok () r.skipped := by
    rw [Grammar.selectRead, Parser.bind_of_eq_ok r.selectHead, Parser.bind_of_eq_ok r.selectClauses]
    exact r.skipRest
  refine ⟨r.skipped.body, ?_, r.asRead hclosed, Body.derives (r.asRead hclosed) (r.isPlain hclosed)⟩
  simp only [readBody?, hc, hrun]

/-- An average needs its parts, and a column is derived for each item that the list does not show;
    the last item to sort by is in the list. -/
theorem parse_derived_average :
    ∃ body, Statement.parse .mySql .mySql "SELECT AVG(a), b FROM t GROUP BY c ORDER BY d, B" =
        .ok (.select body) ∧
      body.marks.filter Mark.isItems = [.items 17 ["COUNT(a) AS AVG_DERIVED_COUNT_0",
        "SUM(a) AS AVG_DERIVED_SUM_0", "d AS ORDER_BY_DERIVED_0", "c AS GROUP_BY_DERIVED_0"]] ∧
      ∃ read, readBody? .mySql .mySql "SELECT AVG(a), b FROM t GROUP BY c ORDER BY d, B" =
        some read ∧ read.clauses.AsRead ∧ read.Derives body := by
  have hparse : Statement.parse .mySql .mySql
      "SELECT AVG(a), b FROM t GROUP BY c ORDER BY d, B" = .ok (.select {
        tables := ⟨[⟨"t", none⟩]⟩
        marks := [.items 17 ["COUNT(a) AS AVG_DERIVED_COUNT_0", "SUM(a) AS AVG_DERIVED_SUM_0",
          "d AS ORDER_BY_DERIVED_0", "c AS GROUP_BY_DERIVED_0"], .table 22 "t"]
        clauses := {
          selectListStop := 17
          groupByStop := 35
          items := [.aggregation ⟨.avg, "(a)", none⟩
            [⟨.count, "(a)", some "AVG_DERIVED_COUNT_0"⟩, ⟨.sum, "(a)", some "AVG_DERIVED_SUM_0"⟩],
            .plain "b" none]
          groupBy := [⟨.column none "c", .ascending, .ascending, some "GROUP_BY_DERIVED_0"⟩]
          orderBy := [⟨.column none "d", .ascending, .ascending, some "ORDER_BY_DERIVED_0"⟩,
            ⟨.column none "B", .ascending, .ascending, none⟩] } }) := by decide +kernel
  exact ⟨_, hparse, by decide, parse_derived hparse⟩

end SqlRouting
