import Mathlib.Data.List.Forall2
import Mathlib.Data.List.Induction
import Mathlib.Data.List.Pairwise
import SqlRouting.Proofs.Folded
import SqlRouting.Table

/-!
# Tables as an ordered set

The tables of a statement are a set: a table is not added if there is one of its name, and names are
the same if they differ at most in the case of ASCII letters (`Text.SameButCase`). Whatever tables
are added, those that are kept are the first ones of their names, in the order in which they came
(`Tables.toList_foldl_add`). No two of them have the same name therefore, so a look-up by name gives
the only table that it can give; aliases come second, and there the first table wins.
-/

namespace SqlRouting

namespace Text

/-- The two characters are the same, or an ASCII letter in upper case and the same letter in lower
    case. -/
def SameLetter (c d : Char) : Prop :=
  c = d ∨ (c.isUpper = true ∧ d.toNat = c.toNat + 32) ∨ (d.isUpper = true ∧ c.toNat = d.toNat + 32)

/-- The two texts are the same character by character, but for the case of ASCII letters. -/
def SameButCase (s t : String) : Prop :=
  List.Forall₂ SameLetter s.toList t.toList

theorem toNat_toLower (c : Char) :
    c.toLower.toNat = if c.isUpper = true then c.toNat + 32 else c.toNat := by
  split
  case isTrue h =>
    exact forall_isUpper (p := fun c => c.toLower.toNat = c.toNat + 32) (by decide) h
  case isFalse h => rw [toLower_eq_self (by simpa using h)]

theorem isUpper_iff (c : Char) : c.isUpper = true ↔ 65 ≤ c.toNat ∧ c.toNat ≤ 90 :=
  decide_eq_true_iff

/-- Two characters are the same in lower case if they are the same letter in any case, and other
    characters only if they are the same. -/
theorem toLower_eq_toLower_iff {c d : Char} : c.toLower = d.toLower ↔ SameLetter c d := by
  have hc := isUpper_iff c
  have hd := isUpper_iff d
  rw [SameLetter, ← Char.toNat_inj, ← Char.toNat_inj, toNat_toLower, toNat_toLower]
  generalize c.isUpper = cUpper at hc ⊢
  generalize d.isUpper = dUpper at hd ⊢
  cases cUpper <;> cases dUpper <;> simp at hc hd ⊢ <;> omega

theorem sameLetters_iff_sameButCase {s t : String} :
    sameLetters s t = true ↔ SameButCase s t := by
  rw [sameLetters_iff, lower, lower, String.ofList_inj, SameButCase, ← List.forall₂_eq_eq_eq]
  simp [toLower_eq_toLower_iff]

instance : DecidableRel SameButCase :=
  fun _ _ => decidable_of_iff _ sameLetters_iff_sameButCase

end Text

/-! ## Names and aliases -/

namespace Table

/-- The table has this alias. -/
def HasAlias (t : Table) (name : String) : Prop :=
  ∃ asName, t.asName = some asName ∧ Text.SameButCase asName name

theorem isNamed_iff {t : Table} {name : String} :
    t.isNamed name = true ↔ Text.SameButCase t.name name :=
  Text.sameLetters_iff_sameButCase

theorem isAliased_iff {t : Table} {name : String} :
    t.isAliased name = true ↔ t.HasAlias name := by
  simp [isAliased, HasAlias, Option.any_eq_true, Text.sameLetters_iff_sameButCase]

/-- Those of the tables that have a name which no table before them has. -/
def firsts (added : List Table) : List Table :=
  (added.zipIdx.filter fun (t, i) =>
    ∀ u ∈ added.take i, ¬Text.SameButCase u.name t.name).map Prod.fst

/-- The last one of the tables is no first one if one before it has its name. -/
theorem firsts_append_singleton (ts : List Table) (t : Table) :
    firsts (ts ++ [t]) =
      if ∀ u ∈ ts, ¬Text.SameButCase u.name t.name then firsts ts ++ [t] else firsts ts := by
  have hbefore : (ts.zipIdx.filter fun (u, i) =>
        ∀ v ∈ (ts ++ [t]).take i, ¬Text.SameButCase v.name u.name) =
      ts.zipIdx.filter fun (u, i) => ∀ v ∈ ts.take i, ¬Text.SameButCase v.name u.name := by
    refine List.filter_congr fun (u, i) hu => ?_
    have hi : i ≤ ts.length := Nat.le_of_lt (List.snd_lt_of_mem_zipIdx hu)
    simp only [List.take_append_of_le_length hi]
  rw [firsts, List.zipIdx_append, List.filter_append, List.map_append, hbefore, ← firsts,
    List.zipIdx_singleton]
  split
  case isTrue hnew =>
    rw [List.filter_cons_of_pos (by simpa using hnew)]
    rfl
  case isFalse hold =>
    rw [List.filter_cons_of_neg (by simpa using hold)]
    exact List.append_nil _

end Table

namespace Tables

variable {added : List Table} {ts : Tables} {t : Table} {name : String}

theorem contains_iff : ts.contains name = true ↔ ∃ t ∈ ts.toList, Text.SameButCase t.name name := by
  simp [contains, Table.isNamed_iff]

/-- All names are there that have been added. -/
theorem contains_foldl_add (added : List Table) (name : String) :
    (added.foldl add {}).contains name = added.any (·.isNamed name) := by
  induction added using List.reverseRecOn with
  | nil => rfl
  | append_singleton added t ih => simp [contains_add, ih]

/-- The tables that are kept are the first ones of their names. -/
theorem toList_foldl_add (added : List Table) :
    (added.foldl add {}).toList = Table.firsts added := by
  induction added using List.reverseRecOn with
  | nil => rfl
  | append_singleton added t ih =>
    rw [List.foldl_append, List.foldl_cons, List.foldl_nil, Table.firsts_append_singleton, ← ih]
    have hcontains := contains_foldl_add added t.name
    split
    case isTrue hnew =>
      refine toList_add_of_not_contains (hcontains.trans ?_)
      simpa [Table.isNamed_iff] using hnew
    case isFalse hold =>
      refine toList_add_of_contains (hcontains.trans ?_)
      simpa [Table.isNamed_iff] using hold

/-- No two of the tables have the same name. -/
def Distinct (ts : Tables) : Prop :=
  ts.toList.Pairwise fun t u => ¬Text.SameButCase t.name u.name

theorem Distinct.add (h : ts.Distinct) (t : Table) : (ts.add t).Distinct := by
  cases hcontains : ts.contains t.name with
  | true => rwa [Distinct, toList_add_of_contains hcontains]
  | false =>
    rw [Distinct, toList_add_of_not_contains hcontains, List.pairwise_append]
    refine ⟨h, List.pairwise_singleton .., fun u hu v hv hsame => ?_⟩
    obtain rfl := List.mem_singleton.1 hv
    simp [contains_iff.2 ⟨u, hu, hsame⟩] at hcontains

theorem distinct_foldl_add (added : List Table) : (added.foldl Tables.add {}).Distinct := by
  induction added using List.reverseRecOn with
  | nil => exact .nil
  | append_singleton added t ih =>
    rw [List.foldl_append]
    exact ih.add t

/-- Of tables with different names a name has a single one. -/
theorem Distinct.eq_of_named (h : ts.Distinct) {t u : Table} (ht : t ∈ ts.toList)
    (hu : u ∈ ts.toList) (htname : t.isNamed name = true) (huname : u.isNamed name = true) :
    t = u := by
  have hsymm : Std.Symm fun t u : Table => ¬Text.SameButCase t.name u.name := by
    refine ⟨fun t u hne hsame => hne ?_⟩
    rw [← Text.sameLetters_iff_sameButCase, Text.sameLetters_comm] at hsame
    exact Text.sameLetters_iff_sameButCase.1 hsame
  by_contra hne
  refine List.Pairwise.forall h ht hu hne (Text.sameLetters_iff_sameButCase.1 ?_)
  rw [Text.sameLetters_congr htname, Text.sameLetters_comm]
  exact huname

/-- What is looked up is the only table of that name, or else the first with that alias. -/
theorem Distinct.find?_eq_some_iff (h : ts.Distinct) :
    ts.find? name = some t ↔
      (t ∈ ts.toList ∧ Text.SameButCase t.name name) ∨
      (∀ u ∈ ts.toList, ¬Text.SameButCase u.name name) ∧
        ∃ before after, ts.toList = before ++ t :: after ∧ t.HasAlias name ∧
          ∀ u ∈ before, ¬u.HasAlias name := by
  simp only [← Table.isNamed_iff, ← Table.isAliased_iff]
  rw [find?]
  cases hfound : ts.toList.find? (·.isNamed name) with
  | some u =>
    have hu := List.mem_of_find?_eq_some hfound
    have huname : u.isNamed name = true := by simpa using List.find?_some hfound
    constructor
    · rintro ⟨⟩
      exact .inl ⟨hu, huname⟩
    · rintro (⟨ht, htname⟩ | ⟨hnone, _⟩)
      · exact congrArg some (h.eq_of_named hu ht huname htname)
      · exact absurd huname (hnone u hu)
  | none =>
    have hnone : ∀ u ∈ ts.toList, ¬u.isNamed name = true := by simpa using hfound
    constructor
    · intro halias
      obtain ⟨ht, before, after, hsplit, hbefore⟩ := List.find?_eq_some_iff_append.1 halias
      exact .inr ⟨hnone, before, after, hsplit, ht, by simpa using hbefore⟩
    · rintro (⟨ht, htname⟩ | ⟨_, before, after, hsplit, ht, hbefore⟩)
      · exact absurd htname (hnone t ht)
      · exact List.find?_eq_some_iff_append.2 ⟨ht, before, after, hsplit, by simpa using hbefore⟩

theorem find?_eq_none_iff :
    ts.find? name = none ↔
      ∀ t ∈ ts.toList, ¬Text.SameButCase t.name name ∧ ¬t.HasAlias name := by
  simp only [← Table.isNamed_iff, ← Table.isAliased_iff]
  simp [find?, Option.or_eq_none_iff, forall_and]

end Tables

/-- *Tables are an ordered set in which the first table of a name wins.* Whatever tables are added
    one after the other, those that are kept are the ones of whose name there is no earlier one, in
    the order in which they were added. A name is there if it is that of any table added. A look-up
    gives the table of that name, or else the first one of that alias, or else none. -/
theorem tables_added (added : List Table) (name : String) :
    (added.foldl Tables.add {}).toList = Table.firsts added ∧
    ((added.foldl Tables.add {}).contains name = true ↔
      ∃ t ∈ added, Text.SameButCase t.name name) ∧
    (∀ t, (added.foldl Tables.add {}).find? name = some t ↔
      (t ∈ Table.firsts added ∧ Text.SameButCase t.name name) ∨
      (∀ u ∈ Table.firsts added, ¬Text.SameButCase u.name name) ∧
        ∃ before after, Table.firsts added = before ++ t :: after ∧ t.HasAlias name ∧
          ∀ u ∈ before, ¬u.HasAlias name) ∧
    ((added.foldl Tables.add {}).find? name = none ↔
      ∀ t ∈ Table.firsts added, ¬Text.SameButCase t.name name ∧ ¬t.HasAlias name) := by
  rw [← Tables.toList_foldl_add]
  refine ⟨rfl, ?_, fun t => (Tables.distinct_foldl_add added).find?_eq_some_iff,
    Tables.find?_eq_none_iff⟩
  rw [Tables.contains_foldl_add]
  simp [Table.isNamed_iff]

/-- A table that is mentioned again in capitals is not added, and neither is its alias; other
    letters than those from A to Z are different in another case. -/
example :
    ([⟨"order", some "o"⟩, ⟨"é", none⟩, ⟨"ORDER", some "p"⟩, ⟨"É", some "O"⟩].foldl Tables.add {}) =
      ⟨[⟨"order", some "o"⟩, ⟨"é", none⟩, ⟨"É", some "O"⟩]⟩ := by
  decide +kernel

end SqlRouting
