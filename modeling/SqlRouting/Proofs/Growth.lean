import Mathlib.Data.List.Perm.Basic
import SqlRouting.Proofs.Moves
import SqlRouting.Text.Unquoted

/-!
# How tables and their marks grow

A name of a table is marked where the table is mentioned, which makes it known, and where it is the
owner of a column, provided that the table is known by then. So the tables and the marks of names
only grow together: the new marks are those of some tokens, each of which names a table, and a new
table has the name that such a token spells (`Growth`). Marks always name tables, therefore
(`Routing.Agrees`).
-/

namespace SqlRouting

/-! ## Marks of names -/

/-- The mark of a token that names a table. -/
def Token.mark (t : Token) : Mark :=
  .table t.start t.literal

namespace Mark

/-- The mark is that of a name of a table. -/
def isTable : Mark → Bool
  | table _ _ => true
  | items _ _ | orderBy _ | insertValues _ _ | offset _ _ | rowCount _ _ => false

@[simp] theorem isTable_mark (t : Token) : t.mark.isTable = true := rfl

@[simp] theorem start_mark (t : Token) : t.mark.start = t.start := rfl

/-- Bisection stays within its range. -/
theorem bisect_le (p : Nat → Bool) (n size base : Nat) :
    bisect p n size base ≤ base + size := by
  fun_induction bisect p n size base with
  | case1 size base => omega
  | case2 n size base hsize => omega
  | case3 n size base hsize middle ih =>
    refine Nat.le_trans ih ?_
    have hmiddle : middle = base + size / 2 := rfl
    split
    · omega
    · omega

theorem prefixLength_le (p : Mark → Bool) (ms : List Mark) : prefixLength p ms ≤ ms.length := by
  have hle := bisect_le (fun i => ms[i]?.any p) ms.length ms.length 0
  simp only [prefixLength]
  split
  case isTrue hlast =>
    -- Only marks that are there are any good.
    obtain ⟨m, hm, _⟩ := (Option.any_eq_true _ _).1 hlast
    exact Nat.succ_le_of_lt (List.getElem?_eq_some_iff.1 hm).1
  case isFalse => omega

/-- Wherever a mark is put, it is one more. -/
theorem perm_insert (m : Mark) (ms : List Mark) : (m.insert ms).Perm (m :: ms) :=
  List.perm_insertIdx m ms (prefixLength_le ..)

/-- A mark that is not of a name leaves those of names as they are. -/
theorem filter_insert {m : Mark} (hm : m.isTable = false) (ms : List Mark) :
    ((m.insert ms).filter isTable).Perm (ms.filter isTable) := by
  have hperm := (perm_insert m ms).filter isTable
  rwa [List.filter_cons_of_neg (by simp [hm])] at hperm

end Mark

/-! ## What is recorded -/

/-- From one routing part of a statement to another the tables that are known have become more,
    and the names marked as tables are these tokens more. -/
structure Growth (named : List Token) (r r' : Routing) : Prop where
  marks : (r'.marks.filter Mark.isTable).Perm
    (named.map Token.mark ++ r.marks.filter Mark.isTable)
  /-- What is marked is a name, and a table has this name. -/
  areNames : ∀ t ∈ named, t.kind = LiteralClass.identifier ∧
    r'.tables.contains (Text.unquoted t.literal) = true
  contains : ∀ name, r.tables.contains name = true → r'.tables.contains name = true
  /-- A new table has the name that is spelled where it is marked. -/
  tables : ∀ t ∈ r'.tables.toList, t ∈ r.tables.toList ∨
    ∃ m ∈ named, Text.unquoted m.literal = t.name

/-- Every mark of a name is that of a table. -/
def Routing.Agrees (r : Routing) : Prop :=
  ∀ start spelling, Mark.table start spelling ∈ r.marks →
    r.tables.contains (Text.unquoted spelling) = true

/-- At first there are neither marks nor tables. -/
theorem Routing.agrees_empty : ({} : Routing).Agrees :=
  fun _ _ h => absurd h List.not_mem_nil

namespace Growth

variable {named named' : List Token} {r r₁ r' : Routing} {t : Token}

/-- No name is marked and no table recorded. -/
theorem of_tables_eq (htables : r'.tables = r.tables)
    (hmarks : (r'.marks.filter Mark.isTable).Perm (r.marks.filter Mark.isTable)) :
    Growth [] r r' where
  marks := hmarks
  areNames := by simp
  contains := fun _ h => htables ▸ h
  tables := fun t ht => .inl (htables ▸ ht)

theorem refl (r : Routing) : Growth [] r r :=
  of_tables_eq rfl (.refl _)

theorem trans (h : Growth named r r₁) (h' : Growth named' r₁ r') :
    Growth (named ++ named') r r' where
  marks := by
    refine h'.marks.trans ((h.marks.append_left _).trans ?_)
    rw [List.map_append, ← List.append_assoc]
    exact List.perm_append_comm.append_right _
  areNames := by
    intro t ht
    rcases List.mem_append.1 ht with ht | ht
    · exact ⟨(h.areNames t ht).1, h'.contains _ (h.areNames t ht).2⟩
    · exact h'.areNames t ht
  contains := fun name hname => h'.contains name (h.contains name hname)
  tables := by
    intro t ht
    rcases h'.tables t ht with ht | ⟨m, hm, hname⟩
    · exact (h.tables t ht).imp_right fun ⟨m, hm, hname⟩ =>
        ⟨m, List.mem_append_left _ hm, hname⟩
    · exact .inr ⟨m, List.mem_append_right _ hm, hname⟩

/-- In which order the tokens are named does not matter. -/
theorem perm (h : Growth named r r') (hperm : named.Perm named') : Growth named' r r' where
  marks := h.marks.trans ((hperm.map _).append_right _)
  areNames := fun t ht => h.areNames t (hperm.mem_iff.2 ht)
  contains := h.contains
  tables := fun t ht => (h.tables t ht).imp_right fun ⟨m, hm, hname⟩ =>
    ⟨m, hperm.mem_iff.1 hm, hname⟩

/-- The marks of names are the old ones and those of the tokens. -/
theorem mem_marks (h : Growth named r r') {m : Mark} (hm : m.isTable = true) :
    m ∈ r'.marks ↔ m ∈ named.map Token.mark ∨ m ∈ r.marks := by
  have hmem := h.marks.mem_iff (a := m)
  simpa [List.mem_filter, hm] using hmem

theorem agrees (h : Growth named r r') (hr : r.Agrees) : r'.Agrees := by
  intro start spelling hm
  rcases (h.mem_marks rfl).1 hm with hm | hm
  · obtain ⟨t, ht, heq⟩ := List.mem_map.1 hm
    cases heq
    exact (h.areNames t ht).2
  · exact h.contains _ (hr _ _ hm)

/-- The name of a table that is known is marked. -/
theorem insert (htables : r'.tables = r.tables) (hmarks : r'.marks = t.mark.insert r.marks)
    (hname : t.kind = LiteralClass.identifier)
    (hcontains : r.tables.contains (Text.unquoted t.literal) = true) : Growth [t] r r' where
  marks := by
    rw [hmarks]
    exact (Mark.perm_insert t.mark r.marks).filter Mark.isTable
  areNames := by simpa [htables] using ⟨hname, hcontains⟩
  contains := fun _ h => htables ▸ h
  tables := fun u hu => .inl (htables ▸ hu)

/-- A table is recorded, and its name is marked. -/
theorem record {asName : Option String} (hname : t.kind = LiteralClass.identifier)
    (htables : r'.tables = r.tables.add ⟨Text.unquoted t.literal, asName⟩)
    (hmarks : r'.marks = t.mark.insert r.marks) : Growth [t] r r' where
  marks := by
    rw [hmarks]
    exact (Mark.perm_insert t.mark r.marks).filter Mark.isTable
  areNames := by simp [htables, hname, Tables.contains_add, Table.isNamed]
  contains := fun name h => by simp [htables, Tables.contains_add, h]
  tables := by
    intro u hu
    rw [htables] at hu
    -- A table that is mentioned again is not added, so the first of its mentions is what names it.
    cases hcontains : r.tables.contains (Table.mk (Text.unquoted t.literal) asName).name with
    | true =>
      rw [Tables.toList_add_of_contains hcontains] at hu
      exact .inl hu
    | false =>
      rw [Tables.toList_add_of_not_contains hcontains, List.mem_append,
        List.mem_singleton] at hu
      rcases hu with hu | hu
      · exact .inl hu
      · refine .inr ⟨t, List.mem_singleton_self t, ?_⟩
        exact (congrArg Table.name hu).symm

end Growth

end SqlRouting
