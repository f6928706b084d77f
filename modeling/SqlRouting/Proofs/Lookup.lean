import SqlRouting.Parse
import SqlRouting.Proofs.Written.Where

/-!
# Looking up conditions

A condition replaces an earlier one if their columns are spelled alike, but it is looked up in upper
or lower case. Where a column is spelled in several ways the look-up stays with the spelling that
was added first (`Conditions.find?_ofList`): it gives the last condition on the column exactly if
the first and the last one spell it alike (`lookup_added`).
-/

namespace SqlRouting

/-- The condition is on the column of a table, both in upper or lower case. -/
def Condition.isOn (table name : String) (c : Condition) : Bool :=
  Text.sameLetters c.column.name name && c.column.table.any (Text.sameLetters · table)

/-- Whether a condition is on a column is seen from its own column alone. -/
theorem Condition.isOn_congr {c c' : Condition} (h : c.column = c'.column) (table name : String) :
    c.isOn table name = c'.isOn table name := by
  simp only [isOn, h]

namespace Conditions

variable {cs : List Condition} {c : Condition} {table name : String}

@[simp] theorem isOn_replace (c old : Condition) :
    (replace c old).isOn table name = old.isOn table name :=
  Condition.isOn_congr (column_replace c old) table name

theorem find?_eq (cs : Conditions) (table name : String) :
    cs.find? table name = cs.toList.find? (·.isOn table name) :=
  rfl

/-- A condition that is added changes the one found if that is spelled alike, and is
    found itself if there was none. -/
theorem find?_add (cs : Conditions) (c : Condition) (table name : String) :
    (cs.add c).find? table name =
      ((cs.find? table name).map (replace c)).or (Option.guard (·.isOn table name) c) := by
  unfold add
  split
  case isTrue h =>
    obtain ⟨old, hold⟩ := Option.isSome_iff_exists.1 h
    have hcol : old.column = c.column := by simpa using List.find?_some hold
    have hmap : List.find? (·.isOn table name) (cs.toList.map (replace c)) =
        (cs.find? table name).map (replace c) := by
      simp only [List.find?_map, Function.comp_def, isOn_replace, find?_eq]
    rw [find?_eq, hmap]
    cases hfound : cs.find? table name with
    | some _ => rfl
    | none =>
      -- The condition on the column of `c` would have been found.
      have hnot : old.isOn table name = false := by
        rw [find?_eq, List.find?_eq_none] at hfound
        simpa using hfound old (List.mem_of_find?_eq_some hold)
      rw [Condition.isOn_congr hcol] at hnot
      simp [Option.guard, hnot]
  case isFalse h =>
    have hnew : ∀ old ∈ cs.toList, old.column ≠ c.column := by simpa [get?] using h
    have hsame : (cs.find? table name).map (replace c) = cs.find? table name := by
      cases hfound : cs.find? table name with
      | none => rfl
      | some old => simp [replace, hnew old (List.mem_of_find?_eq_some hfound)]
    rw [hsame, find?_eq, find?_eq, List.find?_append]
    cases hc : c.isOn table name <;> simp [Option.guard, hc]

/-- The look-up gives the last condition on the column that was the first to be found. -/
theorem find?_ofList (cs : List Condition) (table name : String) :
    (ofList cs).find? table name =
      (cs.find? (·.isOn table name)).bind fun first => last? cs first.column := by
  induction cs using List.reverseRecOn with
  | nil => rfl
  | append_singleton cs c ih =>
    rw [ofList_append, find?_add, ih, List.find?_append]
    cases hfirst : cs.find? (·.isOn table name) with
    | none =>
      cases hc : c.isOn table name <;> simp [Option.guard, hc, last?_append]
    | some first =>
      obtain ⟨old, hold⟩ := Option.isSome_iff_exists.1
        (isSome_last?.2 (List.mem_map_of_mem (List.mem_of_find?_eq_some hfirst)))
      have hcol : old.column = first.column := column_last? hold
      rw [Option.some_or, Option.bind_some, Option.bind_some, hold, Option.map_some,
        Option.some_or, last?_append, hold, replace, hcol]
      simp only [eq_comm, apply_ite some]

/-- The last condition that is found is the last one on its own column. -/
theorem last?_column {last : Condition} (h : cs.reverse.find? (·.isOn table name) = some last) :
    last? cs last.column = some last := by
  obtain ⟨hon, before, after, hsplit, hbefore⟩ := List.find?_eq_some_iff_append.1 h
  refine List.find?_eq_some_iff_append.2 ⟨by simp, before, after, hsplit, fun c hc => ?_⟩
  have hnot : c.isOn table name = false := by simpa using hbefore c hc
  have hne : c.column ≠ last.column := by
    intro heq
    rw [Condition.isOn_congr heq, hon] at hnot
    exact absurd hnot nofun
  simpa using hne

end Conditions

open Conditions in
/-- *Of the conditions on a column the last one is found, as the column was first spelled.* Whatever
    conditions are added, looking up a column gives none exactly if no condition is on it in upper
    or lower case; otherwise it gives the last condition whose column is spelled as in the first
    that is on it. So it is the last of them all exactly if that spells it like the first. -/
theorem lookup_added (cs : List Condition) (table name : String) :
    ((ofList cs).find? table name = none ↔ ∀ c ∈ cs, c.isOn table name = false) ∧
      (ofList cs).find? table name =
        (cs.find? (·.isOn table name)).bind (fun first => last? cs first.column) ∧
      ((ofList cs).find? table name = cs.reverse.find? (·.isOn table name) ↔
        ∀ first ∈ cs.find? (·.isOn table name), ∀ last ∈ cs.reverse.find? (·.isOn table name),
          first.column = last.column) := by
  rw [find?_ofList]
  cases hfirst : cs.find? (·.isOn table name) with
  | none =>
    have hnone : ∀ c ∈ cs, c.isOn table name = false := by simpa using hfirst
    have hlast : cs.reverse.find? (·.isOn table name) = none := by simpa using hnone
    simpa [hlast] using hnone
  | some first =>
    have hmem : first ∈ cs := List.mem_of_find?_eq_some hfirst
    have hon : first.isOn table name = true := List.find?_some hfirst
    obtain ⟨found, hfound⟩ := Option.isSome_iff_exists.1
      (isSome_last?.2 (List.mem_map_of_mem hmem))
    obtain ⟨last, hlast⟩ : ∃ last, cs.reverse.find? (·.isOn table name) = some last := by
      rw [← Option.isSome_iff_exists, List.find?_isSome]
      exact ⟨first, List.mem_reverse.2 hmem, hon⟩
    refine ⟨?_, rfl, ?_⟩
    · refine iff_of_false (by simp [hfound]) fun hnone => ?_
      simp [hnone first hmem] at hon
    · simp only [Option.bind_some, hlast, Option.mem_def, Option.some.injEq, forall_eq']
      refine ⟨fun h => (column_last? h).symm, fun h => ?_⟩
      rw [h, last?_column hlast]

/-- The second of two conditions on a column, which spells it in another case, is not found. -/
theorem lookup_first_spelling :
    let first : Condition := ⟨⟨"a", some "t"⟩, .equal, [.number (.integer 1)]⟩
    let last : Condition := ⟨⟨"A", some "t"⟩, .equal, [.number (.integer 2)]⟩
    [first, last].reverse.find? (·.isOn "t" "a") = some last ∧
      (Conditions.ofList [first, last]).find? "t" "a" = some first ∧
      (Statement.parse .mySql .mySql "SELECT * FROM t WHERE a = 1 AND A = 2").map
        (fun s => s.routing.conditions.find? "t" "a") = .ok (some first) := by
  decide +kernel

end SqlRouting
