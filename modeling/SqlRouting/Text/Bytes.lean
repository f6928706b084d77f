/-!
# Positions in a text

A position in a text is a number of bytes of its UTF-8 form. A text is handled as the list of its
characters; `byteLength` is its length in bytes, and `slice?` cuts out the part between two
positions, which both have to lie on a character boundary. Cutting and joining are inverse to each
other: `slice?_eq_some_iff`.
-/

namespace SqlRouting.Text

/-- The number of bytes of a text. -/
def byteLength : List Char → Nat
  | [] => 0
  | c :: cs => c.utf8Size + byteLength cs

@[simp] theorem byteLength_nil : byteLength [] = 0 := rfl

@[simp] theorem byteLength_cons (c : Char) (cs : List Char) :
    byteLength (c :: cs) = c.utf8Size + byteLength cs := rfl

@[simp] theorem byteLength_append (cs ds : List Char) :
    byteLength (cs ++ ds) = byteLength cs + byteLength ds := by
  induction cs with
  | nil => simp
  | cons c cs ih => simp [ih, Nat.add_assoc]

theorem byteLength_pos {cs : List Char} (h : cs ≠ []) : 0 < byteLength cs := by
  obtain ⟨c, ds, rfl⟩ := List.exists_cons_of_ne_nil h
  exact Nat.lt_of_lt_of_le c.utf8Size_pos (Nat.le_add_right _ _)

/-- The text cut before the byte `n`: the characters before it and those from
    it on. There is no such cut inside a character or past the end. -/
def splitBytes? : Nat → List Char → Option (List Char × List Char)
  | 0, cs => some ([], cs)
  | _ + 1, [] => none
  | n + 1, c :: cs =>
    if c.utf8Size ≤ n + 1 then
      (splitBytes? (n + 1 - c.utf8Size) cs).map fun (before, after) => (c :: before, after)
    else none

/-- A cut loses nothing and is made at the byte asked for. -/
theorem splitBytes?_eq_some {n : Nat} {cs before after : List Char}
    (h : splitBytes? n cs = some (before, after)) :
    before ++ after = cs ∧ byteLength before = n := by
  fun_induction splitBytes? n cs generalizing before after with
  | case1 cs => simp_all
  | case2 => simp at h
  | case3 n c cs hc ih =>
    obtain ⟨⟨b, a⟩, hab, heq⟩ := Option.map_eq_some_iff.1 h
    obtain ⟨rfl, hb⟩ := ih hab
    simp only [Prod.mk.injEq] at heq
    obtain ⟨rfl, rfl⟩ := heq
    exact ⟨rfl, by simp [hb]; omega⟩
  | case4 => simp at h

/-- A text can be cut wherever it is the join of two. -/
theorem splitBytes?_append (before after : List Char) :
    splitBytes? (byteLength before) (before ++ after) = some (before, after) := by
  induction before with
  | nil => simp [splitBytes?]
  | cons c cs ih =>
    obtain ⟨n, hn⟩ : ∃ n, byteLength (c :: cs) = n + 1 := by
      have := c.utf8Size_pos
      exact ⟨byteLength (c :: cs) - 1, by simp; omega⟩
    have hrest : n + 1 - c.utf8Size = byteLength cs := by simp at hn; omega
    rw [hn, List.cons_append, splitBytes?, if_pos (by simp at hn; omega), hrest, ih]
    rfl

/-- The part of a text between the positions `start` and `stop`, if both lie on
    a character boundary of it and in that order. -/
def slice? (cs : List Char) (start stop : Nat) : Option (List Char) :=
  if start ≤ stop then do
    let (_, after) ← splitBytes? start cs
    let (part, _) ← splitBytes? (stop - start) after
    return part
  else none

/-- The slices of a text are the middle parts of its decompositions into three. -/
theorem slice?_eq_some_iff {cs part : List Char} {start stop : Nat} :
    slice? cs start stop = some part ↔
      ∃ before after, cs = before ++ part ++ after ∧
        byteLength before = start ∧ byteLength before + byteLength part = stop := by
  constructor
  · intro h
    unfold slice? at h
    split at h
    case isFalse => simp at h
    case isTrue hle =>
      obtain ⟨⟨before, rest⟩, hb, h⟩ := Option.bind_eq_some_iff.1 h
      obtain ⟨⟨part', after⟩, hp, h⟩ := Option.bind_eq_some_iff.1 h
      cases h
      obtain ⟨rfl, rfl⟩ := splitBytes?_eq_some hb
      obtain ⟨rfl, hlen⟩ := splitBytes?_eq_some hp
      exact ⟨before, after, by simp, rfl, by omega⟩
  · rintro ⟨before, after, rfl, rfl, rfl⟩
    rw [slice?, if_pos (Nat.le_add_right ..), List.append_assoc, splitBytes?_append]
    simp [splitBytes?_append]

/-- The position lies on a character boundary of the text. -/
def IsBoundary (cs : List Char) (n : Nat) : Prop :=
  ∃ before after, cs = before ++ after ∧ byteLength before = n

theorem IsBoundary.le {cs : List Char} {n : Nat} (h : IsBoundary cs n) : n ≤ byteLength cs := by
  obtain ⟨before, after, rfl, rfl⟩ := h
  rw [byteLength_append]
  exact Nat.le_add_right _ _

/-- There is a slice between any two boundaries in order. -/
theorem IsBoundary.exists_slice? {cs : List Char} {start stop : Nat} (hstart : IsBoundary cs start)
    (hstop : IsBoundary cs stop) (hle : start ≤ stop) : ∃ part, slice? cs start stop = some part := by
  obtain ⟨before, after, rfl, rfl⟩ := hstart
  obtain ⟨upTo, after', heq, rfl⟩ := hstop
  rcases List.append_eq_append_iff.1 heq with ⟨part, rfl, rfl⟩ | ⟨part, rfl, rfl⟩
  · exact ⟨part, slice?_eq_some_iff.2 ⟨before, after', by simp, rfl, (byteLength_append ..).symm⟩⟩
  -- The second boundary comes first only if there is nothing between the two.
  · have hnil : part = [] := by
      refine Decidable.byContradiction fun hne => ?_
      have := byteLength_pos hne
      simp only [byteLength_append] at hle
      omega
    exact ⟨[], slice?_eq_some_iff.2 ⟨upTo, after, by simp [hnil], by simp [hnil], by simp⟩⟩

end SqlRouting.Text
