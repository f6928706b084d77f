import Mathlib.Tactic.SplitIfs
import SqlRouting.Text.Bytes

/-!
# The bytes of a text

In UTF-8 an ASCII character is a byte by itself, and a character outside of ASCII is several bytes,
none of which is the code of an ASCII character. So who looks for characters of ASCII may look for
bytes instead: a test that does not tell characters outside of ASCII apart (`Uniform`) holds of a
character exactly if it holds of its bytes (`takeWhile_bytes`).
-/

namespace SqlRouting.Text

/-- The bytes that a character is written in, each as the character with its
    code. -/
def octets (c : Char) : List Char :=
  (String.utf8EncodeChar c).map fun b => Char.ofNat b.toNat

/-- The bytes of a text, each as the character with its code. -/
def bytes (cs : List Char) : List Char :=
  cs.flatMap octets

/-- The character is outside of ASCII. -/
def Wide (c : Char) : Prop :=
  0x80 ≤ c.toNat

instance (c : Char) : Decidable (Wide c) :=
  inferInstanceAs (Decidable (_ ≤ _))

theorem octets_of_not_wide {c : Char} (h : ¬Wide c) : octets c = [c] := by
  have hlt : c.val.toNat < 128 := Nat.not_le.1 h
  simp only [octets, String.utf8EncodeChar, if_pos (Nat.le_of_lt_succ hlt), List.map_cons,
    List.map_nil, List.cons.injEq, and_true]
  have hcode : (UInt8.ofNat c.val.toNat).toNat = c.toNat := by
    rw [UInt8.toNat_ofNat']
    exact Nat.mod_eq_of_lt (by omega)
  rw [hcode, Char.ofNat_toNat]

theorem toNat_ofNat_of_lt {n : Nat} (h : n < 256) : (Char.ofNat n).toNat = n := by
  have hvalid : n.isValidChar := .inl (by omega)
  rw [Char.ofNat, dif_pos hvalid]
  rfl

theorem wide_octets {c : Char} (h : Wide c) : ∀ b ∈ octets c, Wide b := by
  have hlt : ¬c.val.toNat ≤ 127 := by
    have : 128 ≤ c.val.toNat := h
    omega
  have hwide : ∀ b : UInt8, Wide (Char.ofNat b.toNat) ↔ 128 ≤ b.toNat := fun b => by
    rw [Wide, toNat_ofNat_of_lt b.toNat_lt]
  simp only [octets, String.utf8EncodeChar, if_neg hlt, List.forall_mem_map, hwide]
  split_ifs <;> simp <;> omega

theorem length_octets (c : Char) : (octets c).length = c.utf8Size := by
  simp [octets]

theorem utf8Size_of_not_wide {c : Char} (h : ¬Wide c) : c.utf8Size = 1 := by
  rw [← length_octets, octets_of_not_wide h]
  rfl

theorem exists_octets (c : Char) : ∃ b bs, octets c = b :: bs :=
  List.exists_cons_of_ne_nil (List.ne_nil_of_length_pos (length_octets c ▸ c.utf8Size_pos))

@[simp] theorem bytes_nil : bytes [] = [] := rfl

@[simp] theorem bytes_cons (c : Char) (cs : List Char) : bytes (c :: cs) = octets c ++ bytes cs :=
  rfl

theorem bytes_cons_of_not_wide {c : Char} (h : ¬Wide c) (cs : List Char) :
    bytes (c :: cs) = c :: bytes cs := by
  simp [octets_of_not_wide h]

@[simp] theorem bytes_append (cs ds : List Char) : bytes (cs ++ ds) = bytes cs ++ bytes ds := by
  simp [bytes]

@[simp] theorem length_bytes (cs : List Char) : (bytes cs).length = byteLength cs := by
  induction cs with
  | nil => rfl
  | cons c cs ih => simp [length_octets, ih]

/-- What the bytes of a text are like: there are none, or the first is a character by itself, or
    the first few belong to a character outside of ASCII, and so are all outside of it. -/
theorem bytes_cases (cs : List Char) :
    cs = [] ∨ (∃ c ds, ¬Wide c ∧ cs = c :: ds ∧ bytes cs = c :: bytes ds) ∨
      ∃ c ds b bs, Wide c ∧ cs = c :: ds ∧ octets c = b :: bs ∧ Wide b ∧ (∀ a ∈ bs, Wide a) ∧
        bytes cs = b :: (bs ++ bytes ds) := by
  cases cs with
  | nil => exact .inl rfl
  | cons c ds =>
    by_cases hc : Wide c
    · obtain ⟨b, bs, hoctets⟩ := exists_octets c
      have hwide := wide_octets hc
      rw [hoctets, List.forall_mem_cons] at hwide
      exact .inr (.inr ⟨c, ds, b, bs, hc, rfl, hoctets, hwide.1, hwide.2, by simp [hoctets]⟩)
    · exact .inr (.inl ⟨c, ds, hc, rfl, by simp [octets_of_not_wide hc]⟩)

/-- A text starts with a character of ASCII exactly if its bytes do. -/
theorem head?_bytes {a : Char} (ha : ¬Wide a) (cs : List Char) :
    (bytes cs).head? = some a ↔ cs.head? = some a := by
  rcases bytes_cases cs with rfl | ⟨c, ds, _, rfl, hbytes⟩ | ⟨c, ds, b, bs, hc, rfl, _, hb, _, hbytes⟩
  · simp
  · simp [hbytes]
  · rw [hbytes]
    simp only [List.head?_cons, Option.some.injEq]
    exact iff_of_false (fun h => ha (h ▸ hb)) (fun h => ha (h ▸ hc))

/-! ### Tests -/

/-- The test does not tell characters outside of ASCII apart. -/
def Uniform (p : Char → Bool) : Prop :=
  ∀ c d, Wide c → Wide d → p c = p d

variable {p : Char → Bool} {cs : List Char}

theorem Uniform.octets (h : Uniform p) (c : Char) : ∀ b ∈ octets c, p b = p c := by
  intro b hb
  by_cases hc : Wide c
  · exact h _ _ (wide_octets hc b hb) hc
  · rw [octets_of_not_wide hc, List.mem_singleton] at hb
    rw [hb]

/-- A test that holds nowhere outside of ASCII is uniform. -/
theorem Uniform.of_ascii (h : ∀ c, Wide c → p c = false) : Uniform p :=
  fun c d hc hd => (h c hc).trans (h d hd).symm

theorem span_bytes (h : Uniform p) (cs : List Char) :
    (bytes cs).takeWhile p = bytes (cs.takeWhile p) ∧
      (bytes cs).dropWhile p = bytes (cs.dropWhile p) := by
  induction cs with
  | nil => exact ⟨rfl, rfl⟩
  | cons c cs ih =>
    have hoctets := h.octets c
    by_cases hc : p c = true
    · have hall : ∀ b ∈ Text.octets c, p b = true := fun b hb => (hoctets b hb).trans hc
      simp [hc, List.takeWhile_append_of_pos hall, List.dropWhile_append_of_pos hall, ih]
    · obtain ⟨b, bs, hb⟩ := exists_octets c
      have hfalse : p b = false := by
        simpa [hc] using hoctets b (by simp [hb])
      simp [hc, hb, hfalse]

theorem takeWhile_bytes (h : Uniform p) (cs : List Char) :
    (bytes cs).takeWhile p = bytes (cs.takeWhile p) :=
  (span_bytes h cs).1

theorem dropWhile_bytes (h : Uniform p) (cs : List Char) :
    (bytes cs).dropWhile p = bytes (cs.dropWhile p) :=
  (span_bytes h cs).2

/-- A text in ASCII is its bytes. -/
theorem bytes_of_ascii (h : ∀ c ∈ cs, ¬Wide c) : bytes cs = cs := by
  induction cs with
  | nil => rfl
  | cons c cs ih =>
    rw [List.forall_mem_cons] at h
    simp [octets_of_not_wide h.1, ih h.2]

/-- A text opens like one in ASCII exactly if its bytes do. -/
theorem isPrefixOf_bytes {part : List Char} (h : ∀ c ∈ part, ¬Wide c) (cs : List Char) :
    part.isPrefixOf (bytes cs) = part.isPrefixOf cs := by
  induction part generalizing cs with
  | nil => simp
  | cons a part ih =>
    rw [List.forall_mem_cons] at h
    rcases bytes_cases cs with
      rfl | ⟨c, ds, hc, rfl, hbytes⟩ | ⟨c, ds, b, bs, hc, rfl, _, hb, _, hbytes⟩
    · rfl
    · rw [hbytes, List.isPrefixOf_cons_cons, List.isPrefixOf_cons_cons, ih h.2]
    · have hac : (a == c) = false := beq_eq_false_iff_ne.2 fun heq => h.1 (heq ▸ hc)
      have hab : (a == b) = false := beq_eq_false_iff_ne.2 fun heq => h.1 (heq ▸ hb)
      rw [hbytes, List.isPrefixOf_cons_cons, List.isPrefixOf_cons_cons, hac, hab]
      rfl

end SqlRouting.Text
