/-!
# Marks

A mark is a place in the text of a statement where the text sent to a shard may differ: the name of
a table, further select items, a limit. The marks of a statement are kept in the order of their
positions, save those of the limit, which come last (`Mark.insert`).
-/

namespace SqlRouting

/-- A place where the text sent to a shard may differ from the statement's. -/
inductive Mark where
  /-- The name of a table, as spelled. -/
  | table (start : Nat) (spelling : String)
  /-- The place for further select items, and these. -/
  | items (start : Nat) (texts : List String)
  /-- The place for an `ORDER BY` that repeats the `GROUP BY`. -/
  | orderBy (start : Nat)
  /-- The rows of an insert into a table. -/
  | insertValues (start : Nat) (table : String)
  /-- The number of rows that a limit skips. -/
  | offset (start : Nat) (value : Int)
  /-- The number of rows that a limit returns. -/
  | rowCount (start : Nat) (value : Int)
  deriving DecidableEq, Repr

namespace Mark

/-- The position of the mark. -/
def start : Mark → Nat
  | table p _ | items p _ | orderBy p | insertValues p _ | offset p _ | rowCount p _ => p

/-- The mark belongs to a limit. -/
def isOfLimit : Mark → Bool
  | offset _ _ | rowCount _ _ => true
  | table _ _ | items _ _ | orderBy _ | insertValues _ _ => false

/-- Bisection: of the `size` numbers from `base` on, the last one at which `p`
    holds, supposing that it holds up to a point and not behind it; `base` if it
    holds at none. At most `n` halvings are made. -/
def bisect (p : Nat → Bool) : (n size base : Nat) → Nat
  | 0, _, base => base
  | n + 1, size, base =>
    if size ≤ 1 then base
    else
      let middle := base + size / 2
      bisect p n (size - size / 2) (if p middle then middle else base)

/-- Bisection finds the point `k` up to which `p` holds, or the number before it. -/
theorem bisect_bounds {p : Nat → Bool} {k : Nat} {n size base : Nat}
    (hp : ∀ i, i < base + size → p i = decide (i < k)) (hbase : base ≤ k) (hk : k ≤ base + size)
    (hn : size ≤ n + 1) : bisect p n size base ≤ k ∧ k ≤ bisect p n size base + 1 := by
  fun_induction bisect p n size base with
  | case1 size base => omega
  | case2 n size base hsize => omega
  | case3 n size base hsize middle ih =>
    have hmiddle : p middle = decide (middle < k) := hp middle (by omega)
    cases h : p middle with
    | true =>
      have hlt : middle < k := of_decide_eq_true (hmiddle ▸ h)
      simp only [h, if_true] at ih ⊢
      exact ih (fun i hi => hp i (by omega)) (by omega) (by omega) (by omega)
    | false =>
      have hle : ¬middle < k := of_decide_eq_false (hmiddle ▸ h)
      simp only [h, Bool.false_eq_true, if_false] at ih ⊢
      exact ih (fun i hi => hp i (by omega)) (by omega) (by omega) (by omega)

/-- The length of the longest prefix of `ms` on which `p` holds, supposing that
    `p` holds up to a point and not behind it. -/
def prefixLength (p : Mark → Bool) (ms : List Mark) : Nat :=
  let holds := fun i => ms[i]?.any p
  let last := bisect holds ms.length ms.length 0
  if holds last then last + 1 else last

/-- If `p` holds on the first marks and on none behind them, the prefix is these. -/
theorem prefixLength_append {p : Mark → Bool} {before after : List Mark}
    (hbefore : ∀ m ∈ before, p m = true) (hafter : ∀ m ∈ after, p m = false) :
    prefixLength p (before ++ after) = before.length := by
  have hp : ∀ i, ((before ++ after)[i]?.any p) = decide (i < before.length) := by
    intro i
    by_cases hi : i < before.length
    · simp [List.getElem?_append_left hi, hi, hbefore]
    · rw [List.getElem?_append_right (by omega)]
      cases ha : after[i - before.length]? with
      | none => simp [hi]
      | some m => simp [hi, hafter m (List.mem_of_getElem? ha)]
  have hbounds := @bisect_bounds _ before.length (before ++ after).length (before ++ after).length 0
    (fun i _ => hp i) (Nat.zero_le _) (by simp) (Nat.le_succ _)
  simp only [prefixLength, hp]
  split <;> simp_all <;> omega

/-- The marks with one more, behind those that stand at its position or before. -/
def insert (m : Mark) (ms : List Mark) : List Mark :=
  ms.insertIdx (prefixLength (·.start ≤ m.start) ms) m

private theorem insertIdx_append (m : Mark) (before after : List Mark) :
    (before ++ after).insertIdx before.length m = before ++ m :: after := by
  induction before with
  | nil => simp
  | cons n before ih => simpa using ih

/-- Among marks in order, a new one comes behind those at its position or before. -/
theorem insert_append {m : Mark} {before after : List Mark}
    (hbefore : ∀ n ∈ before, n.start ≤ m.start) (hafter : ∀ n ∈ after, m.start < n.start) :
    insert m (before ++ after) = before ++ m :: after := by
  rw [insert, prefixLength_append (by simpa using hbefore) (by simpa using hafter),
    insertIdx_append]

end Mark

end SqlRouting
