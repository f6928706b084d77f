import SqlRouting.Proofs.Parser

/-!
# Tokens outside of parentheses

Clauses are told apart by keywords that stand outside of all parentheses. `outside` leaves those
tokens of a list that do; a closing parenthesis that has none to close is passed over.
-/

namespace SqlRouting

/-- The number of groups that are open behind some tokens, `depth` being open before
    them. -/
def depthBehind (depth : Nat) (ts : List Token) : Nat :=
  ts.foldl Token.depthBehind depth

/-- Those of the tokens before which no group is open, `depth` being open before the
    first. -/
def outside : Nat → List Token → List Token
  | _, [] => []
  | depth, t :: ts =>
    if depth = 0 then t :: outside (t.depthBehind depth) ts else outside (t.depthBehind depth) ts

@[simp] theorem depthBehind_cons (depth : Nat) (t : Token) (ts : List Token) :
    depthBehind depth (t :: ts) = depthBehind (t.depthBehind depth) ts := rfl

theorem depthBehind_concat (depth : Nat) (ts : List Token) (t : Token) :
    depthBehind depth (ts ++ [t]) = t.depthBehind (depthBehind depth ts) :=
  List.foldl_append ..

/-- If more groups are open before a token than it may close, then more are open behind it. -/
theorem Token.depthBehind_lt {t : Token} {depth depth' : Nat} (h : depth < depth')
    (hopen : ¬(t.kind = .symbol .rightParen ∧ depth = 0)) :
    t.depthBehind depth < t.depthBehind depth' := by
  unfold Token.depthBehind
  split
  · omega
  · have hdepth : depth ≠ 0 := fun hd => hopen ⟨‹_›, hd⟩
    omega
  · exact h

/-- Around a group there may be others: they stay open as long as it does. -/
theorem Token.depthBehind_add_succ {t : Token} {depth outer : Nat}
    (h : ¬(t.kind = .symbol .rightParen ∧ depth = 0)) :
    t.depthBehind (outer + depth + 1) = outer + t.depthBehind depth + 1 := by
  unfold Token.depthBehind
  split
  · omega
  · have hdepth : depth ≠ 0 := fun hd => h ⟨‹_›, hd⟩
    omega
  · rfl

theorem outside_append (depth : Nat) (ts us : List Token) :
    outside depth (ts ++ us) = outside depth ts ++ outside (depthBehind depth ts) us := by
  induction ts generalizing depth with
  | nil => rfl
  | cons t ts ih =>
    simp only [List.cons_append, outside, depthBehind_cons, ih]
    split
    · rfl
    · rfl

/-- All tokens of two parts up to the first that is not `p` are `P`: if such a token is in the
    first part, then the second does not matter. -/
theorem forall_takeWhile_append {P : Token → Prop} {p : Token → Bool} (ts us : List Token) :
    (∀ t ∈ (ts ++ us).takeWhile p, P t) ↔
      (∀ t ∈ ts.takeWhile p, P t) ∧ ((∃ t ∈ ts, p t = false) ∨ ∀ t ∈ us.takeWhile p, P t) := by
  induction ts with
  | nil => simp
  | cons t ts ih =>
    rw [List.cons_append]
    cases hp : p t with
    | false => simp [hp]
    | true =>
      rw [List.takeWhile_cons_of_pos hp, List.takeWhile_cons_of_pos hp, List.forall_mem_cons,
        List.forall_mem_cons, ih, and_assoc]
      simp [hp]

end SqlRouting
