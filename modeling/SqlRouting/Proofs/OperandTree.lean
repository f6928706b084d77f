import SqlRouting.Proofs.Facing

/-!
# Operands as they are written

An operand is a term, and further terms that operators join to it; a term is an atom behind signs
or not. What is between the parentheses of a call or a group does not matter, as long as they are
balanced. A tree is made of the tokens that it is written as (`OperandTree.tokens`), and what it
says can be told from its shape (`OperandTree.expression`): an atom that stands alone keeps its
value, a number also behind signs, and all else is what it is written as.
-/

namespace SqlRouting

/-! ## Tokens -/

/-- The token is a word in ASCII that is no keyword. -/
structure Token.IsWord (t : Token) : Prop where
  kind : t.kind = .literal .identifier
  plain : ∀ c ∈ t.literal.toList, c.isAlphanum = true ∨ c = '_' ∨ c = '$'

/-- No character of a word quotes names. -/
theorem Token.IsWord.unquoted {t : Token} (h : t.IsWord) : Text.unquoted t.literal = t.literal := by
  have hfilter : t.literal.toList.filter (fun c => !Text.isNameQuote c) = t.literal.toList := by
    refine List.filter_eq_self.2 fun c hc => ?_
    rw [Bool.not_eq_true', Bool.eq_false_iff]
    intro hquote
    simp only [Text.isNameQuote, Bool.or_eq_true, decide_eq_true_eq] at hquote
    have hplain := h.plain c hc
    rcases hquote with ((rfl | rfl) | rfl) | rfl <;> revert hplain <;> decide
  rw [Text.unquoted, hfilter, String.ofList_toList]

/-- What a token says on its own, as many placeholders having come before as its argument says. -/
inductive Token.Says (t : Token) : (Nat → Expression) → Prop
  | placeholder (ht : t.kind = .symbol .question) : t.Says .placeholder
  | integer {n : Nat} (ht : t.kind = .literal .int) (hn : n ≤ Number.maxInteger)
      (hvalue : Decimal.value? 10 t.literal.toList = some n) :
      t.Says fun _ => .number (.integer n)
  | text (ht : t.kind = .literal .chars) : t.Says fun _ => .text t.literal
  | word (h : t.IsWord) : t.Says fun _ => .identifier t.literal

theorem Token.Says.kind_ne {t : Token} {value : Nat → Expression} (h : t.Says value) :
    t.kind ≠ .symbol .minus ∧ t.kind ≠ .symbol .plus ∧ t.kind ≠ .symbol .tilde ∧
      t.kind ≠ .endOfText ∧ t.kind ≠ .symbol .leftParen := by
  cases h with
  | placeholder ht | integer ht | text ht => simp [ht]
  | word h => simp [h.kind]

theorem questions_signs {signs : List Token}
    (hsigns : ∀ t ∈ signs, t.kind = .symbol .minus ∨ t.kind = .symbol .plus) :
    questions signs = 0 := by
  refine List.countP_eq_zero.2 fun t ht => ?_
  rcases hsigns t ht with h | h <;> simp [h]

/-! ## Trees -/

/-- The smallest operands: a token on its own, a name with its owner, a call, and a group in
    parentheses. -/
inductive OperandAtom where
  | single (t : Token) (value : Nat → Expression) (h : t.Says value)
  | property (owner dot name : Token) (howner : owner.IsWord) (hdot : dot.kind = .symbol .dot)
    (hname : name.IsWord)
  | call (name l : Token) (inner : List Token) (r : Token) (hname : name.IsWord)
    (hl : l.kind = .symbol .leftParen) (hr : r.kind = .symbol .rightParen)
    (hinner : BalancedTokens inner)
  | group (l : Token) (inner : List Token) (r : Token) (hl : l.kind = .symbol .leftParen)
    (hr : r.kind = .symbol .rightParen) (hinner : BalancedTokens inner)

/-- An atom behind signs. -/
structure OperandTerm where
  signs : List Token
  hsigns : ∀ t ∈ signs, t.kind = .symbol .minus ∨ t.kind = .symbol .plus
  atom : OperandAtom

/-- A further term behind an operator. -/
structure OperandJoint where
  op : Token
  hop : ∃ x ∈ Symbol.operators, op.kind = .symbol x
  term : OperandTerm

/-- An operand: a term, and further ones that operators join to it. -/
structure OperandTree where
  first : OperandTerm
  joints : List OperandJoint

namespace OperandAtom

/-- The tokens of the atom. -/
def tokens : OperandAtom → List Token
  | single t _ _ => [t]
  | property owner dot name _ _ _ => [owner, dot, name]
  | call name l inner r _ _ _ _ => name :: l :: (inner ++ [r])
  | group l inner r _ _ _ => l :: (inner ++ [r])

/-- What the atom says, unless it is kept as text. -/
def value? : OperandAtom → Option (Nat → Expression)
  | single _ value _ => some value
  | property owner _ name _ _ _ => some fun _ => .property owner.literal name.literal
  | call .. | group .. => none

theorem tokens_ne_nil (a : OperandAtom) : a.tokens ≠ [] := by
  cases a <;> simp [tokens]

/-- An atom starts with a token that is neither a sign nor the end. -/
theorem headKind_tokens (a : OperandAtom) (us : List Token) :
    headKind (a.tokens ++ us) ≠ .symbol .minus ∧ headKind (a.tokens ++ us) ≠ .symbol .plus ∧
      headKind (a.tokens ++ us) ≠ .endOfText := by
  cases a with
  | single t value h => simp [tokens, h.kind_ne]
  | property owner dot name howner => simp [tokens, howner.kind]
  | call name l inner r hname => simp [tokens, hname.kind]
  | group l inner r hl => simp [tokens, hl]

end OperandAtom

/-- The tokens of the term. -/
def OperandTerm.tokens (term : OperandTerm) : List Token :=
  term.signs ++ term.atom.tokens

/-- The tokens of the joint. -/
def OperandJoint.tokens (joint : OperandJoint) : List Token :=
  joint.op :: joint.term.tokens

/-- The tokens of the joints. -/
def jointTokens (joints : List OperandJoint) : List Token :=
  joints.flatMap OperandJoint.tokens

@[simp] theorem jointTokens_nil : jointTokens [] = [] := rfl

@[simp] theorem jointTokens_cons (joint : OperandJoint) (joints : List OperandJoint) :
    jointTokens (joint :: joints) = joint.tokens ++ jointTokens joints := rfl

/-! ## What an operand says -/

/-- The number behind signs, `minuses` of them minus. -/
def Number.behind (minuses : Nat) (n : Number) : Number :=
  if minuses % 2 = 1 then n.neg else n

/-- The expression behind signs, `minuses` of them minus: only a number keeps its value. -/
def Expression.signed (minuses : Nat) (written : String) : Expression → Expression
  | number n => number (n.behind minuses)
  | _ => other written

namespace OperandTree

/-- The tokens of the operand. -/
def tokens (o : OperandTree) : List Token :=
  o.first.tokens ++ jointTokens o.joints

theorem tokens_ne_nil (o : OperandTree) : o.tokens ≠ [] :=
  List.append_ne_nil_of_left_ne_nil
    (List.append_ne_nil_of_right_ne_nil _ o.first.atom.tokens_ne_nil) _

theorem tokens_append (o : OperandTree) (us : List Token) : o.tokens ++ us =
    o.first.signs ++ (o.first.atom.tokens ++ (jointTokens o.joints ++ us)) := by
  simp [tokens, OperandTerm.tokens]

theorem questions_tokens (o : OperandTree) :
    questions o.tokens = questions (o.first.atom.tokens ++ jointTokens o.joints) := by
  simp [tokens, OperandTerm.tokens, questions_signs o.first.hsigns]

theorem head?_tokens (o : OperandTree) (h : o.first.signs = []) :
    o.first.atom.tokens.head? = o.tokens.head? := by
  rw [tokens, OperandTerm.tokens, h, List.nil_append,
    List.head?_append_of_ne_nil _ o.first.atom.tokens_ne_nil]

/-- What the operand says without its signs, `index` placeholders having come before, if it is
    written `written`: only an atom without joints keeps its value. -/
def unsigned (o : OperandTree) (index : Nat) (written : String) : Expression :=
  match o.joints, o.first.atom.value? with
  | [], some value => value index
  | _, _ => .other written

theorem unsigned_of_other (o : OperandTree) (h : o.joints = [] → o.first.atom.value? = none)
    (index : Nat) (written : String) : o.unsigned index written = .other written := by
  obtain ⟨first, joints⟩ := o
  cases joints with
  | nil => simp only [unsigned, h rfl]
  | cons => rfl

/-- What the operand says, if it is written `written`. -/
def expression (o : OperandTree) (index : Nat) (written : String) : Expression :=
  if o.first.signs.isEmpty then o.unsigned index written
  else (o.unsigned index written).signed (o.first.signs.countP (·.kind = .symbol .minus)) written

/-- Whether the operand keeps its value does not depend on how it is written. -/
theorem expression_of_signs (o : OperandTree) (h : o.first.signs ≠ []) (index : Nat)
    (written inner : String) : o.expression index written =
      (o.unsigned index inner).signed (o.first.signs.countP (·.kind = .symbol .minus))
        written := by
  rw [expression, if_neg (by simpa using h)]
  by_cases hother : o.joints = [] → o.first.atom.value? = none
  · rw [o.unsigned_of_other hother, o.unsigned_of_other hother]
    rfl
  · obtain ⟨hjoints, hvalue⟩ := Classical.not_imp.1 hother
    obtain ⟨value, hvalue⟩ := Option.ne_none_iff_exists'.1 hvalue
    simp only [unsigned, hjoints, hvalue]

end OperandTree

end SqlRouting
