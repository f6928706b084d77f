import SqlRouting.Proofs.AtEnd.Operand

/-!
# Clauses that the text ends in

If the text ends in an operand that a clause comes to (`OperandPlace`), then something of the
operand is missing, or else the rest of the clause is. What the clause makes of this depends on the
place alone (`OperandPlace.failure`): where nothing has to follow the operand and nobody looks out
for the end of the text, the clause is read as if it were complete.
-/

namespace SqlRouting

open SqlRouting.Parser

/-- The error for the missing part of an operand that has to name a column. -/
def Missing.columnFailure (text : List Char) : Missing → Option ParseError
  | name false => none
  | operand | signed | joined | name true => some (.atEnd text)

namespace OperandPlace

/-- The error for the missing part of the operand. -/
def operandFailure (text : List Char) (missing : Missing) : OperandPlace → Option ParseError
  | item | left | groupKey | sortKey | target | assigned => missing.failure text true
  | column | duplicateColumn => missing.columnFailure text
  | inner | right | listed | low | high | joinLeft | joinRight | rowValue | inserted
  | duplicateValue | duplicateReference => missing.failure text false

/-- The error for what is missing behind the operand. -/
def restFailure (text : List Char) : OperandPlace → Option ParseError
  | low => some (.lacks Keyword.AND)
  | joinLeft | column | duplicateColumn => some (.lacks Symbol.equal)
  | listed | rowValue | duplicateReference => some (.lacks Symbol.rightParen)
  | target => some (.atEnd text)
  | item | left | inner | right | high | joinRight | groupKey | sortKey | assigned | inserted
  | duplicateValue => none

/-- Where this is missing, the end of the text is looked out for. -/
def refuses (missing : Missing) (place : OperandPlace) : Bool :=
  match missing with
  | .operand => place ∈ [item, left, groupKey, sortKey, target, assigned, column, duplicateColumn]
  | .signed | .joined => true
  | .name signed => place = target || signed && place ∈ [column, duplicateColumn]

/-- The error for a text that ends in the operand. -/
def failure (text : List Char) (missing : Missing) (place : OperandPlace) : Option ParseError :=
  (place.operandFailure text missing).or (place.restFailure text)

/-- The end of the text is refused exactly where it is looked out for. -/
theorem failure_eq_atEnd (text : List Char) (missing : Missing) (place : OperandPlace) :
    place.failure text missing = some (.atEnd text) ↔ place.refuses missing = true := by
  have hlacks (kind : TokenKind) : ParseError.lacks kind ≠ .atEnd text := nofun
  cases missing with
  | operand | signed | joined =>
    cases place <;> simp [failure, operandFailure, restFailure, refuses, Missing.failure,
      Missing.columnFailure, hlacks]
  | name signed =>
    cases signed <;> cases place <;> simp [failure, operandFailure, restFailure, refuses,
      Missing.failure, Missing.columnFailure, hlacks]

end OperandPlace

namespace Grammar

variable {κ : Type} {text : List Char} {s s₁ s' : ParseState κ} {missing : Missing}
  {place : OperandPlace}

/-! ## Comparisons -/

section

variable (h : s.AtEnd text)
include h

theorem aliasOr_atEnd (keywords : List Keyword) : aliasOr keywords s = .ok none s := by
  rw [aliasOr, bind_of_eq_ok (skipKeyword_atEnd h _), if_neg (by simp), cursor_bind, cursor_bind,
    h.isAny (by simp), h.isKeyword]
  rfl

theorem tableAlias_atEnd : tableAlias s = .ok none s := by
  rw [tableAlias, dialect_bind, aliasOr_atEnd h]

theorem recordCondition_finishes (left : Expression) (comparison : Comparison)
    (values : List Expression) :
    Finishes text none s (recordCondition left comparison values) := by
  rw [recordCondition]
  split
  · rw [routing_bind_finishes]
    split
    · exact modifyRouting_finishes h _
    · exact .pure h ()
  · exact .pure h ()

theorem predicate_atEnd (left : Expression) : Finishes text none s (predicate left) := by
  rw [predicate, dialect_bind_finishes]
  refine .missed (skipSymbol_atEnd h _) (.missed (skipKeyword_atEnd h _)
    (.missed (skipKeyword_atEnd h _) (.missed (skipKeyword_atEnd h _)
      (.missed (skipKeyword_atEnd h _) (.missed (skipIf_atEnd h ?_) (.pure h ()))))))
  simp [looseComparisons]

theorem whereClause_atEnd : whereClause s = .ok () s := by
  rw [whereClause, bind_of_eq_ok (tableAlias_atEnd h), bind_of_eq_ok (skipKeyword_atEnd h _)]
  rfl

end

/-! What is looked for is not found where another keyword stands. -/

theorem skipSymbol_of_keyword {keywords : List Keyword} (h : skipKeyword keywords s = .ok true s')
    (x : Symbol) : skipSymbol x s = .ok false s := by
  obtain ⟨k, hk⟩ := Cursor.exists_of_isKeyword (skipKeyword_eq_ok.1 h).1
  exact skipIf_of_ne (by simp [hk])

theorem skipKeyword_of_keyword {k : Keyword} (h : skipKeyword [k] s = .ok true s')
    {keywords : List Keyword} (hk : k ∉ keywords) : skipKeyword keywords s = .ok false s := by
  have hkind := Cursor.isKeyword_singleton.1 (skipKeyword_eq_ok.1 h).1
  exact skipKeyword_of_ne (by simp [Cursor.isKeyword, hkind, hk])

theorem skipKeyword_of_other {k : Keyword} {keywords : List Keyword}
    (h : s.cursor.isKeyword keywords = false) (hk : k ∈ keywords) :
    skipKeyword [k] s = .ok false s := by
  refine skipKeyword_of_ne ?_
  rw [Cursor.isKeyword] at h ⊢
  split at h
  · simp only [decide_eq_false_iff_not] at h
    rename_i k' _
    simp only [List.mem_singleton, decide_eq_false_iff_not]
    rintro rfl
    exact h hk
  · rfl

section

variable (hs : s.cursor.Stands text) (hlacks : Lacks missing s')
include hs hlacks

theorem InDue.finishes (h : InDue place s s') :
    Finishes text (place.failure text missing) s inValues := by
  cases h with
  | @listed _ s₁ _ hopen hselect hbefore =>
    have hs₁ := ((accept_safe _).stands hs hopen).stands
    have hs' := hbefore.stands (operand_safe.bind fun _ => skipSymbol_safe _) hs₁
    rw [inValues]
    refine .of_bind hopen ?_
    rw [cursor_bind_finishes, if_neg (by simp [hselect])]
    exact (commaSeparated_finishes (E := .all κ) operand_moves hs₁.closed hbefore
      (hlacks.finishes hs')).bind fun _ _ _ hend =>
        .bind_some (.of_error (accept_atEnd hend (by simp)))

theorem BoundDue.finishes (h : BoundDue place s s') :
    Finishes text (place.failure text missing) s betweenBounds := by
  cases h with
  | low =>
    exact (hlacks.finishes hs).bind fun _ _ _ hend =>
      .bind_some (.of_error (accept_atEnd hend (by simp)))
  | high hlow hand =>
    have hs' := ((operand_safe.bind fun _ => accept_safe _).stands hs
      (by rw [bind_of_eq_ok hlow, hand])).stands
    exact .of_bind hlow (.of_bind hand ((hlacks.finishes hs').bind fun _ _ _ hend => .pure hend _))

theorem NegatedDue.finishes (h : NegatedDue place s s') :
    Finishes text (place.failure text missing) s negatedComparison := by
  rw [negatedComparison, dialect_bind_finishes]
  cases h with
  | isIn hfound hdue =>
    have hs₁ := ((skipKeyword_safe _).stands hs hfound).stands
    exact .found hfound ((hdue.finishes hs₁ hlacks).bind_none fun _ _ _ hend => .pure hend ())
  | between hfound hdue =>
    have hs₁ := ((skipKeyword_safe _).stands hs hfound).stands
    exact .missed (skipKeyword_of_keyword hfound (by decide)) (.found hfound
      ((hdue.finishes hs₁ hlacks).bind_none fun _ _ _ hend => .pure hend ()))
  | loose hother hfound =>
    have hs' := ((skipKeyword_safe _).stands hs hfound).stands
    exact .missed (skipKeyword_of_other hother (by decide))
      (.missed (skipKeyword_of_other hother (by decide))
        (.found hfound ((hlacks.finishes hs').bind fun _ _ _ hend => .pure hend ())))

theorem PredicateDue.finishes (h : PredicateDue place s s') (left : Expression) :
    Finishes text (place.failure text missing) s (predicate left) := by
  rw [predicate, dialect_bind_finishes]
  -- The tests are looked for one by one, and those before the one that stands there are missed.
  cases h with
  | equal hfound =>
    have hs' := ((skipSymbol_safe _).stands hs hfound).stands
    exact .found hfound ((hlacks.finishes hs').bind fun _ _ _ hend =>
      recordCondition_finishes hend ..)
  | isIn hfound hdue =>
    have hs₁ := ((skipKeyword_safe _).stands hs hfound).stands
    exact .missed (skipSymbol_of_keyword hfound _) (.found hfound
      ((hdue.finishes hs₁ hlacks).bind_none fun _ _ _ hend => recordCondition_finishes hend ..))
  | between hfound hdue =>
    have hs₁ := ((skipKeyword_safe _).stands hs hfound).stands
    exact .missed (skipSymbol_of_keyword hfound _)
      (.missed (skipKeyword_of_keyword hfound (by decide)) (.found hfound
        ((hdue.finishes hs₁ hlacks).bind_none fun _ _ _ hend => recordCondition_finishes hend ..)))
  | negated hfound hdue =>
    have hs₁ := ((skipKeyword_safe _).stands hs hfound).stands
    exact .missed (skipSymbol_of_keyword hfound _)
      (.missed (skipKeyword_of_keyword hfound (by decide))
        (.missed (skipKeyword_of_keyword hfound (by decide))
          (.found hfound (hdue.finishes hs₁ hlacks))))
  | is hfound hnot =>
    have hs' := (((skipKeyword_safe _).bind fun _ => skipKeyword_safe _).stands hs
      (by rw [bind_of_eq_ok hfound, hnot])).stands
    exact .missed (skipSymbol_of_keyword hfound _)
      (.missed (skipKeyword_of_keyword hfound (by decide))
        (.missed (skipKeyword_of_keyword hfound (by decide))
          (.missed (skipKeyword_of_keyword hfound (by decide)) (.found hfound
            (.of_bind hnot ((hlacks.finishes hs').bind fun _ _ _ hend => .pure hend ()))))))
  | loose hother hfound =>
    have hs' := ((skipIf_safe _).stands hs hfound).stands
    have hequal : skipSymbol .equal s = .ok false s := by
      refine skipIf_of_ne fun hkind => ?_
      have hloose := (skipIf_eq_ok.1 hfound).1
      simp only [List.mem_singleton] at hkind
      simp [Cursor.isAny, hkind, looseComparisons] at hloose
    exact .missed hequal (.missed (skipKeyword_of_other hother (by decide))
      (.missed (skipKeyword_of_other hother (by decide))
        (.missed (skipKeyword_of_other hother (by decide))
          (.missed (skipKeyword_of_other hother (by decide)) (.found hfound
            ((hlacks.finishes hs').bind fun _ _ _ hend => .pure hend ()))))))

theorem ComparisonDue.finishes (h : ComparisonDue place s s') :
    Finishes text (place.failure text missing) s comparison := by
  -- Behind its operand nothing more of a comparison is asked for.
  have hrest {failure : Option ParseError} {s : ParseState κ} {p : Parser κ Unit}
      (hp : Finishes text failure s p) : Finishes text failure s (do
        p
        let _ ← skipSymbol .rightParen) :=
    hp.bind_none fun _ _ _ hend => .of_bind (skipSymbol_atEnd hend _) (.pure hend ())
  have hoperand {s' : ParseState κ} (hs' : s'.cursor.Stands text) (hlacks : Lacks missing s') :
      Finishes text ((missing.failure text false).or none) s' (do
        Grammar.predicate (← operand)
        let _ ← skipSymbol .rightParen) :=
    (hlacks.finishes hs').bind fun e _ _ hend => hrest (predicate_atEnd hend e)
  cases h with
  | left hopen =>
    have hmissed : skipSymbol .leftParen s = .ok false s :=
      skipIf_of_ne (by simpa [Cursor.isSymbol] using hopen)
    exact hlacks.guarded hs fun _ => .of_bind hmissed (hoperand hs hlacks)
  | inner hopen =>
    have hs' := ((skipSymbol_safe _).stands hs hopen).stands
    have hkind : s.cursor.isEnd = false := by
      have hkind := (skipIf_eq_ok.1 hopen).1
      simp only [Cursor.isAny, List.mem_singleton, decide_eq_true_eq] at hkind
      simp [Cursor.isEnd, hkind]
    exact .of_bind (refuseEnd_of_ne hkind) (.of_bind hopen (hoperand hs' hlacks))
  | predicate hleft hdue =>
    have hs₁ := ((refuseEnd_safe.bind fun _ => (skipSymbol_safe _).bind fun _ =>
      operand_safe).stands hs hleft).stands
    simp only [comparisonLeft, bind_eq_ok] at hleft
    obtain ⟨_, _, hrefuse, _, _, hopen, hleft⟩ := hleft
    exact .of_bind hrefuse (.of_bind hopen (.of_bind hleft
      (hrest (hdue.finishes hs₁ hlacks _))))

end

/-- What becomes of the last comparison of a `WHERE` becomes of the whole. -/
theorem whereClause_finishes {s₂ s₃ : ParseState κ} {asName : Option String}
    {failure : Option ParseError} (hs : s.cursor.Stands text)
    (halias : tableAlias s = .ok asName s₁) (hfound : skipKeyword [.WHERE] s₁ = .ok true s₂)
    (hbefore : Items (skipKeyword [.AND]) comparison s₂ s₃)
    (hlast : s₃.cursor.Stands text → Finishes text failure s₃ comparison) :
    Finishes text failure s whereClause := by
  have hs₁ := (tableAlias_safe.stands hs halias).stands
  have hs₂ := ((skipKeyword_safe _).stands hs₁ hfound).stands
  have hs₃ := hbefore.stands (comparison_safe.bind fun _ => skipKeyword_safe _) hs₂
  have hlist := separatedBy_finishes (E := .all κ) (comparison_moves trivial) skipKeyword_shrinks
    (fun hend => skipKeyword_atEnd hend _) hs₂.closed hbefore (hlast hs₃)
  refine .of_bind halias (.found hfound ?_)
  exact (hlist.bind_none fun _ _ _ hend => .pure hend ()).bind_none fun _ _ _ hend =>
    .of_ok (refuse_atEnd hend _) hend

theorem WhereDue.finishes (hs : s.cursor.Stands text) (hlacks : Lacks missing s')
    (h : WhereDue place s s') : Finishes text (place.failure text missing) s whereClause := by
  cases h with
  | intro halias hfound hbefore hdue =>
    exact whereClause_finishes hs halias hfound hbefore fun hs₃ => hdue.finishes hs₃ hlacks

end Grammar

end SqlRouting
