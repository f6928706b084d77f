import SqlRouting.Proofs.Coupled.Notes

/-!
# Operands, tables and comparisons in step

The parsers of what all kinds of statements share, two runs at a time. Each proof goes through its
parser part by part; the part that decides how the texts may differ is the name behind a dot.
-/

namespace SqlRouting.Grammar

open SqlRouting.Parser

variable {κ : Type} {P : Pairing} {C : κ → κ → Prop}

/-! ## Aliases -/

theorem takeAlias_coupled : Coupled P C (Text.Alike P) takeAlias takeAlias :=
  current_coupled.bind fun _ _ h => advance_coupled.bind_eq fun _ => .pure h.literal.unquoted

theorem aliasOr_coupled {h : Hook} {ws vs : List Keyword} (hw : P.Wider h ws vs) :
    (aliasOrNotes h ws).Coupled P C (Option.Rel (Text.Alike P)) (aliasOr vs) := by
  have htake : Coupled P C (Option.Rel (Text.Alike P)) (do return some (← takeAlias))
      (do return some (← takeAlias)) := takeAlias_coupled.bind fun _ _ h => .pure (.some h)
  refine (skipKeyword_coupled (.refl _)).noted.bind_eq fun found => .cond rfl (.of ?_) ?_
  · refine current_coupled.bind fun t u h => ?_
    rw [← h.kind]
    split
    · exact .pure .none
    · exact .pure .none
    · exact htake
  · refine Notes.ask_coupled
      (fun c => c.isAny [LiteralClass.identifier, LiteralClass.chars] || c.isKeyword vs)
      (fun c c' hc => ?_) fun s t hst hfound => ?_
    · rw [hc.isAny_eq]
      cases c'.isAny [LiteralClass.identifier, LiteralClass.chars] with
      | true => exact .inl rfl
      | false => exact hc.isKeyword_cases hw
    · rw [cursor_bind, cursor_bind, cursor_bind, cursor_bind, hfound]
      exact Coupled.cond rfl htake (.pure .none) s t hst

theorem selectItemAlias_coupled :
    selectItemAliasNotes.Coupled P C (Option.Rel (Text.Alike P)) selectItemAlias :=
  .dialect_bind <| aliasOr_coupled <| .append _ (.hook P .selectItemAlias fun _ => id)

theorem tableAlias_coupled :
    tableAliasNotes.Coupled P C (Option.Rel (Text.Alike P)) tableAlias :=
  .dialect_bind <| aliasOr_coupled <| .hook P .tableAlias fun _ => id

/-! ## Operands -/

theorem atom_coupled {t u : Token} (h : t.Alike P u) :
    Coupled P C (Expression.Alike P) (atom t) (atom u) := by
  have hexact (c : LiteralClass) (hk : t.kind = .literal c) : t.literal = u.literal :=
    h.exact (by rw [hk]; rfl)
  rw [atom, atom, ← h.kind]
  split
  · exact takePlaceholder_coupled.bind_eq fun i => .pure (.placeholder i)
  · rw [hexact _ ‹_›]
    exact .pure (.refl _)
  · rw [hexact _ ‹_›]
    exact .pure (.refl _)
  · rw [hexact _ ‹_›]
    exact .pure (.refl _)
  · rw [hexact _ ‹_›]
    exact .pure (.refl _)
  · rw [hexact _ ‹_›]
    exact .pure (.refl _)
  · exact .pure (.other h.literal)

theorem isJoint_coupled : Coupled P C Eq isJoint isJoint :=
  cursor_coupled.bind fun _ _ hc => .pure (by rw [hc.isOperator_eq, hc.isSymbol_eq])

theorem skipJoint_coupled : Coupled P C Eq skipJoint skipJoint := by
  refine isJoint_coupled.bind_eq fun joint => .cond rfl ?_ (.pure rfl)
  refine advance_coupled.bind_eq fun _ => (loop_coupled (skipIf_coupled _)).bind_eq fun _ =>
    refuseEnd_coupled.bind_eq fun _ => countPlaceholder_coupled.bind_eq fun _ =>
    cursor_coupled.bind fun c d hc => ?_
  have hgroup : Coupled P C Eq (do let _ ← skipParentheses; return true)
      (do let _ ← skipParentheses; return true) :=
    skipParentheses_coupled.bind fun _ _ _ => .pure rfl
  exact .cond (by rw [hc.isSymbol_eq]) (advance_coupled.bind_eq fun _ => hgroup) hgroup

theorem skipJoined_coupled : Coupled P C Eq skipJoined skipJoined :=
  loop_coupled skipJoint_coupled

theorem skipComposite_coupled : Coupled P C Eq skipComposite skipComposite :=
  isJoint_coupled.bind_eq fun _ => cursor_coupled.bind fun _ _ hc =>
    .cond (by rw [hc.isSymbol_eq]) (skipParentheses_coupled.bind fun _ _ _ =>
      skipJoined_coupled.bind_eq fun _ => .pure rfl) (.pure rfl)

theorem markOwner_coupled {t u : Token} (h : t.Alike P u) :
    Coupled P C Eq (markOwner t) (markOwner u) := by
  refine routing_coupled.bind fun r r' hr => ?_
  rw [← h.kind, hr.tables.contains_eq h.literal.unquoted]
  by_cases hk : t.kind = .literal .identifier
  · rw [h.start_eq, h.exact (by rw [hk]; rfl)]
    exact .cond rfl (addMark_coupled (.refl _)) (.pure rfl)
  · simp only [hk, decide_false, Bool.false_and]
    exact .pure rfl

theorem unsignedOperand_coupled :
    Coupled P C (Expression.Alike P) unsignedOperand unsignedOperand := by
  refine current_coupled.bind fun t u h => cursor_coupled.bind fun c d hc => ?_
  have hother : Coupled P C (Expression.Alike P) (do return .other (← textSince t.start))
      (do return .other (← textSince u.start)) := by
    rw [h.start_eq]
    exact (textSince_coupled _).bind fun _ _ htext => .pure (.other htext)
  refine .cond (hc.isSymbol_eq _) ?_ ?_
  · exact skipParentheses_coupled.bind fun _ _ _ => skipJoined_coupled.bind_eq fun _ => hother
  · refine (atom_coupled h).bind fun value value' hvalue => advance_coupled.bind_eq fun _ => ?_
    refine dot_takeName_coupled (fun name name' hname hsame => ?_) ?_
    · refine skipComposite_coupled.bind_eq fun _ => .cond rfl hother ?_
      refine (markOwner_coupled h).bind_eq fun _ => .pure ?_
      exact .property h.literal.unquoted hname.literal.unquoted fun hnames => by rw [hsame hnames]
    · exact skipComposite_coupled.bind_eq fun _ => .cond rfl hother (.pure hvalue)

theorem signs_coupled (n : Nat) : Coupled P C Eq (signs n) (signs n) := by
  induction n with
  | zero => exact .pure rfl
  | succ n ih =>
    refine cursor_coupled.bind fun c d hc => ?_
    rw [hc.isSymbol_eq, hc.isSymbol_eq]
    refine .cond rfl ?_ (.pure rfl)
    exact advance_coupled.bind_eq fun _ => refuseEnd_coupled.bind_eq fun _ => ih.bind_eq fun _ =>
      .pure rfl

theorem operand_coupled : Coupled P C (Expression.Alike P) operand operand := by
  refine current_coupled.bind fun t u h => cursor_coupled.bind fun c d hc => ?_
  rw [h.start_eq, hc.movesLeft_eq]
  refine (signs_coupled _).bind_eq fun signs => unsignedOperand_coupled.bind fun e e' he => ?_
  refine .cond rfl (.pure he) ?_
  have hother : Coupled P C (Expression.Alike P) (do return .other (← textSince u.start))
      (do return .other (← textSince u.start)) :=
    (textSince_coupled _).bind fun _ _ htext => .pure (.other htext)
  cases he with
  | number n => exact .pure (.refl _)
  | placeholder | text | identifier | property | other => exact hother

/-! ## Tables -/

/-- Behind the guard that asks for a name, the tokens under the cursors are the same name. -/
theorem name_guard_outcome {α : Type} {R : α → α → Prop} {f g : Unit → Parser κ α}
    {s t : ParseState κ} (hst : s.Alike P C t)
    (h : s.cursor.current.literal = t.cursor.current.literal →
      ParseState.Outcome P C R (f () s) (g () t)) :
    ParseState.Outcome P C R ((do if !(← cursor).isName then unexpected >>= f else f ()) s)
      ((do if !(← cursor).isName then unexpected >>= g else g ()) t) := by
  rw [cursor_bind, cursor_bind, ← hst.cursor.isName_eq]
  cases hname : s.cursor.isName with
  | false => exact unexpected_bind_coupled f g s t hst
  | true =>
    have hkind : s.cursor.current.kind = .literal .identifier := by
      simpa [Cursor.isName] using hname
    exact h (hst.cursor.current.exact (by rw [hkind]; rfl))

theorem tableName_coupled :
    Coupled P C (fun t u => t.Alike P u ∧ t.literal = u.literal) tableName tableName := by
  intro s t hst
  rw [tableName, current_bind, current_bind]
  refine name_guard_outcome hst fun hsame => ?_
  refine Coupled.bind_eq advance_coupled (fun _ => cursor_coupled.bind fun c d hc => ?_) s t hst
  exact .cond (hc.isSymbol_eq _) (.throw_bind (.refl _) _ _) (.pure ⟨hst.cursor.current, hsame⟩)

theorem recordTable_coupled {t u : Token} (h : t.Alike P u) (hsame : t.literal = u.literal)
    {a b : Option String} (hab : Option.Rel (Text.Alike P) a b) :
    Coupled P C Eq (recordTable t a) (recordTable u b) := by
  rw [recordTable, recordTable, hsame, h.start_eq]
  exact .bind_eq (addTable_coupled ⟨rfl, hab⟩) fun _ => addMark_coupled (.refl _)

theorem tableFactor_coupled : tableFactorNotes.Coupled P C Eq tableFactor := by
  refine cursor_coupled.noted.bind fun c d hc =>
    .cond (hc.isSymbol_eq _) (.of (.throw_bind (.refl _) _ _)) ?_
  exact tableName_coupled.noted.bind fun t u h => tableAlias_coupled.bind fun a b hab =>
    (recordTable_coupled h.1 h.2 hab).noted

theorem tableHints_coupled : tableHintsNotes.Coupled P C Eq tableHints := by
  refine .dialect_bind ?_
  have hhint : (Notes.bind (.askKeyword .indexHint P.left.indexHint) fun _ => .silent :
      Notes (do
        if ← skipKeyword P.left.indexHint then
          skipAll indexHintTargets
          let _ ← skipParentheses
          return true
        else return false)).Coupled P C Eq
      (do
        if ← skipKeyword P.right.indexHint then
          skipAll indexHintTargets
          let _ ← skipParentheses
          return true
        else return false) := by
    refine (Notes.askKeyword_coupled (.hook P .indexHint fun _ => id)).bind_eq fun _ => .of ?_
    exact .cond rfl ((skipAll_coupled (.refl _)).bind_eq fun _ =>
      skipParentheses_coupled.bind fun _ _ _ => .pure rfl) (.pure rfl)
  exact (Notes.askKeyword_coupled (.hook P .tablePartition fun _ => id)).bind_eq fun _ =>
    .cond rfl (skipParentheses_coupled.noted.bind fun _ _ _ => .loop hhint) (.loop hhint)

theorem joinType_coupled : joinTypeNotes.Coupled P C Eq joinType := by
  have hwider : P.Wider .joinTypes (joinTypes ++ P.left.joinTypes)
      (joinTypes ++ P.right.joinTypes) := .append _ (.hook P .joinTypes fun _ => id)
  have hask := Notes.askKeyword_coupled (κ := κ) (C := C) hwider
  refine .dialect_bind fun s t hst => ?_
  rcases hst.cursor.isKeyword_cases hwider with hfound | ⟨hnone, hparts⟩
  · refine Or.imp_left (Notes.Parts.bind_right rfl) ?_
    exact (Notes.Coupled.loop hask).bind_eq (fun _ => .of (.pure hfound)) s t hst
  · -- What is declined in the first round of the loop makes the difference.
    refine .inl (Notes.Parts.bind_right rfl (Notes.Parts.bind_left (.inl ⟨_, ?_, hparts⟩)))
    exact Notes.mem_loop (by simp [Notes.askKeyword, Notes.ask, hnone])

theorem joinCondition_coupled : Coupled P C Eq joinCondition joinCondition := by
  have hequation : Coupled P C Eq (do let _ ← operand; accept Symbol.equal; let _ ← operand)
      (do let _ ← operand; accept Symbol.equal; let _ ← operand) :=
    operand_coupled.bind fun _ _ _ => (accept_coupled _).bind_eq fun _ =>
      operand_coupled.bind fun _ _ _ => .pure rfl
  refine (skipKeyword_coupled (.refl _)).bind_eq fun _ => .cond rfl ?_ ?_
  · exact (separatedBy_coupled (skipKeyword_coupled (.refl _)) hequation).bind fun _ _ _ =>
      .pure rfl
  · exact (skipKeyword_coupled (.refl _)).bind_eq fun _ =>
      .cond rfl (skipParentheses_coupled.bind fun _ _ _ => .pure rfl) (.pure rfl)

theorem joinedTable_coupled : joinedTableNotes.Coupled P C Eq joinedTable := by
  refine joinType_coupled.bind_eq fun _ => .cond rfl ?_ (.of (.pure rfl))
  refine cursor_coupled.noted.bind fun c d hc =>
    .cond (hc.isSymbol_eq _) (.of (.throw_bind (.refl _) _ _)) ?_
  exact tableFactor_coupled.bind_eq fun _ => tableHints_coupled.bind_eq fun _ =>
    .of (joinCondition_coupled.bind_eq fun _ => .pure rfl)

theorem tableReference_coupled : tableReferenceNotes.Coupled P C Eq tableReference :=
  tableFactor_coupled.bind_eq fun _ => tableHints_coupled.bind_eq fun _ =>
    .loop joinedTable_coupled

theorem tableReferences_coupled (single : Bool) :
    (tableReferencesNotes single).Coupled P C Eq (tableReferences single) := by
  refine (Notes.Coupled.commaSeparated tableReference_coupled).bind fun _ _ _ => .of <|
    routing_coupled.bind fun r r' hr => ?_
  rw [hr.tables.size_eq]
  exact .cond rfl (.throw (.refl _)) (.pure rfl)

/-! ## Comparisons -/

theorem recordCondition_coupled {left left' : Expression} (hleft : left.Alike P left')
    (comparison : Comparison) {values values' : List Expression}
    (hvalues : List.Forall₂ (Expression.Alike P) values values') :
    Coupled P C Eq (recordCondition left comparison values)
      (recordCondition left' comparison values') := by
  have hall : values.all Expression.isValue = values'.all Expression.isValue := by
    induction hvalues with
    | nil => rfl
    | cons he _ ih => rw [List.all_cons, List.all_cons, he.isValue_eq, ih]
  rw [recordCondition, recordCondition, ← hall]
  cases hareValues : values.all Expression.isValue with
  | false => exact .pure rfl
  | true =>
    -- Values are the same as soon as they are alike.
    obtain rfl : values = values' := by
      have hvalue := List.all_eq_true.1 hareValues
      clear hall hareValues
      induction hvalues with
      | nil => rfl
      | cons he _ ih =>
        rw [he.eq_of_isValue (hvalue _ (List.mem_cons_self ..)),
          ih fun e hmem => hvalue e (List.mem_cons_of_mem _ hmem)]
    refine routing_coupled.bind fun r r' hr => ?_
    rcases rel_cases (hr.tables.column? hleft) with ⟨ha, hb⟩ | ⟨column, column', ha, hb, hcolumn⟩
    · rw [ha, hb]
      exact .pure rfl
    · rw [ha, hb]
      exact addCondition_coupled fun hnames => by rw [hcolumn.eq hnames]

theorem inValues_coupled :
    Coupled P C (List.Forall₂ (Expression.Alike P)) inValues inValues := by
  refine (accept_coupled _).bind_eq fun _ => cursor_coupled.bind fun c d hc =>
    .cond (hc.isKeyword_eq (.refl _)) (.throw_bind (.refl _) _ _) ?_
  exact (commaSeparated_coupled operand_coupled).bind fun _ _ hvalues =>
    (accept_coupled _).bind_eq fun _ => .pure hvalues

theorem betweenBounds_coupled :
    Coupled P C (List.Forall₂ (Expression.Alike P)) betweenBounds betweenBounds :=
  operand_coupled.bind fun _ _ hlow => (accept_coupled _).bind_eq fun _ =>
    operand_coupled.bind fun _ _ hhigh => .pure (.cons hlow (.cons hhigh .nil))

theorem negatedComparison_coupled :
    negatedComparisonNotes.Coupled P C Eq negatedComparison := by
  refine .dialect_bind <| (skipKeyword_coupled (.refl _)).noted.bind_eq fun _ =>
    .cond rfl (.of ?_) ?_
  · exact inValues_coupled.bind fun _ _ _ => .pure rfl
  · refine (skipKeyword_coupled (.refl _)).noted.bind_eq fun _ => .cond rfl (.of ?_) ?_
    · exact betweenBounds_coupled.bind fun _ _ _ => .pure rfl
    · have hwider := (Pairing.Wider.hook P .comparisons fun _ => id).cons .LIKE
      exact (Notes.askKeyword_coupled hwider).bind_eq fun _ => .of <|
        .cond rfl (operand_coupled.bind fun _ _ _ => .pure rfl) unexpected_coupled

theorem predicate_coupled {left left' : Expression} (hleft : left.Alike P left') :
    (predicateNotes left).Coupled P C Eq (predicate left') := by
  have hoperand : Coupled P C Eq (do let _ ← operand) (do let _ ← operand) :=
    operand_coupled.bind fun _ _ _ => .pure rfl
  refine .dialect_bind <| (skipSymbol_coupled _).noted.bind_eq fun _ => .cond rfl (.of ?_) ?_
  · exact operand_coupled.bind fun _ _ hright =>
      recordCondition_coupled hleft _ (.cons hright .nil)
  refine (skipKeyword_coupled (.refl _)).noted.bind_eq fun _ => .cond rfl (.of ?_) ?_
  · exact inValues_coupled.bind fun _ _ hvalues => recordCondition_coupled hleft _ hvalues
  refine (skipKeyword_coupled (.refl _)).noted.bind_eq fun _ => .cond rfl (.of ?_) ?_
  · exact betweenBounds_coupled.bind fun _ _ hbounds => recordCondition_coupled hleft _ hbounds
  refine (skipKeyword_coupled (.refl _)).noted.bind_eq fun _ =>
    .cond rfl negatedComparison_coupled ?_
  refine (skipKeyword_coupled (.refl _)).noted.bind_eq fun _ => .cond rfl (.of ?_) ?_
  · exact (skipKeyword_coupled (.refl _)).bind_eq fun _ => hoperand
  · exact (Notes.askKind_coupled _ (.hook P .comparisons fun _ => id)).bind_eq fun _ => .of <|
      .cond rfl hoperand (.pure rfl)

theorem comparison_coupled : comparisonNotes.Coupled P C Eq comparison :=
  refuseEnd_coupled.noted.bind_eq fun _ => (skipSymbol_coupled _).noted.bind_eq fun _ =>
    operand_coupled.noted.bind fun _ _ hleft => (predicate_coupled hleft).bind_eq fun _ =>
    .of ((skipSymbol_coupled _).bind_eq fun _ => .pure rfl)

theorem comparisons_coupled : comparisonsNotes.Coupled P C Eq comparisons :=
  (Notes.Coupled.separatedBy (skipKeyword_coupled (.refl _)) comparison_coupled).bind fun _ _ _ =>
    .of (.pure rfl)

theorem whereClause_coupled : whereClauseNotes.Coupled P C Eq whereClause :=
  tableAlias_coupled.bind fun _ _ _ => (skipKeyword_coupled (.refl _)).noted.bind_eq fun _ =>
    .cond rfl (comparisons_coupled.bind_eq fun _ => (refuse_coupled (.refl _)).noted)
      (.of (.pure rfl))

end SqlRouting.Grammar
