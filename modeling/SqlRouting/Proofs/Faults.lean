import SqlRouting.Proofs.Moves.Statement
import SqlRouting.Proofs.Safe

/-!
# The grammar keeps its promises

Every parser of the grammar is safe, as it is made of safe ones. Three of them cut out text or count
placeholders from a place that they have noted before: an operand, a row, and the assignments of an
insert. What they do between is safe, so the cursor has only moved on since, and no placeholder has
been forgotten.
-/

namespace SqlRouting

open Text (IsBoundary byteLength)

open SqlRouting.Parser

namespace Grammar

variable {κ α : Type} {text : List Char}

/-! ## Operands and aliases -/

theorem atom_safe (t : Token) : Safe text (atom (κ := κ) t) := by
  unfold atom
  split
  · exact takePlaceholder_safe.bind fun _ => .pure _
  all_goals exact .pure _

theorem isJoint_safe : Safe text (isJoint (κ := κ)) :=
  cursor_bind_safe fun _ _ => .pure _

theorem skipJoint_safe : Safe text (skipJoint (κ := κ)) :=
  isJoint_safe.bind fun _ => .ite
    (advance_safe.bind fun _ => (loop_safe (skipIf_safe _)).bind fun _ =>
      refuseEnd_safe.bind fun _ => countPlaceholder_safe.bind fun _ => cursor_bind_safe fun _ _ =>
        .ite (advance_safe.bind fun _ => skipParentheses_safe.bind fun _ => .pure _)
          (skipParentheses_safe.bind fun _ => .pure _))
    (.pure _)

theorem skipJoined_safe : Safe text (skipJoined (κ := κ)) :=
  loop_safe skipJoint_safe

theorem skipComposite_safe : Safe text (skipComposite (κ := κ)) :=
  isJoint_safe.bind fun _ => cursor_bind_safe fun _ _ =>
    .ite (skipParentheses_safe.bind fun _ => skipJoined_safe.bind fun _ => .pure _) (.pure _)

theorem markOwner_safe (owner : Token) : Safe text (markOwner (κ := κ) owner) :=
  routing_safe.bind fun _ => .ite (addMark_safe _) (.pure _)

theorem unsignedOperand_safe : Safe text (unsignedOperand (κ := κ)) :=
  current_bind_safe fun t ht => cursor_bind_safe fun _ _ =>
    have htext : Safe text (textSince (κ := κ) t.start) := textSince_safe ht.boundaries.1
    .ite (skipParentheses_safe.bind fun _ => skipJoined_safe.bind fun _ =>
      htext.bind fun _ => .pure _) <|
    (atom_safe t).bind fun _ => advance_safe.bind fun _ => (skipSymbol_safe _).bind fun _ => .ite
      (takeName_safe.bind fun _ => skipComposite_safe.bind fun _ =>
        .ite (htext.bind fun _ => .pure _) ((markOwner_safe _).bind fun _ => .pure _))
      (skipComposite_safe.bind fun _ => .ite (htext.bind fun _ => .pure _) (.pure _))

theorem signs_safe (n : Nat) : Safe text (signs (κ := κ) n) := by
  induction n with
  | zero => exact .pure []
  | succ n ih =>
    exact cursor_bind_safe fun _ _ => .ite
      (advance_safe.bind fun _ => refuseEnd_safe.bind fun _ => ih.bind fun _ => .pure _) (.pure _)

theorem operand_safe : Safe text (operand (κ := κ)) :=
  current_bind_safe fun t ht => cursor_bind_safe fun _ _ => (signs_safe _).bind fun _ =>
    unsignedOperand_safe.bind fun value => .ite (.pure _) <| by
      cases value with
      | number n => exact .pure _
      | _ => exact (textSince_safe ht.boundaries.1).bind fun _ => .pure _

theorem takeAlias_safe : Safe text (takeAlias (κ := κ)) :=
  current_bind_safe fun _ _ => advance_safe.bind fun _ => .pure _

theorem aliasOr_safe (keywords : List Keyword) : Safe text (aliasOr (κ := κ) keywords) :=
  (skipKeyword_safe _).bind fun _ => .ite
    (current_bind_safe fun t _ => by
      split
      · exact .pure _
      · exact .pure _
      · exact takeAlias_safe.bind fun _ => .pure _)
    (cursor_bind_safe fun _ _ => cursor_bind_safe fun _ _ =>
      .ite (takeAlias_safe.bind fun _ => .pure _) (.pure _))

theorem selectItemAlias_safe : Safe text (selectItemAlias (κ := κ)) :=
  dialect_safe.bind fun _ => aliasOr_safe _

theorem tableAlias_safe : Safe text (tableAlias (κ := κ)) :=
  dialect_safe.bind fun _ => aliasOr_safe _

/-! ## Tables -/

theorem tableName_safe : Safe text (tableName (κ := κ)) :=
  current_bind_safe fun _ _ => cursor_bind_safe fun _ _ => .ite (unexpected_bind_safe _) <|
    advance_safe.bind fun _ => cursor_bind_safe fun _ _ =>
      .ite (.unsupported_bind _ _) (.pure _)

theorem recordTable_safe (mention : Token) (asName : Option String) :
    Safe text (recordTable (κ := κ) mention asName) :=
  (addTable_safe _).bind fun _ => addMark_safe _

theorem tableFactor_safe : Safe text (tableFactor (κ := κ)) :=
  cursor_bind_safe fun _ _ => .ite (.unsupported_bind _ _) <|
    tableName_safe.bind fun _ => tableAlias_safe.bind fun _ => recordTable_safe _ _

theorem tableHints_safe : Safe text (tableHints (κ := κ)) := by
  refine dialect_safe.bind fun d => (skipKeyword_safe _).bind fun _ =>
    .ite (skipParentheses_safe.bind fun _ => ?_) ?_
  all_goals
    exact loop_safe <| (skipKeyword_safe _).bind fun _ => .ite
      ((skipAll_safe _).bind fun _ => skipParentheses_safe.bind fun _ => .pure _) (.pure _)

theorem joinType_safe : Safe text (joinType (κ := κ)) :=
  dialect_safe.bind fun _ => cursor_bind_safe fun _ _ =>
    (loop_safe (skipKeyword_safe _)).bind fun _ => .pure _

theorem joinCondition_safe : Safe text (joinCondition (κ := κ)) :=
  (skipKeyword_safe _).bind fun _ => .ite
    ((separatedBy_safe (operand_safe.bind fun _ => (accept_safe _).bind fun _ =>
      operand_safe.bind fun _ => .pure _) (skipKeyword_safe _)).bind fun _ => .pure _) <|
    (skipKeyword_safe _).bind fun _ => .ite (skipParentheses_safe.bind fun _ => .pure _) (.pure _)

theorem joinedTable_safe : Safe text (joinedTable (κ := κ)) :=
  joinType_safe.bind fun _ => .ite
    (cursor_bind_safe fun _ _ => .ite (.unsupported_bind _ _) <|
      tableFactor_safe.bind fun _ => tableHints_safe.bind fun _ =>
        joinCondition_safe.bind fun _ => .pure _)
    (.pure _)

theorem tableReference_safe : Safe text (tableReference (κ := κ)) :=
  tableFactor_safe.bind fun _ => tableHints_safe.bind fun _ => loop_safe joinedTable_safe

theorem tableReferences_safe (single : Bool) : Safe text (tableReferences (κ := κ) single) :=
  (commaSeparated_safe tableReference_safe).bind fun _ => routing_safe.bind fun _ =>
    .ite (.unsupported _) (.pure _)

/-! ## Comparisons -/

theorem inValues_safe : Safe text (inValues (κ := κ)) :=
  (accept_safe _).bind fun _ => cursor_bind_safe fun _ _ =>
    .ite (.unsupported_bind _ _) <| (commaSeparated_safe operand_safe).bind fun _ =>
      (accept_safe _).bind fun _ => .pure _

theorem betweenBounds_safe : Safe text (betweenBounds (κ := κ)) :=
  operand_safe.bind fun _ => (accept_safe _).bind fun _ => operand_safe.bind fun _ => .pure _

theorem negatedComparison_safe : Safe text (negatedComparison (κ := κ)) :=
  dialect_safe.bind fun _ => (skipKeyword_safe _).bind fun _ =>
    .ite (inValues_safe.bind fun _ => .pure _) <| (skipKeyword_safe _).bind fun _ =>
      .ite (betweenBounds_safe.bind fun _ => .pure _) <| (skipKeyword_safe _).bind fun _ =>
        .ite (operand_safe.bind fun _ => .pure _) unexpected_safe

theorem recordCondition_safe (left : Expression) (comparison : Comparison)
    (values : List Expression) :
    Safe text (recordCondition (κ := κ) left comparison values) :=
  .ite (routing_safe.bind fun r => by
    cases r.tables.column? left with
    | some column => exact addCondition_safe _
    | none => exact .pure _) (.pure _)

theorem predicate_safe (left : Expression) : Safe text (predicate (κ := κ) left) :=
  dialect_safe.bind fun _ => (skipSymbol_safe _).bind fun _ =>
    .ite (operand_safe.bind fun _ => recordCondition_safe _ _ _) <|
    (skipKeyword_safe _).bind fun _ =>
      .ite (inValues_safe.bind fun _ => recordCondition_safe _ _ _) <|
    (skipKeyword_safe _).bind fun _ =>
      .ite (betweenBounds_safe.bind fun _ => recordCondition_safe _ _ _) <|
    (skipKeyword_safe _).bind fun _ => .ite negatedComparison_safe <|
    (skipKeyword_safe _).bind fun _ =>
      .ite ((skipKeyword_safe _).bind fun _ => operand_safe.bind fun _ => .pure _) <|
    (skipIf_safe _).bind fun _ => .ite (operand_safe.bind fun _ => .pure _) (.pure _)

theorem comparison_safe : Safe text (comparison (κ := κ)) :=
  refuseEnd_safe.bind fun _ => (skipSymbol_safe _).bind fun _ => operand_safe.bind fun _ =>
    (predicate_safe _).bind fun _ => (skipSymbol_safe _).bind fun _ => .pure _

theorem whereClause_safe : Safe text (whereClause (κ := κ)) :=
  tableAlias_safe.bind fun _ => (skipKeyword_safe _).bind fun _ => .ite
    (((separatedBy_safe comparison_safe (skipKeyword_safe _)).bind fun _ => .pure _).bind fun _ =>
      refuse_safe _)
    (.pure _)

/-! ## Selects -/

theorem distinct_safe : Safe text (distinct (κ := κ)) :=
  (skipAll_safe _).bind fun _ => (refuse_safe _).bind fun _ =>
    dialect_safe.bind fun _ => refuse_safe _

theorem selectOptions_safe : Safe text (selectOptions (κ := κ)) :=
  dialect_safe.bind fun _ => skipAll_safe _

theorem itemPart_safe : Safe text (itemPart (κ := κ)) :=
  refuseEnd_safe.bind fun _ => cursor_bind_safe fun _ _ =>
    .ite (skipParentheses_safe.bind fun _ => .pure _) <|
    countPlaceholder_safe.bind fun _ => current_bind_safe fun _ _ => advance_safe.bind fun _ =>
      cursor_bind_safe fun _ _ => .ite (skipParentheses_safe.bind fun _ => .pure _) <|
        (skipSymbol_safe _).bind fun _ => .ite (takeName_safe.bind fun _ => .pure _) (.pure _)

theorem joinedParts_safe (n : Nat) : Safe text (joinedParts (κ := κ) n) := by
  induction n with
  | zero => exact .pure []
  | succ n ih =>
    exact cursor_bind_safe fun _ _ => .ite
      (advance_safe.bind fun _ => itemPart_safe.bind fun _ => ih.bind fun _ => .pure _) (.pure _)

theorem plainItem_safe {start : Nat} (hstart : IsBoundary text start) (owners : List Token) :
    Safe text (plainItem start owners) :=
  cursor_bind_safe fun _ _ => (joinedParts_safe _).bind fun _ =>
    (textSince_safe hstart).bind fun _ => selectItemAlias_safe.bind fun _ => .pure _

theorem starItem_safe (owner : Option String) : Safe text (starItem owner) :=
  selectItemAlias_safe.bind fun _ => .pure _

theorem aggregationItem_safe (function : AggregateFunction) {first : Token}
    (hfirst : first.At text) : Safe text (aggregationItem function first) :=
  have hplain := plainItem_safe hfirst.boundaries.1 []
  cursor_bind_safe fun _ _ => .ite
    (skipParentheses_safe.bind fun _ => cursor_bind_safe fun _ _ => .ite hplain
      (selectItemAlias_safe.bind fun _ => .pure _))
    hplain

theorem selectItem_safe : Safe text selectItem :=
  current_bind_safe fun first hfirst => cursor_bind_safe fun _ _ => .ite
    ((modifyClauses_safe _).bind fun _ => advance_safe.bind fun _ =>
      (starItem_safe _).bind fun _ => .pure _) <| by
    cases aggregateFunction? first with
    | some function => exact advance_safe.bind fun _ => aggregationItem_safe _ hfirst
    | none =>
      exact itemPart_safe.bind fun _ => .ite
        ((modifyClauses_safe _).bind fun _ => (starItem_safe _).bind fun _ => .pure _)
        (plainItem_safe hfirst.boundaries.1 _)

theorem selectList_safe : Safe text selectList :=
  (commaSeparated_safe (selectItem_safe.bind fun _ =>
    (modifyClauses_safe _).bind fun _ => .pure _)).bind fun _ =>
      current_bind_safe fun _ _ => (modifyClauses_safe _).bind fun _ => .pure _

theorem markTables_safe (names : List Token) : Safe text (markTables (κ := κ) names) := by
  induction names with
  | nil => exact .pure ()
  | cons t names ih => exact (markOwner_safe t).bind fun _ => ih

theorem direction_safe : Safe text (direction (κ := κ)) :=
  (skipKeyword_safe _).bind fun _ => .ite (.pure _) <|
    (skipKeyword_safe _).bind fun _ => .pure _

theorem sortItem_safe (key : SortKey) (direction : Direction) :
    Safe text (sortItem key direction) :=
  clauses_safe.bind fun _ => dialect_safe.bind fun _ => .pure _

theorem groupItem_safe : Safe text groupItem :=
  refuseEnd_safe.bind fun _ => operand_safe.bind fun e => direction_safe.bind fun _ => by
    cases sortColumn? e with
    | some key => exact (sortItem_safe _ _).bind fun _ => modifyClauses_safe _
    | none => exact .pure _

theorem groupBy_safe : Safe text groupBy :=
  (skipKeyword_safe _).bind fun _ => .ite
    ((accept_safe _).bind fun _ => (commaSeparated_safe groupItem_safe).bind fun _ =>
      dialect_safe.bind fun _ => (skipAll_safe _).bind fun _ =>
        current_bind_safe fun _ _ => modifyClauses_safe _)
    (.pure _)

theorem orderKey_safe (e : Expression) : Safe text (orderKey e) := by
  unfold orderKey
  split
  · exact .ite (.pure _) (.unsupported _)
  · exact .pure _
  · exact unexpected_safe

theorem orderItem_safe : Safe text orderItem :=
  refuseEnd_safe.bind fun _ => operand_safe.bind fun _ => direction_safe.bind fun _ =>
    (orderKey_safe _).bind fun _ => (sortItem_safe _ _).bind fun _ => modifyClauses_safe _

theorem orderBy_safe : Safe text orderBy :=
  (skipKeyword_safe _).bind fun _ => .ite
    ((accept_safe _).bind fun _ => (commaSeparated_safe orderItem_safe).bind fun _ => .pure _)
    (.pure _)

theorem limitValue_safe : Safe text (limitValue (κ := κ)) :=
  current_bind_safe fun t _ => by
    split
    · split
      · exact advance_safe.bind fun _ => .pure _
      · exact unexpected_bind_safe _
    · exact takePlaceholder_safe.bind fun _ => advance_safe.bind fun _ => .pure _
    · exact unexpected_bind_safe _

theorem limitRange_safe : Safe text (limitRange (κ := κ)) :=
  limitValue_safe.bind fun _ => (skipSymbol_safe _).bind fun _ =>
    .ite (limitValue_safe.bind fun _ => .pure _) <| (skipKeyword_safe _).bind fun _ =>
      .ite (limitValue_safe.bind fun _ => .pure _) (.pure _)

theorem markLimitValue_safe (mark : Nat → Int → Mark) (value : LimitValue × Nat) :
    Safe text (markLimitValue (κ := κ) mark value) := by
  obtain ⟨n | index, start⟩ := value
  · exact modifyRouting_safe (f := fun r => { r with marks := r.marks ++ [mark start n] })
      fun _ => .of_sublist (List.sublist_append_left ..)
  · exact .pure _

theorem limit_safe : Safe text limit := by
  refine (skipKeyword_safe _).bind fun _ => .ite (limitRange_safe.bind fun r => ?_) (.pure _)
  obtain ⟨offset, rowCount⟩ := r
  have hrest : Safe text (do
      markLimitValue .rowCount rowCount
      let database := (← cursor).database
      modifyClauses fun s : SelectClauses =>
        { s with limit := some ⟨database, offset.map Prod.fst, some rowCount.1⟩ }) :=
    (markLimitValue_safe _ _).bind fun _ => cursor_bind_safe fun _ _ => modifyClauses_safe _
  cases offset with
  | none => exact hrest
  | some offset => exact (markLimitValue_safe _ _).bind fun _ => hrest

theorem selectRest_safe : Safe text (selectRest (κ := κ)) :=
  (refuse_safe _).bind fun _ => dialect_safe.bind fun _ => refuse_safe _

theorem fromClause_safe : Safe text (fromClause (κ := κ)) :=
  (refuse_safe _).bind fun _ => (skipKeyword_safe _).bind fun _ =>
    .ite (tableReferences_safe _) (.pure _)

/-- What is derived is marked besides the marks that are there. -/
theorem derive_kept (b : Body SelectClauses) :
    b.toRouting.KeptIn b.deriveColumns.deriveOrder.toRouting := by
  have hcolumns : b.toRouting.KeptIn b.deriveColumns.toRouting := by
    refine .of_sublist ?_
    split
    · exact .refl _
    · exact List.sublist_insertIdx ..
  refine hcolumns.trans ?_
  rw [Body.deriveOrder]
  split
  · exact .refl _
  · exact .addMark _ _

theorem selectHead_safe : Safe text selectHead :=
  (accept_safe _).bind fun _ => distinct_safe.bind fun _ => selectOptions_safe.bind fun _ =>
    selectList_safe

theorem select_safe : Safe text select := by
  refine selectHead_safe.bind fun owners => Safe.bind ?_ fun _ => skipRest_safe.bind fun _ =>
    modify_safe fun s => ⟨rfl, derive_kept s.body⟩
  exact fromClause_safe.bind fun _ => (markTables_safe _).bind fun _ =>
      whereClause_safe.bind fun _ => groupBy_safe.bind fun _ => (refuse_safe _).bind fun _ =>
        orderBy_safe.bind fun _ => limit_safe.bind fun _ => selectRest_safe

/-! ## Insertions -/

theorem insertTable_safe : Safe text insertTable :=
  routing_safe.bind fun _ => .pure _

theorem insertInto_safe : Safe text insertInto :=
  dialect_safe.bind fun _ => (skipAll_safe _).bind fun _ => (accept_safe _).bind fun _ =>
    tableName_safe.bind fun _ => (recordTable_safe _ _).bind fun _ =>
      loop_safe <| (skipKeyword_safe _).bind fun _ =>
        .ite (skipParentheses_safe.bind fun _ => .pure _) (.pure _)

theorem insertColumns_safe : Safe text insertColumns :=
  (skipSymbol_safe _).bind fun _ => .ite
    (insertTable_safe.bind fun _ => (commaSeparated_safe (cursor_bind_safe fun _ _ =>
      .ite (unexpected_bind_safe _) (current_bind_safe fun _ _ => (modifyClauses_safe _).bind fun _ =>
        advance_safe))).bind fun _ => current_bind_safe fun _ _ =>
          (modifyClauses_safe _).bind fun _ => accept_safe _)
    (.pure _)

/-- A row is cut out from where it starts to where its last parenthesis stops, and its
    placeholders are those counted since. -/
theorem insertRow_safe (keyword : Keyword) : Safe text (insertRow keyword) := by
  intro s hs
  refine current_bind_safeAt (routing_bind_safeAt ?_)
  refine (accept_safe _ s hs).bind fun _ s₁ _ h₁ => ?_
  refine (commaSeparated_safe operand_safe s₁ h₁.stands).bind fun values s₂ _ h₂ => ?_
  have hrow := h₁.trans h₂
  have ⟨_, hstop, hle⟩ := hrow.stands.current_at.boundaries
  have hslice : Safe text (slice (κ := InsertClauses) s.cursor.current.start _) :=
    slice_safe hs.current_at.boundaries.1 hstop (Nat.le_trans hrow.start_le hle)
  refine current_bind_safeAt ((accept_safe _ s₂ h₂.stands).bind fun _ s₃ _ h₃ => ?_)
  refine (clauses_safe s₃ h₃.stands).bind fun i s₄ _ h₄ => ?_
  refine .ite (Safe.unsupported_bind _ _ s₄ h₄.stands) ?_
  refine (hslice s₄ h₄.stands).bind fun row s₅ _ h₅ => ?_
  have hcounted := (hrow.trans ((h₃.trans h₄).trans h₅)).parameters_le
  refine (placeholdersSince_safeAt h₅.stands hcounted).bind fun n s₆ _ h₆ => ?_
  exact (modifyClauses_safe _).bind (fun _ => modifyClauses_safe _) s₆ h₆.stands

theorem adoptFirstRow_safe : Safe text adoptFirstRow :=
  clauses_safe.bind fun i => by
    cases i.rows.head? with
    | some row =>
      refine modifyRouting_safe ?_
      exact fun _ => .of_eq rfl rfl rfl
    | none => exact .pure _

theorem markRows_safe : Safe text markRows :=
  current_bind_safe fun _ _ => insertTable_safe.bind fun _ => addMark_safe _

theorem insertValues_safe : Safe text insertValues :=
  current_bind_safe fun t _ => by
    split
    · exact dialect_safe.bind fun _ => .ite
        (advance_safe.bind fun _ => markRows_safe.bind fun _ =>
          (commaSeparated_safe (insertRow_safe _)).bind fun _ => adoptFirstRow_safe)
        (.pure _)
    · exact .pure _

theorem columnOfTable_safe (table : Option String) (target : Expression) :
    Safe text (columnOfTable table target) := by
  unfold columnOfTable
  split
  · exact .pure _
  · exact unexpected_safe

theorem insertAssignment_safe (table : Option String) : Safe text (insertAssignment table) :=
  cursor_bind_safe fun _ _ => .ite (unexpected_bind_safe _) <| operand_safe.bind fun _ =>
    (columnOfTable_safe _ _).bind fun _ => (accept_safe _).bind fun _ =>
      operand_safe.bind fun _ => (modifyClauses_safe _).bind fun _ => .pure _

/-- The text of the assignments is cut out from where they start, and their placeholders are
    those counted since. -/
theorem insertSet_safe : Safe text insertSet := by
  refine dialect_safe.bind fun d => (skipKeyword_safe _).bind fun _ => .ite ?_ (.pure _)
  intro s hs
  refine current_bind_safeAt (routing_bind_safeAt ?_)
  refine (markRows_safe s hs).bind fun _ s₁ _ h₁ => ?_
  refine (insertTable_safe s₁ h₁.stands).bind fun table s₂ _ h₂ => ?_
  refine (commaSeparated_safe (insertAssignment_safe table) s₂ h₂.stands).bind
    fun row s₃ _ h₃ => ?_
  refine (textSince_safe hs.current_at.boundaries.1 s₃ h₃.stands).bind fun _ s₄ _ h₄ => ?_
  refine (modifyClauses_safe _ s₄ h₄.stands).bind fun _ s₅ _ h₅ => ?_
  have hcounted := (h₁.trans (h₂.trans (h₃.trans (h₄.trans h₅)))).parameters_le
  refine (placeholdersSince_safeAt h₅.stands hcounted).bind fun n s₆ _ h₆ => ?_
  have hadopted : Safe text (modifyRouting (κ := InsertClauses)
      fun r => { r with conditions := rowConditions row }) :=
    modifyRouting_safe fun _ => .of_eq rfl rfl rfl
  exact (modifyClauses_safe _).bind (fun _ => hadopted) s₆ h₆.stands

theorem duplicateKeyAssignment_safe (table : Option String) :
    Safe text (duplicateKeyAssignment table) :=
  operand_safe.bind fun _ => (columnOfTable_safe _ _).bind fun _ =>
    (modifyClauses_safe _).bind fun _ => (accept_safe _).bind fun _ =>
      (skipKeyword_safe _).bind fun _ => .ite
        ((accept_safe _).bind fun _ => operand_safe.bind fun _ => accept_safe _)
        (operand_safe.bind fun _ => .pure _)

theorem duplicateKeyUpdate_safe : Safe text duplicateKeyUpdate :=
  dialect_safe.bind fun _ => (skipKeyword_safe _).bind fun _ => .ite
    ((accept_safe _).bind fun _ => (accept_safe _).bind fun _ => (accept_safe _).bind fun _ =>
      insertTable_safe.bind fun _ =>
        (commaSeparated_safe (duplicateKeyAssignment_safe _)).bind fun _ => .pure _)
    (.pure _)

theorem insert_safe : Safe text insert :=
  (accept_safe _).bind fun _ => insertInto_safe.bind fun _ => insertColumns_safe.bind fun _ =>
    cursor_bind_safe fun _ _ => .ite (.unsupported_bind _ _) <|
      insertValues_safe.bind fun _ => insertSet_safe.bind fun _ =>
        duplicateKeyUpdate_safe.bind fun _ => skipRest_safe

/-! ## Updates and deletions -/

theorem assignment_safe : Safe text assignment :=
  refuseEnd_safe.bind fun _ => operand_safe.bind fun target => (skipIf_safe _).bind fun _ =>
    refuseEnd_safe.bind fun _ => operand_safe.bind fun value => routing_safe.bind fun r => by
      cases r.tables.column? target with
      | some column => exact modifyClauses_safe _
      | none => exact .pure _

theorem assignments_safe : Safe text assignments :=
  (accept_safe _).bind fun _ => (commaSeparated_safe assignment_safe).bind fun _ => .pure _

theorem updateHead_safe : Safe text updateHead :=
  (accept_safe _).bind fun _ => dialect_safe.bind fun _ => (skipAll_safe _).bind fun _ =>
    (tableReferences_safe _).bind fun _ => assignments_safe.bind fun _ => skipUntil_safe _

theorem update_safe : Safe text update :=
  updateHead_safe.bind fun _ => whereClause_safe.bind fun _ => skipRest_safe

theorem deleteHead_safe : Safe text deleteHead :=
  (accept_safe _).bind fun _ => dialect_safe.bind fun _ => (skipAll_safe _).bind fun _ =>
    (skipKeyword_safe _).bind fun _ => (tableReferences_safe _).bind fun _ => skipUntil_safe _

theorem delete_safe : Safe text delete :=
  deleteHead_safe.bind fun _ => whereClause_safe.bind fun _ => skipRest_safe

end Grammar

end SqlRouting
