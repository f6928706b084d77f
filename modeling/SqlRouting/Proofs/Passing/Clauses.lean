import SqlRouting.Proofs.Moves.Statement
import SqlRouting.Proofs.Passing.Operand

/-!
# Owners in the clauses of a statement

A table is marked where it is mentioned, behind all that is read about it. Every other clause passes
its operands, which settle their owners by themselves if they are admitted. Only behind tables are
there parentheses that are skipped by the clause itself.
-/

namespace SqlRouting.Grammar

open SqlRouting.Parser

section

variable {κ : Type} {stream : List Token} {W : Watch κ stream} {s s₁ s₂ s' : ParseState κ}

/-! ## Tables -/

theorem tableName_eq_ok {t : Token} (h : tableName s = .ok t s') :
    s.cursor.current = t ∧ t.kind = LiteralClass.identifier ∧ advance s = .ok () s' := by
  simp only [tableName, current_bind, cursor_bind, ite_eq_ok, bind_eq_ok, pure_eq_ok,
    unexpected_eq_ok, throw_eq_ok, false_and, and_false, exists_false, false_or] at h
  obtain ⟨hname, _, s₁, hadvance, _, rfl, rfl⟩ := h
  exact ⟨rfl, by simpa [Cursor.isName] using hname, hadvance⟩

theorem recordTable_growth {t : Token} {asName : Option String} {u : Unit}
    (h : recordTable t asName s = .ok u s') (hname : t.kind = LiteralClass.identifier) :
    s'.cursor = s.cursor ∧ Growth [t] s.body.toRouting s'.body.toRouting := by
  obtain ⟨_, s₁, htable, hmark⟩ := bind_eq_ok.1 h
  obtain rfl := modifyRouting_eq_ok.1 htable
  obtain rfl := addMark_eq_ok.1 hmark
  exact ⟨rfl, .record hname rfl rfl⟩

/-- A table is recorded once all that is read about it has been passed. -/
theorem mention_passes (hW : ¬W.silent) {t : Token} {asName : Option String} {u : Unit}
    (hname : tableName s = .ok t s₁) (hs : W.Over s)
    (hpasses : W.Over s₁ → Passes (W.during fun _ _ => False) [] s₁ s₂)
    (hrecord : recordTable t asName s₂ = .ok u s') :
    (∃ named, (W.silent → named = []) ∧ Passes W named s s') := by
  obtain ⟨rfl, hkind, hadvance⟩ := tableName_eq_ok hname
  obtain ⟨hnext, hgrowth⟩ := growth_of_advance hadvance
  obtain ⟨hcursor, hgrowth'⟩ := recordTable_growth hrecord hkind
  have hpassable : Passable W s := .of_kind (by simp [hkind]) (by simp [hkind])
  have hfirst : Passes (W.during fun _ _ => False) [] s s₁ :=
    .next_of_passable hs.on hpassable.during hnext hgrowth
  have hrest := hpasses ((Passes.next_of_passable hs.on hpassable hnext hgrowth).stays hs)
  refine ⟨_, fun hq => absurd hq hW,
    (hfirst.trans hrest).mark (fun _ _ _ => False.elim) rfl ?_ hcursor hgrowth'⟩
  intro heq
  have hle := hrest.suffix.length_le
  rw [heq, Cursor.tokens_of_next hs.on.closed hnext (by simp [hkind]), List.length_cons] at hle
  omega

theorem tableFactor_accounts (hW : ¬W.silent) : Accounts W Anywhere tableFactor Anyhow := by
  intro s _ u s' h hs
  simp only [tableFactor, cursor_bind, ite_eq_ok, bind_eq_ok, throw_eq_ok, false_and, and_false,
    exists_false, false_or] at h
  obtain ⟨_, t, s₁, hname, asName, s₂, halias, hrecord⟩ := h
  refine ⟨mention_passes hW hname hs (fun hs₁ => ?_) hrecord, trivial⟩
  obtain ⟨⟨named, hnamed, hpasses⟩, _⟩ :=
    tableAlias_accounts (W := W.during fun _ _ => False) trivial halias hs₁.during
  exact hnamed trivial ▸ hpasses

theorem joinType_accounts : Accounts W Anywhere joinType Anyhow :=
  dialect_accounts <| cursor_accounts fun _ => .anywhere <|
    (loop_accounts (skipKeyword_accounts (arePlain_hook joinTypes .joinTypes (by decide)))).bind
      fun _ => .pure fun _ h => h

section

variable (hskips : W.Skips)
include hskips

theorem tableHints_accounts : Accounts W Anywhere tableHints Anyhow := by
  have hhints : Accounts W Anywhere (loop do
      if ← skipKeyword W.dialect.indexHint then
        skipAll indexHintTargets
        let _ ← skipParentheses
        return true
      else return false) Anyhow :=
    loop_accounts <| skipKeyword_then_accounts (arePlain_hook [] .indexHint List.not_mem_nil)
      ((skipAll_accounts (arePlain_keywords (by decide))).bind fun _ =>
        (skipParentheses_anywhere hskips).bind fun _ => .pure fun _ h => h) (.pure fun _ h => h)
  exact dialect_accounts <| skipKeyword_then_accounts
    (arePlain_hook [] .tablePartition List.not_mem_nil)
    ((skipParentheses_anywhere hskips).bind fun _ => hhints) hhints

variable (hW : W.OfClauses)
include hW

theorem joinCondition_accountsAt (hs : W.AdmitsDue JoinConditionDue s) :
    AccountsAt W s joinCondition Anyhow := by
  refine skipKeyword_then (arePlain_keywords (by decide)) (fun s₁ hon hbehind => ?_) fun _ => ?_
  · have hequal : Accounts W Anywhere (accept Symbol.equal) fun _ => Unowned stream :=
      accept_unowned (.of_not_mem (by decide))
        (callingKinds_symbol W.dialect [.equal] (by decide) (by simp))
    have hunowned := hbehind.unowned
      (callingKinds_keyword W.dialect [.ON] (by simp [itemKeywords]))
    have hlist : AccountsAt W s₁ (separatedBy (skipKeyword [.AND]) joinEquation) Anyhow := by
      refine separatedBy_accountsAt (fun s₂ hbefore hunowned => ?_) skipAnd_unowned hunowned
      exact (operand_anyhow hW hunowned (hs (.left hon hbefore))).bind fun _ _ hleft _ =>
        (hequal trivial).bind fun _ _ hequal hunowned =>
          (operand_anyhow hW hunowned (hs (.right hon hbefore hleft hequal))).bind
            fun _ _ _ _ => .pure trivial
    exact hlist.bind_anywhere fun _ => .pure fun _ h => h
  · exact skipKeyword_then (arePlain_keywords (by decide))
      (fun _ _ _ => (skipParentheses_anywhere hskips trivial).bind_anywhere fun _ =>
        .pure fun _ h => h)
      fun _ => .pure trivial

theorem joinedTable_accountsAt (hs : ∀ ⦃s₁ s₂⦄, joinType s = .ok true s₁ →
      hintedTable s₁ = .ok () s₂ → W.AdmitsDue JoinConditionDue s₂) :
    AccountsAt W s joinedTable Anyhow := by
  refine (joinType_accounts trivial).bind fun found s₁ hjoin _ => ?_
  cases found with
  | false => exact .pure trivial
  | true =>
    rw [if_pos rfl, AccountsAt.cursor_bind]
    split
    · exact throw_bind_accounts (P := Anywhere) _ _ trivial
    · refine (tableFactor_accounts hW.loud trivial).bind fun _ s₂ hfactor _ =>
        (tableHints_accounts hskips trivial).bind fun _ s₃ hhints _ => ?_
      have htable : hintedTable s₁ = .ok () s₃ := (bind_of_eq_ok hfactor).trans hhints
      exact (joinCondition_accountsAt hskips hW (hs hjoin htable)).bind
        fun _ _ _ _ => .pure trivial

theorem tableReferences_accountsAt (single : Bool) (hs : W.AdmitsDue TablesDue s) :
    AccountsAt W s (tableReferences single) Anyhow := by
  have hlist : AccountsAt W s (commaSeparated tableReference) Anyhow := by
    refine commaSeparated_anywhere fun s₁ hbefore => ?_
    refine (tableFactor_accounts hW.loud trivial).bind fun _ s₂ hfactor _ =>
      (tableHints_accounts hskips trivial).bind fun _ s₃ hhints _ => ?_
    have hfirst : hintedTable s₁ = .ok () s₃ := (bind_of_eq_ok hfactor).trans hhints
    refine loop_accountsAt (P := Anywhere) (fun s₄ hjoined _ => ?_) trivial
    exact joinedTable_accountsAt hskips hW fun _ _ hjoin htable _ _ hdue =>
      hs (.intro hbefore hfirst hjoined hjoin htable hdue)
  refine hlist.bind fun _ s₁ _ _ => ?_
  rw [AccountsAt.routing_bind]
  split
  · exact throw_accounts (P := Anywhere) _ trivial
  · exact .pure trivial

theorem fromClause_accountsAt (hs : ∀ ⦃s₁⦄,
      (do refuse [.INTO]; skipKeyword [.FROM]) s = .ok true s₁ → W.AdmitsDue TablesDue s₁) :
    AccountsAt W s fromClause Anyhow :=
  (refuse_accounts (P := Anywhere) _ trivial).bind fun _ _ hrefuse _ =>
    skipKeyword_then (arePlain_keywords (by decide))
      (fun _ hfrom _ => tableReferences_accountsAt hskips hW false
        (hs ((bind_of_eq_ok hrefuse).trans hfrom)))
      fun _ => .pure trivial

end

end

/-! ## Grouping and sorting -/

section

variable {stream : List Token} {W : Watch SelectClauses stream} {s : ParseState SelectClauses}

theorem direction_accounts {κ : Type} {W : Watch κ stream} :
    Accounts W Anywhere direction Anyhow :=
  skipKeyword_then_accounts (arePlain_keywords (by decide)) (.pure fun _ h => h) <|
    (skipKeyword_accounts (arePlain_keywords (by decide))).bind fun _ => .pure fun _ h => h

theorem sortItem_accounts (key : SortKey) (direction : Direction) :
    Accounts W Anywhere (sortItem key direction) Anyhow :=
  clauses_accounts.bind fun _ => dialect_accounts (.pure fun _ h => h)

theorem orderKey_accounts (e : Expression) : Accounts W Anywhere (orderKey e) Anyhow := by
  unfold orderKey
  split
  · exact .ite (.pure fun _ h => h) (throw_accounts _)
  · exact .pure fun _ h => h
  · exact unexpected_accounts

theorem by_unowned : Accounts W Anywhere (accept Keyword.BY) fun _ => Unowned stream :=
  accept_unowned (.of_not_mem (by decide))
    (callingKinds_keyword W.dialect [.BY] (by simp [itemKeywords]) (by simp))

section

variable (hW : W.OfClauses)
include hW

theorem groupItem_accountsAt (hunowned : Unowned stream s) (hs : W.Admits s) :
    AccountsAt W s groupItem Anyhow := by
  refine (refuseEnd_accounts hunowned).bind fun _ s₁ hrefuse hunowned => ?_
  obtain ⟨_, rfl⟩ := refuseEnd_eq_ok.1 hrefuse
  refine (operand_anyhow hW hunowned hs).bind fun e _ _ _ =>
    (direction_accounts trivial).bind fun _ _ _ _ => ?_
  cases sortColumn? e with
  | some key =>
    exact ((sortItem_accounts ..).bind fun _ => modifyClauses_accounts _) trivial
  | none => exact .pure trivial

theorem groupBy_accountsAt (hs : W.AdmitsDue GroupDue s) : AccountsAt W s groupBy Anyhow := by
  refine skipKeyword_then (arePlain_keywords (by decide)) (fun s₁ hgroup _ => ?_)
    fun _ => .pure trivial
  refine (by_unowned trivial).bind fun _ s₂ hby hunowned => ?_
  have hlist : AccountsAt W s₂ (commaSeparated groupItem) Anyhow :=
    commaSeparated_accountsAt (fun s₃ hbefore hunowned =>
      groupItem_accountsAt hW hunowned (hs (.key hgroup hby hbefore))) hunowned
  have hrest : Accounts W Anywhere (do
      skipAll (← dialect).skippedBehindGroupBy
      let stop := (← current).start
      modifyClauses fun s => { s with groupByStop := stop }) Anyhow :=
    dialect_accounts <| (skipAll_accounts
      (arePlain_hook [] .skippedBehindGroupBy List.not_mem_nil)).bind fun _ =>
        current_accounts fun _ => .anywhere (modifyClauses_accounts _)
  exact hlist.bind fun _ _ _ _ => hrest trivial

theorem orderItem_accountsAt (hunowned : Unowned stream s) (hs : W.Admits s) :
    AccountsAt W s orderItem Anyhow := by
  refine (refuseEnd_accounts hunowned).bind fun _ s₁ hrefuse hunowned => ?_
  obtain ⟨_, rfl⟩ := refuseEnd_eq_ok.1 hrefuse
  exact (operand_anyhow hW hunowned hs).bind fun e _ _ _ =>
    (direction_accounts.bind fun _ => (orderKey_accounts e).bind fun _ =>
      (sortItem_accounts ..).bind fun _ => modifyClauses_accounts _) trivial

theorem orderBy_accountsAt (hs : W.AdmitsDue OrderDue s) : AccountsAt W s orderBy Anyhow := by
  refine skipKeyword_then (arePlain_keywords (by decide)) (fun s₁ horder _ => ?_)
    fun _ => .pure trivial
  refine (by_unowned trivial).bind fun _ s₂ hby hunowned => ?_
  have hlist : AccountsAt W s₂ (commaSeparated orderItem) Anyhow :=
    commaSeparated_accountsAt (fun s₃ hbefore hunowned =>
      orderItem_accountsAt hW hunowned (hs (.key horder hby hbefore))) hunowned
  exact hlist.bind_anywhere fun _ => .pure fun _ h => h

end

/-! ## Limits -/

theorem limitValue_accounts {κ : Type} {W : Watch κ stream} :
    Accounts W Anywhere limitValue Anyhow := by
  intro s _ value s' h hs
  simp only [limitValue, current_bind] at h
  generalize hkind : s.cursor.current.kind = kind at h
  split at h
  case h_1 =>
    cases hn : Number.integer? 10 s.cursor.current.literal.toList with
    | none => simp only [hn, unexpected_bind_eq_ok] at h
    | some n =>
      simp only [hn, bind_eq_ok, pure_eq_ok] at h
      obtain ⟨_, _, ⟨rfl, rfl⟩, _, s₂, hadvance, rfl, rfl⟩ := h
      obtain ⟨hnext, hgrowth⟩ := growth_of_advance hadvance
      have hpassable : Passable W s := .of_kind (by simp [hkind]) (by simp [hkind])
      exact ⟨⟨[], fun _ => rfl, .next_of_passable hs.on hpassable hnext hgrowth⟩, trivial⟩
  case h_2 =>
    simp only [bind_eq_ok, pure_eq_ok, takePlaceholder_eq_ok] at h
    obtain ⟨n, _, ⟨_, rfl⟩, _, _, ⟨rfl, rfl⟩, _, s₂, hadvance, rfl, rfl⟩ := h
    obtain ⟨hnext, hgrowth⟩ := growth_of_countPlaceholder (s := s) (u := ())
      (countPlaceholder_eq_ok.2 (by simp [Cursor.isSymbol, hkind])) hadvance
    exact ⟨⟨[], fun _ => rfl, .next_of_passable hs.on (.of_kind (by simp [hkind]) (by simp [hkind]))
      hnext hgrowth⟩, trivial⟩
  case h_3 => simp only [unexpected_bind_eq_ok] at h

theorem limitRange_accounts {κ : Type} {W : Watch κ stream} :
    Accounts W Anywhere limitRange Anyhow :=
  limitValue_accounts.bind fun _ => skipIf_then_accounts (.of_not_mem (by decide))
    (limitValue_accounts.bind fun _ => .pure fun _ h => h) <|
  skipKeyword_then_accounts (arePlain_keywords (by decide))
    (limitValue_accounts.bind fun _ => .pure fun _ h => h) (.pure fun _ h => h)

/-- The marks of a limit are not of names. -/
theorem markLimitValue_accounts {κ : Type} {W : Watch κ stream} {mark : Nat → Int → Mark}
    (hmark : ∀ start n, (mark start n).isTable = false) (value : LimitValue × Nat) :
    Accounts W Anywhere (markLimitValue mark value) Anyhow := by
  obtain ⟨n | index, start⟩ := value
  · exact modifyRouting_accounts (f := fun r => { r with marks := r.marks ++ [mark start n] })
      fun r => .of_tables_eq rfl (by simp [hmark])
  · exact .pure fun _ h => h

theorem limit_accounts : Accounts W Anywhere limit Anyhow := by
  refine skipKeyword_then_accounts (arePlain_keywords (by decide))
    (limitRange_accounts.bind fun r => ?_) (.pure fun _ h => h)
  have hrest : Accounts W Anywhere (markLimitValue .rowCount r.2 >>= fun _ => cursor >>= fun c =>
      modifyClauses fun s => { s with
        limit := some ⟨c.database, r.1.map Prod.fst, some r.2.1⟩ }) Anyhow :=
    (markLimitValue_accounts (fun _ _ => rfl) r.2).bind fun _ =>
      cursor_accounts fun _ => .anywhere (modifyClauses_accounts _)
  obtain ⟨_ | offset, rowCount⟩ := r
  · exact hrest
  · exact (markLimitValue_accounts (fun _ _ => rfl) offset).bind fun _ => hrest

end

/-! ## Assignments -/

section

variable {stream : List Token} {W : Watch UpdateClauses stream} {s : ParseState UpdateClauses}
  (hW : W.OfClauses)
include hW

/-- Without an equals sign the new value stands directly behind what it is assigned to. -/
theorem assignment_accountsAt (hunowned : Unowned stream s) (hs : W.Admits s)
    (hvalue : ∀ ⦃target s'⦄, assignmentTarget s = .ok target s' → W.Admits s') :
    AccountsAt W s assignment Anyhow := by
  refine (refuseEnd_accounts hunowned).bind fun _ s₁ hrefuse hunowned => ?_
  obtain ⟨_, rfl⟩ := refuseEnd_eq_ok.1 hrefuse
  refine (operand_accountsAt hW hunowned hs).bind fun target s₁ hoperand hdot => ?_
  refine (skipIf_accountsAt (.of_not_mem (by decide))).bind fun found s₂ hequal hfound => ?_
  have htarget : assignmentTarget s = .ok target s₂ :=
    (bind_of_eq_ok hrefuse).trans ((bind_of_eq_ok hoperand).trans (bind_of_eq_ok hequal))
  have hunowned : Unowned stream s₂ := by
    cases found with
    | false =>
      obtain ⟨rfl, _⟩ := hfound
      exact .of_kind hdot
    | true =>
      exact Behind.unowned hfound
        (callingKinds_symbol W.dialect [.equal, .colonEqual] (by decide))
  refine (refuseEnd_accounts hunowned).bind fun _ s₃ hrefuse hunowned => ?_
  obtain ⟨_, rfl⟩ := refuseEnd_eq_ok.1 hrefuse
  refine (operand_anyhow hW hunowned (hvalue htarget)).bind_anywhere fun value =>
    routing_accounts fun r => ?_
  cases r.tables.column? target with
  | some column => exact modifyClauses_accounts _
  | none => exact .pure fun _ h => h

theorem assignments_accountsAt (hs : W.AdmitsDue AssignmentDue s) :
    AccountsAt W s assignments Anyhow := by
  have hset : Accounts W Anywhere (accept Keyword.SET) fun _ => Unowned stream :=
    accept_unowned (.of_not_mem (by decide))
      (callingKinds_keyword W.dialect [.SET] (by simp [itemKeywords]) (by simp))
  refine (hset trivial).bind fun _ s₁ hset hunowned => ?_
  have hlist : AccountsAt W s₁ (commaSeparated assignment) Anyhow :=
    commaSeparated_accountsAt (fun s₂ hbefore hunowned =>
      assignment_accountsAt hW hunowned (hs (.target hset hbefore))
        fun _ _ htarget => hs (.assigned hset hbefore htarget)) hunowned
  exact hlist.bind_anywhere fun _ => .pure fun _ h => h

end

/-! ## Insertions -/

section

variable {stream : List Token} {W : Watch InsertClauses stream} {s : ParseState InsertClauses}
  {P : ParseState InsertClauses → Prop}

theorem insertTable_accounts : Accounts W P insertTable fun _ => P :=
  routing_accounts fun _ => .pure fun _ h => h

theorem insertInto_accounts (hskips : W.Skips) (hW : W.OfClauses) :
    Accounts W Anywhere insertInto Anyhow := by
  have hmention : Accounts W Anywhere
      (tableName >>= fun name => recordTable name none) Anyhow := by
    intro s _ u s' h hs
    obtain ⟨t, s₁, hname, hrecord⟩ := bind_eq_ok.1 h
    exact ⟨mention_passes hW.loud hname hs (fun hs₁ => .refl hs₁.on) hrecord, trivial⟩
  have hpartition : Accounts W Anywhere (loop do
      if ← skipKeyword W.dialect.skippedBeforeValues then
        let _ ← skipParentheses
        return true
      else return false) Anyhow :=
    loop_accounts <| skipKeyword_then_accounts
      (arePlain_hook [] .skippedBeforeValues List.not_mem_nil)
      ((skipParentheses_anywhere hskips).bind fun _ => .pure fun _ h => h) (.pure fun _ h => h)
  refine dialect_accounts <| (skipAll_accounts
    (arePlain_hook [] .skippedBeforeInto List.not_mem_nil)).bind fun _ =>
      (accept_anywhere (.of_not_mem (by decide))).bind fun _ => ?_
  intro s _ u s' h hs
  obtain ⟨t, s₁, hname, h⟩ := bind_eq_ok.1 h
  obtain ⟨_, s₂, hrecord, h⟩ := bind_eq_ok.1 h
  exact (hmention.bind fun _ => hpartition) trivial (bind_eq_ok.2 ⟨_, _, bind_eq_ok.2
    ⟨_, _, hname, hrecord⟩, h⟩) hs

theorem insertColumns_accounts : Accounts W Anywhere insertColumns Anyhow := by
  have hcolumn (table : Option String) : Accounts W Anywhere (do
      if !(← cursor).isName then unexpected
      addColumn ⟨Text.unquoted (← current).literal, table⟩
      advance) Anyhow := by
    intro s _ u s' h hs
    simp only [cursor_bind, current_bind, ite_eq_ok, bind_eq_ok, unexpected_eq_ok, false_and,
      and_false, exists_false, false_or] at h
    obtain ⟨hname, _, s₁, hcolumn, hadvance⟩ := h
    obtain rfl := modifyClauses_eq_ok.1 hcolumn
    obtain ⟨hnext, hgrowth⟩ := growth_of_advance hadvance
    have hkind : s.cursor.current.kind = LiteralClass.identifier := by
      simpa [Cursor.isName] using hname
    have hpasses : Passes W [] s s' :=
      .next_of_passable hs.on (.of_kind (by simp [hkind]) (by simp [hkind])) hnext hgrowth
    exact ⟨⟨[], fun _ => rfl, hpasses⟩, trivial⟩
  refine fun s _ => skipIf_then (.of_not_mem (by decide)) (fun s₁ _ _ => ?_) fun _ => .pure trivial
  exact (insertTable_accounts (P := Anywhere) trivial).bind_anywhere fun table s₂ _ =>
    (commaSeparated_anywhere fun _ _ => hcolumn table trivial).bind_anywhere fun _ =>
      current_accounts fun _ => .anywhere <| (modifyClauses_accounts _).bind fun _ =>
        accept_anywhere (.of_not_mem (by decide))

theorem leftParen_unowned : Accounts W P (accept Symbol.leftParen) fun _ => Unowned stream :=
  accept_unowned (.of_not_mem (by decide))
    (callingKinds_symbol W.dialect [.leftParen] (by decide) (by simp))

theorem equal_unowned : Accounts W P (accept Symbol.equal) fun _ => Unowned stream :=
  accept_unowned (.of_not_mem (by decide))
    (callingKinds_symbol W.dialect [.equal] (by decide) (by simp))

theorem adoptFirstRow_accounts : Accounts W Anywhere adoptFirstRow Anyhow :=
  clauses_accounts.bind fun i => by
    cases i.rows.head? with
    | some row => exact modifyRouting_accounts fun _ => .of_tables_eq rfl (.refl _)
    | none => exact .pure fun _ h => h

theorem markRows_accounts : Accounts W Anywhere markRows Anyhow :=
  current_accounts fun _ => .anywhere <| insertTable_accounts.bind fun _ =>
    modifyRouting_accounts fun _ => .of_tables_eq rfl (Mark.filter_insert rfl _)

theorem columnOfTable_accounts (table : Option String) (target : Expression) :
    Accounts W Anywhere (columnOfTable table target) Anyhow := by
  unfold columnOfTable
  split
  · exact .pure fun _ h => h
  · exact unexpected_accounts

section

variable (hW : W.OfClauses)
include hW

theorem insertRow_accountsAt (keyword : Keyword) (hs : W.AdmitsDue RowDue s) :
    AccountsAt W s (insertRow keyword) Anyhow := by
  rw [insertRow, AccountsAt.current_bind, AccountsAt.routing_bind]
  refine (leftParen_unowned (P := Anywhere) trivial).bind fun _ s₁ hopen hunowned => ?_
  have hvalues : AccountsAt W s₁ (commaSeparated operand) Anyhow :=
    commaSeparated_accountsAt (fun s₂ hbefore hunowned =>
      operand_anyhow hW hunowned (hs (.value hopen hbefore))) hunowned
  exact hvalues.bind_anywhere fun _ => current_accounts fun _ => .anywhere <|
    (accept_anywhere (.of_not_mem (by decide))).bind fun _ => clauses_accounts.bind fun _ =>
      .ite (throw_bind_accounts ..) <| (slice_accounts ..).bind fun _ =>
        (placeholdersSince_accounts _).bind fun _ => (modifyClauses_accounts _).bind fun _ =>
          modifyClauses_accounts _

theorem insertValues_accountsAt (hs : W.AdmitsDue ValuesDue s) :
    AccountsAt W s insertValues Anyhow := by
  rw [insertValues, AccountsAt.current_bind]
  split
  case h_2 => exact .pure trivial
  case h_1 k hkind =>
    refine .of_over fun hover => ?_
    rw [AccountsAt.dialect_bind]
    split
    case isFalse => exact .pure trivial
    case isTrue hk =>
      have hplain : ArePlain W
          ((Keyword.VALUES :: W.dialect.valuesSynonyms).map TokenKind.keyword) :=
        arePlain_hook [.VALUES] .valuesSynonyms (by decide)
      have hpassable : Passable W s := by
        refine hplain.passable ?_
        rw [hkind, ← hover.dialect]
        exact List.mem_map_of_mem hk
      refine (advance_accounts hpassable).bind fun _ s₁ hadvance _ =>
        (markRows_accounts trivial).bind fun _ s₂ hmark _ => ?_
      have hlist : AccountsAt W s₂ (commaSeparated (insertRow k)) Anyhow :=
        commaSeparated_anywhere fun s₃ hbefore => insertRow_accountsAt hW k fun _ _ hdue =>
          hs (.intro hkind hk ((bind_of_eq_ok hadvance).trans hmark) hbefore hdue)
      exact hlist.bind fun _ _ _ _ => adoptFirstRow_accounts trivial

theorem insertAssignment_accountsAt (table : Option String)
    (hs : W.AdmitsDue (InsertedDue table) s) :
    AccountsAt W s (insertAssignment table) Anyhow := by
  rw [insertAssignment, AccountsAt.cursor_bind]
  split
  case isTrue => exact unexpected_bind_accounts (P := Anywhere) _ trivial
  case isFalse hname =>
    have hname : s.cursor.isName = true := by simpa using hname
    have hunowned : Unowned stream s := .of_kind (by
      rw [show s.cursor.current.kind = LiteralClass.identifier by simpa [Cursor.isName] using hname]
      simp)
    refine (operand_anyhow hW hunowned (hs (.column (by simp [hname])))).bind fun e s₁ htarget _ =>
      (columnOfTable_accounts table e trivial).bind fun column s₂ hcolumn _ =>
        (equal_unowned (P := Anywhere) trivial).bind fun _ s₃ hequal hunowned => ?_
    have hinserted : insertedColumn table s = .ok column s₃ := by
      rw [insertedColumn, cursor_bind, if_neg (by simp [hname])]
      exact (bind_of_eq_ok htarget).trans ((bind_of_eq_ok hcolumn).trans (bind_of_eq_ok hequal))
    exact (operand_anyhow hW hunowned (hs (.value hinserted))).bind fun _ _ _ _ =>
      (modifyClauses_accounts _ trivial).bind_anywhere fun _ => .pure fun _ h => h

theorem insertSet_accountsAt (hs : W.AdmitsDue SetDue s) : AccountsAt W s insertSet Anyhow := by
  refine .of_over fun hover => ?_
  rw [insertSet, AccountsAt.dialect_bind]
  have hplain : ArePlain W (s.cursor.dialect.insertSet.map .keyword) :=
    hover.dialect ▸ arePlain_hook [] .insertSet List.not_mem_nil
  refine skipKeyword_then hplain (fun s₁ hset _ => ?_) fun _ => .pure trivial
  rw [AccountsAt.current_bind, AccountsAt.routing_bind]
  refine (markRows_accounts trivial).bind fun _ s₂ hmark _ => ?_
  have hlist : AccountsAt W s₂
      (commaSeparated (insertAssignment s₂.body.tables.firstName?)) Anyhow :=
    commaSeparated_anywhere fun s₃ hbefore => insertAssignment_accountsAt hW _ fun _ _ hdue =>
      hs (.intro hset hmark hbefore hdue)
  have hrest (row : List (Column × Expression)) : Accounts W Anywhere (do
      let text ← textSince s₁.cursor.current.start
      let conditions := rowConditions row
      setRowsStop (s₁.cursor.current.start + Text.byteLength text.toList)
      addRow ⟨.SET, text, ← placeholdersSince s₁.body.parameters, conditions⟩
      modifyRouting fun r => { r with conditions }) Anyhow :=
    (textSince_accounts _).bind fun _ => (modifyClauses_accounts _).bind fun _ =>
      (placeholdersSince_accounts _).bind fun _ => (modifyClauses_accounts _).bind fun _ =>
        modifyRouting_accounts fun _ => .of_tables_eq rfl (.refl _)
  refine (insertTable_accounts (P := Anywhere) trivial).bind fun table s₃ htable _ => ?_
  obtain ⟨rfl, rfl⟩ := pure_eq_ok.1 htable
  exact hlist.bind_anywhere hrest

theorem duplicateKeyAssignment_accountsAt (table : Option String) (hunowned : Unowned stream s)
    (hs : W.AdmitsDue (DuplicateDue table) s) :
    AccountsAt W s (duplicateKeyAssignment table) Anyhow := by
  refine (operand_anyhow hW hunowned (hs (.column s))).bind fun e s₁ htarget _ =>
    (columnOfTable_accounts table e trivial).bind fun column s₂ hcolumn _ =>
      (modifyClauses_accounts _ trivial).bind fun _ s₃ hrecord _ =>
        (equal_unowned (P := Anywhere) trivial).bind fun _ s₄ hequal hunowned => ?_
  have hduplicate : duplicateColumn table s = .ok () s₄ := by
    rw [duplicateColumn, bind_of_eq_ok htarget, bind_of_eq_ok hcolumn, bind_of_eq_ok hrecord]
    exact hequal
  refine skipKeyword_then (arePlain_keywords (by decide)) (fun s₅ hvalues _ => ?_)
    fun hvalues => ?_
  · refine (leftParen_unowned (P := Anywhere) trivial).bind fun _ s₆ hopen hunowned => ?_
    exact (operand_anyhow hW hunowned (hs (.reference hduplicate hvalues hopen))).bind
      fun _ _ _ _ => accept_anyhow (by decide)
  · exact (operand_anyhow hW hunowned (hs (.value hduplicate hvalues))).bind
      fun _ _ _ _ => .pure trivial

theorem duplicateKeyUpdate_accountsAt (hs : W.AdmitsDue DuplicateKeyDue s) :
    AccountsAt W s duplicateKeyUpdate Anyhow := by
  have hupdate : Accounts W Anywhere (accept Keyword.UPDATE) fun _ => Unowned stream :=
    accept_unowned (.of_not_mem (by decide))
      (callingKinds_keyword W.dialect [.UPDATE] (by simp [itemKeywords]) (by simp))
  refine .of_over fun hover => ?_
  rw [duplicateKeyUpdate, AccountsAt.dialect_bind]
  have hplain : ArePlain W (s.cursor.dialect.duplicateKeyUpdate.map .keyword) :=
    hover.dialect ▸ arePlain_hook [] .duplicateKeyUpdate List.not_mem_nil
  refine skipKeyword_then hplain (fun s₁ hfound _ => ?_) fun _ => .pure trivial
  refine (accept_anyhow (by decide)).bind fun _ s₂ hword₁ _ => ?_
  refine (accept_anyhow (by decide)).bind fun _ s₃ hword₂ _ => ?_
  refine (hupdate trivial).bind fun _ s₄ hword₃ hunowned => ?_
  have hwords : (do accept Keyword.DUPLICATE; accept Keyword.KEY; accept Keyword.UPDATE) s₁ =
      .ok () s₄ := (bind_of_eq_ok hword₁).trans ((bind_of_eq_ok hword₂).trans hword₃)
  refine (insertTable_accounts (P := Anywhere) trivial).bind fun table s₅ htable _ => ?_
  obtain ⟨rfl, rfl⟩ := pure_eq_ok.1 htable
  have hlist : AccountsAt W s₄
      (commaSeparated (duplicateKeyAssignment s₄.body.tables.firstName?)) Anyhow :=
    commaSeparated_accountsAt (fun s₅ hbefore hunowned =>
      duplicateKeyAssignment_accountsAt hW _ hunowned fun _ _ hdue =>
        hs (.intro hfound hwords hbefore hdue)) hunowned
  exact hlist.bind_anywhere fun _ => .pure fun _ _ => trivial

end

end

end SqlRouting.Grammar
