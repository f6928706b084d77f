import SqlRouting.Parse
import SqlRouting.Proofs.Coupled.Select

/-!
# Statements in step

The statements of the other kinds, and the parse of a whole text, two runs at a time: from alike
token streams the runs come to alike statements or alike errors (`parse_alike`).
-/

namespace SqlRouting

variable {P : Pairing}

namespace Grammar

open SqlRouting.Parser

/-! ## Insertions -/

theorem insertTable_coupled : Coupled P (InsertClauses.Alike P) Eq insertTable insertTable :=
  routing_coupled.bind fun _ _ hr => .pure hr.tables.firstName?_eq

theorem insertInto_coupled : insertIntoNotes.Coupled P (InsertClauses.Alike P) Eq insertInto := by
  refine .dialect_bind <| Notes.askAll_bind_coupled .skippedBeforeInto ?_ ?_
  · refine (accept_coupled _).noted.bind_eq fun _ => tableName_coupled.noted.bind fun t u h =>
      (recordTable_coupled h.1 h.2 .none).noted.bind_eq fun _ => .loop <|
      (Notes.askKeyword_coupled (.hook P .skippedBeforeValues fun _ => id)).bind_eq fun _ => .of <|
      .cond rfl ?_ (.pure rfl)
    exact skipParentheses_coupled.bind fun _ _ _ => .pure rfl
  · -- Only `INTO` itself may be skipped before an `INTO` that is there.
    intro s t k m hside _ hk hprecedes _
    refine .inl (.inr ⟨hside, fun a s' hok => ?_⟩)
    obtain ⟨_, _, haccept, _⟩ := bind_eq_ok.1 hok
    have hinto := (accept_eq_ok.1 haccept).1
    rw [hk, TokenKind.keyword.injEq] at hinto
    exact hprecedes hinto

theorem addColumn_coupled {c c' : Column} (h : c.Alike P c') :
    Coupled P (InsertClauses.Alike P) Eq (addColumn c) (addColumn c') :=
  modifyClauses_coupled fun _ _ hi => ⟨List.rel_append hi.columns (.cons h .nil), hi.rows,
    hi.columnsStop, hi.rowsStop, hi.duplicateKeyColumns⟩

theorem addRow_coupled {row row' : InsertedRow} (h : row.Alike P row') :
    Coupled P (InsertClauses.Alike P) Eq (addRow row) (addRow row') :=
  modifyClauses_coupled fun _ _ hi => ⟨hi.columns, List.rel_append hi.rows (.cons h .nil),
    hi.columnsStop, hi.rowsStop, hi.duplicateKeyColumns⟩

theorem setRowsStop_coupled (stop : Nat) :
    Coupled P (InsertClauses.Alike P) Eq (setRowsStop stop) (setRowsStop stop) :=
  modifyClauses_coupled fun _ _ hi =>
    ⟨hi.columns, hi.rows, hi.columnsStop, rfl, hi.duplicateKeyColumns⟩

theorem insertColumns_coupled :
    Coupled P (InsertClauses.Alike P) Eq insertColumns insertColumns := by
  refine (skipSymbol_coupled _).bind_eq fun _ => .cond rfl ?_ (.pure rfl)
  refine insertTable_coupled.bind_eq fun table => (commaSeparated_coupled (R := Eq) ?_).bind
    fun _ _ _ => current_coupled.bind fun t u h => ?_
  · intro s t hst
    refine name_guard_outcome hst fun hsame => ?_
    beta_reduce
    rw [current_bind, current_bind, hsame]
    exact Coupled.bind_eq (addColumn_coupled ⟨fun _ => rfl, rfl⟩) (fun _ => advance_coupled) s t hst
  · rw [h.start_eq]
    refine .bind_eq (modifyClauses_coupled fun _ _ hi => ?_) fun _ => accept_coupled _
    exact ⟨hi.columns, hi.rows, rfl, hi.rowsStop, hi.duplicateKeyColumns⟩

theorem rowConditions_eq {row row' : List (Column × Expression)}
    (h : List.Forall₂ (Assignment.Alike P) row row') (hnames : P.names) :
    rowConditions row = rowConditions row' := by
  have hvalue (a b : Column × Expression) (hab : Assignment.Alike P a b) :
      valueCondition? a.1 a.2 = valueCondition? b.1 b.2 := by
    rw [valueCondition?, valueCondition?, hab.1.eq hnames, hab.2.isValue_eq]
    split
    case isTrue hb => rw [hab.2.eq_of_isValue (hab.2.isValue_eq ▸ hb)]
    case isFalse => rfl
  rw [rowConditions, rowConditions]
  congr 1
  induction h with
  | nil => rfl
  | cons hab _ ih => simp only [List.filterMap_cons, hvalue _ _ hab, ih]

theorem zip_alike {columns columns' : List Column} {values values' : List Expression}
    (hcolumns : List.Forall₂ (Column.Alike P) columns columns')
    (hvalues : List.Forall₂ (Expression.Alike P) values values') :
    List.Forall₂ (Assignment.Alike P) (columns.zip values) (columns'.zip values') := by
  induction hcolumns generalizing values values' with
  | nil => exact .nil
  | cons hcolumn _ ih =>
    cases hvalues with
    | nil => exact .nil
    | cons hvalue hmore => exact .cons ⟨hcolumn, hvalue⟩ (ih hmore)

theorem insertRow_coupled (keyword : Keyword) :
    Coupled P (InsertClauses.Alike P) Eq (insertRow keyword) (insertRow keyword) := by
  refine current_coupled.bind fun t u h => routing_coupled.bind fun r r' hr =>
    (accept_coupled _).bind_eq fun _ => (commaSeparated_coupled operand_coupled).bind
    fun values values' hvalues => current_coupled.bind fun t' u' h' =>
    (accept_coupled _).bind_eq fun _ => clauses_coupled.bind fun i i' hi => ?_
  rw [h.start_eq, hr.parameters, h'.stop]
  refine .cond ?_ (.throw_bind (.refl _) _ _) ?_
  · rw [forall₂_isEmpty_eq hi.columns, hi.columns.length_eq, hvalues.length_eq]
  refine (slice_coupled _ _).bind fun text text' htext =>
    (placeholdersSince_coupled _).bind_eq fun count => ?_
  exact .bind_eq (addRow_coupled ⟨rfl, htext, rfl, rowConditions_eq (zip_alike hi.columns hvalues)⟩)
    fun _ => setRowsStop_coupled _

theorem adoptFirstRow_coupled :
    Coupled P (InsertClauses.Alike P) Eq adoptFirstRow adoptFirstRow := by
  refine clauses_coupled.bind fun i i' hi => ?_
  have hrows := hi.rows
  generalize i.rows = rows at hrows ⊢
  generalize i'.rows = rows' at hrows ⊢
  cases hrows with
  | nil => exact .pure rfl
  | cons hrow => exact modifyRouting_coupled fun _ _ hr =>
      ⟨hr.tables, hrow.conditions, hr.marks, hr.parameters⟩

theorem markRows_coupled : Coupled P (InsertClauses.Alike P) Eq markRows markRows := by
  refine current_coupled.bind fun t u h => ?_
  rw [h.start_eq]
  exact insertTable_coupled.bind_eq fun table => addMark_coupled (.refl _)

theorem insertValues_coupled :
    insertValuesNotes.Coupled P (InsertClauses.Alike P) Eq insertValues := by
  refine Notes.ask_coupled (fun c => c.isKeyword (.VALUES :: c.dialect.valuesSynonyms))
    (fun c d hc => ?_) fun s t hst hfound => ?_
  · rw [hc.left, hc.right]
    exact hc.isKeyword_cases ((Pairing.Wider.hook P .valuesSynonyms fun _ => id).cons .VALUES)
  · rw [insertValues, current_bind, current_bind, ← hst.cursor.kind_eq]
    generalize hkind : s.cursor.current.kind = kind
    cases kind with
    | keyword k =>
      have hmem : k ∈ .VALUES :: s.cursor.dialect.valuesSynonyms ↔
          k ∈ .VALUES :: t.cursor.dialect.valuesSynonyms := by
        simpa only [Cursor.isKeyword, ← hst.cursor.kind_eq, hkind, decide_eq_decide] using hfound
      refine Coupled.ite hmem ?_ (.pure rfl) s t hst
      exact advance_coupled.bind_eq fun _ => markRows_coupled.bind_eq fun _ =>
        (commaSeparated_coupled (insertRow_coupled k)).bind fun _ _ _ => adoptFirstRow_coupled
    | literal | symbol | endOfText => exact .ok rfl hst

theorem columnOfTable_coupled (table : Option String) {e e' : Expression} (h : e.Alike P e') :
    Coupled P (InsertClauses.Alike P) (Column.Alike P) (columnOfTable table e)
      (columnOfTable table e') := by
  rw [columnOfTable, columnOfTable]
  rcases rel_cases h.columnName? with ⟨hk, hl⟩ | ⟨_, _, hk, hl, hname⟩
  · rw [hk, hl]
    exact unexpected_coupled
  · rw [hk, hl]
    exact .pure ⟨hname, rfl⟩

theorem insertAssignment_coupled (table : Option String) :
    Coupled P (InsertClauses.Alike P) (Assignment.Alike P) (insertAssignment table)
      (insertAssignment table) := by
  refine cursor_coupled.bind fun c d hc =>
    .cond (by rw [hc.isName_eq]) (unexpected_bind_coupled _ _) ?_
  exact operand_coupled.bind fun e e' he => (columnOfTable_coupled table he).bind
    fun column column' hcolumn => (accept_coupled _).bind_eq fun _ =>
    operand_coupled.bind fun value value' hvalue =>
    (addColumn_coupled hcolumn).bind_eq fun _ => .pure ⟨hcolumn, hvalue⟩

theorem insertSet_coupled : insertSetNotes.Coupled P (InsertClauses.Alike P) Eq insertSet := by
  refine .dialect_bind <| (Notes.askKeyword_coupled (.hook P .insertSet fun _ => id)).bind_eq
    fun _ => .of <| .cond rfl ?_ (.pure rfl)
  refine current_coupled.bind fun t u h => routing_coupled.bind fun r r' hr => ?_
  rw [h.start_eq, hr.parameters]
  refine markRows_coupled.bind_eq fun _ => insertTable_coupled.bind_eq fun table =>
    (commaSeparated_coupled (insertAssignment_coupled table)).bind fun row row' hrow =>
    (textSince_coupled _).bind fun text text' htext => ?_
  dsimp only
  rw [htext.byteLength_eq]
  refine (setRowsStop_coupled _).bind_eq fun _ => (placeholdersSince_coupled _).bind_eq fun count =>
    .bind_eq (addRow_coupled ⟨rfl, htext, rfl, rowConditions_eq hrow⟩) fun _ =>
    modifyRouting_coupled fun _ _ hr => ?_
  exact ⟨hr.tables, rowConditions_eq hrow, hr.marks, hr.parameters⟩

theorem duplicateKeyAssignment_coupled (table : Option String) :
    Coupled P (InsertClauses.Alike P) Eq (duplicateKeyAssignment table)
      (duplicateKeyAssignment table) := by
  refine operand_coupled.bind fun e e' he => (columnOfTable_coupled table he).bind
    fun column column' hcolumn => .bind_eq (modifyClauses_coupled fun _ _ hi => ?_) fun _ =>
    (accept_coupled _).bind_eq fun _ => (skipKeyword_coupled (.refl _)).bind_eq fun _ =>
    .cond rfl ?_ (operand_coupled.bind fun _ _ _ => .pure rfl)
  · exact ⟨hi.columns, hi.rows, hi.columnsStop, hi.rowsStop,
      List.rel_append hi.duplicateKeyColumns (.cons hcolumn .nil)⟩
  · exact (accept_coupled _).bind_eq fun _ => operand_coupled.bind fun _ _ _ => accept_coupled _

theorem duplicateKeyUpdate_coupled :
    duplicateKeyUpdateNotes.Coupled P (InsertClauses.Alike P) Eq duplicateKeyUpdate := by
  refine .dialect_bind <| (Notes.askKeyword_coupled
    (.hook P .duplicateKeyUpdate fun _ => id)).bind_eq fun _ => .of <| .cond rfl ?_ (.pure rfl)
  exact (accept_coupled _).bind_eq fun _ => (accept_coupled _).bind_eq fun _ =>
    (accept_coupled _).bind_eq fun _ => insertTable_coupled.bind_eq fun table =>
    (commaSeparated_coupled (duplicateKeyAssignment_coupled table)).bind fun _ _ _ => .pure rfl

theorem insert_coupled : insertNotes.Coupled P (InsertClauses.Alike P) Eq insert := by
  refine (accept_coupled _).noted.bind_eq fun _ => insertInto_coupled.bind_eq fun _ =>
    insertColumns_coupled.noted.bind_eq fun _ => cursor_coupled.noted.bind fun c d hc => .cond ?_
    (.of (.throw_bind (.refl _) _ _)) ?_
  · rw [hc.isKeyword_eq (.refl _), hc.isSymbol_eq]
  · exact insertValues_coupled.bind_eq fun _ => insertSet_coupled.bind_eq fun _ =>
      duplicateKeyUpdate_coupled.bind_eq fun _ => skipRest_coupled.noted

/-! ## Updates and deletions -/

theorem assignment_coupled : Coupled P (UpdateClauses.Alike P) Eq assignment assignment := by
  refine refuseEnd_coupled.bind_eq fun _ => operand_coupled.bind fun e e' he =>
    (skipIf_coupled _).bind_eq fun _ => refuseEnd_coupled.bind_eq fun _ =>
    operand_coupled.bind fun value value' hvalue => routing_coupled.bind fun r r' hr => ?_
  rcases rel_cases (hr.tables.column? he) with ⟨hk, hl⟩ | ⟨_, _, hk, hl, hcolumn⟩
  · rw [hk, hl]
    exact .pure rfl
  · rw [hk, hl]
    exact modifyClauses_coupled fun _ _ hu =>
      ⟨List.rel_append hu.assignments (.cons ⟨hcolumn, hvalue⟩ .nil)⟩

theorem assignments_coupled : Coupled P (UpdateClauses.Alike P) Eq assignments assignments :=
  (accept_coupled _).bind_eq fun _ => (commaSeparated_coupled assignment_coupled).bind
    fun _ _ _ => .pure rfl

section

variable {κ : Type} {C : κ → κ → Prop}

/-- References to tables start with a name. -/
theorem isName_of_tableReferences {s s' : ParseState κ} {single : Bool} {u : Unit}
    (h : tableReferences single s = .ok u s') : s.cursor.isName = true := by
  obtain ⟨_, _, h, _⟩ := bind_eq_ok.1 h
  rw [commaSeparated, separatedBy, cursor_bind, Cursor.movesLeft, collect] at h
  obtain ⟨_, _, h, _⟩ := bind_eq_ok.1 h
  obtain ⟨_, _, h, _⟩ := bind_eq_ok.1 h
  simp only [tableFactor, tableName, cursor_bind, current_bind, ite_eq_ok, bind_eq_ok,
    throw_eq_ok, unexpected_eq_ok, false_and, and_false, exists_false, false_or] at h
  obtain ⟨_, _, _, ⟨h, _⟩, _⟩ := h
  simpa using h

variable {p q : Parser κ Unit} {x : Notes p} {s t : ParseState κ}

/-- A run that has to start with a name fails elsewhere. -/
theorem parts_of_not_isName (hside : P.oneSided)
    (hname : ∀ {s u s'}, p s = .ok u s' → s.cursor.isName = true) (hs : s.cursor.isName = false) :
    x.Parts P s :=
  .inr ⟨hside, fun _ _ hok => Bool.false_ne_true (hs ▸ hname hok)⟩

/-- The `FROM` before a name may be skipped as a modifier. -/
theorem from_outcome (hx : x.Coupled P C Eq q) (hside : P.oneSided)
    (hname : ∀ {s u s'}, p s = .ok u s' → s.cursor.isName = true) {ws : List Keyword} (m : Nat)
    (hst : s.Alike P C t) (hfrom : s.cursor.current.kind = .keyword .FROM) (hws : .FROM ∈ ws) :
    (Notes.bind (p := skipKeyword [.FROM]) .silent fun _ => x).Parts P s ∨
      ParseState.Outcome P C Eq ((skipKeyword [.FROM] >>= fun _ => p) s)
        ((iterate (Notes.skipStep ws) (m + 1) >>= fun _ => skipKeyword [.FROM] >>= fun _ => q)
          t) := by
  have hs : s.cursor.isKeyword [.FROM] = true :=
    Cursor.isKeyword_iff.2 ⟨_, hfrom, List.mem_singleton_self _⟩
  have ht : t.cursor.isKeyword ws = true :=
    Cursor.isKeyword_iff.2 ⟨_, hst.cursor.kind_eq ▸ hfrom, hws⟩
  have hleft : skipKeyword [.FROM] s = (do advance; return true : Parser κ Bool) s := by
    rw [skipKeyword, cursor_bind, hs]
    rfl
  have hright : Notes.skipStep ws t = (do advance; return true : Parser κ Bool)
      { t with events := t.events ++ [.skippedKeyword t.cursor.current.literal] } := by
    rw [Notes.skipStep, cursor_bind, ht]
    rfl
  have houtcome : ParseState.Outcome P C (fun a b => a = true ∧ b = true) (skipKeyword [.FROM] s)
      (Notes.skipStep ws t) := by
    rw [hleft, hright]
    exact advance_coupled.bind_eq (fun _ => .pure ⟨rfl, rfl⟩) _ _ ⟨hst.cursor, hst.body⟩
  generalize hp : skipKeyword [.FROM] s = u at houtcome
  generalize hq : Notes.skipStep ws t = v at houtcome
  cases houtcome with
  | error he =>
    simp only [iterate, Bind.bind, EStateM.bind, hp, hq]
    exact .inr (.error he)
  | @ok _ _ s₁ t₁ hab hst₁ =>
    obtain ⟨rfl, rfl⟩ := hab
    cases hs₁ : s₁.cursor.isName with
    | false => exact .inl (.bind_right hp (parts_of_not_isName hside hname hs₁))
    | true =>
      have hkind : t₁.cursor.current.kind = LiteralClass.identifier := by
        rw [← hst₁.cursor.kind_eq]
        simpa [Cursor.isName] using hs₁
      have hkeyword (ws : List Keyword) : t₁.cursor.isKeyword ws = false := by
        rw [Cursor.isKeyword, hkind]
      have hgoes : (iterate (Notes.skipStep ws) (m + 1) >>= fun _ =>
          skipKeyword [.FROM] >>= fun _ => q) t = q t₁ := by
        rw [iterate, bind_assoc, bind_of_eq_ok hq, if_pos rfl,
          bind_of_eq_ok (Notes.iterate_skipStep_of_not_isKeyword (hkeyword ws) m),
          bind_of_eq_ok (skipKeyword_eq_ok.2 ⟨hkeyword _, rfl⟩)]
      rw [bind_of_eq_ok hp, hgoes]
      exact (hx s₁ t₁ hst₁).imp_left (.bind_right hp)

end

theorem update_coupled : updateNotes.Coupled P (UpdateClauses.Alike P) Eq update := by
  have hhead : updateHeadNotes.Coupled P (UpdateClauses.Alike P) Eq updateHead := by
    refine (accept_coupled _).noted.bind_eq fun _ => .dialect_bind <|
      Notes.askAll_bind_coupled .skippedBehindUpdate ?_ ?_
    · exact (tableReferences_coupled _).bind_eq fun _ => .of <| assignments_coupled.bind_eq fun _ =>
        skipUntil_coupled _
    · intro s t k m hside _ hk _ _
      refine .inl (parts_of_not_isName hside (fun hok => ?_) (by simp [Cursor.isName, hk]))
      obtain ⟨_, _, htables, _⟩ := bind_eq_ok.1 hok
      exact isName_of_tableReferences htables
  exact hhead.bind_eq fun _ => whereClause_coupled.bind_eq fun _ => skipRest_coupled.noted

theorem delete_coupled : deleteNotes.Coupled P Eq Eq delete := by
  have hhead : deleteHeadNotes.Coupled P Eq Eq deleteHead := by
    have htables : (Notes.bind (κ := DeleteClauses) (tableReferencesNotes true)
        fun _ => .silent).Coupled P Eq Eq (do tableReferences true; skipUntil [Keyword.WHERE]) :=
      (tableReferences_coupled _).bind_eq fun _ => (skipUntil_coupled _).noted
    have hname {s s' : ParseState DeleteClauses} {u : Unit}
        (hok : (do tableReferences true; skipUntil [Keyword.WHERE]) s = .ok u s') :
        s.cursor.isName = true := by
      obtain ⟨_, _, htables, _⟩ := bind_eq_ok.1 hok
      exact isName_of_tableReferences htables
    refine (accept_coupled _).noted.bind_eq fun _ => .dialect_bind <|
      Notes.askAll_bind_coupled .skippedBehindDelete ?_ ?_
    · exact (skipKeyword_coupled (.refl _)).noted.bind_eq fun _ => htables
    · intro s t k m hside hst hk _ hright
      by_cases hfrom : k = .FROM
      · exact from_outcome htables hside hname m hst (hfrom ▸ hk) (hfrom ▸ hright)
      · have hnone : s.cursor.isKeyword [.FROM] = false := by simp [Cursor.isKeyword, hk, hfrom]
        refine .inl (.bind_right (skipKeyword_eq_ok.2 ⟨hnone, rfl⟩) ?_)
        exact parts_of_not_isName hside hname (by simp [Cursor.isName, hk])
  exact hhead.bind_eq fun _ => whereClause_coupled.bind_eq fun _ => skipRest_coupled.noted

end Grammar

/-! ## Texts -/

namespace Statement

/-- The two outcomes of a parse are alike statements or alike errors. -/
inductive OutcomeAlike (P : Pairing) : Except ParseError Statement → Except ParseError Statement →
    Prop where
  | ok {s s' : Statement} : s.Alike P s' → OutcomeAlike P (.ok s) (.ok s')
  | error {e e' : ParseError} : e.Alike P e' → OutcomeAlike P (.error e) (.error e')

theorem OutcomeAlike.eq {r r' : Except ParseError Statement} (h : OutcomeAlike P r r')
    (hP : P.Exact) : r = r' := by
  cases h with
  | ok hs => rw [hs.eq hP]
  | error he => rw [he.eq hP]

/-- With these notes and this outcome of the left run, the runs may part. -/
def MayPart (P : Pairing) (notes : List Note) (outcome : Except ParseError Statement) : Prop :=
  (∃ n ∈ notes, n.Parts P) ∨ P.oneSided ∧ ∃ e, outcome = .error e

theorem not_mayPart (hP : P.Strict) {notes : List Note} {outcome : Except ParseError Statement} :
    ¬MayPart P notes outcome := by
  rintro (⟨n, _, ⟨_, hparts⟩⟩ | ⟨hside, _⟩)
  · exact hP.parts _ _ hparts
  · exact hP.twoSided hside

theorem ofParser_alike {κ : Type} [Inhabited κ] {C : κ → κ → Prop} {parser : Parser κ Unit}
    {x : Notes parser} {statement : Body κ → Statement} (hparser : x.Coupled P C Eq parser)
    (hempty : C default default)
    (hstatement : ∀ b b', b.Alike P C b' → (statement b).Alike P (statement b')) {c c' : Cursor}
    (hc : c.Alike P c') :
    MayPart P (x (ParseState.start c)) (ofParser parser statement c).1 ∨
      OutcomeAlike P (ofParser parser statement c).1 (ofParser parser statement c').1 := by
  have hstart : (ParseState.start c : ParseState κ).Alike P C (ParseState.start c') :=
    ⟨hc, .empty, hempty⟩
  have houtcome := hparser _ _ hstart
  rw [Notes.Parts] at houtcome
  rw [ofParser, ofParser]
  generalize parser (ParseState.start c) = u at houtcome ⊢
  generalize parser (ParseState.start c') = v at houtcome ⊢
  rcases houtcome with (hnote | ⟨hside, hfails⟩) | houtcome
  · exact .inl (.inl hnote)
  · cases u with
    | ok a s => exact absurd rfl (hfails a s)
    | error e s => exact .inl (.inr ⟨hside, e, rfl⟩)
  · cases houtcome with
    | ok _ hst => exact .inr (.ok (hstatement _ _ hst.body))
    | error he => exact .inr (.error he)

theorem ofCursor_alike {c c' : Cursor} (hc : c.Alike P c') :
    MayPart P (cursorNotes c) (ofCursor c).1 ∨
      OutcomeAlike P (ofCursor c).1 (ofCursor c').1 := by
  rw [ofCursor, ofCursor, ← hc.kind_eq]
  split
  case h_1 hk =>
    rw [cursorNotes, hk]
    exact ofParser_alike Grammar.select_coupled ⟨rfl, rfl, rfl, .nil, .nil, .nil, rfl⟩
      (fun _ _ => .select) hc
  case h_2 hk =>
    rw [cursorNotes, hk]
    exact ofParser_alike Grammar.insert_coupled ⟨.nil, .nil, rfl, rfl, .nil⟩
      (fun _ _ => .insert) hc
  case h_3 hk =>
    rw [cursorNotes, hk]
    exact ofParser_alike Grammar.update_coupled ⟨.nil⟩ (fun _ _ => .update) hc
  case h_4 hk =>
    rw [cursorNotes, hk]
    exact ofParser_alike Grammar.delete_coupled rfl (fun _ _ => .delete) hc
  case h_5 => exact .inr (.error (.refl _))

/-- Alike token streams of alike texts are parsed alike, unless the runs may part on the way. -/
theorem parse_alike_or_mayPart {text text' : String} (database : Database)
    (htext : Text.Alike P text text')
    (htokens : List.Forall₂ (Token.Alike P) (TokenStream.ofText P.left text.toList).tokens
      (TokenStream.ofText P.right text'.toList).tokens)
    (hfailure : (TokenStream.ofText P.left text.toList).failure =
      (TokenStream.ofText P.right text'.toList).failure)
    (hnames : P.names → (∀ x, P.fold x = x) ∨
      (TokenStream.ofText P.left text.toList).tokens.IsChain Token.AdmitsBehind) :
    MayPart P (notes database P.left text) (parse database P.left text) ∨
      OutcomeAlike P (parse database P.left text) (parse database P.right text') := by
  simp only [notes, parse, parseTraced, Cursor.ofText]
  rw [← hfailure]
  generalize (TokenStream.ofText P.left text.toList).tokens = ts at htokens hnames ⊢
  generalize (TokenStream.ofText P.right text'.toList).tokens = us at htokens ⊢
  generalize (TokenStream.ofText P.left text.toList).failure = failure
  cases htokens with
  | cons ht hmore =>
    exact ofCursor_alike ⟨htext, .cons ht hmore, rfl, rfl, rfl, rfl, hnames⟩
  | nil =>
    cases failure with
    | some e => exact .inr (.error (.refl _))
    | none =>
      have hfinal : (Token.final 0).Alike P (Token.final 0) :=
        ⟨rfl, .refl _, fun _ => rfl, rfl, fun _ hk => by cases hk⟩
      exact ofCursor_alike
        ⟨htext, .cons hfinal .nil, rfl, rfl, rfl, rfl, fun _ => .inr (.singleton _)⟩

/-- Alike token streams of alike texts are parsed alike. -/
theorem parse_alike {text text' : String} (database : Database)
    (htext : Text.Alike P text text')
    (htokens : List.Forall₂ (Token.Alike P) (TokenStream.ofText P.left text.toList).tokens
      (TokenStream.ofText P.right text'.toList).tokens)
    (hfailure : (TokenStream.ofText P.left text.toList).failure =
      (TokenStream.ofText P.right text'.toList).failure)
    (hnames : P.names → (∀ x, P.fold x = x) ∨
      (TokenStream.ofText P.left text.toList).tokens.IsChain Token.AdmitsBehind)
    (hP : P.Strict := by exact ⟨fun _ _ => id, id⟩) :
    OutcomeAlike P (parse database P.left text) (parse database P.right text') :=
  (parse_alike_or_mayPart database htext htokens hfailure hnames).resolve_left (not_mayPart hP)

end Statement

end SqlRouting
