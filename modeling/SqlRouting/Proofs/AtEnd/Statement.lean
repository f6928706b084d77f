import SqlRouting.Proofs.AtEnd.Changes
import SqlRouting.Proofs.AtEnd.Items
import SqlRouting.Proofs.Passing.Statement

/-!
# Texts that end in an operand

A text may end in any operand of its statement (`Statement.EndsIn`). Whether it is accepted then
follows from the place of the operand and from what is missing (`parse_endsIn`): the end of the text
is refused where the value of an assignment of an update is due, but not where the right side of a
comparison, a bound, or the value of an assignment of an insert is.
-/

namespace SqlRouting

open Text (byteLength)

open SqlRouting.Parser

/-- The text, which starts with this keyword, ends in an operand at this place, and this is missing
    of it. -/
inductive Statement.EndsIn (database : Database) (d : Dialect) (text : String) :
    Keyword → OperandPlace → Missing → Prop
  | item {c : Cursor} {s : ParseState SelectClauses} {missing : Missing}
    (hc : Cursor.ofText database d text = .ok c) (hkind : c.current.kind = .keyword .SELECT)
    (hdue : Grammar.ListDue (ParseState.start c) s) (hlacks : Grammar.Lacks missing s)
    (hmissing : missing = .operand ∨ missing = .name false) :
    EndsIn database d text .SELECT .item missing
  | select {c : Cursor} {s : ParseState SelectClauses} {place : OperandPlace} {missing : Missing}
    (hc : Cursor.ofText database d text = .ok c) (hkind : c.current.kind = .keyword .SELECT)
    (hdue : Grammar.SelectDue place (ParseState.start c) s) (hlacks : Grammar.Lacks missing s) :
    EndsIn database d text .SELECT place missing
  | insert {c : Cursor} {s : ParseState InsertClauses} {place : OperandPlace} {missing : Missing}
    (hc : Cursor.ofText database d text = .ok c) (hkind : c.current.kind = .keyword .INSERT)
    (hdue : Grammar.InsertDue place (ParseState.start c) s) (hlacks : Grammar.Lacks missing s) :
    EndsIn database d text .INSERT place missing
  | update {c : Cursor} {s : ParseState UpdateClauses} {place : OperandPlace} {missing : Missing}
    (hc : Cursor.ofText database d text = .ok c) (hkind : c.current.kind = .keyword .UPDATE)
    (hdue : Grammar.UpdateDue place (ParseState.start c) s) (hlacks : Grammar.Lacks missing s) :
    EndsIn database d text .UPDATE place missing
  | delete {c : Cursor} {s : ParseState DeleteClauses} {place : OperandPlace} {missing : Missing}
    (hc : Cursor.ofText database d text = .ok c) (hkind : c.current.kind = .keyword .DELETE)
    (hdue : Grammar.DeleteDue place (ParseState.start c) s) (hlacks : Grammar.Lacks missing s) :
    EndsIn database d text .DELETE place missing

/-- Why a text is not accepted, if it is not. -/
def Statement.failure? : Except ParseError Statement → Option ParseError
  | .ok _ => none
  | .error e => some e

/-- What may become of a text that ends in the operand: where several tables are refused, it
    depends on the tables what a join without its last operand comes to. -/
def OperandPlace.failures (text : List Char) (missing : Missing) (place : OperandPlace)
    (k : Keyword) : List (Option ParseError) :=
  if place = .joinRight ∧ place.failure text missing = none then
    match k with
    | .UPDATE => [some (.unsupported .severalTables), some (.lacks Keyword.SET)]
    | .DELETE => [some (.unsupported .severalTables), none]
    | _ => [none]
  else [place.failure text missing]

namespace OperandPlace

variable {text : List Char} {missing : Missing} {place : OperandPlace}

theorem failure_mem (h : place ≠ .joinRight) (k : Keyword) :
    place.failure text missing ∈ place.failures text missing k := by
  simp [failures, h]

/-- Where several tables are allowed they do not matter. -/
theorem failure_mem_of_ne {k : Keyword} (hupdate : k ≠ .UPDATE) (hdelete : k ≠ .DELETE) :
    place.failure text missing ∈ place.failures text missing k := by
  unfold failures
  by_cases h : place = .joinRight ∧ place.failure text missing = none
  · rw [if_pos h, h.2]
    split
    · exact absurd rfl hupdate
    · exact absurd rfl hdelete
    · exact List.mem_singleton_self _
  · rw [if_neg h]
    exact List.mem_singleton_self _

theorem failures_update (hplace : place = .joinRight) (h : place.failure text missing = none) :
    place.failures text missing .UPDATE =
      [some (.unsupported .severalTables), some (.lacks Keyword.SET)] :=
  if_pos ⟨hplace, h⟩

theorem failures_delete (hplace : place = .joinRight) (h : place.failure text missing = none) :
    place.failures text missing .DELETE = [some (.unsupported .severalTables), none] :=
  if_pos ⟨hplace, h⟩

theorem failures_of_some {e : ParseError} (h : place.failure text missing = some e) (k : Keyword) :
    place.failures text missing k = [some e] := by
  unfold failures
  rw [if_neg (by simp [h]), h]

end OperandPlace

namespace Grammar

variable {text : List Char} {missing : Missing} {place : OperandPlace}

theorem WhereDue.ne_joinRight {κ : Type} {s s' : ParseState κ} (h : WhereDue place s s') :
    place ≠ .joinRight := by
  rintro rfl
  obtain ⟨_, _, _, hdue⟩ := h
  cases hdue with
  | predicate _ hdue =>
    cases hdue with
    | isIn _ hdue => cases hdue
    | between _ hdue => cases hdue
    | negated _ hdue =>
      cases hdue with
      | isIn _ hdue => cases hdue
      | between _ hdue => cases hdue

theorem AssignmentDue.ne_joinRight {s s' : ParseState UpdateClauses}
    (h : AssignmentDue place s s') : place ≠ .joinRight := by
  rintro rfl
  cases h

theorem JoinConditionDue.ne_none {κ : Type} {s s' : ParseState κ} (h : JoinConditionDue place s s')
    (hplace : place ≠ .joinRight) : place.failure text missing ≠ none := by
  cases h with
  | left _ _ => simp [OperandPlace.failure, OperandPlace.restFailure]
  | right _ _ _ _ => exact absurd rfl hplace

/-- In the tables of a statement only the right side of an equation may be all that is missing. -/
theorem TablesDue.eq_joinRight {κ : Type} {s s' : ParseState κ} (h : TablesDue place s s')
    (hfailure : place.failure text missing = none) : place = .joinRight := by
  cases h with
  | intro _ _ _ _ _ hdue => exact by_contra fun hplace => hdue.ne_none hplace hfailure

/-! ## Selects -/

section

variable {s s' : ParseState SelectClauses}

theorem markTables_cursor (names : List Token) (s : ParseState SelectClauses) :
    ∃ s', markTables names s = .ok () s' ∧ s'.cursor = s.cursor := by
  induction names generalizing s with
  | nil => exact ⟨s, rfl, rfl⟩
  | cons t names ih =>
    obtain ⟨s₁, hmark, hcursor₁⟩ := markOwner_cursor t s
    obtain ⟨s', hmore, hcursor⟩ := ih s₁
    exact ⟨s', (bind_of_eq_ok hmark).trans hmore, hcursor.trans hcursor₁⟩

/-! What may follow a clause may be missing. -/

theorem sorted_finishes (h : s.AtEnd text) : Finishes text none s (do limit; selectRest) :=
  .of_bind (limit_atEnd h) (.of_ok (selectRest_atEnd h) h)

theorem grouped_finishes (h : s.AtEnd text) :
    Finishes text none s (do having; orderBy; limit; selectRest) :=
  .of_bind (refuse_atEnd h _) (.of_bind (orderBy_atEnd h) (sorted_finishes h))

theorem narrowed_finishes (h : s.AtEnd text) :
    Finishes text none s (do groupBy; having; orderBy; limit; selectRest) :=
  .of_bind (groupBy_atEnd h) (grouped_finishes h)

theorem marked_finishes (h : s.AtEnd text) (owners : List Token) :
    Finishes text none s (do
      markTables owners
      whereClause
      groupBy
      having
      orderBy
      limit
      selectRest) := by
  obtain ⟨s₁, hmark, hcursor⟩ := markTables_cursor owners s
  have hend := h.of_cursor hcursor
  exact .of_bind hmark (.of_bind (whereClause_atEnd hend) (narrowed_finishes hend))

theorem selectUpTo_safe (owners : List Token) (part : SelectPart) :
    Safe text (selectUpTo owners part) := by
  cases part with
  | tables => exact .pure ()
  | conditions =>
    exact fromClause_safe.bind fun _ => (markTables_safe owners).bind fun _ =>
      tableAlias_safe.bind fun _ => .pure ()
  | groups =>
    exact fromClause_safe.bind fun _ => (markTables_safe owners).bind fun _ => whereClause_safe
  | order =>
    exact fromClause_safe.bind fun _ => (markTables_safe owners).bind fun _ =>
      whereClause_safe.bind fun _ => groupBy_safe.bind fun _ => refuse_safe _
  | limit =>
    exact fromClause_safe.bind fun _ => (markTables_safe owners).bind fun _ =>
      whereClause_safe.bind fun _ => groupBy_safe.bind fun _ => (refuse_safe _).bind fun _ =>
        orderBy_safe

theorem selectClauses_finishes (h : s.AtEnd text) (owners : List Token) :
    Finishes text none s (selectClauses owners) := by
  have hfrom : fromClause s = .ok () s := by
    rw [fromClause, bind_of_eq_ok (refuse_atEnd h _), bind_of_eq_ok (skipKeyword_atEnd h _)]
    rfl
  exact .of_bind hfrom (marked_finishes h owners)

theorem ListDue.select_finishes (hs : s.cursor.Stands text) (hlacks : Lacks missing s')
    (hmissing : missing = .operand ∨ missing = .name false) (h : ListDue s s') :
    Finishes text (OperandPlace.item.failure text missing) s select :=
  (h.finishes hs hlacks hmissing).bind fun owners _ _ hend =>
    (selectClauses_finishes hend owners).bind_none fun _ _ _ hend =>
      .of_bind (skipRest_atEnd hend) (modify_finishes hend rfl)

section

variable {failure : Option ParseError} {s₁ s₂ : ParseState SelectClauses} {owners : List Token}
  (hs : s.cursor.Stands text) (hhead : selectHead s = .ok owners s₁)
include hs hhead

/-- What follows the clauses is optional, so it is decided in them what becomes of a select. -/
theorem select_finishes
    (h : s₁.cursor.Stands text → Finishes text failure s₁ (selectClauses owners)) :
    Finishes text failure s select :=
  .of_bind hhead ((h (selectHead_safe.stands hs hhead).stands).bind_none
    fun _ _ _ hend => .of_bind (skipRest_atEnd hend) (modify_finishes hend rfl))

theorem selectTables_finishes (hfrom : (do refuse [.INTO]; skipKeyword [.FROM]) s₁ = .ok true s₂)
    (h : s₂.cursor.Stands text → Finishes text failure s₂ (tableReferences false)) :
    Finishes text failure s select := by
  refine select_finishes hs hhead fun hs₁ => ?_
  have hs₂ := (((refuse_safe _).bind fun _ => skipKeyword_safe _).stands hs₁ hfrom).stands
  obtain ⟨_, _, hrefuse, hfrom⟩ := bind_eq_ok.1 hfrom
  have htables : Finishes text failure s₁ fromClause := .of_bind hrefuse (.found hfrom (h hs₂))
  exact htables.bind_none fun _ _ _ hend => marked_finishes hend _

theorem selectWhere_finishes (hfrom : (do fromClause; markTables owners) s₁ = .ok () s₂)
    (h : s₂.cursor.Stands text → Finishes text failure s₂ whereClause) :
    Finishes text failure s select := by
  refine select_finishes hs hhead fun hs₁ => ?_
  have hs₂ := ((fromClause_safe.bind fun _ => markTables_safe _).stands hs₁ hfrom).stands
  obtain ⟨_, _, hfrom, hmark⟩ := bind_eq_ok.1 hfrom
  exact .of_bind hfrom (.of_bind hmark ((h hs₂).bind_none fun _ _ _ hend =>
    narrowed_finishes hend))

end

theorem SelectDue.finishes (hs : s.cursor.Stands text) (hlacks : Lacks missing s')
    (h : SelectDue place s s') : Finishes text (place.failure text missing) s select := by
  cases h with
  | tables hhead hfrom hdue =>
    exact selectTables_finishes hs hhead hfrom fun hs₂ => hdue.finishes hs₂ hlacks
  | whereClause hhead hfrom hdue =>
    exact selectWhere_finishes hs hhead hfrom fun hs₂ => hdue.finishes hs₂ hlacks
  | groupBy hhead hwhere hdue =>
    refine select_finishes hs hhead fun hs₁ => ?_
    have hs₂ := ((selectUpTo_safe _ _).stands hs₁ hwhere).stands
    simp only [selectUpTo, bind_eq_ok] at hwhere
    obtain ⟨_, _, hfrom, _, _, hmark, hwhere⟩ := hwhere
    exact .of_bind hfrom (.of_bind hmark (.of_bind hwhere
      ((hdue.finishes hs₂ hlacks).bind_none fun _ _ _ hend => grouped_finishes hend)))
  | orderBy hhead hhaving hdue =>
    refine select_finishes hs hhead fun hs₁ => ?_
    have hs₂ := ((selectUpTo_safe _ _).stands hs₁ hhaving).stands
    simp only [selectUpTo, bind_eq_ok] at hhaving
    obtain ⟨_, _, hfrom, _, _, hmark, _, _, hwhere, _, _, hgroup, hhaving⟩ := hhaving
    exact .of_bind hfrom (.of_bind hmark (.of_bind hwhere (.of_bind hgroup (.of_bind hhaving
      ((hdue.finishes hs₂ hlacks).bind_none fun _ _ _ hend => sorted_finishes hend)))))

end

/-! ## Inserts -/

section

variable {s s' : ParseState InsertClauses}

theorem insertTarget_safe : Safe text insertTarget :=
  (accept_safe _).bind fun _ => insertInto_safe.bind fun _ => insertColumns_safe.bind fun _ =>
    cursor_bind_safe fun _ _ => .ite (.unsupported _) (.pure ())

theorem InsertDue.finishes (hs : s.cursor.Stands text) (hlacks : Lacks missing s')
    (h : InsertDue place s s') : Finishes text (place.failure text missing) s insert := by
  -- The clauses from the rows on are optional, and none of them is left out in between.
  have hbehind {s₁ : ParseState InsertClauses} (hhead : insertTarget s = .ok () s₁)
      (hrest : s₁.cursor.Stands text → Finishes text (place.failure text missing) s₁ (do
        insertValues
        insertSet
        duplicateKeyUpdate
        skipRest)) :
      Finishes text (place.failure text missing) s insert := by
    have hs₁ := (insertTarget_safe.stands hs hhead).stands
    simp only [insertTarget, bind_eq_ok, cursor_bind, ite_eq_ok, throw_eq_ok, and_false, false_or,
      pure_eq_ok] at hhead
    obtain ⟨_, _, haccept, _, _, hinto, _, _, hcolumns, hguard, _, rfl⟩ := hhead
    refine .of_bind haccept (.of_bind hinto (.of_bind hcolumns ?_))
    rw [cursor_bind_finishes, if_neg hguard]
    exact hrest hs₁
  cases h with
  | values hhead hdue =>
    exact hbehind hhead fun hs₁ => (hdue.finishes hs₁ hlacks).bind_none fun _ _ _ hend =>
      .of_bind (insertSet_atEnd hend) (.of_bind (duplicateKeyUpdate_atEnd hend)
        (.of_ok (skipRest_atEnd hend) hend))
  | set hhead hvalues hdue =>
    refine hbehind hhead fun hs₁ => .of_bind hvalues ?_
    have hs₂ := (insertValues_safe.stands hs₁ hvalues).stands
    exact (hdue.finishes hs₂ hlacks).bind_none fun _ _ _ hend =>
      .of_bind (duplicateKeyUpdate_atEnd hend) (.of_ok (skipRest_atEnd hend) hend)
  | duplicate hhead hrows hdue =>
    refine hbehind hhead fun hs₁ => ?_
    have hs₂ := ((insertValues_safe.bind fun _ => insertSet_safe).stands hs₁ hrows).stands
    obtain ⟨_, _, hvalues, hset⟩ := bind_eq_ok.1 hrows
    exact .of_bind hvalues (.of_bind hset ((hdue.finishes hs₂ hlacks).bind_none
      fun _ _ _ hend => .of_ok (skipRest_atEnd hend) hend))

end

/-! ## Updates and deletions -/

theorem updateTable_safe : Safe text updateTable :=
  (accept_safe _).bind fun _ => dialect_safe.bind fun _ => (skipAll_safe _).bind fun _ =>
    tableReferences_safe _

theorem whereRest_finishes {κ : Type} {s : ParseState κ} (h : s.AtEnd text) :
    Finishes text none s (do whereClause; skipRest) :=
  .of_bind (whereClause_atEnd h) (.of_ok (skipRest_atEnd h) h)

/-- Behind its tables an update asks for its assignments. -/
theorem updateTables_finishes {failure : Option ParseError} {s s₁ s₂ : ParseState UpdateClauses}
    (hhead : accept Keyword.UPDATE s = .ok () s₁)
    (hoptions : skipAll s₁.cursor.dialect.skippedBehindUpdate s₁ = .ok () s₂)
    (h : Finishes text failure s₂ (tableReferences true)) :
    Finishes text (some (failure.getD (.lacks Keyword.SET))) s update := by
  have hfails : Finishes text (failure.or (some (.lacks Keyword.SET))) s updateHead := by
    refine .of_bind hhead ?_
    rw [dialect_bind_finishes]
    exact .of_bind hoptions (h.bind fun _ _ _ hend =>
      .bind_some (.bind_some (.of_error (accept_atEnd hend (by simp)))))
  rw [Option.or_some] at hfails
  exact hfails.bind_some

theorem updateWhere_finishes {failure : Option ParseError} {s s₁ : ParseState UpdateClauses}
    (hs : s.cursor.Stands text) (hhead : updateHead s = .ok () s₁)
    (h : s₁.cursor.Stands text → Finishes text failure s₁ whereClause) :
    Finishes text failure s update :=
  .of_bind hhead ((h (updateHead_safe.stands hs hhead).stands).bind_none fun _ _ _ hend =>
    .of_ok (skipRest_atEnd hend) hend)

theorem UpdateDue.finishes {s s' : ParseState UpdateClauses} (hs : s.cursor.Stands text)
    (hlacks : Lacks missing s') (h : UpdateDue place s s') :
    ∃ failure ∈ place.failures text missing .UPDATE, Finishes text failure s update := by
  cases h with
  | @tables s₁ s₂ _ hhead hoptions hdue =>
    have hs₂ := ((skipAll_safe _).stands ((accept_safe _).stands hs hhead).stands hoptions).stands
    rcases hdue.finishes_single hs₂ hlacks with htables | ⟨hnone, htables⟩
    · refine ⟨_, ?_, updateTables_finishes hhead hoptions htables⟩
      cases hfailure : place.failure text missing with
      | none => simp [OperandPlace.failures_update (hdue.eq_joinRight hfailure) hfailure]
      | some e => simp [OperandPlace.failures_of_some hfailure]
    · refine ⟨_, ?_, updateTables_finishes hhead hoptions htables⟩
      simp [OperandPlace.failures_update (hdue.eq_joinRight hnone) hnone]
  | assignments hhead hdue =>
    have hs₁ := (updateTable_safe.stands hs hhead).stands
    simp only [updateTable, bind_eq_ok, dialect_bind] at hhead
    obtain ⟨_, _, haccept, _, _, hoptions, htables⟩ := hhead
    refine ⟨_, OperandPlace.failure_mem hdue.ne_joinRight _, ?_⟩
    refine Finishes.bind_none (.of_bind haccept ?_) fun _ _ _ hend => whereRest_finishes hend
    rw [dialect_bind_finishes]
    exact .of_bind hoptions (.of_bind htables ((hdue.finishes hs₁ hlacks).bind_none
      fun _ _ _ hend => .of_ok (skipUntil_atEnd hend _) hend))
  | whereClause hhead hdue =>
    exact ⟨_, OperandPlace.failure_mem hdue.ne_joinRight _,
      updateWhere_finishes hs hhead fun hs₁ => hdue.finishes hs₁ hlacks⟩

/-- Behind its tables a deletion asks for nothing. -/
theorem deleteTables_finishes {failure : Option ParseError} {found : Bool}
    {s s₁ s₂ s₃ : ParseState DeleteClauses} (hhead : accept Keyword.DELETE s = .ok () s₁)
    (hoptions : skipAll s₁.cursor.dialect.skippedBehindDelete s₁ = .ok () s₂)
    (hfrom : skipKeyword [.FROM] s₂ = .ok found s₃)
    (h : Finishes text failure s₃ (tableReferences true)) : Finishes text failure s delete := by
  refine Finishes.bind_none (.of_bind hhead ?_) fun _ _ _ hend => whereRest_finishes hend
  rw [dialect_bind_finishes]
  exact .of_bind hoptions (.of_bind hfrom (h.bind_none fun _ _ _ hend =>
    .of_ok (skipUntil_atEnd hend _) hend))

theorem deleteWhere_finishes {failure : Option ParseError} {s s₁ : ParseState DeleteClauses}
    (hs : s.cursor.Stands text) (hhead : deleteHead s = .ok () s₁)
    (h : s₁.cursor.Stands text → Finishes text failure s₁ whereClause) :
    Finishes text failure s delete :=
  .of_bind hhead ((h (deleteHead_safe.stands hs hhead).stands).bind_none fun _ _ _ hend =>
    .of_ok (skipRest_atEnd hend) hend)

theorem DeleteDue.finishes {s s' : ParseState DeleteClauses} (hs : s.cursor.Stands text)
    (hlacks : Lacks missing s') (h : DeleteDue place s s') :
    ∃ failure ∈ place.failures text missing .DELETE, Finishes text failure s delete := by
  cases h with
  | @tables s₁ s₂ s₃ _ found hhead hoptions hfrom hdue =>
    have hs₂ := ((skipAll_safe _).stands ((accept_safe _).stands hs hhead).stands hoptions).stands
    have hs₃ := ((skipKeyword_safe _).stands hs₂ hfrom).stands
    rcases hdue.finishes_single hs₃ hlacks with htables | ⟨hnone, htables⟩
    · refine ⟨_, ?_, deleteTables_finishes hhead hoptions hfrom htables⟩
      cases hfailure : place.failure text missing with
      | none => simp [OperandPlace.failures_delete (hdue.eq_joinRight hfailure) hfailure]
      | some e => simp [OperandPlace.failures_of_some hfailure]
    · refine ⟨_, ?_, deleteTables_finishes hhead hoptions hfrom htables⟩
      simp [OperandPlace.failures_delete (hdue.eq_joinRight hnone) hnone]
  | whereClause hhead hdue =>
    exact ⟨_, OperandPlace.failure_mem hdue.ne_joinRight _,
      deleteWhere_finishes hs hhead fun hs₁ => hdue.finishes hs₁ hlacks⟩

end Grammar

/-! ## Texts -/

namespace Statement

variable {κ : Type} [Inhabited κ] {database : Database} {d : Dialect} {text : String} {c : Cursor}

/-- A statement is accepted if its parser comes to the end of the text. -/
theorem failure?_ofParser {failure : Option ParseError} {parser : Parser κ Unit}
    {statement : Body κ → Statement}
    (h : Finishes text.toList failure (ParseState.start c) parser) :
    failure? (ofParser parser statement c).1 = failure := by
  unfold Finishes at h
  rw [ofParser]
  cases hrun : parser (ParseState.start c) with
  | ok u s =>
    rw [hrun] at h
    exact h.1.symm
  | error e s =>
    rw [hrun] at h
    exact h.symm

theorem failure?_eq_some {r : Except ParseError Statement} {e : ParseError} :
    failure? r = some e ↔ r = .error e := by
  cases r with
  | ok s => simp [failure?]
  | error e' => simp [failure?]

/-- A run that leaves tokens of the text is one of its cursor. -/
theorem exists_of_tokensAfter {parser : Parser κ Unit} {t : Token} {ts : List Token}
    (h : tokensAfter parser database d text = t :: ts) :
    ∃ c s, Cursor.ofText database d text = .ok c ∧ parser (ParseState.start c) = .ok () s ∧
      s.cursor.tokens = t :: ts := by
  unfold tokensAfter at h
  split at h
  case h_1 c hc =>
    unfold tokensLeft at h
    split at h
    case h_1 u s hrun => exact ⟨c, s, hc, hrun, h⟩
    case h_2 => cases h
  case h_2 => cases h

theorem parse_eq_ofCursor (hc : Cursor.ofText database d text = .ok c) :
    parse database d text = (ofCursor c).1 := by
  rw [parse, parseTraced, hc]

end Statement

namespace OperandPlace

variable {text : List Char} {missing : Missing} {place : OperandPlace} {k : Keyword}

theorem atEnd_of_mem {failure : Option ParseError} (h : failure ∈ place.failures text missing k) :
    failure = some (.atEnd text) ↔ place.refuses missing = true := by
  rw [← failure_eq_atEnd text missing place]
  unfold failures at h
  by_cases hjoined : place = .joinRight ∧ place.failure text missing = none
  · -- Neither of the failures of a join is that of the end.
    rw [if_pos hjoined] at h
    have hother : failure ≠ some (.atEnd text) := by
      rintro rfl
      split at h <;> simp [ParseError.atEnd, ParseError.lacks] at h
    simp [hother, hjoined.2]
  · rw [if_neg hjoined, List.mem_singleton] at h
    rw [h]

end OperandPlace

/-- *Texts that end in an operand.* The place of the operand and what is missing of it decide what
    becomes of such a text. It is refused as one that ends where something else is due if the
    operand is missing behind a sign or an operator, or where an assignment of an update has its
    target or its value, a comparison its left side or a list one of its items. Elsewhere it is
    refused for what has to follow the operand, or it is accepted. -/
theorem parse_endsIn {database : Database} {d : Dialect} {text : String} {k : Keyword}
    {place : OperandPlace} {missing : Missing}
    (h : Statement.EndsIn database d text k place missing) :
    (Statement.parse database d text =
        .error (.unexpectedToken .endOfText "" (byteLength text.toList)) ↔
      place.refuses missing = true) ∧
    Statement.failure? (Statement.parse database d text) ∈
      place.failures text.toList missing k := by
  have hmem : Statement.failure? (Statement.parse database d text) ∈
      place.failures text.toList missing k := by
    cases h with
    | item hc hkind hdue hlacks hmissing =>
      have hfinishes := hdue.select_finishes (Cursor.stands_of_ofText hc) hlacks hmissing
      rw [Statement.parse_eq_ofCursor hc, Statement.ofCursor, hkind,
        Statement.failure?_ofParser hfinishes]
      exact OperandPlace.failure_mem_of_ne (by decide) (by decide)
    | select hc hkind hdue hlacks =>
      have hfinishes := hdue.finishes (Cursor.stands_of_ofText hc) hlacks
      rw [Statement.parse_eq_ofCursor hc, Statement.ofCursor, hkind,
        Statement.failure?_ofParser hfinishes]
      exact OperandPlace.failure_mem_of_ne (by decide) (by decide)
    | insert hc hkind hdue hlacks =>
      have hfinishes := hdue.finishes (Cursor.stands_of_ofText hc) hlacks
      rw [Statement.parse_eq_ofCursor hc, Statement.ofCursor, hkind,
        Statement.failure?_ofParser hfinishes]
      exact OperandPlace.failure_mem_of_ne (by decide) (by decide)
    | update hc hkind hdue hlacks =>
      obtain ⟨failure, hmem, hfinishes⟩ := hdue.finishes (Cursor.stands_of_ofText hc) hlacks
      rwa [Statement.parse_eq_ofCursor hc, Statement.ofCursor, hkind,
        Statement.failure?_ofParser hfinishes]
    | delete hc hkind hdue hlacks =>
      obtain ⟨failure, hmem, hfinishes⟩ := hdue.finishes (Cursor.stands_of_ofText hc) hlacks
      rwa [Statement.parse_eq_ofCursor hc, Statement.ofCursor, hkind,
        Statement.failure?_ofParser hfinishes]
  exact ⟨Statement.failure?_eq_some.symm.trans (OperandPlace.atEnd_of_mem hmem), hmem⟩

/-- An update without the value that it assigns is refused. -/
theorem update_without_value :
    Statement.EndsIn .mySql .mySql "UPDATE t SET a =" .UPDATE .assigned .operand ∧
      Statement.parse .mySql .mySql "UPDATE t SET a =" =
        .error (.unexpectedToken .endOfText "" 16) := by
  have hends : Statement.EndsIn .mySql .mySql "UPDATE t SET a =" .UPDATE .assigned .operand := by
    have htokens : tokensAfter (do
        Grammar.updateTable
        accept Keyword.SET
        let _ ← Grammar.assignmentTarget) .mySql .mySql "UPDATE t SET a =" = [Token.final 16] := by
      decide +kernel
    obtain ⟨c, s, hc, hrun, hend⟩ := Statement.exists_of_tokensAfter htokens
    simp only [bind_eq_ok, pure_eq_ok] at hrun
    obtain ⟨_, s₁, htable, _, s₂, hset, target, _, htarget, _, rfl⟩ := hrun
    have hkind : c.current.kind = .keyword .UPDATE :=
      (accept_eq_ok.1 (bind_eq_ok.1 htable).choose_spec.choose_spec.1).1
    exact .update hc hkind (.assignments htable (.assigned hset .refl htarget))
      (.operand (by rw [Cursor.isEnd, (List.cons.inj hend).1]; rfl))
  exact ⟨hends, (parse_endsIn hends).1.2 rfl⟩

/-- A comparison without its right side is accepted. -/
theorem comparison_without_right :
    Statement.EndsIn .mySql .mySql "SELECT * FROM t WHERE a =" .SELECT .right .operand ∧
      Statement.failure? (Statement.parse .mySql .mySql "SELECT * FROM t WHERE a =") = none := by
  refine ⟨?_, by decide +kernel⟩
  have htokens : tokensAfter (do
      let owners ← Grammar.selectHead
      Grammar.fromClause
      Grammar.markTables owners
      let _ ← Grammar.tableAlias
      if ← skipKeyword [.WHERE] then
        let _ ← Grammar.comparisonLeft
        if ← skipSymbol .equal then return () else unexpected
      else unexpected) .mySql .mySql "SELECT * FROM t WHERE a =" = [Token.final 25] := by
    decide +kernel
  obtain ⟨c, s, hc, hrun, hend⟩ := Statement.exists_of_tokensAfter htokens
  simp only [bind_eq_ok, ite_eq_ok, pure_eq_ok, unexpected_eq_ok, and_false, or_false] at hrun
  obtain ⟨owners, s₁, hhead, _, s₂, hfrom, _, s₃, hmark, _, s₄, halias, _, s₅, hwhere, rfl, _, s₆,
    hleft, _, _, hequal, rfl, _, rfl⟩ := hrun
  have hkind : c.current.kind = .keyword .SELECT :=
    (accept_eq_ok.1 (bind_eq_ok.1 hhead).choose_spec.choose_spec.1).1
  exact .select hc hkind (.whereClause hhead (by rw [bind_of_eq_ok hfrom, hmark])
    (.intro halias hwhere .refl (.predicate hleft (.equal hequal))))
    (.operand (by rw [Cursor.isEnd, (List.cons.inj hend).1]; rfl))

end SqlRouting
