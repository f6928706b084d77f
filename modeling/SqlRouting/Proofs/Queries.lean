import SqlRouting.Proofs.AtEnd.Statement

/-!
# Queries that are refused

There are three places of a statement where the grammar looks for a query: behind `IN`, where a
table is due, and where the rows of an insert are (`QueryPlace`). What it refuses there with which
error can be told from the tokens ahead (`QueryPlace.Refuses`), and no text that comes to such a
place is accepted, whatever follows (`Statement.Asks.parse_eq_error`).
-/

namespace SqlRouting

open SqlRouting.Parser

/-- A place in a statement where a query is looked for. -/
inductive QueryPlace where
  /-- Behind the left side of a comparison. -/
  | compared
  /-- Where a table is due: one of a list, or one that is joined to others. -/
  | table | joined
  /-- Where the rows of an insert are due. -/
  | rows
  deriving DecidableEq, Repr

/-- At this place the tokens are refused with this error: a query behind `IN`, a table that is a
    query, or rows that are one. Where there would be a query in parentheses instead of a table or
    of rows the parenthesis is refused. -/
inductive QueryPlace.Refuses : QueryPlace → List Token → ParseError → Prop
  | isIn {word paren query : Token} {ts : List Token} (hword : word.kind = .keyword .IN)
    (hparen : paren.kind = .symbol .leftParen) (hquery : query.kind = .keyword .SELECT) :
    Refuses .compared (word :: paren :: query :: ts) (.unsupported .subquery)
  | notIn {negation word paren query : Token} {ts : List Token}
    (hnegation : negation.kind = .keyword .NOT) (hword : word.kind = .keyword .IN)
    (hparen : paren.kind = .symbol .leftParen) (hquery : query.kind = .keyword .SELECT) :
    Refuses .compared (negation :: word :: paren :: query :: ts) (.unsupported .subquery)
  | tableGroup {paren : Token} {ts : List Token} (hparen : paren.kind = .symbol .leftParen) :
    Refuses .table (paren :: ts) (.unsupported .subquery)
  | joinedGroup {paren : Token} {ts : List Token} (hparen : paren.kind = .symbol .leftParen) :
    Refuses .joined (paren :: ts) (.unsupported .joinedSubquery)
  | query {place : QueryPlace} {query : Token} {ts : List Token}
    (hplace : place = .table ∨ place = .joined) (hquery : query.kind = .keyword .SELECT) :
    Refuses place (query :: ts) (.unexpectedToken (.keyword .SELECT) query.literal query.start)
  | rows {query : Token} {ts : List Token}
    (hquery : query.kind = .keyword .SELECT ∨ query.kind = .symbol .leftParen) :
    Refuses .rows (query :: ts) (.unsupported .insertFromSelect)

namespace Grammar

section

variable {κ : Type}

/-- From a table alias and a `WHERE` on a comparison has been read up to its left side in the
    state `s'`. -/
inductive WhereAsks : QueryPlace → ParseState κ → ParseState κ → Prop
  | compared {s s₁ s₂ s₃ s' : ParseState κ} {asName : Option String} {left : Expression}
    (halias : tableAlias s = .ok asName s₁) (hfound : skipKeyword [.WHERE] s₁ = .ok true s₂)
    (hbefore : Items (skipKeyword [.AND]) comparison s₂ s₃)
    (hleft : comparisonLeft s₃ = .ok left s') : WhereAsks .compared s s'

/-- In table references a table is due in the state `s'`. -/
inductive TablesAsk : QueryPlace → ParseState κ → ParseState κ → Prop
  | table {s s' : ParseState κ} (hbefore : Items (skipSymbol .comma) tableReference s s') :
    TablesAsk .table s s'
  | joined {s s₁ s₂ s₃ s' : ParseState κ}
    (hbefore : Items (skipSymbol .comma) tableReference s s₁) (hfirst : hintedTable s₁ = .ok () s₂)
    (hjoined : Rounds joinedTable s₂ s₃) (hjoin : joinType s₃ = .ok true s') :
    TablesAsk .joined s s'

end

/-- In a select a query is looked for in the state `s'`. -/
inductive SelectAsks (place : QueryPlace) :
    ParseState SelectClauses → ParseState SelectClauses → Prop
  | tables {s s₁ s₂ s' : ParseState SelectClauses} {owners : List Token}
    (hhead : selectHead s = .ok owners s₁)
    (hfrom : (do refuse [.INTO]; skipKeyword [.FROM]) s₁ = .ok true s₂)
    (hasks : TablesAsk place s₂ s') : SelectAsks place s s'
  | whereClause {s s₁ s₂ s' : ParseState SelectClauses} {owners : List Token}
    (hhead : selectHead s = .ok owners s₁)
    (hfrom : (do fromClause; markTables owners) s₁ = .ok () s₂)
    (hasks : WhereAsks place s₂ s') : SelectAsks place s s'

/-- In an insert a query is looked for in the state `s'`. -/
inductive InsertAsks : QueryPlace → ParseState InsertClauses → ParseState InsertClauses → Prop
  | rows {s s' : ParseState InsertClauses}
    (hhead : (do accept Keyword.INSERT; insertInto; insertColumns) s = .ok () s') :
    InsertAsks .rows s s'

/-- In an update a query is looked for in the state `s'`. -/
inductive UpdateAsks (place : QueryPlace) :
    ParseState UpdateClauses → ParseState UpdateClauses → Prop
  | tables {s s₁ s₂ s' : ParseState UpdateClauses} (hhead : accept Keyword.UPDATE s = .ok () s₁)
    (hoptions : skipAll s₁.cursor.dialect.skippedBehindUpdate s₁ = .ok () s₂)
    (hasks : TablesAsk place s₂ s') : UpdateAsks place s s'
  | whereClause {s s₁ s' : ParseState UpdateClauses} (hhead : updateHead s = .ok () s₁)
    (hasks : WhereAsks place s₁ s') : UpdateAsks place s s'

/-- In a deletion a query is looked for in the state `s'`. -/
inductive DeleteAsks (place : QueryPlace) :
    ParseState DeleteClauses → ParseState DeleteClauses → Prop
  | tables {s s₁ s₂ s₃ s' : ParseState DeleteClauses} {found : Bool}
    (hhead : accept Keyword.DELETE s = .ok () s₁)
    (hoptions : skipAll s₁.cursor.dialect.skippedBehindDelete s₁ = .ok () s₂)
    (hfrom : skipKeyword [.FROM] s₂ = .ok found s₃) (hasks : TablesAsk place s₃ s') :
    DeleteAsks place s s'
  | whereClause {s s₁ s' : ParseState DeleteClauses} (hhead : deleteHead s = .ok () s₁)
    (hasks : WhereAsks place s₁ s') : DeleteAsks place s s'

end Grammar

/-- Where the tokens `ts` of the text start a query is looked for. -/
inductive Statement.Asks (database : Database) (d : Dialect) (text : String) :
    QueryPlace → List Token → Prop
  | select {c : Cursor} {s : ParseState SelectClauses} {place : QueryPlace}
    (hc : Cursor.ofText database d text = .ok c) (hkind : c.current.kind = .keyword .SELECT)
    (hasks : Grammar.SelectAsks place (ParseState.start c) s) :
    Asks database d text place s.cursor.tokens
  | insert {c : Cursor} {s : ParseState InsertClauses} {place : QueryPlace}
    (hc : Cursor.ofText database d text = .ok c) (hkind : c.current.kind = .keyword .INSERT)
    (hasks : Grammar.InsertAsks place (ParseState.start c) s) :
    Asks database d text place s.cursor.tokens
  | update {c : Cursor} {s : ParseState UpdateClauses} {place : QueryPlace}
    (hc : Cursor.ofText database d text = .ok c) (hkind : c.current.kind = .keyword .UPDATE)
    (hasks : Grammar.UpdateAsks place (ParseState.start c) s) :
    Asks database d text place s.cursor.tokens
  | delete {c : Cursor} {s : ParseState DeleteClauses} {place : QueryPlace}
    (hc : Cursor.ofText database d text = .ok c) (hkind : c.current.kind = .keyword .DELETE)
    (hasks : Grammar.DeleteAsks place (ParseState.start c) s) :
    Asks database d text place s.cursor.tokens

namespace Grammar

variable {text : List Char} {place : QueryPlace} {e : ParseError}

section

variable {κ : Type} {s s' : ParseState κ}

/-! ## Behind `IN` -/

/-- With tokens behind it a keyword is skipped. -/
theorem skipKeyword_of_tokens {k : Keyword} {t u : Token} {ts : List Token}
    (h : s.cursor.tokens = t :: u :: ts) (hkind : t.kind = .keyword k) :
    ∃ s', skipKeyword [k] s = .ok true s' ∧ s'.cursor.tokens = u :: ts := by
  obtain ⟨rfl, hahead⟩ := List.cons.inj h
  obtain ⟨s', hadvance, htokens⟩ := advance_of_ahead hahead
  exact ⟨s', skipKeyword_eq_ok.2 ⟨Cursor.isKeyword_singleton.2 hkind, hadvance⟩, htokens⟩

theorem inValues_refuses {paren query : Token} {ts : List Token}
    (h : s.cursor.tokens = paren :: query :: ts) (hparen : paren.kind = .symbol .leftParen)
    (hquery : query.kind = .keyword .SELECT) :
    Finishes text (some (.unsupported .subquery)) s inValues := by
  obtain ⟨rfl, hahead⟩ := List.cons.inj h
  obtain ⟨s₁, hadvance, htokens⟩ := advance_of_ahead hahead
  have hopen : accept Symbol.leftParen s = .ok () s₁ := accept_eq_ok.2 ⟨hparen, hadvance⟩
  refine .of_bind hopen ?_
  obtain ⟨rfl, -⟩ := List.cons.inj htokens
  rw [cursor_bind_finishes, if_pos (Cursor.isKeyword_singleton.2 hquery)]
  exact .bind_some (.of_error rfl)

/-- A comparison with a query fails behind its left side. -/
theorem predicate_refuses (h : QueryPlace.Refuses .compared s.cursor.tokens e)
    (left : Expression) : Finishes text (some e) s (predicate left) := by
  rw [predicate, dialect_bind_finishes]
  generalize htokens : s.cursor.tokens = ts at h
  cases h with
  | isIn hword hparen hquery =>
    obtain ⟨s₁, hfound, htokens⟩ := skipKeyword_of_tokens htokens hword
    exact .missed (skipSymbol_of_keyword hfound _)
      (.found hfound (inValues_refuses htokens hparen hquery).bind_some)
  | notIn hnegation hword hparen hquery =>
    obtain ⟨s₁, hnot, htokens⟩ := skipKeyword_of_tokens htokens hnegation
    obtain ⟨s₂, hfound, htokens⟩ := skipKeyword_of_tokens htokens hword
    have hnegated : Finishes text (some (.unsupported .subquery)) s₁ negatedComparison := by
      rw [negatedComparison, dialect_bind_finishes]
      exact .found hfound (inValues_refuses htokens hparen hquery).bind_some
    exact .missed (skipSymbol_of_keyword hnot _)
      (.missed (skipKeyword_of_keyword hnot (by decide))
        (.missed (skipKeyword_of_keyword hnot (by decide)) (.found hnot hnegated)))
  | query hplace _ => simp at hplace

theorem WhereAsks.refuses (hs : s.cursor.Stands text) (h : WhereAsks place s s')
    (hrefuses : place.Refuses s'.cursor.tokens e) : Finishes text (some e) s whereClause := by
  cases h with
  | compared halias hfound hbefore hleft =>
    refine whereClause_finishes hs halias hfound hbefore fun _ => ?_
    simp only [comparisonLeft, bind_eq_ok] at hleft
    obtain ⟨_, _, hrefuse, _, _, hopen, hleft⟩ := hleft
    exact .of_bind hrefuse (.of_bind hopen (.of_bind hleft
      (predicate_refuses hrefuses _).bind_some))

/-! ## Tables -/

/-- Neither a parenthesis nor a query is a table. -/
theorem tableFactor_refuses (h : QueryPlace.Refuses .table s.cursor.tokens e) :
    Finishes text (some e) s tableFactor := by
  rw [tableFactor, cursor_bind_finishes]
  generalize htokens : s.cursor.tokens = ts at h
  cases h with
  | tableGroup hparen =>
    obtain ⟨rfl, -⟩ := List.cons.inj htokens
    rw [if_pos (by simp [Cursor.isSymbol, hparen])]
    exact .bind_some (.of_error rfl)
  | query _ hquery =>
    obtain ⟨rfl, -⟩ := List.cons.inj htokens
    have hunexpected : (unexpected : Parser κ PUnit) s = .error (.unexpectedToken
        (.keyword .SELECT) s.cursor.current.literal s.cursor.current.start) s := by
      rw [unexpected, cursor_bind, Cursor.unexpected, hquery]
      rfl
    rw [if_neg (by simp [Cursor.isSymbol, hquery])]
    refine .bind_some ?_
    rw [tableName, current_bind_finishes, cursor_bind_finishes,
      if_pos (by simp [Cursor.isName, hquery])]
    exact .bind_some (.of_error hunexpected)

theorem joinedTable_refuses (hjoin : joinType s = .ok true s')
    (h : QueryPlace.Refuses .joined s'.cursor.tokens e) :
    Finishes text (some e) s joinedTable := by
  refine .found hjoin ?_
  rw [cursor_bind_finishes]
  generalize htokens : s'.cursor.tokens = ts at h
  cases h with
  | joinedGroup hparen =>
    obtain ⟨rfl, -⟩ := List.cons.inj htokens
    rw [if_pos (by simp [Cursor.isSymbol, hparen])]
    exact .bind_some (.of_error rfl)
  | query _ hquery =>
    have htable := htokens ▸ QueryPlace.Refuses.query (.inl rfl) hquery
    obtain ⟨rfl, -⟩ := List.cons.inj htokens
    rw [if_neg (by simp [Cursor.isSymbol, hquery])]
    exact (tableFactor_refuses htable).bind_some

theorem TablesAsk.list_refuses (hs : s.cursor.Stands text) (h : TablesAsk place s s')
    (hrefuses : place.Refuses s'.cursor.tokens e) :
    Finishes text (some e) s (commaSeparated tableReference) := by
  cases h with
  | table hbefore =>
    exact commaSeparated_finishes (E := .all κ) (tableReference_moves trivial) hs.closed hbefore
      (tableFactor_refuses hrefuses).bind_some
  | joined hbefore hfirst hjoined hjoin =>
    exact joinedList_finishes hs hbefore hfirst hjoined fun _ => joinedTable_refuses hjoin hrefuses

theorem TablesAsk.refuses (hs : s.cursor.Stands text) (h : TablesAsk place s s')
    (hrefuses : place.Refuses s'.cursor.tokens e) (single : Bool) :
    Finishes text (some e) s (tableReferences single) :=
  (h.list_refuses hs hrefuses).bind_some

end

/-! ## Statements -/

theorem SelectAsks.refuses {s s' : ParseState SelectClauses} (hs : s.cursor.Stands text)
    (h : SelectAsks place s s') (hrefuses : place.Refuses s'.cursor.tokens e) :
    Finishes text (some e) s select := by
  cases h with
  | tables hhead hfrom hasks =>
    exact selectTables_finishes hs hhead hfrom fun hs₂ => hasks.refuses hs₂ hrefuses false
  | whereClause hhead hfrom hasks =>
    exact selectWhere_finishes hs hhead hfrom fun hs₂ => hasks.refuses hs₂ hrefuses

theorem InsertAsks.refuses {s s' : ParseState InsertClauses} (h : InsertAsks place s s')
    (hrefuses : place.Refuses s'.cursor.tokens e) : Finishes text (some e) s insert := by
  cases h with
  | rows hhead =>
    simp only [bind_eq_ok] at hhead
    obtain ⟨_, _, haccept, _, _, hinto, hcolumns⟩ := hhead
    refine .of_bind haccept (.of_bind hinto (.of_bind hcolumns ?_))
    rw [cursor_bind_finishes]
    generalize htokens : s'.cursor.tokens = ts at hrefuses
    cases hrefuses with
    | query hplace _ => simp at hplace
    | rows hquery =>
      obtain ⟨rfl, -⟩ := List.cons.inj htokens
      have hfound : (s'.cursor.isKeyword [.SELECT] || s'.cursor.isSymbol .leftParen) = true := by
        rw [Bool.or_eq_true, Cursor.isKeyword_singleton, Cursor.isSymbol, decide_eq_true_eq]
        exact hquery
      rw [if_pos hfound]
      exact .bind_some (.of_error rfl)

theorem UpdateAsks.refuses {s s' : ParseState UpdateClauses} (hs : s.cursor.Stands text)
    (h : UpdateAsks place s s') (hrefuses : place.Refuses s'.cursor.tokens e) :
    Finishes text (some e) s update := by
  cases h with
  | tables hhead hoptions hasks =>
    have hs₂ := ((skipAll_safe _).stands ((accept_safe _).stands hs hhead).stands hoptions).stands
    exact updateTables_finishes hhead hoptions (hasks.refuses hs₂ hrefuses true)
  | whereClause hhead hasks =>
    exact updateWhere_finishes hs hhead fun hs₁ => hasks.refuses hs₁ hrefuses

theorem DeleteAsks.refuses {s s' : ParseState DeleteClauses} (hs : s.cursor.Stands text)
    (h : DeleteAsks place s s') (hrefuses : place.Refuses s'.cursor.tokens e) :
    Finishes text (some e) s delete := by
  cases h with
  | tables hhead hoptions hfrom hasks =>
    have hs₂ := ((skipAll_safe _).stands ((accept_safe _).stands hs hhead).stands hoptions).stands
    have hs₃ := ((skipKeyword_safe _).stands hs₂ hfrom).stands
    exact deleteTables_finishes hhead hoptions hfrom (hasks.refuses hs₃ hrefuses true)
  | whereClause hhead hasks =>
    exact deleteWhere_finishes hs hhead fun hs₁ => hasks.refuses hs₁ hrefuses

end Grammar

/-- A text that comes to a query where one is looked for is refused. -/
theorem Statement.Asks.parse_eq_error {database : Database} {d : Dialect} {text : String}
    {place : QueryPlace} {ts : List Token} {e : ParseError}
    (h : Statement.Asks database d text place ts) (hrefuses : place.Refuses ts e) :
    Statement.parse database d text = .error e := by
  rw [← Statement.failure?_eq_some]
  cases h with
  | select hc hkind hasks =>
    rw [Statement.parse_eq_ofCursor hc, Statement.ofCursor, hkind]
    exact Statement.failure?_ofParser (hasks.refuses (Cursor.stands_of_ofText hc) hrefuses)
  | insert hc hkind hasks =>
    rw [Statement.parse_eq_ofCursor hc, Statement.ofCursor, hkind]
    have hfinishes : Finishes text.toList (some e) _ Grammar.insert := hasks.refuses hrefuses
    exact Statement.failure?_ofParser hfinishes
  | update hc hkind hasks =>
    rw [Statement.parse_eq_ofCursor hc, Statement.ofCursor, hkind]
    exact Statement.failure?_ofParser (hasks.refuses (Cursor.stands_of_ofText hc) hrefuses)
  | delete hc hkind hasks =>
    rw [Statement.parse_eq_ofCursor hc, Statement.ofCursor, hkind]
    exact Statement.failure?_ofParser (hasks.refuses (Cursor.stands_of_ofText hc) hrefuses)

end SqlRouting
