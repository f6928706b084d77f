import SqlRouting.Proofs.Moves.Statement
import SqlRouting.Proofs.Reads

/-!
# Disjunctions

An `OR` is refused where the comparisons of a `WHERE` stop, and nowhere else. That is enough as
long as they stop at a clause that follows. But a comparison may also stop before something that it
does not know, such as a collation; what is behind it is skipped, and an `OR` with it. This module
says exactly when an `OR` gets by (`parse_disjunctions`).
-/

namespace SqlRouting

namespace Grammar

open SqlRouting.Parser

variable {κ : Type} {d : Dialect} {P : Token → Prop} {stream : List Token} {s s' : ParseState κ}

/-! ## Comparisons -/

theorem inValues_reads : Reads (κ := κ) d P inValues fun _ _ => True := by
  have hopen : Reads (κ := κ) d P (accept Symbol.leftParen) fun _ => (·.CallsForOperand d) :=
    accept_reads (by decide) (by decide) fun _ ht =>
      callsForOperand_of_symbol d [.leftParen] (by decide) (by simp [ht])
  have hcomma : Reads (κ := κ) d (fun _ => True) (skipSymbol .comma) fun found t =>
      found = true → t.CallsForOperand d :=
    skipIf_reads (by decide) (by decide)
      (fun _ ht _ => callsForOperand_of_symbol d [.comma] (by decide) ht) fun _ _ h => by cases h
  have hclose : Reads (κ := κ) d (fun _ => True) (accept Symbol.rightParen) fun _ _ => True :=
    accept_reads (by decide) (by decide) fun _ _ => trivial
  refine hopen.bind fun _ => (Reads.of_eq fun h => (pure_eq_ok.1 h).2).bind fun _ => .ite ?_ ?_
  · exact fun _ => .of_not_ok fun h => by simp [bind_eq_ok, throw_eq_ok] at h
  · exact fun _ => (separatedBy_reads operand_reads hcomma).bind fun _ => hclose.bind fun _ =>
      .pure fun _ h => h

theorem betweenBounds_reads :
    Reads (κ := κ) d (·.CallsForOperand d) betweenBounds fun _ _ => True := by
  have hand : Reads (κ := κ) d (fun _ => True) (accept Keyword.AND) fun _ =>
      (·.CallsForOperand d) :=
    accept_reads (by decide) (by decide) fun _ ht =>
      callsForOperand_of_keyword d [.AND] (by simp [callingKeywords]) (by simp [ht])
  exact operand_reads.bind fun _ => hand.bind fun _ => operand_reads.bind fun _ =>
    .pure fun _ h => h

theorem recordCondition_reads (left : Expression) (comparison : Comparison)
    (values : List Expression) :
    Reads (κ := κ) d P (recordCondition left comparison values) fun _ => P :=
  .of_cursor_eq fun {s a s'} h => by
    simp only [recordCondition, routing_bind, ite_eq_ok, pure_eq_ok] at h
    rcases h with ⟨_, h⟩ | ⟨_, _, rfl⟩
    · cases hcolumn : s.body.tables.column? left with
      | none =>
        rw [hcolumn] at h
        rw [(pure_eq_ok.1 h).2]
      | some column =>
        rw [hcolumn] at h
        rw [← modifyRouting_eq_ok.1 h]
    · rfl

variable (hd : .OR ∉ d.comparisons)

include hd

theorem negatedComparison_reads : Reads (κ := κ) d P negatedComparison fun _ _ => True := by
  have hlike {t : Token} (ht : t.kind ∈ (Keyword.LIKE :: d.comparisons).map TokenKind.keyword) :
      t.CallsForOperand d := by
    rcases List.mem_cons.1 ht with hlike | ht
    · exact callsForOperand_of_loose (hlike ▸ by decide)
    · exact callsForOperand_of_keyword d d.comparisons (List.subset_append_right _ _) ht
  refine dialect_reads (skipKeyword_then_reads (by decide) (fun _ _ => trivial) ?_ ?_)
  · exact (inValues_reads (P := fun _ => True)).bind fun _ => .pure fun _ h => h
  refine skipKeyword_then_reads (by decide) (fun _ =>
    callsForOperand_of_keyword d [.BETWEEN] (by simp [callingKeywords])) ?_ ?_
  · exact betweenBounds_reads.bind fun _ => .pure fun _ h => h
  refine skipKeyword_then_reads (by simpa using hd) (fun _ ht => hlike ht) ?_ ?_
  · exact operand_reads.bind fun _ => .pure fun _ h => h
  · exact .of_not_ok fun h => unexpected_eq_ok.1 h

theorem predicate_reads (left : Expression) :
    Reads (κ := κ) d (fun _ => True) (predicate left) fun _ _ => True := by
  have hloose {t : Token} (ht : t.kind ∈ looseComparisons ++ d.comparisons.map .keyword) :
      t.CallsForOperand d := by
    rcases List.mem_append.1 ht with ht | ht
    · exact callsForOperand_of_loose ht
    · exact callsForOperand_of_keyword d d.comparisons (List.subset_append_right _ _) ht
  refine dialect_reads (skipIf_then_reads (by decide) (by decide) (fun _ =>
    callsForOperand_of_symbol d [.equal] (by decide)) ?_ ?_)
  · exact operand_reads.bind fun _ => recordCondition_reads ..
  -- Behind `IN` comes a parenthesis, which is what calls for the first of its values.
  refine skipKeyword_then_reads (by decide) (fun _ _ => trivial) ?_ ?_
  · exact (inValues_reads (P := fun _ => True)).bind fun _ => recordCondition_reads ..
  refine skipKeyword_then_reads (by decide) (fun _ =>
    callsForOperand_of_keyword d [.BETWEEN] (by simp [callingKeywords])) ?_ ?_
  · exact betweenBounds_reads.bind fun _ => recordCondition_reads ..
  refine skipKeyword_then_reads (by decide) (fun _ _ => trivial) ?_ ?_
  · exact negatedComparison_reads (P := fun _ => True) hd
  refine skipKeyword_then_reads (by decide) (fun _ =>
    callsForOperand_of_keyword d [.IS] (by simp [callingKeywords])) ?_ ?_
  · have hnot : Reads (κ := κ) d (·.CallsForOperand d) (skipKeyword [.NOT]) fun _ =>
        (·.CallsForOperand d) :=
      skipKeyword_reads (by decide) (fun _ =>
        callsForOperand_of_keyword d [.NOT] (by simp [callingKeywords])) fun _ ht => ht
    exact hnot.bind fun _ => operand_reads.bind fun _ => .pure fun _ h => h
  refine skipIf_then_reads (by simpa [looseComparisons] using hd) (by simp [looseComparisons])
    (fun _ ht => hloose ht) ?_ ?_
  · exact operand_reads.bind fun _ => .pure fun _ h => h
  · exact .pure fun _ h => h

theorem comparison_reads :
    Reads (κ := κ) d (·.CallsForOperand d) comparison fun _ _ => True := by
  have hopen : Reads (κ := κ) d (·.CallsForOperand d) (skipSymbol .leftParen) fun _ =>
      (·.CallsForOperand d) :=
    skipIf_reads (by decide) (by decide)
      (fun _ => callsForOperand_of_symbol d [.leftParen] (by decide)) fun _ ht => ht
  have hclose : Reads (κ := κ) d (fun _ => True) (skipSymbol .rightParen) fun _ _ => True :=
    skipIf_reads (by decide) (by decide) (fun _ _ => trivial) fun _ ht => ht
  exact (Reads.of_eq fun h => (refuseEnd_eq_ok.1 h).2).bind fun _ => hopen.bind fun _ =>
    operand_reads.bind fun _ => (predicate_reads hd _).bind fun _ => hclose.bind fun _ =>
      .pure fun _ h => h

theorem comparisons_reads :
    Reads (κ := κ) d (·.CallsForOperand d) comparisons fun _ _ => True := by
  have hand : Reads (κ := κ) d (fun _ => True) (skipKeyword [.AND]) fun found t =>
      found = true → t.CallsForOperand d :=
    skipKeyword_reads (by decide)
      (fun _ ht _ => callsForOperand_of_keyword d [.AND] (by simp [callingKeywords]) ht)
      fun _ _ h => by cases h
  exact (separatedBy_reads (comparison_reads hd) hand).bind fun _ => .pure fun _ h => h

omit hd in
/-- Either there is no `WHERE`, or what is read behind this keyword has an `OR` outside of
    parentheses only as an operand, and stops at no `AND` or `OR`. -/
theorem whereClause_reads (hd : .OR ∉ d.comparisons) {u : Unit} (h : whereClause s = .ok u s')
    (hs : s.On stream) (hdialect : s.cursor.dialect = d) :
    ∃ asName s₁, tableAlias s = .ok asName s₁ ∧
      (s₁.cursor.current.kind ≠ .keyword .WHERE ∧ s₁ = s' ∨
        ∃ w body, w.kind = .keyword .WHERE ∧ s₁.cursor.tokens = w :: (body ++ s'.cursor.tokens) ∧
          OrsAreOperands d w 0 body ∧ s'.cursor.current.kind ≠ .keyword .AND ∧
          s'.cursor.current.kind ≠ .keyword .OR) := by
  obtain ⟨asName, s₁, halias, h⟩ := whereClause_eq_ok h
  refine ⟨asName, s₁, halias, ?_⟩
  have hrun : Run (Scope.all κ) stream s s₁ := tableAlias_moves halias
  rcases h with ⟨hnone, rfl⟩ | ⟨hwhere, hor, s₂, hadvance, hcomparisons⟩
  · exact .inl ⟨fun hk => by simp [Cursor.isKeyword, hk] at hnone, rfl⟩
  have hwhere := Cursor.isKeyword_singleton.1 hwhere
  have hs₁ := hrun.on hs
  -- The keyword itself calls for the first operand.
  obtain ⟨c, hnext, rfl⟩ := advance_eq_ok.1 hadvance
  have htokens := Cursor.tokens_of_next hs₁.closed hnext (by simp [hwhere])
  obtain ⟨_, _, body, hbody, hors⟩ := comparisons_reads hd hcomparisons (hs₁.closed.next hnext)
    ((Cursor.dialect_of_next hs₁.closed hnext).trans ((hrun.dialect_eq hs).trans hdialect))
  have hand := (comparisons_done hcomparisons (hs₁.closed.next hnext)).2
  have hcalls : s₁.cursor.current.CallsForOperand d :=
    callsForOperand_of_keyword d [.WHERE] (by simp [callingKeywords]) (by simp [hwhere])
  refine .inr ⟨s₁.cursor.current, body, hwhere, ?_, (hors hcalls).1 0, ?_, ?_⟩
  · rw [htokens, ← hbody]
  · exact fun hk => by simp [Cursor.isKeyword, hk] at hand
  · exact fun hk => by simp [Cursor.isKeyword, hk] at hor

end Grammar

/-! ## Statements -/

/-- The token starts one of the clauses that may follow a `WHERE`. -/
def Token.endsWhere (t : Token) : Bool :=
  t.kind ∈ [Keyword.GROUP, .HAVING, .ORDER, .LIMIT].map TokenKind.keyword

/-- No `OR` stands outside of parentheses among the tokens, up to the first clause behind
    the `WHERE` that they belong to; before them `depth` groups are open. -/
def NoDisjunction (depth : Nat) (ts : List Token) : Prop :=
  ∀ t ∈ (outside depth ts).takeWhile fun t => !t.endsWhere, t.kind ≠ .keyword .OR

instance (depth : Nat) (ts : List Token) : Decidable (NoDisjunction depth ts) :=
  inferInstanceAs (Decidable (∀ t ∈ (outside depth ts).takeWhile _, t.kind ≠ .keyword .OR))

theorem noDisjunction_append (depth : Nat) (ts us : List Token) :
    NoDisjunction depth (ts ++ us) ↔ NoDisjunction depth ts ∧
      ((∃ t ∈ outside depth ts, t.endsWhere = true) ∨ NoDisjunction (depthBehind depth ts) us) := by
  rw [NoDisjunction, outside_append, forall_takeWhile_append]
  simp only [NoDisjunction, Bool.not_eq_false']

open Grammar in
/-- The tokens that are left in a text if `p` is what follows the head of its statement, in
    place of the `WHERE`. -/
def tokensBehindHead (p : ∀ κ, Parser κ Unit) (database : Database) (d : Dialect)
    (text : String) : List Token :=
  match Cursor.ofText database d text with
  | .error _ => []
  | .ok c =>
    match c.current.kind with
    | .keyword .SELECT =>
      tokensLeft ((do
        let owners ← selectHead
        fromClause
        markTables owners
        p SelectClauses) (ParseState.start c))
    | .keyword .UPDATE => tokensLeft ((do updateHead; p UpdateClauses) (ParseState.start c))
    | .keyword .DELETE => tokensLeft ((do deleteHead; p DeleteClauses) (ParseState.start c))
    | _ => []

/-- The tokens of a text from where its `WHERE` is due. -/
def tokensFromWhere : Database → Dialect → String → List Token :=
  tokensBehindHead fun _ => do let _ ← Grammar.tableAlias

/-- The tokens of a text from where its `WHERE` stops, if there is one. -/
def tokensBehindWhere : Database → Dialect → String → List Token :=
  tokensBehindHead fun _ => Grammar.whereClause

/-- A statement that is no insert reads its `WHERE`, if any, with no conditions recorded before,
    and none behind it. -/
theorem Statement.Read.where_run {database : Database} {d : Dialect} {text : String} {c : Cursor}
    {s : Statement} (h : Read c s) (hc : Cursor.ofText database d text = .ok c)
    (hinsert : s.keyword ≠ .INSERT) :
    ∃ (κ : Type) (s₁ s₂ : ParseState κ), s₁.On c.tokens ∧ s₁.cursor.dialect = d ∧
      s₁.body.conditions = {} ∧ Grammar.whereClause s₁ = .ok () s₂ ∧
      s.routing.conditions = s₂.body.conditions ∧
      ∀ p, tokensBehindHead p database d text = tokensLeft (p κ s₁) := by
  obtain ⟨_, hclosed, hd⟩ := Cursor.ofText_eq_ok hc
  cases h with
  | select hkind h =>
    obtain ⟨r, rfl⟩ := Grammar.select_eq_ok h
    have hon := ParseState.On.start (κ := SelectClauses) hclosed
    have hE : ∀ t c c', SelectClauses.Step t c c' → Scope.select.withoutConditions.clauses t c c' :=
      fun _ _ _ h => h
    obtain ⟨hrun, howners⟩ := Grammar.selectHead_run hE r.selectHead hon
    have hrun := (hrun.trans (Grammar.fromClause_moves trivial r.fromClause)).trans
      (Grammar.markTables_run r.markTables howners)
    have hwhere : Run (Scope.all _) c.tokens r.marked r.narrowed :=
      Grammar.whereClause_moves trivial r.whereClause
    refine ⟨_, r.marked, r.narrowed, hrun.on hon, (hrun.dialect_eq hon).trans hd, ?_,
      r.whereClause, r.conditions_eq (hwhere.on (hrun.on hon)), fun p => ?_⟩
    · exact hrun.conditions_eq hon id
    · simp only [tokensBehindHead, hc, hkind]
      rw [Parser.bind_of_eq_ok r.selectHead, Parser.bind_of_eq_ok r.fromClause,
        Parser.bind_of_eq_ok r.markTables]
  | insert => exact absurd rfl hinsert
  | update hkind h =>
    obtain ⟨s₁, s₂, hhead, hwhere, hskip⟩ := Grammar.update_eq_ok h
    have hon := ParseState.On.start (κ := UpdateClauses) hclosed
    have hrun : Run (Scope.all _).withoutConditions c.tokens (ParseState.start c) s₁ :=
      Grammar.updateHead_moves trivial (fun _ _ _ => trivial) hhead
    obtain ⟨_, hbody⟩ := Parser.skipRest_body hskip
    refine ⟨_, s₁, s₂, hrun.on hon, (hrun.dialect_eq hon).trans hd, ?_, hwhere, ?_, fun p => ?_⟩
    · exact hrun.conditions_eq hon id
    · exact congrArg (·.conditions) hbody
    · simp only [tokensBehindHead, hc, hkind]
      exact congrArg tokensLeft (Parser.bind_of_eq_ok hhead)
  | delete hkind h =>
    obtain ⟨s₁, s₂, hhead, hwhere, hskip⟩ := Grammar.delete_eq_ok h
    have hon := ParseState.On.start (κ := DeleteClauses) hclosed
    have hrun : Run (Scope.all _).withoutConditions c.tokens (ParseState.start c) s₁ :=
      Grammar.deleteHead_moves trivial hhead
    obtain ⟨_, hbody⟩ := Parser.skipRest_body hskip
    refine ⟨_, s₁, s₂, hrun.on hon, (hrun.dialect_eq hon).trans hd, ?_, hwhere, ?_, fun p => ?_⟩
    · exact hrun.conditions_eq hon id
    · exact congrArg (·.conditions) hbody
    · simp only [tokensBehindHead, hc, hkind]
      exact congrArg tokensLeft (Parser.bind_of_eq_ok hhead)

/-- *Disjunctions in a statement with a `WHERE`.* No condition is recorded without a `WHERE`. If
    there is one, the comparisons behind it have an `OR` outside of parentheses only as an operand,
    and they stop at no `AND` or `OR`. So there is no disjunction behind the `WHERE` exactly if
    there is no such operand, and either a keyword of a later clause is an operand, or there is no
    `OR` between the token where the comparisons stop and the next clause. -/
theorem parse_disjunctions {database : Database} {text : String} {s : Statement}
    (h : Statement.parse database .mySql text = .ok s) (hinsert : s.keyword ≠ .INSERT) :
    ((∀ w ∈ (tokensFromWhere database .mySql text).head?, w.kind ≠ .keyword .WHERE) ∧
      s.routing.conditions = {}) ∨
    ∃ w body, w.kind = .keyword .WHERE ∧
      tokensFromWhere database .mySql text =
        w :: (body ++ tokensBehindWhere database .mySql text) ∧
      OrsAreOperands .mySql w 0 body ∧
      (∀ t ∈ (tokensBehindWhere database .mySql text).head?,
        t.kind ≠ .keyword .AND ∧ t.kind ≠ .keyword .OR) ∧
      (NoDisjunction 0 (body ++ tokensBehindWhere database .mySql text) ↔
        NoDisjunction 0 body ∧ ((∃ t ∈ outside 0 body, t.endsWhere = true) ∨
          NoDisjunction (depthBehind 0 body) (tokensBehindWhere database .mySql text))) := by
  obtain ⟨c, hc, hread⟩ := Statement.parse_eq_ok h
  obtain ⟨κ, s₁, s₂, hon, hd, hempty, hwhere, hconditions, htokens⟩ :=
    hread.where_run hc hinsert
  have hbehind : tokensBehindWhere database .mySql text = s₂.cursor.tokens := by
    rw [tokensBehindWhere, htokens, hwhere]
    rfl
  obtain ⟨asName, s', halias, h⟩ := Grammar.whereClause_reads (by decide) hwhere hon hd
  have hdue : tokensFromWhere database .mySql text = s'.cursor.tokens := by
    rw [tokensFromWhere, htokens, Parser.bind_of_eq_ok halias]
    rfl
  rw [hdue, hbehind]
  rcases h with ⟨hnone, rfl⟩ | ⟨w, body, hw, hbody, hors, hand, hor⟩
  · refine .inl ⟨?_, ?_⟩
    · rintro _ ⟨⟩
      exact hnone
    · have hrun : Run (Scope.all κ).withoutConditions c.tokens s₁ s' :=
        Grammar.tableAlias_moves halias
      rw [hconditions, hrun.conditions_eq hon id, hempty]
  · refine .inr ⟨w, body, hw, hbody, hors, ?_, noDisjunction_append 0 body _⟩
    rintro _ ⟨⟩
    exact ⟨hand, hor⟩

/-- An `OR` inside of parentheses is no disjunction of the comparisons. -/
theorem parse_disjunctions_parentheses :
    ∃ (s : Statement) (w : Token) (body : List Token),
      Statement.parse .mySql .mySql "DELETE FROM t WHERE a = (1 OR 2) AND b = 3" = .ok s ∧
      s.keyword ≠ .INSERT ∧ s.routing.conditions ≠ {} ∧
      tokensFromWhere .mySql .mySql "DELETE FROM t WHERE a = (1 OR 2) AND b = 3" =
        w :: (body ++ tokensBehindWhere .mySql .mySql
          "DELETE FROM t WHERE a = (1 OR 2) AND b = 3") ∧
      OrsAreOperands .mySql w 0 body := by
  have hparse : Statement.parse .mySql .mySql "DELETE FROM t WHERE a = (1 OR 2) AND b = 3" =
      .ok (.delete {
        tables := ⟨[⟨"t", none⟩]⟩
        conditions := ⟨[⟨⟨"b", some "t"⟩, .equal, [.number (.integer 3)]⟩]⟩
        marks := [.table 12 "t"]
        clauses := {} }) := by decide +kernel
  rcases parse_disjunctions hparse (by decide) with ⟨_, hnone⟩ | ⟨w, body, _, hdue, hors, _⟩
  · exact absurd hnone (by decide)
  · exact ⟨_, w, body, hparse, by decide, by decide, hdue, hors⟩

/-- A comparison stops before a collation, and the `OR` behind it is skipped. The condition of
    the first comparison is recorded as if all rows had to meet it. -/
theorem disjunction_behind_collation :
    ∃ s : Statement,
      Statement.parse .mySql .mySql "SELECT * FROM t WHERE a = 1 COLLATE utf8_bin OR b = 2" =
        .ok s ∧ s.keyword = .SELECT ∧
      s.routing.conditions.toList = [⟨⟨"a", some "t"⟩, .equal, [.number (.integer 1)]⟩] ∧
      ∃ w body, w.kind = .keyword .WHERE ∧
        tokensFromWhere .mySql .mySql "SELECT * FROM t WHERE a = 1 COLLATE utf8_bin OR b = 2" =
          w :: body ∧ ¬NoDisjunction 0 body := by
  refine ⟨.select {
    tables := ⟨[⟨"t", none⟩]⟩
    conditions := ⟨[⟨⟨"a", some "t"⟩, .equal, [.number (.integer 1)]⟩]⟩
    marks := [.table 14 "t"]
    clauses := { containsStar := true, selectListStop := 9, items := [.star none] } },
    by decide +kernel, rfl, rfl, ⟨.keyword .WHERE, "WHERE", 21⟩,
    (tokensFromWhere .mySql .mySql
      "SELECT * FROM t WHERE a = 1 COLLATE utf8_bin OR b = 2").tail, rfl, ?_, ?_⟩
  · decide +kernel
  · decide +kernel

end SqlRouting
