import SqlRouting.Proofs.Queries

/-!
# Subqueries

A select within a statement would read tables that routing does not know. Where the grammar looks
for one it is refused: as a table, behind `IN`, and as the rows of an insert. But the token `SELECT`
also gets by where it is not looked for: as part of an operand, which may be any token and has its
parentheses skipped as text, in the select list, as an alias, in the parentheses behind a table, and
among tokens that are not read at all. Everywhere else an accepted text has no `SELECT` but its
first token (`parse_selects`).
-/

namespace SqlRouting

open SqlRouting.Parser

/-- Where a `SELECT` may stand in an accepted text behind its first token. -/
inductive SelectHidden (database : Database) (d : Dialect) (text : String)
    (p : Place (TokenStream.ofText d text.toList).tokens) : Prop
  /-- It is in an operand that is due there and is read from `ts` to `us`. -/
  | operand {place : OperandPlace} {ts us : List Token}
    (hreads : Statement.Reads database d text place ts us) (h : p.IsBetween ts us)
  /-- It is in a select list, behind the first token. -/
  | listed (hfirst : p.before ≠ []) (h : p.IsIn (listParts database d text))
  /-- It is an alias. -/
  | alias {t : Token} (hlast : p.before.getLast? = some t) (h : t.kind = .keyword .AS)
  /-- It is in parentheses that are skipped as text, such as those of a hint behind a table. -/
  | skipped (h : Place.IsSkipped database d text p)
  /-- It is among tokens that are not read. -/
  | unread (h : p.IsIn (unreadParts database d text))

/-- A statement that starts with `SELECT` is a select. -/
theorem Statement.keyword_of_first {database : Database} {d : Dialect} {text : String}
    {s : Statement} (h : Statement.parse database d text = .ok s)
    (p : Place (TokenStream.ofText d text.toList).tokens) (hfirst : p.before = []) :
    p.token.kind = .keyword s.keyword := by
  obtain ⟨c, hc, hread⟩ := Statement.parse_eq_ok h
  obtain ⟨htokens, _⟩ := Cursor.ofText_eq_ok hc
  have heq := htokens.trans p.stream_eq
  rw [hfirst, List.nil_append, Cursor.tokens, List.cons.injEq] at heq
  rw [← heq.1]
  exact hread.kind_eq

/-- *Where a select may stand.* In a text that is accepted under the dialect of MySQL every `SELECT`
    is the first token of a select, or it gets by where it is not looked for. A text that comes to a
    query where one is looked for is refused: behind the left side of a comparison and `IN`, where
    a table is due, or where the rows of an insert are. -/
theorem parse_selects {database : Database} {text : String} :
    (∀ s, Statement.parse database .mySql text = .ok s →
      ∀ p : Place (TokenStream.ofText .mySql text.toList).tokens,
        p.token.kind = .keyword .SELECT →
          p.before = [] ∧ s.keyword = .SELECT ∨ SelectHidden database .mySql text p) ∧
    ∀ place ts e, Statement.Asks database .mySql text place ts → place.Refuses ts e →
      Statement.parse database .mySql text = .error e := by
  refine ⟨fun s h p hselect => ?_, fun place ts e hasks hrefuses => hasks.parse_eq_error hrefuses⟩
  have hallows : Statement.Allows database .mySql text
      fun p => p.before = [] ∨ SelectHidden database .mySql text p := {
    hooks := fun hook hmem => absurd hmem (by cases hook <;> decide)
    operands := fun hreads p hp => .inr (.operand hreads hp)
    list := fun p hp => or_iff_not_imp_left.2 fun hfirst => .listed hfirst hp
    aliases := fun p t hlast hkind => .inr (.alias hlast hkind) }
  by_cases hunread : p.IsIn (unreadParts database .mySql text)
  · exact .inr (.unread hunread)
  rcases ((Statement.parse_tokensAccounted h hallows).said p hunread).select hselect with
    hskipped | hfirst | hhidden
  · exact .inr (.skipped hskipped)
  · have hkeyword := (Statement.keyword_of_first h p hfirst).symm.trans hselect
    exact .inl ⟨hfirst, TokenKind.keyword.inj hkeyword⟩
  · exact .inr hhidden

/-- The first token of a select, and a query for the rows of an insert. -/
theorem parse_selects_first :
    (∃ s, Statement.parse .mySql .mySql "SELECT a FROM t" = .ok s ∧
      ∃ p : Place (TokenStream.ofText .mySql "SELECT a FROM t".toList).tokens,
        p.token.kind = .keyword .SELECT ∧
        (p.before = [] ∧ s.keyword = .SELECT ∨
          SelectHidden .mySql .mySql "SELECT a FROM t" p)) ∧
    (∃ ts, Statement.Asks .mySql .mySql "INSERT INTO t SELECT a FROM u" .rows ts ∧
      QueryPlace.rows.Refuses ts (.unsupported .insertFromSelect)) ∧
    Statement.parse .mySql .mySql "INSERT INTO t SELECT a FROM u" =
      .error (.unsupported .insertFromSelect) := by
  have hparse : Statement.parse .mySql .mySql "SELECT a FROM t" = .ok (.select {
      tables := ⟨[⟨"t", none⟩]⟩
      marks := [.table 14 "t"]
      clauses := { selectListStop := 9, items := [.plain "a" none] } }) := by decide +kernel
  let p : Place (TokenStream.ofText .mySql "SELECT a FROM t".toList).tokens := {
    before := []
    token := ⟨Keyword.SELECT, "SELECT", 6⟩
    after := [⟨LiteralClass.identifier, "a", 8⟩, ⟨Keyword.FROM, "FROM", 13⟩,
      ⟨LiteralClass.identifier, "t", 15⟩, Token.final 15]
    stream_eq := by decide +kernel }
  have htokens : tokensAfter (do
      accept Keyword.INSERT
      Grammar.insertInto
      Grammar.insertColumns) .mySql .mySql "INSERT INTO t SELECT a FROM u" =
        [⟨Keyword.SELECT, "SELECT", 20⟩, ⟨LiteralClass.identifier, "a", 22⟩,
          ⟨Keyword.FROM, "FROM", 27⟩, ⟨LiteralClass.identifier, "u", 29⟩, Token.final 29] := by
    decide +kernel
  obtain ⟨c, s, hc, hrun, hrows⟩ := Statement.exists_of_tokensAfter htokens
  have hkind : c.current.kind = .keyword .INSERT :=
    (accept_eq_ok.1 (bind_eq_ok.1 hrun).choose_spec.choose_spec.1).1
  have hasks : Statement.Asks .mySql .mySql "INSERT INTO t SELECT a FROM u" .rows s.cursor.tokens :=
    .insert hc hkind (.rows hrun)
  have hrefuses : QueryPlace.rows.Refuses s.cursor.tokens (.unsupported .insertFromSelect) :=
    hrows ▸ .rows (.inl rfl)
  exact ⟨⟨_, hparse, p, rfl, parse_selects.1 _ hparse p rfl⟩, ⟨_, hasks, hrefuses⟩,
    parse_selects.2 _ _ _ hasks hrefuses⟩

/-- A select in parentheses is taken for an operand. -/
theorem select_in_operand :
    ∃ body, Statement.parse .mySql .mySql "SELECT * FROM t WHERE a = (SELECT b FROM u)" =
        .ok (.select body) ∧
      body.tables.contains "u" = false ∧
      ∃ p : Place (TokenStream.ofText .mySql
          "SELECT * FROM t WHERE a = (SELECT b FROM u)".toList).tokens,
        p.token.kind = .keyword .SELECT ∧ p.before ≠ [] := by
  refine ⟨{
    tables := ⟨[⟨"t", none⟩]⟩
    marks := [.table 14 "t"]
    clauses := { containsStar := true, selectListStop := 9, items := [.star none] } },
    by decide +kernel, by decide, {
    before := [⟨Keyword.SELECT, "SELECT", 6⟩, ⟨Symbol.star, "*", 8⟩, ⟨Keyword.FROM, "FROM", 13⟩,
      ⟨LiteralClass.identifier, "t", 15⟩, ⟨Keyword.WHERE, "WHERE", 21⟩,
      ⟨LiteralClass.identifier, "a", 23⟩, ⟨Symbol.equal, "=", 25⟩, ⟨Symbol.leftParen, "(", 27⟩]
    token := ⟨Keyword.SELECT, "SELECT", 33⟩
    after := [⟨LiteralClass.identifier, "b", 35⟩, ⟨Keyword.FROM, "FROM", 40⟩,
      ⟨LiteralClass.identifier, "u", 42⟩, ⟨Symbol.rightParen, ")", 43⟩, Token.final 43]
    stream_eq := by decide +kernel }, rfl, List.cons_ne_nil _ _⟩

end SqlRouting
