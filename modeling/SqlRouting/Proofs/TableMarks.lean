import SqlRouting.Proofs.Passing.Statement

/-!
# The marks of tables

To send a statement to a shard the names of its tables are replaced where they are marked. So the
marks have to be right: each stands at a name of a table, no two at the same place, and every table
is marked (`parse_tableMarks`). They also have to be complete: where a table owns a column, its name
is one more to replace. But an owner is marked only if it is an operand by itself, read where the
table is known. In parentheses that are skipped as text, joined to more by an operator, before the
table is mentioned, or among tokens that are not read, it keeps its name (`parse_owners`).
-/

namespace SqlRouting

section

variable {database : Database} {d : Dialect} {text : String} {s : Statement}

/-- Wherever a `SELECT` may stand, there is something to say about owners. -/
theorem Statement.parse_ownersAccounted (h : Statement.parse database d text = .ok s) :
    TokensAccounted (TokenStream.ofText d text.toList).tokens (Place.IsSkipped database d text)
      (fun _ => True) (tokensBehindSelectList database d text) (unreadParts database d text)
      s.routing :=
  Statement.parse_tokensAccounted h {
    hooks := fun _ _ _ => trivial
    operands := fun _ _ _ => trivial
    list := fun _ _ => trivial
    aliases := fun _ _ _ _ => trivial }

/-- *Tables and their marks agree.* What is marked as a table is a name that spells one, at a token
    of the text. No two such marks stand at the same place, and every table is marked where its name
    is spelled. -/
theorem parse_tableMarks (h : Statement.parse database d text = .ok s) :
    (∀ start spelling, Mark.table start spelling ∈ s.routing.marks →
      s.routing.tables.contains (Text.unquoted spelling) = true ∧
        ∃ t ∈ (TokenStream.ofText d text.toList).tokens,
          t.kind = LiteralClass.identifier ∧ t.start = start ∧ t.literal = spelling) ∧
    ((s.routing.marks.filter Mark.isTable).map Mark.start).Nodup ∧
    ∀ t ∈ s.routing.tables.toList, ∃ start spelling,
      Mark.table start spelling ∈ s.routing.marks ∧ Text.unquoted spelling = t.name := by
  obtain ⟨named, hnamed, hgrowth⟩ := (Statement.parse_ownersAccounted h).growth
  have hsorted := (TokenStream.ofText_sorted d text.toList).2
  have hmem {m : Mark} (hm : m.isTable = true) :
      m ∈ s.routing.marks ↔ m ∈ named.map Token.mark := by
    simpa using hgrowth.mem_marks hm
  refine ⟨fun start spelling hmark => ?_, ?_, fun t ht => ?_⟩
  · obtain ⟨t, ht, heq⟩ := List.mem_map.1 ((hmem rfl).1 hmark)
    obtain ⟨rfl, rfl⟩ := Mark.table.inj heq
    exact ⟨(hgrowth.areNames t ht).2, t, hnamed.subset ht, (hgrowth.areNames t ht).1, rfl, rfl⟩
  · -- The marks are those of some of the tokens, which stand one behind the other.
    have hperm : (s.routing.marks.filter Mark.isTable).Perm (named.map Token.mark) := by
      simpa using hgrowth.marks
    have hstarts : (named.map Token.start).Nodup :=
      List.pairwise_map.2 ((hsorted.sublist hnamed).imp Nat.ne_of_lt)
    rw [(hperm.map Mark.start).nodup_iff, List.map_map]
    exact hstarts
  · obtain hempty | ⟨m, hm, hname⟩ := hgrowth.tables t ht
    · cases hempty
    · exact ⟨m.start, m.literal, (hmem rfl).2 (List.mem_map_of_mem hm), hname⟩

/-- The name of a table is marked where it is mentioned, and where it owns a column. -/
theorem parse_tableMarks_join :
    ∃ body, Statement.parse .mySql .mySql "SELECT `o`.a FROM `o` JOIN i ON O.a = i.b" =
        .ok (.select body) ∧
      Mark.table 7 "`o`" ∈ body.marks ∧ body.tables.contains "o" = true ∧
      ((body.marks.filter Mark.isTable).map Mark.start).Nodup := by
  have hparse : Statement.parse .mySql .mySql "SELECT `o`.a FROM `o` JOIN i ON O.a = i.b" =
      .ok (.select {
        tables := ⟨[⟨"o", none⟩, ⟨"i", none⟩]⟩
        marks := [.table 7 "`o`", .table 18 "`o`", .table 27 "i", .table 32 "O", .table 38 "i"]
        clauses := { selectListStop := 13, items := [.plain "o.a" none] } }) := by
    decide +kernel
  obtain ⟨hnames, hstarts, _⟩ := parse_tableMarks hparse
  exact ⟨_, hparse, by decide, (hnames 7 "`o`" (by decide)).1, hstarts⟩

/-- What keeps the owner before the dot at a place from being marked, in a statement with the
    routing part `r`. -/
inductive OwnerHidden (database : Database) (d : Dialect) (text : String) (r : Routing)
    (p : Place (TokenStream.ofText d text.toList).tokens) (owner : Token) : Prop
  /-- The dot is in parentheses that are skipped as text: those of an operand, of the select list or
  of the tables. -/
  | inside (h : Place.IsSkipped database d text p)
  /-- The dot is among tokens that are not read. -/
  | unread (h : p.IsIn (unreadParts database d text))
  /-- Behind the select list the dot is part of a larger operand. -/
  | joined (hbehind : p.token :: p.after <:+ tokensBehindSelectList database d text)
    (h : p.IsJoined)
  /-- Behind the select list the table is only mentioned behind the dot. -/
  | early (hbehind : p.token :: p.after <:+ tokensBehindSelectList database d text)
    (h : ∀ q : Place (TokenStream.ofText d text.toList).tokens,
      q.Mentions r (Text.unquoted owner.literal) → p.before.length < q.before.length)

/-- *Where owners are marked.* If a table of the statement owns a column, its name before the dot
    is marked, unless it stands in parentheses that are skipped as text or among tokens that are not
    read, or it is read behind the select list, where what is joined to more by an operator or a
    further dot is not looked into, and a table is not known before it has been mentioned. So in the
    values behind an `IN`, in a row, and in a comparison in parentheses it is marked like anywhere
    else. -/
theorem parse_owners (h : Statement.parse database d text = .ok s)
    (p : Place (TokenStream.ofText d text.toList).tokens) {owner : Token}
    (howned : p.OwnedBy owner)
    (htable : s.routing.tables.contains (Text.unquoted owner.literal) = true) :
    Mark.table owner.start owner.literal ∈ s.routing.marks ∨
      OwnerHidden database d text s.routing p owner := by
  by_cases hunread : p.IsIn (unreadParts database d text)
  · exact .inr (.unread hunread)
  rcases ((Statement.parse_ownersAccounted h).said p hunread).owner owner howned htable with
    hmark | hinside | ⟨hbehind, hjoined | hearly⟩
  · exact .inl hmark
  · exact .inr (.inside hinside)
  · exact .inr (.joined hbehind hjoined)
  · exact .inr (.early hbehind hearly)

/-- An owner that is an operand by itself. -/
theorem parse_owners_where :
    ∃ body, Statement.parse .mySql .mySql "SELECT * FROM t WHERE T.a = 1" = .ok (.select body) ∧
      ∃ p owner, p.OwnedBy owner ∧ body.tables.contains (Text.unquoted owner.literal) = true ∧
        Mark.table owner.start owner.literal ∈ body.marks ∧
        (Mark.table owner.start owner.literal ∈ body.marks ∨
          OwnerHidden .mySql .mySql "SELECT * FROM t WHERE T.a = 1" body.toRouting p owner) := by
  have hparse : Statement.parse .mySql .mySql "SELECT * FROM t WHERE T.a = 1" = .ok (.select {
      tables := ⟨[⟨"t", none⟩]⟩
      conditions := ⟨[⟨⟨"a", some "t"⟩, .equal, [.number (.integer 1)]⟩]⟩
      marks := [.table 14 "t", .table 22 "T"]
      clauses := { containsStar := true, selectListStop := 9, items := [.star none] } }) := by
    decide +kernel
  let owner : Token := ⟨LiteralClass.identifier, "T", 23⟩
  let p : Place (TokenStream.ofText .mySql "SELECT * FROM t WHERE T.a = 1".toList).tokens := {
    before := [⟨Keyword.SELECT, "SELECT", 6⟩, ⟨Symbol.star, "*", 8⟩, ⟨Keyword.FROM, "FROM", 13⟩,
      ⟨LiteralClass.identifier, "t", 15⟩, ⟨Keyword.WHERE, "WHERE", 21⟩, owner]
    token := ⟨Symbol.dot, ".", 24⟩
    after := [⟨LiteralClass.identifier, "a", 25⟩, ⟨Symbol.equal, "=", 27⟩,
      ⟨LiteralClass.int, "1", 29⟩, Token.final 29]
    stream_eq := by decide +kernel }
  have howned : p.OwnedBy owner := ⟨rfl, rfl, rfl⟩
  exact ⟨_, hparse, p, owner, howned, by decide, by decide,
    parse_owners hparse p howned (by decide)⟩

/-- An owner in a sum is not marked. -/
theorem owner_joined_unmarked :
    ∃ body, Statement.parse .mySql .mySql "SELECT * FROM t WHERE t.a + 1 = 2" = .ok (.select body) ∧
      ∃ (p : Place (TokenStream.ofText .mySql "SELECT * FROM t WHERE t.a + 1 = 2".toList).tokens)
        (owner : Token), p.OwnedBy owner ∧
          body.tables.contains (Text.unquoted owner.literal) = true ∧
          ∀ spelling, Mark.table owner.start spelling ∉ body.marks := by
  let owner : Token := ⟨LiteralClass.identifier, "t", 23⟩
  refine ⟨{
    tables := ⟨[⟨"t", none⟩]⟩
    marks := [.table 14 "t"]
    clauses := { containsStar := true, selectListStop := 9, items := [.star none] } },
    by decide +kernel, {
    before := [⟨Keyword.SELECT, "SELECT", 6⟩, ⟨Symbol.star, "*", 8⟩, ⟨Keyword.FROM, "FROM", 13⟩,
      ⟨LiteralClass.identifier, "t", 15⟩, ⟨Keyword.WHERE, "WHERE", 21⟩, owner]
    token := ⟨Symbol.dot, ".", 24⟩
    after := [⟨LiteralClass.identifier, "a", 25⟩, ⟨Symbol.plus, "+", 27⟩,
      ⟨LiteralClass.int, "1", 29⟩, ⟨Symbol.equal, "=", 31⟩, ⟨LiteralClass.int, "2", 33⟩,
      Token.final 33]
    stream_eq := by decide +kernel }, owner, ⟨rfl, rfl, rfl⟩, by decide, fun spelling hmark => ?_⟩
  have hstart : owner.start = 22 := by decide
  simp [hstart] at hmark

end

end SqlRouting
