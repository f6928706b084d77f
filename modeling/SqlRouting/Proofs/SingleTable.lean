import SqlRouting.Proofs.Clauses
import SqlRouting.Proofs.References.Reading

/-!
# Statements on a single table

An update or a deletion is on a single table. That there is no other is checked when all references
to tables have been read, by the number of tables that are known then. Names that differ only in
case are one table to them, so it is not the references that are counted: what is accepted are
references to any number of tables under a single name. And only names that the references come to
are seen: in a deletion with tables before its `FROM`, the references stop at the first of these,
and those behind the `FROM` are skipped (`parse_singleTable`, `deletion_from_join`).
-/

namespace SqlRouting

/-! ## Names without repetition -/

/-- All the tokens name the same, in upper or lower case. -/
def NameAlike (ts : List Token) : Prop :=
  ∀ t ∈ ts, ∀ u ∈ ts, Text.sameLetters t.name u.name = true

instance : DecidablePred NameAlike :=
  fun ts => inferInstanceAs (Decidable (∀ t ∈ ts, ∀ u ∈ ts, _ = _))

/-- Names that are the same as one that is there are not added. -/
theorem foldl_addName_of_sameLetters {name : String} {names : List String}
    (h : ∀ n ∈ names, Text.sameLetters name n = true) : names.foldl addName [name] = [name] := by
  induction names with
  | nil => rfl
  | cons n names ih =>
    rw [List.foldl_cons, addName, if_pos (by simpa using h n (List.mem_cons_self ..))]
    exact ih fun m hm => h m (List.mem_cons_of_mem _ hm)

/-- Names that are there stay, and those that are added are there, in upper or lower case. -/
theorem any_foldl_addName {names names' : List String} {name : String}
    (h : names.any (Text.sameLetters · name) = true ∨ name ∈ names') :
    (names'.foldl addName names).any (Text.sameLetters · name) = true := by
  induction names' generalizing names with
  | nil => exact h.resolve_right List.not_mem_nil
  | cons n names' ih =>
    refine ih ?_
    rw [List.mem_cons] at h
    rcases h with h | rfl | h
    · refine .inl ?_
      rw [addName]
      split
      · exact h
      · simp [h]
    · refine .inl ?_
      rw [addName]
      split
      · assumption
      · simp
    · exact .inr h

/-- The names of tokens that all name the same are the first one. -/
theorem NameAlike.foldl_addName {t : Token} {ts : List Token} (h : NameAlike (t :: ts)) :
    ((t :: ts).map Token.name).foldl addName [] = [t.name] := by
  refine foldl_addName_of_sameLetters fun n hn => ?_
  obtain ⟨u, hu, rfl⟩ := List.mem_map.1 hn
  exact h t (List.mem_cons_self ..) u (List.mem_cons_of_mem _ hu)

/-- Tokens that all name the same give a single name. -/
theorem length_foldl_addName_le_one {ts : List Token} :
    ((ts.map Token.name).foldl addName []).length ≤ 1 ↔ NameAlike ts := by
  constructor
  · intro hle t ht u hu
    have hthere {v : Token} (hv : v ∈ ts) :
        ((ts.map Token.name).foldl addName []).any (Text.sameLetters · v.name) = true :=
      any_foldl_addName (.inr (List.mem_map_of_mem hv))
    have ht := hthere ht
    have hu := hthere hu
    generalize (ts.map Token.name).foldl addName [] = names at hle ht hu
    cases names with
    | nil => cases ht
    | cons name names =>
      obtain rfl : names = [] := List.length_eq_zero_iff.1 (by simpa using hle)
      simp only [List.any_cons, List.any_nil, Bool.or_false] at ht hu
      rwa [Text.sameLetters_congr ht] at hu
  · intro halike
    cases ts with
    | nil => exact Nat.zero_le _
    | cons t ts =>
      rw [halike.foldl_addName]
      exact Nat.le_refl 1

namespace Grammar

open SqlRouting.Parser

variable {κ : Type} {s s₁ s' : ParseState κ} {d : Dialect} {ts : List Token} {u : Unit}

/-! ## The check -/

/-- References to tables are accepted as those of a single table exactly if they are accepted at all
    and name the same. -/
theorem tableReferences_single_iff (hs : s.Before d [] ts) :
    tableReferences true s = .ok u s' ↔ tableReferences false s = .ok u s' ∧
      NameAlike (References.ofTokens d ts).names := by
  have hcheck {as : List Unit} {s₁ : ParseState κ}
      (h : commaSeparated tableReference s = .ok as s₁) :
      ¬1 < s₁.body.tables.size ↔ NameAlike (References.ofTokens d ts).names := by
    have hrun : tableReferences false s = .ok () s₁ := by
      rw [tableReferences, bind_of_eq_ok h]
      rfl
    have hnames := (tableReferences_goes hs hrun).names_eq
    rw [← length_foldl_addName_le_one, ← hnames, Nat.not_lt, Tables.size, Tables.names,
      List.length_map]
  simp only [tableReferences, bind_eq_ok, routing_bind, ite_eq_ok, throw_eq_ok, pure_eq_ok,
    Bool.true_and, Bool.false_and, and_false, false_or, decide_eq_true_eq]
  constructor
  · rintro ⟨as, s₁, h, hsingle, _, rfl⟩
    exact ⟨⟨as, s₁, h, Bool.false_ne_true, trivial, rfl⟩, (hcheck h).1 hsingle⟩
  · rintro ⟨⟨as, s₁, h, _, _, rfl⟩, halike⟩
    exact ⟨as, s₁, h, (hcheck h).2 halike, trivial, rfl⟩

/-- The only table of references to a single one is called as the first of their names. -/
theorem tableReferences_names (hs : s.Before d [] ts)
    (h : tableReferences true s = .ok u s') :
    ∃ t ∈ (References.ofTokens d ts).names, s'.body.tables.names = [t.name] := by
  obtain ⟨hrun, halike⟩ := (tableReferences_single_iff hs).1 h
  have hnames := (tableReferences_goes hs hrun).names_eq
  have hne : s'.body.tables ≠ {} := tableReferences_tables hrun ⟨List.suffix_rfl, hs.closed⟩
  cases hread : (References.ofTokens d ts).names with
  | nil =>
    rw [hread] at hnames
    exact absurd (congrArg Tables.mk (List.map_eq_nil_iff.1 hnames)) hne
  | cons t more =>
    rw [hread] at hnames halike
    exact ⟨t, List.mem_cons_self .., hnames.trans halike.foldl_addName⟩

/-- A statement with references to tables, perhaps to a single one, between its other parts. -/
def around (front : Parser κ Unit) (single : Bool) (back : Parser κ Unit) : Parser κ Unit := do
  front
  tableReferences single
  back

section

variable {front back : Parser κ Unit}
  (hfront : ∀ {s₁}, front s = .ok () s₁ → s₁.Before d [] (tokensAtReferences d ts))

include hfront

/-- A statement on a single table is accepted exactly if it would be on any tables and all the
    references name the same. -/
theorem around_single_iff : around front true back s = .ok u s' ↔
    around front false back s = .ok u s' ∧ NameAlike (tableNames d ts) := by
  simp only [around, bind_eq_ok]
  constructor
  · rintro ⟨_, s₁, h₁, _, s₂, h₂, h⟩
    obtain ⟨h₂, halike⟩ := (tableReferences_single_iff (hfront h₁)).1 h₂
    exact ⟨⟨_, s₁, h₁, _, s₂, h₂, h⟩, halike⟩
  · rintro ⟨⟨_, s₁, h₁, _, s₂, h₂, h⟩, halike⟩
    exact ⟨_, s₁, h₁, _, s₂, (tableReferences_single_iff (hfront h₁)).2 ⟨h₂, halike⟩, h⟩

theorem around_names (hback : Moves (Scope.all κ).withoutTables back)
    (h : around front true back s = .ok u s') :
    ∃ t ∈ tableNames d ts, s'.body.tables.names = [t.name] := by
  obtain ⟨_, s₁, h₁, h⟩ := bind_eq_ok.1 h
  obtain ⟨_, s₂, h₂, h⟩ := bind_eq_ok.1 h
  obtain ⟨t, ht, hnames⟩ := tableReferences_names (hfront h₁) h₂
  have hclosed : s₂.cursor.Closed :=
    (tableReferences_goes (hfront h₁) ((tableReferences_single_iff (hfront h₁)).1 h₂).1).closed
  rw [(hback h).tables_eq ⟨List.suffix_rfl, hclosed⟩ id]
  exact ⟨t, ht, hnames⟩

end

/-! ## Updates and deletions -/

def updateFront : Parser UpdateClauses Unit := do
  accept Keyword.UPDATE
  skipAll (← dialect).skippedBehindUpdate

def updateBack : Parser UpdateClauses Unit := do
  assignments
  skipUntil [Keyword.WHERE]
  whereClause
  skipRest

def deleteFront : Parser DeleteClauses Unit := do
  accept Keyword.DELETE
  skipAll (← dialect).skippedBehindDelete
  let _ ← skipKeyword [.FROM]

def deleteBack : Parser DeleteClauses Unit := do
  skipUntil [Keyword.WHERE]
  whereClause
  skipRest

theorem update_eq_around : update = around updateFront true updateBack := by
  simp only [update, updateHead, around, updateFront, updateBack, bind_assoc]

theorem delete_eq_around : delete = around deleteFront true deleteBack := by
  simp only [delete, deleteHead, around, deleteFront, deleteBack, bind_assoc, pure_bind]

theorem updateBack_moves : Moves (Scope.all _).withoutTables updateBack :=
  (assignments_moves fun _ _ _ => trivial).bind fun _ => (skipUntil_moves _).bind fun _ =>
    (whereClause_moves trivial).bind fun _ => skipRest_moves

theorem deleteBack_moves : Moves (Scope.all _).withoutTables deleteBack :=
  (skipUntil_moves _).bind fun _ => (whereClause_moves trivial).bind fun _ => skipRest_moves

theorem before_updateFront {s s₁ : ParseState UpdateClauses} {known : List String}
    (hs : s.Before d known ts) (h : updateFront s = .ok () s₁) :
    s₁.Before d known (tokensAtReferences d ts) := by
  obtain ⟨_, s₂, haccept, h⟩ := bind_eq_ok.1 h
  obtain ⟨hkind, hadvance⟩ := accept_eq_ok.1 haccept
  rw [hs.kind_eq] at hkind
  have hs₂ := hs.advance hadvance (by simp [hkind])
  rw [dialect_bind, hs₂.dialect_eq] at h
  rw [tokensAtReferences, hkind]
  exact skipAll_goes _ hs₂ h

theorem before_deleteFront {s s₁ : ParseState DeleteClauses} {known : List String}
    (hs : s.Before d known ts) (h : deleteFront s = .ok () s₁) :
    s₁.Before d known (tokensAtReferences d ts) := by
  obtain ⟨_, s₂, haccept, h⟩ := bind_eq_ok.1 h
  obtain ⟨hkind, hadvance⟩ := accept_eq_ok.1 haccept
  rw [hs.kind_eq] at hkind
  have hs₂ := hs.advance hadvance (by simp [hkind])
  rw [dialect_bind, hs₂.dialect_eq] at h
  obtain ⟨_, s₃, hskip, h⟩ := bind_eq_ok.1 h
  obtain ⟨from', s₄, hfrom, h⟩ := bind_eq_ok.1 h
  obtain ⟨_, rfl⟩ := pure_eq_ok.1 h
  have hfound := skipKeyword_finds [.FROM] (skipAll_goes _ hs₂ hskip) hfrom
  simp only [List.map_cons, List.map_nil] at hfound
  rw [tokensAtReferences, hkind]
  dsimp only
  split at hfound
  case h_1 more hmore =>
    rw [hmore]
    exact hfound.2
  case h_2 hnone =>
    rw [hnone]
    exact hfound.2

end Grammar

/-! ## Texts -/

namespace Statement

/-- The statement behind a cursor, where updates and deletions may be on any number of tables. -/
def ofCursorOnTables (c : Cursor) : Except ParseError Statement :=
  match c.current.kind with
  | .keyword .UPDATE =>
    (ofParser (Grammar.around Grammar.updateFront false Grammar.updateBack) update c).1
  | .keyword .DELETE =>
    (ofParser (Grammar.around Grammar.deleteFront false Grammar.deleteBack) delete c).1
  | _ => (ofCursor c).1

/-- The statement in a text, where updates and deletions may be on any number of tables. -/
def parseOnTables (database : Database) (d : Dialect) (text : String) :
    Except ParseError Statement :=
  match Cursor.ofText database d text with
  | .ok c => ofCursorOnTables c
  | .error e => .error (.lexical e)

/-- What one parser accepts is what another does under a condition, also as a statement. -/
theorem ofParser_iff {κ : Type} [Inhabited κ] {p q : Parser κ Unit} {f : Body κ → Statement}
    {c : Cursor} {P : Prop} {s : Statement}
    (h : ∀ {s'}, p (ParseState.start c) = .ok () s' ↔ q (ParseState.start c) = .ok () s' ∧ P) :
    (ofParser p f c).1 = .ok s ↔ (ofParser q f c).1 = .ok s ∧ P := by
  have hok {r : Parser κ Unit} {s' : ParseState κ} (hr : r (ParseState.start c) = .ok () s') :
      (ofParser r f c).1 = .ok (f s'.body) := by rw [ofParser, hr]
  constructor
  · intro hp
    obtain ⟨s', hrun, rfl⟩ := ofParser_eq_ok hp
    exact ⟨hok (h.1 hrun).1, (h.1 hrun).2⟩
  · rintro ⟨hq, hP⟩
    obtain ⟨s', hrun, rfl⟩ := ofParser_eq_ok hq
    exact hok (h.2 ⟨hrun, hP⟩)

/-- A parse starts with no tables before all tokens. -/
theorem before_start {κ : Type} [Inhabited κ] {c : Cursor} (hc : c.Closed) :
    (ParseState.start c : ParseState κ).Before c.dialect [] c.tokens :=
  ⟨hc, rfl, rfl, rfl⟩

theorem ofCursor_iff {c : Cursor} (hc : c.Closed) {s : Statement} :
    (ofCursor c).1 = .ok s ↔ ofCursorOnTables c = .ok s ∧
      (s.keyword = .UPDATE ∨ s.keyword = .DELETE → NameAlike (tableNames c.dialect c.tokens)) := by
  by_cases hupdate : c.current.kind = .keyword .UPDATE
  case pos =>
    simp only [ofCursor, ofCursorOnTables, hupdate, Grammar.update_eq_around]
    refine (ofParser_iff (Grammar.around_single_iff
      (Grammar.before_updateFront (before_start hc)))).trans (and_congr_right fun h => ?_)
    obtain ⟨_, _, rfl⟩ := ofParser_eq_ok h
    simp [keyword]
  by_cases hdelete : c.current.kind = .keyword .DELETE
  case pos =>
    simp only [ofCursor, ofCursorOnTables, hdelete, Grammar.delete_eq_around]
    refine (ofParser_iff (Grammar.around_single_iff
      (Grammar.before_deleteFront (before_start hc)))).trans (and_congr_right fun h => ?_)
    obtain ⟨_, _, rfl⟩ := ofParser_eq_ok h
    simp [keyword]
  have hsame : ofCursorOnTables c = (ofCursor c).1 := by
    rw [ofCursorOnTables]
    split
    case h_1 h => exact absurd h hupdate
    case h_2 h => exact absurd h hdelete
    case h_3 => rfl
  rw [hsame]
  refine (and_iff_left_of_imp fun h hkeyword => ?_).symm
  have hkind := (read_of_ofCursor h).kind_eq
  rcases hkeyword with hkeyword | hkeyword
  · exact absurd (hkeyword ▸ hkind) hupdate
  · exact absurd (hkeyword ▸ hkind) hdelete

/-- The table of an update or a deletion is called as one of the tokens that name tables. -/
theorem Read.tableNames {c : Cursor} {s : Statement} (h : Read c s) (hc : c.Closed)
    (hkeyword : s.keyword = .UPDATE ∨ s.keyword = .DELETE) :
    ∃ t ∈ tableNames c.dialect c.tokens, s.routing.tables.names = [t.name] := by
  cases h with
  | select => simp [keyword] at hkeyword
  | insert => simp [keyword] at hkeyword
  | update hkind h =>
    rw [Grammar.update_eq_around] at h
    exact Grammar.around_names (Grammar.before_updateFront (before_start hc))
      Grammar.updateBack_moves h
  | delete hkind h =>
    rw [Grammar.delete_eq_around] at h
    exact Grammar.around_names (Grammar.before_deleteFront (before_start hc))
      Grammar.deleteBack_moves h

end Statement

open Statement

/-- *Updates and deletions are on a single table as far as their references go.* A text is parsed as
    a statement exactly if it would be with updates and deletions on any number of tables, and,
    should it be one of these, all names in its references to tables are the same without their
    quotes, in upper or lower case; then one of them is what its only table is called. Each of these
    names stands directly behind the head of the statement, behind a comma or behind the keywords
    of a join, and the references stop at a token that is no comma and no such keyword. Names behind
    that token are not looked at. -/
theorem parse_singleTable {database : Database} {d : Dialect} {text : String} {s : Statement} :
    (parse database d text = .ok s ↔ parseOnTables database d text = .ok s ∧
      (s.keyword = .UPDATE ∨ s.keyword = .DELETE →
        NameAlike (tableNames d (TokenStream.ofText d text.toList).tokens))) ∧
    (parse database d text = .ok s → s.keyword = .UPDATE ∨ s.keyword = .DELETE →
      ∃ t ∈ tableNames d (TokenStream.ofText d text.toList).tokens,
        s.routing.tables.names = [t.name]) ∧
    (∀ t ∈ tableNames d (TokenStream.ofText d text.toList).tokens, References.Introduced d
      (tokensAtReferences d (TokenStream.ofText d text.toList).tokens) t) ∧
    headKind (References.ofTokens d
      (tokensAtReferences d (TokenStream.ofText d text.toList).tokens)).rest ∉
        .symbol .comma :: References.joinKinds d := by
  refine ⟨?_, fun h hkeyword => ?_, fun t ht => References.introduced_of_mem ht,
    References.headKind_rest⟩
  · rw [parse, parseTraced, parseOnTables]
    cases hc : Cursor.ofText database d text with
    | error e => simp
    | ok c =>
      obtain ⟨htokens, hclosed, rfl⟩ := Cursor.ofText_eq_ok hc
      rw [← htokens]
      exact ofCursor_iff hclosed
  · obtain ⟨c, hc, hread⟩ := parse_eq_ok h
    obtain ⟨htokens, hclosed, rfl⟩ := Cursor.ofText_eq_ok hc
    rw [← htokens]
    exact hread.tableNames hclosed hkeyword

example : (tableNames .mySql (TokenStream.ofText .mySql
    "DELETE FROM t a JOIN T b ON -a.x = f(b.y, c), u WHERE v = 1".toList).tokens).map Token.name =
      ["t", "T", "u"] := by
  decide +kernel

/-- A deletion that names one of two joined tables before its `FROM` is accepted as one on a single
    table: the other one stands behind a `JOIN`, but the references have stopped before. -/
theorem deletion_from_join :
    (∃ body, parse .mySql .mySql "DELETE t1 FROM t1 JOIN t2 ON t1.id = t2.id WHERE t1.a = 1" =
      .ok (.delete body) ∧ body.tables.names = ["t1"]) ∧
    ∃ before join t after, (TokenStream.ofText .mySql
        "DELETE t1 FROM t1 JOIN t2 ON t1.id = t2.id WHERE t1.a = 1".toList).tokens =
      before ++ join :: t :: after ∧ join.kind = .keyword .JOIN ∧ t.name = "t2" := by
  refine ⟨⟨{
    tables := ⟨[⟨"t1", none⟩]⟩
    conditions := ⟨[⟨⟨"a", some "t1"⟩, .equal, [.number (.integer 1)]⟩]⟩
    marks := [.table 7 "t1", .table 49 "t1"]
    clauses := {} }, ?_, rfl⟩, (TokenStream.ofText .mySql
      "DELETE t1 FROM t1 JOIN t2 ON t1.id = t2.id WHERE t1.a = 1".toList).tokens.take 4,
    ⟨.keyword .JOIN, "JOIN", 22⟩, ⟨.literal .identifier, "t2", 25⟩,
    (TokenStream.ofText .mySql
      "DELETE t1 FROM t1 JOIN t2 ON t1.id = t2.id WHERE t1.a = 1".toList).tokens.drop 6,
    ?_, rfl, ?_⟩
  all_goals decide +kernel

end SqlRouting
