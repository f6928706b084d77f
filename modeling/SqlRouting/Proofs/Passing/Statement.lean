import SqlRouting.Proofs.Passing.Select

/-!
# The tokens of a statement

Every token of a statement is read by one of its clauses, except for those that are skipped: behind
the clauses, and before the `WHERE` of an update or a deletion (`unreadParts`). Of those that are
read, some are in parentheses that are skipped as text: in an operand, in the select list, or
behind a table (`Place.IsSkipped`). What there is to say about each token that is read is put
together here for whole statements (`TokensAccounted`).
-/

namespace SqlRouting

open SqlRouting.Parser

/-! ## What is skipped -/

namespace Grammar

/-- All that is read of an insert. -/
def insertClauses : Parser InsertClauses Unit := do
  insertTarget
  insertValues
  insertSet
  duplicateKeyUpdate

/-- The table of an insert. -/
def insertedTable : Parser InsertClauses Unit := do
  accept Keyword.INSERT
  insertInto

end Grammar

/-- The tokens of a text that a parser leaves. -/
def tokensAfter {κ : Type} [Inhabited κ] (p : Parser κ Unit) (database : Database) (d : Dialect)
    (text : String) : List Token :=
  match Cursor.ofText database d text with
  | .ok c => tokensLeft (p (ParseState.start c))
  | .error _ => []

/-- The keyword that a text starts with. -/
def firstKeyword? (database : Database) (d : Dialect) (text : String) : Option Keyword :=
  match Cursor.ofText database d text with
  | .ok c =>
    match c.current.kind with
    | .keyword k => some k
    | _ => none
  | .error _ => none

section

variable {database : Database} {d : Dialect} {text : String} {c : Cursor}

theorem tokensAfter_eq {κ : Type} [Inhabited κ] {p : Parser κ Unit} {s : ParseState κ} {u : Unit}
    (hc : Cursor.ofText database d text = .ok c) (h : p (ParseState.start c) = .ok u s) :
    tokensAfter p database d text = s.cursor.tokens := by
  simp only [tokensAfter, hc, h, tokensLeft]

theorem firstKeyword?_eq {k : Keyword} (hc : Cursor.ofText database d text = .ok c)
    (hkind : c.current.kind = .keyword k) : firstKeyword? database d text = some k := by
  simp only [firstKeyword?, hc, hkind]

end

/-- The parts of a text that are passed over without being read, each given by the tokens from
    where it starts and those from where it ends. -/
def unreadParts (database : Database) (d : Dialect) (text : String) :
    List (List Token × List Token) :=
  match firstKeyword? database d text with
  | some .SELECT => [(tokensSkipped database d text, [])]
  | some .INSERT => [(tokensAfter Grammar.insertClauses database d text, [])]
  | some .UPDATE =>
    [(tokensAfter (do Grammar.updateTable; Grammar.assignments) database d text,
        tokensAfter Grammar.updateHead database d text),
      (tokensAfter (do Grammar.updateHead; Grammar.whereClause) database d text, [])]
  | some .DELETE =>
    [(tokensAfter Grammar.deleteTable database d text,
        tokensAfter Grammar.deleteHead database d text),
      (tokensAfter (do Grammar.deleteHead; Grammar.whereClause) database d text, [])]
  | _ => []

/-- The select list of a text, with all before it, like `unreadParts`. -/
def listParts (database : Database) (d : Dialect) (text : String) :
    List (List Token × List Token) :=
  match firstKeyword? database d text with
  | some .SELECT => [((TokenStream.ofText d text.toList).tokens, tokensDue .tables database d text)]
  | _ => []

/-- What is read of a text in which the tables are named, with all before it, like `unreadParts`:
    for a select what is read of its `FROM`. -/
def tableParts (database : Database) (d : Dialect) (text : String) :
    List (List Token × List Token) :=
  match firstKeyword? database d text with
  | some .SELECT => [(tokensDue .tables database d text, tokensBehind .tables database d text)]
  | some .INSERT =>
    [((TokenStream.ofText d text.toList).tokens,
      tokensAfter Grammar.insertedTable database d text)]
  | some .UPDATE =>
    [((TokenStream.ofText d text.toList).tokens, tokensAfter Grammar.updateTable database d text)]
  | some .DELETE =>
    [((TokenStream.ofText d text.toList).tokens, tokensAfter Grammar.deleteTable database d text)]
  | _ => []

/-- The tokens of a text in which owners are read against the tables known by then: for a select
    those behind its select list. -/
def tokensBehindSelectList (database : Database) (d : Dialect) (text : String) : List Token :=
  match firstKeyword? database d text with
  | some .SELECT => tokensDue .tables database d text
  | _ => (TokenStream.ofText d text.toList).tokens

/-- The place is in one of the parts. -/
def Place.IsIn {stream : List Token} (p : Place stream) (parts : List (List Token × List Token)) :
    Prop :=
  ∃ part ∈ parts, p.IsBetween part.1 part.2

/-- The place is in parentheses that are skipped as text: those of an operand, or of the parts that
    hold the select list and the tables. -/
inductive Place.IsSkipped (database : Database) (d : Dialect) (text : String)
    (p : Place (TokenStream.ofText d text.toList).tokens) : Prop
  | operand {place : OperandPlace} {ts us : List Token}
    (hreads : Statement.Reads database d text place ts us) (hbetween : p.IsBetween ts us)
    (hinside : p.IsInside ts)
  | part {part : List Token × List Token}
    (hpart : part ∈ listParts database d text ++ tableParts database d text)
    (hbetween : p.IsBetween part.1 part.2) (hinside : p.IsInside part.1)

/-- The places include those at which a `SELECT` is not looked for: where a hook has it, in an
    operand, in the select list and behind `AS`. -/
structure Statement.Allows (database : Database) (d : Dialect) (text : String)
    (lenient : Place (TokenStream.ofText d text.toList).tokens → Prop) : Prop where
  hooks : ∀ h, .SELECT ∈ d.hook h → ∀ p, lenient p
  operands : ∀ {place ts us}, Statement.Reads database d text place ts us →
    ∀ p, p.IsBetween ts us → lenient p
  list : ∀ p, p.IsIn (listParts database d text) → lenient p
  aliases : ∀ p t, p.before.getLast? = some t → t.kind = .keyword .AS → lenient p

/-! ## What is said about all tokens -/

/-- What there is to say about a token that is read, in a statement with the routing part `r`: a
    `SELECT` is in parentheses that are skipped, or where one may be passed; an owner that is a
    table is marked, or in such parentheses, or it is read where tables are known and joined to
    more, or before the table is mentioned. Tables are known from the tokens `behind` on. -/
structure Place.Said {stream : List Token} (p : Place stream)
    (skipped lenient : Place stream → Prop) (behind : List Token) (r : Routing) : Prop where
  select : p.token.kind = .keyword .SELECT → skipped p ∨ lenient p
  owner : ∀ t, p.OwnedBy t → r.tables.contains (Text.unquoted t.literal) = true →
    t.mark ∈ r.marks ∨ skipped p ∨ (p.token :: p.after <:+ behind ∧ (p.IsJoined ∨
      ∀ q : Place stream, q.Mentions r (Text.unquoted t.literal) →
        p.before.length < q.before.length))

theorem Place.Said.of_skipped {stream : List Token} {p : Place stream}
    {skipped lenient : Place stream → Prop} {behind : List Token} {r : Routing} (h : skipped p) :
    p.Said skipped lenient behind r :=
  ⟨fun _ => .inl h, fun _ _ _ => .inr (.inl h)⟩

/-- What there is to say about the tokens of a statement with the routing part `r`, of which the
    parts `unread` are not read. -/
structure TokensAccounted (stream : List Token) (skipped lenient : Place stream → Prop)
    (behind : List Token) (unread : List (List Token × List Token)) (r : Routing) : Prop where
  growth : ∃ named : List Token, named.Sublist stream ∧ Growth named {} r
  said : ∀ p : Place stream, ¬p.IsIn unread → p.Said skipped lenient behind r

section

variable {database : Database} {d : Dialect} {text : String}
  {lenient : Place (TokenStream.ofText d text.toList).tokens → Prop}

/-- What is watched of the clauses of a text. -/
def Watch.ofText (κ : Type) (h : Statement.Allows database d text lenient) :
    Watch κ (TokenStream.ofText d text.toList).tokens where
  dialect := d
  base := (TokenStream.ofText d text.toList).tokens
  grouped := Place.IsSkipped database d text
  lenient := lenient
  silent := False
  settled := fun s p t => p.Settled s.body.toRouting t
  hooks := h.hooks
  aliases := h.aliases
  grow := fun hsorted hgrowth hnamed => .grow hsorted hgrowth fun _ hm => .inl (hnamed hm)

theorem Watch.ofText_ofClauses {κ : Type} (h : Statement.Allows database d text lenient) :
    (Watch.ofText κ h).OfClauses :=
  ⟨id, fun _ _ _ => Iff.rfl⟩

/-- The operands of the text are admitted. -/
theorem Watch.admitsDue_ofText {κ : Type} {s : ParseState κ}
    {due : OperandPlace → ParseState κ → ParseState κ → Prop}
    (h : Statement.Allows database d text lenient)
    (hreads : ∀ {place s₁ e s₂}, due place s s₁ → Grammar.operand s₁ = .ok e s₂ →
      Statement.Reads database d text place s₁.cursor.tokens s₂.cursor.tokens) :
    (Watch.ofText κ h).AdmitsDue due s := by
  intro place s₁ hdue e s₂ hrun p hp
  have hreads := hreads hdue hrun
  exact ⟨h.operands hreads p hp, fun hinside => .operand hreads hp hinside⟩

/-- The state of a text that has not been read yet. -/
theorem Watch.over_start {κ : Type} [Inhabited κ] {c : Cursor}
    (h : Statement.Allows database d text lenient) (hc : Cursor.ofText database d text = .ok c) :
    (Watch.ofText κ h).Over (ParseState.start c) := by
  obtain ⟨htokens, hclosed, hd⟩ := Cursor.ofText_eq_ok hc
  have hbase : c.tokens <:+ (TokenStream.ofText d text.toList).tokens := by simp [htokens]
  exact ⟨⟨hbase, hclosed⟩, hd, hbase⟩

end

section

variable {κ α : Type} {stream : List Token} {W : Watch κ stream} {s s₁ s₂ s' : ParseState κ}

/-- The watch in which parentheses from `base` on are skipped, too. -/
def Watch.skipping (W : Watch κ stream) (base : List Token) : Watch κ stream where
  dialect := W.dialect
  base := base
  grouped := fun p => W.grouped p ∨ p.IsInside base
  lenient := W.lenient
  silent := W.silent
  settled := W.settled
  hooks := W.hooks
  aliases := W.aliases
  grow := W.grow

theorem Watch.skipping_skips (W : Watch κ stream) (base : List Token) : (W.skipping base).Skips :=
  fun _ => .inr

theorem Watch.OfClauses.skipping (hW : W.OfClauses) (base : List Token) :
    (W.skipping base).OfClauses :=
  ⟨hW.loud, hW.settled⟩

theorem Watch.AdmitsDue.skipping {due : OperandPlace → ParseState κ → ParseState κ → Prop}
    (h : W.AdmitsDue due s) (base : List Token) : (W.skipping base).AdmitsDue due s :=
  fun _ _ hdue _ _ hrun p hp => (h hdue hrun p hp).imp_right fun hgrouped hinside =>
    .inl (hgrouped hinside)

theorem AccountsAt.passes {p : Parser κ α} {Q : α → ParseState κ → Prop} {a : α}
    (h : AccountsAt W s p Q) (hp : p s = .ok a s') (hs : W.Over s) :
    ∃ named, Passes W named s s' := by
  obtain ⟨⟨named, _, hpasses⟩, _⟩ := h hp hs
  exact ⟨named, hpasses⟩

/-- Parentheses are skipped in a part of the text that is watched. -/
theorem AccountsAt.passes_part {p : Parser κ α} {Q : α → ParseState κ → Prop} {a : α}
    {base : List Token} (h : AccountsAt (W.skipping base) s p Q) (hp : p s = .ok a s')
    (hs : W.Over s) (hbase : s.cursor.tokens <:+ base)
    (hpart : ∀ q : Place stream, q.IsPassed s s' → q.IsInside base → W.grouped q) :
    ∃ named, Passes W named s s' := by
  obtain ⟨named, hpasses⟩ := h.passes hp ⟨hs.on, hs.dialect, hbase⟩
  exact ⟨named, hpasses.imp (fun q hq => Or.rec id (hpart q hq)) (fun _ _ => id) fun _ _ _ => id⟩

/-- The watch with some places left out. -/
def Watch.except (W : Watch κ stream) (unread : Place stream → Prop) : Watch κ stream where
  dialect := W.dialect
  base := W.base
  grouped := fun p => unread p ∨ W.grouped p
  lenient := W.lenient
  silent := W.silent
  settled := W.settled
  hooks := W.hooks
  aliases := W.aliases
  grow := W.grow

theorem Passes.except {unread : Place stream → Prop} {named : List Token}
    (h : Passes W named s s') : Passes (W.except unread) named s s' :=
  h.imp (fun _ _ => .inr) (fun _ _ => id) fun _ _ _ => id

/-- Tokens that are skipped leave tables and marks of names as they are. -/
theorem skipUntil_growth {kinds : List TokenKind} {u : Unit} (h : skipUntil kinds s = .ok u s') :
    Growth [] s.body.toRouting s'.body.toRouting := by
  obtain ⟨n, hbody⟩ := skipUntil_body h
  rw [hbody]
  exact .of_tables_eq rfl (.refl _)

theorem skipRest_growth {u : Unit} (h : skipRest s = .ok u s') :
    Growth [] s.body.toRouting s'.body.toRouting := by
  obtain ⟨n, hbody⟩ := skipRest_body h
  rw [hbody]
  exact .of_tables_eq rfl (.refl _)

end

section

variable {κ : Type} {database : Database} {d : Dialect} {text : String}
  {lenient : Place (TokenStream.ofText d text.toList).tokens → Prop}
  {h : Statement.Allows database d text lenient} {s s' : ParseState κ}
  {p : Place (TokenStream.ofText d text.toList).tokens}

/-- What has been said of a place stays true when more is marked behind it, or owners are. -/
theorem Accounted.grow {named : List Token}
    (hsorted : (TokenStream.ofText d text.toList).tokens.Pairwise (·.start < ·.start))
    (hgrowth : Growth named s.body.toRouting s'.body.toRouting)
    (hnamed : ∀ m ∈ named, m ∈ p.after ∨
      ∃ o : Place (TokenStream.ofText d text.toList).tokens, o.OwnedBy m)
    (hp : Accounted (Watch.ofText κ h) s p) : Accounted (Watch.ofText κ h) s' p :=
  hp.imp_right fun ⟨hselect, howner⟩ =>
    ⟨hselect, fun t ht => (howner t ht).grow hsorted hgrowth hnamed⟩

/-- What is said about a token that is read where tables are known. -/
theorem Accounted.said {r : Routing} {behind : List Token}
    (hp : Accounted (Watch.ofText κ h) s p) (hr : s.body.toRouting = r)
    (hbehind : p.token :: p.after <:+ behind) :
    p.Said (Place.IsSkipped database d text) lenient behind r := by
  subst hr
  rcases hp with hskipped | ⟨hselect, howner⟩
  · exact .of_skipped hskipped
  · refine ⟨fun hk => .inr (hselect hk), fun t ht _ => ?_⟩
    exact (howner t ht).imp_right fun h => .inr ⟨hbehind, h⟩

end

namespace Grammar

/-! ## Selects -/

/-- Those of the names that are tables are marked, and the tables stay. -/
theorem markTables_growth {κ : Type} {s s' : ParseState κ} {names : List Token} {u : Unit}
    (h : markTables names s = .ok u s') :
    s'.cursor = s.cursor ∧ s'.body.tables = s.body.tables ∧
      (∃ marked : List Token, marked.Sublist names ∧
        Growth marked s.body.toRouting s'.body.toRouting) ∧
      ∀ t ∈ names, t.kind = LiteralClass.identifier →
        s.body.tables.contains (Text.unquoted t.literal) = true → t.mark ∈ s'.body.marks := by
  -- The tables stay from name to name, so it is known beforehand which names are tables.
  induction names generalizing s with
  | nil =>
    obtain ⟨_, rfl⟩ := pure_eq_ok.1 h
    exact ⟨rfl, rfl, ⟨[], .slnil, .refl _⟩, by simp⟩
  | cons t names ih =>
    have h : (markOwner t >>= fun _ => markTables names) s = .ok u s' := h
    obtain ⟨_, s₁, hmark, h⟩ := bind_eq_ok.1 h
    obtain ⟨hcursor, htables, ⟨marked, hmarked, hgrowth⟩, hmarks⟩ := ih h
    simp only [markOwner, routing_bind, ite_eq_ok, addMark_eq_ok, pure_eq_ok] at hmark
    rcases hmark with ⟨hknown, rfl⟩ | ⟨hunknown, _, rfl⟩
    · rw [Bool.and_eq_true, decide_eq_true_eq] at hknown
      have hfirst : Growth [t] s.body.toRouting
          { s.body.toRouting with marks := t.mark.insert s.body.marks } :=
        .insert rfl rfl hknown.1 hknown.2
      refine ⟨hcursor, htables, ⟨t :: marked, hmarked.cons_cons t, hfirst.trans hgrowth⟩, ?_⟩
      rintro m hm hkind hcontains
      rcases List.mem_cons.1 hm with rfl | hm
      · refine (hgrowth.mem_marks rfl).2 (.inr ?_)
        exact (Mark.perm_insert m.mark s.body.marks).mem_iff.2 (List.mem_cons_self ..)
      · exact hmarks m hm hkind hcontains
    · refine ⟨hcursor, htables, ⟨marked, hmarked.cons t, hgrowth⟩, fun m hm hkind hcontains => ?_⟩
      rcases List.mem_cons.1 hm with rfl | hm
      · simp [hkind, hcontains] at hunknown
      · exact hmarks m hm hkind hcontains

/-- Deriving columns marks no names. -/
theorem derive_growth (b : Body SelectClauses) :
    Growth [] b.toRouting b.deriveColumns.deriveOrder.toRouting := by
  have hcolumns : Growth [] b.toRouting b.deriveColumns.toRouting := by
    refine .of_tables_eq rfl ?_
    simp only [Body.deriveColumns]
    split
    · exact .refl _
    · exact Mark.filter_insert rfl _
  have horder : Growth [] b.deriveColumns.toRouting b.deriveColumns.deriveOrder.toRouting := by
    rw [Body.deriveOrder]
    split
    · exact .refl _
    · exact .of_tables_eq rfl (Mark.filter_insert rfl _)
  exact hcolumns.trans horder

section

variable {database : Database} {d : Dialect} {text : String}
  {lenient : Place (TokenStream.ofText d text.toList).tokens → Prop}

namespace SelectRun

variable {c : Cursor} (r : SelectRun (ParseState.start c))
  (hc : Cursor.ofText database d text = .ok c) (hkind : c.current.kind = .keyword .SELECT)
  (h : Statement.Allows database d text lenient)

include hc hkind

/-- Behind its list a select reads its tables, behind which parentheses are skipped. -/
theorem fromClause_passes (hs : (Watch.ofText SelectClauses h).Over r.listed) :
    ∃ named, Passes (Watch.ofText SelectClauses h) named r.listed r.joined := by
  have hW := Watch.ofText_ofClauses (κ := SelectClauses) h
  refine AccountsAt.passes_part (fromClause_accountsAt (Watch.skipping_skips _ _) (hW.skipping _)
    fun s₁ hfrom => ?_) r.fromClause hs List.suffix_rfl fun p hp hinside => ?_
  · exact (Watch.admitsDue_ofText h fun hdue hrun =>
      .select hc hkind (.tables r.selectHead hfrom hdue) hrun).skipping _
  · have hmem : (r.listed.cursor.tokens, r.joined.cursor.tokens) ∈ tableParts database d text := by
      simp [tableParts, firstKeyword?_eq hc hkind, r.tokensDue_eq hc, r.tokensBehind_eq hc, due,
        behind]
    exact .part (List.mem_append_right _ hmem) hp hinside

/-- Behind its tables a select reads its clauses one by one. -/
theorem clauses_passes (hs : (Watch.ofText SelectClauses h).Over r.marked) :
    ∃ named, Passes (Watch.ofText SelectClauses h) named r.marked r.limited := by
  have hW := Watch.ofText_ofClauses (κ := SelectClauses) h
  have hfrom : (do Grammar.fromClause; Grammar.markTables r.owners) r.listed = .ok () r.marked :=
    (bind_of_eq_ok r.fromClause).trans r.markTables
  have hwhere : selectUpTo r.owners .groups r.listed = .ok () r.narrowed :=
    (bind_of_eq_ok r.fromClause).trans ((bind_of_eq_ok r.markTables).trans r.whereClause)
  have hhaving : selectUpTo r.owners .order r.listed = .ok () r.grouped :=
    (bind_of_eq_ok r.fromClause).trans ((bind_of_eq_ok r.markTables).trans
      ((bind_of_eq_ok r.whereClause).trans ((bind_of_eq_ok r.groupBy).trans r.having)))
  obtain ⟨_, hconditions⟩ := (whereClause_accountsAt hW (Watch.admitsDue_ofText h
    fun hdue hrun => .select hc hkind (.whereClause r.selectHead hfrom hdue) hrun)).passes
      r.whereClause hs
  obtain ⟨_, hgroups⟩ := (groupBy_accountsAt hW (Watch.admitsDue_ofText h
    fun hdue hrun => .select hc hkind (.groupBy r.selectHead hwhere hdue) hrun)).passes
      r.groupBy (hconditions.stays hs)
  have hread := hconditions.trans hgroups
  obtain ⟨_, horder⟩ := (orderBy_accountsAt hW (Watch.admitsDue_ofText h
    fun hdue hrun => .select hc hkind (.orderBy r.selectHead hhaving hdue) hrun)).passes
      r.orderBy (hread.stays hs)
  have hread := hread.trans horder
  obtain ⟨_, hlimit⟩ := (limit_accounts trivial).passes r.limit (hread.stays hs)
  exact ⟨_, hread.trans hlimit⟩

omit hkind in
/-- The tokens of a select are those of its list, those of its `FROM`, those of its other clauses,
    and those that are skipped. -/
theorem isPassed_of_not_isIn {p : Place (TokenStream.ofText d text.toList).tokens}
    (hlisted : r.listed.On (TokenStream.ofText d text.toList).tokens)
    (hjoined : r.joined.On (TokenStream.ofText d text.toList).tokens)
    (hlimited : r.limited.On (TokenStream.ofText d text.toList).tokens)
    (hcursor : r.marked.cursor = r.joined.cursor)
    (hp : ¬p.IsIn [(r.limited.cursor.tokens, [])]) :
    p.IsPassed (ParseState.start c) r.listed ∨ p.IsPassed r.listed r.joined ∨
      p.IsPassed r.marked r.limited := by
  have hall : p.token :: p.after <:+ c.tokens := by
    rw [(Cursor.ofText_eq_ok hc).1]
    exact p.suffix
  rcases Place.isBetween_or_suffix hall hlisted.tokens with hp₁ | hp₁
  · exact .inl hp₁
  rcases Place.isBetween_or_suffix hp₁ hjoined.tokens with hp₂ | hp₂
  · exact .inr (.inl hp₂)
  rcases Place.isBetween_or_suffix hp₂ hlimited.tokens with hp₃ | hp₃
  · exact .inr (.inr (by rwa [Place.IsPassed, hcursor]))
  · exact absurd ⟨_, List.mem_singleton_self _, hp₃, List.nil_suffix⟩ hp

/-- How the tokens of a select are passed: those of its list, whose owners are marked behind its
    `FROM`, those of its `FROM`, and those of its other clauses. -/
structure Passed (r : SelectRun (ParseState.start c))
    (h : Statement.Allows database d text lenient) (marked named named' : List Token) : Prop where
  list : Collects ((Watch.ofText SelectClauses h).within (TokenStream.ofText d text.toList).tokens)
    r.owners (ParseState.start c) r.listed
  tables : Passes (Watch.ofText SelectClauses h) named r.listed r.joined
  cursor : r.marked.cursor = r.joined.cursor
  owners : marked.Sublist r.owners
  marks : Growth marked r.joined.body.toRouting r.marked.body.toRouting
  clauses : Passes (Watch.ofText SelectClauses h) named' r.marked r.limited

theorem exists_passed : ∃ marked named named', r.Passed h marked named named' := by
  have hs := Watch.over_start (κ := SelectClauses) h hc
  have hlist : Collects ((Watch.ofText SelectClauses h).within
      (TokenStream.ofText d text.toList).tokens) r.owners (ParseState.start c) r.listed :=
    selectHead_collects (Watch.within_open _ _) r.selectHead (hs.within hs.on.tokens)
  have hs₁ : (Watch.ofText SelectClauses h).Over r.listed :=
    ⟨hlist.passes.on, hlist.passes.dialect.trans hs.dialect, hlist.passes.on.tokens⟩
  obtain ⟨named, hfrom⟩ := r.fromClause_passes hc hkind h hs₁
  obtain ⟨hcursor, _, ⟨marked, hmarked, hmarks⟩, _⟩ := markTables_growth r.markTables
  obtain ⟨named', hrest⟩ := r.clauses_passes hc hkind h ((hfrom.stays hs₁).of_cursor hcursor)
  exact ⟨marked, named, named', hlist, hfrom, hcursor, hmarked, hmarks, hrest⟩

omit hc hkind

/-- Behind its clauses a select marks no more names. -/
theorem derived_growth : Growth [] r.limited.body.toRouting
    r.skipped.body.deriveColumns.deriveOrder.toRouting :=
  (skipRest_growth r.skipRest).trans (derive_growth r.skipped.body)

namespace Passed

variable {r h} {marked named named' : List Token} (hr : r.Passed h marked named named')
  {p : Place (TokenStream.ofText d text.toList).tokens}

include hr

theorem growth : Growth (marked ++ (named ++ named')) {}
    r.skipped.body.deriveColumns.deriveOrder.toRouting := by
  have hgrowth := ((hr.list.passes.growth.trans hr.tables.growth).trans hr.marks).trans
    (hr.clauses.growth.trans r.derived_growth)
  refine hgrowth.perm ?_
  simpa using List.perm_append_comm_assoc ..

include hc in
theorem sublist : (marked ++ (named ++ named')).Sublist
    (TokenStream.ofText d text.toList).tokens := by
  obtain ⟨passed, hpassed, howners⟩ := hr.list.collected
  obtain ⟨passed', hpassed', hnamed⟩ := hr.tables.passed
  obtain ⟨passed'', hpassed'', hnamed'⟩ := hr.clauses.passed
  have hall : c.tokens = passed ++ (passed' ++ (passed'' ++ r.limited.cursor.tokens)) := by
    rw [← hpassed'', hr.cursor, ← hpassed', ← hpassed]
    rfl
  rw [← (Cursor.ofText_eq_ok hc).1, hall]
  exact (hr.owners.trans howners).append (hnamed.append
    (hnamed'.trans (List.sublist_append_left ..)))

section

variable (hsorted : (TokenStream.ofText d text.toList).tokens.Pairwise (·.start < ·.start))

include hsorted

include hc hkind in
/-- In its list the owners that turn out to be tables are marked. -/
theorem said_listed (hp : p.IsPassed (ParseState.start c) r.listed) :
    p.Said (Place.IsSkipped database d text) lenient r.listed.cursor.tokens
      r.skipped.body.deriveColumns.deriveOrder.toRouting := by
  have hmem : ((TokenStream.ofText d text.toList).tokens, r.listed.cursor.tokens) ∈
      listParts database d text := by
    simp [listParts, firstKeyword?_eq hc hkind, r.tokensDue_eq hc, due]
  rcases hr.list.passes.accounts hsorted Routing.agrees_empty p hp with hinside | ⟨_, howner⟩
  · exact .of_skipped (.part (List.mem_append_left _ hmem) ⟨p.suffix, hp.2⟩ hinside)
  refine ⟨fun _ => .inr (h.list p ⟨_, hmem, p.suffix, hp.2⟩), fun t ht hcontains => .inl ?_⟩
  obtain ⟨_, _, _, hknown⟩ := markTables_growth r.markTables
  have hmark : t.mark ∈ r.marked.body.marks := hknown t (howner t ht) ht.name <| by
    rwa [← r.tables_eq (Cursor.ofText_eq_ok hc).2.1]
  exact (r.derived_growth.mem_marks rfl).2 (.inr
    ((hr.clauses.growth.mem_marks rfl).2 (.inr hmark)))

theorem said_joined (hp : p.IsPassed r.listed r.joined) :
    p.Said (Place.IsSkipped database d text) lenient r.listed.cursor.tokens
      r.skipped.body.deriveColumns.deriveOrder.toRouting := by
  let final : ParseState SelectClauses :=
    { r.skipped with body := r.skipped.body.deriveColumns.deriveOrder }
  have hend : Growth [] r.limited.body.toRouting final.body.toRouting := r.derived_growth
  have hagrees := hr.list.passes.growth.agrees Routing.agrees_empty
  have hjoined := hr.tables.accounts hsorted hagrees p hp
  have hmarked := hjoined.grow hsorted hr.marks fun m hm =>
    .inr (hr.list.owned m (hr.owners.subset hm))
  have hlimited := hmarked.grow hsorted hr.clauses.growth fun m hm =>
    .inl (hp.2.subset (hr.cursor ▸ hr.clauses.named_subset hm))
  exact (hlimited.grow hsorted hend (by simp)).said rfl hp.1

theorem said_limited (hp : p.IsPassed r.marked r.limited) :
    p.Said (Place.IsSkipped database d text) lenient r.listed.cursor.tokens
      r.skipped.body.deriveColumns.deriveOrder.toRouting := by
  let final : ParseState SelectClauses :=
    { r.skipped with body := r.skipped.body.deriveColumns.deriveOrder }
  have hend : Growth [] r.limited.body.toRouting final.body.toRouting := r.derived_growth
  have hagrees := hr.marks.agrees
    (hr.tables.growth.agrees (hr.list.passes.growth.agrees Routing.agrees_empty))
  have hlimited := hr.clauses.accounts hsorted hagrees p hp
  exact (hlimited.grow hsorted hend (by simp)).said rfl
    ((hr.cursor ▸ hp.1).trans hr.tables.suffix)

end

end Passed

include hc hkind h in
theorem tokensAccounted
    (hsorted : (TokenStream.ofText d text.toList).tokens.Pairwise (·.start < ·.start)) :
    TokensAccounted (TokenStream.ofText d text.toList).tokens (Place.IsSkipped database d text)
      lenient r.listed.cursor.tokens [(r.limited.cursor.tokens, [])]
      r.skipped.body.deriveColumns.deriveOrder.toRouting := by
  obtain ⟨marked, named, named', hr⟩ := r.exists_passed hc hkind h
  refine ⟨⟨marked ++ (named ++ named'), hr.sublist hc, hr.growth⟩, fun p hp => ?_⟩
  rcases r.isPassed_of_not_isIn hc hr.list.passes.on hr.tables.on hr.clauses.on hr.cursor hp with
    hlisted | hjoined | hlimited
  · exact hr.said_listed hc hkind hsorted hlisted
  · exact hr.said_joined hsorted hjoined
  · exact hr.said_limited hsorted hlimited

end SelectRun

end

/-! ## Statements without a select list -/

section

variable {κ : Type} {stream : List Token} {s s₁ s' : ParseState κ} {u : Unit}

/-- What is skipped is passed, being unread. -/
theorem skipUntil_passes {W : Watch κ stream} {unread : Place stream → Prop}
    {kinds : List TokenKind} (h : skipUntil kinds s = .ok u s') (hs : s.On stream)
    (hunread : ∀ p : Place stream, p.IsPassed s s' → unread p) :
    Passes (W.except unread) [] s s' := by
  have hrun : Run (Scope.all κ) stream s s' := skipUntil_moves kinds h
  obtain ⟨passed, htokens⟩ := hrun.tokens_suffix hs
  exact ⟨hrun.on hs, hrun.dialect_eq hs, ⟨passed, htokens.symm, List.nil_sublist _⟩,
    skipUntil_growth h, fun _ _ p hp => .inl (.inl (hunread p hp))⟩

theorem insert_eq_ok {s s' : ParseState InsertClauses} {u : Unit} (h : insert s = .ok u s') :
    ∃ s₁ s₂ s₃, insertedTable s = .ok () s₁ ∧ insertColumns s₁ = .ok () s₂ ∧
      insertTarget s = .ok () s₂ ∧
      (do insertValues; insertSet; duplicateKeyUpdate) s₂ = .ok () s₃ ∧
      skipRest s₃ = .ok () s' := by
  simp only [insert, bind_eq_ok, cursor_bind, ite_eq_ok, throw_eq_ok, false_and, and_false,
    exists_false, false_or] at h
  obtain ⟨_, s₁, haccept, _, s₂, hinto, _, s₃, hcolumns, hselect, _, s₄, hvalues, _, s₅, hset, _,
    s₆, hupdate, hskip⟩ := h
  refine ⟨s₂, s₃, s₆, (bind_of_eq_ok haccept).trans hinto, hcolumns, ?_,
    (bind_of_eq_ok hvalues).trans ((bind_of_eq_ok hset).trans hupdate), hskip⟩
  refine (bind_of_eq_ok haccept).trans ((bind_of_eq_ok hinto).trans
    ((bind_of_eq_ok hcolumns).trans ?_))
  rw [cursor_bind, if_neg hselect]
  rfl

theorem updateHead_eq_ok {s s' : ParseState UpdateClauses} {u : Unit}
    (h : updateHead s = .ok u s') : ∃ s₁ s₂, updateTable s = .ok () s₁ ∧
      assignments s₁ = .ok () s₂ ∧ skipUntil [Keyword.WHERE] s₂ = .ok () s' := by
  simp only [updateHead, bind_eq_ok, dialect_bind] at h
  obtain ⟨_, s₁, haccept, _, s₂, hoptions, _, s₃, htables, _, s₄, hassign, hskip⟩ := h
  refine ⟨s₃, s₄, ?_, hassign, hskip⟩
  rw [updateTable, bind_of_eq_ok haccept, dialect_bind, bind_of_eq_ok hoptions]
  exact htables

theorem deleteHead_eq_ok {s s' : ParseState DeleteClauses} {u : Unit}
    (h : deleteHead s = .ok u s') : ∃ s₁, deleteTable s = .ok () s₁ ∧
      skipUntil [Keyword.WHERE] s₁ = .ok () s' := by
  simp only [deleteHead, bind_eq_ok, dialect_bind] at h
  obtain ⟨_, s₁, haccept, _, s₂, hoptions, found, s₃, hfrom, _, s₄, htables, hskip⟩ := h
  refine ⟨s₄, ?_, hskip⟩
  rw [deleteTable, bind_of_eq_ok haccept, dialect_bind, bind_of_eq_ok hoptions,
    bind_of_eq_ok hfrom]
  exact htables

end

section

variable {database : Database} {d : Dialect} {text : String}
  {lenient : Place (TokenStream.ofText d text.toList).tokens → Prop}
  {h : Statement.Allows database d text lenient} {c : Cursor}
  (hc : Cursor.ofText database d text = .ok c)
  (hsorted : (TokenStream.ofText d text.toList).tokens.Pairwise (·.start < ·.start))

section

variable {κ : Type} [Inhabited κ] {s s₁ s₂ s' : ParseState κ} {named : List Token} {u v w : Unit}

include hc hsorted

/-- What is passed up to the last clause accounts for a statement. -/
theorem tokensAccounted_of_passes {unread : List (List Token × List Token)}
    (hpasses : Passes ((Watch.ofText κ h).except (·.IsIn unread)) named (ParseState.start c) s₁)
    (hskip : skipRest s₁ = .ok u s') (hrest : (s₁.cursor.tokens, []) ∈ unread) :
    TokensAccounted (TokenStream.ofText d text.toList).tokens (Place.IsSkipped database d text)
      lenient (TokenStream.ofText d text.toList).tokens unread s'.body.toRouting := by
  have hend := skipRest_growth hskip
  have hstream : c.tokens = (TokenStream.ofText d text.toList).tokens := (Cursor.ofText_eq_ok hc).1
  refine ⟨⟨named ++ [], ?_, hpasses.growth.trans hend⟩, fun p hp => ?_⟩
  · obtain ⟨passed, htokens, hnamed⟩ := hpasses.passed
    rw [List.append_nil, ← hstream, show c.tokens = passed ++ s₁.cursor.tokens from htokens]
    exact hnamed.trans (List.sublist_append_left ..)
  · have hpassed : p.IsPassed (ParseState.start (κ := κ) c) s₁ := by
      have hall : p.token :: p.after <:+ c.tokens := by
        rw [hstream]
        exact p.suffix
      refine (Place.isBetween_or_suffix hall hpasses.on.tokens).resolve_right fun hbehind => ?_
      exact hp ⟨_, hrest, hbehind, List.nil_suffix⟩
    have haccounted : Accounted (Watch.ofText κ h) s₁ p :=
      (hpasses.accounts hsorted Routing.agrees_empty p hpassed).imp_left (·.resolve_left hp)
    exact (haccounted.grow hsorted hend (by simp)).said rfl p.suffix

/-- Behind what is skipped before it, the `WHERE` of an update or a deletion is read, whose operands
    are admitted. -/
theorem tokensAccounted_of_where {kinds : List TokenKind}
    (hpasses : Passes (Watch.ofText κ h) named (ParseState.start c) s)
    (hskipped : skipUntil kinds s = .ok u s₁)
    (hadmits : (Watch.ofText κ h).AdmitsDue WhereDue s₁)
    (hwhere : whereClause s₁ = .ok v s₂) (hskip : skipRest s₂ = .ok w s') :
    TokensAccounted (TokenStream.ofText d text.toList).tokens (Place.IsSkipped database d text)
      lenient (TokenStream.ofText d text.toList).tokens
      [(s.cursor.tokens, s₁.cursor.tokens), (s₂.cursor.tokens, [])] s'.body.toRouting := by
  let unread := [(s.cursor.tokens, s₁.cursor.tokens), (s₂.cursor.tokens, [])]
  have hskipped : Passes ((Watch.ofText κ h).except (·.IsIn unread)) [] s s₁ :=
    skipUntil_passes hskipped hpasses.on fun p hp => ⟨_, List.mem_cons_self .., hp⟩
  have hmissed := hpasses.except.trans hskipped
  have hs := hpasses.stays (Watch.over_start h hc)
  have hs₁ : (Watch.ofText κ h).Over s₁ :=
    ⟨hskipped.on, hskipped.dialect.trans hs.dialect, hskipped.on.tokens⟩
  obtain ⟨named', hwhere⟩ :=
    (whereClause_accountsAt (Watch.ofText_ofClauses h) hadmits).passes hwhere hs₁
  exact tokensAccounted_of_passes hc hsorted (hmissed.trans hwhere.except) hskip
    (List.mem_cons_of_mem _ (List.mem_singleton_self _))

end

variable (h)

include h hc

/-! ### Their tables -/

theorem tables_passes {κ : Type} [Inhabited κ] {p : Parser κ Unit} {s : ParseState κ} {u : Unit}
    (hp : AccountsAt ((Watch.ofText κ h).skipping (TokenStream.ofText d text.toList).tokens)
      (ParseState.start c) p Anyhow)
    (hpart : tableParts database d text =
      [((TokenStream.ofText d text.toList).tokens, tokensAfter p database d text)])
    (hrun : p (ParseState.start c) = .ok u s) :
    ∃ named, Passes (Watch.ofText κ h) named (ParseState.start c) s := by
  have hs := Watch.over_start (κ := κ) h hc
  refine hp.passes_part hrun hs hs.base fun q hq hinside => ?_
  have hmem : ((TokenStream.ofText d text.toList).tokens, s.cursor.tokens) ∈
      tableParts database d text := by
    rw [hpart, tokensAfter_eq hc hrun]
    exact List.mem_singleton_self _
  exact .part (List.mem_append_right _ hmem) ⟨q.suffix, hq.2⟩ hinside

theorem insertedTable_passes {s : ParseState InsertClauses} {u : Unit}
    (hkind : c.current.kind = .keyword .INSERT)
    (htable : insertedTable (ParseState.start c) = .ok u s) :
    ∃ named, Passes (Watch.ofText InsertClauses h) named (ParseState.start c) s := by
  have hW := Watch.ofText_ofClauses (κ := InsertClauses) h
  have hinserted : Accounts ((Watch.ofText InsertClauses h).skipping
      (TokenStream.ofText d text.toList).tokens) Anywhere insertedTable Anyhow :=
    (accept_anywhere (.of_not_mem (by decide))).bind fun _ =>
      insertInto_accounts (Watch.skipping_skips _ _) (hW.skipping _)
  refine tables_passes h hc (hinserted trivial) ?_ htable
  rw [tableParts, firstKeyword?_eq hc hkind]

theorem updateTable_passes {s : ParseState UpdateClauses} {u : Unit}
    (hkind : c.current.kind = .keyword .UPDATE)
    (htable : updateTable (ParseState.start c) = .ok u s) :
    ∃ named, Passes (Watch.ofText UpdateClauses h) named (ParseState.start c) s := by
  have hW := Watch.ofText_ofClauses (κ := UpdateClauses) h
  refine tables_passes h hc ?_ (by rw [tableParts, firstKeyword?_eq hc hkind]) htable
  refine (accept_anyhow (by decide)).bind fun _ s₁ hupdate _ => .of_over fun hs => ?_
  rw [AccountsAt.dialect_bind]
  refine (skipAll_accounts (hs.dialect ▸
    arePlain_hook [] .skippedBehindUpdate List.not_mem_nil) trivial).bind fun _ s₂ hoptions _ => ?_
  refine tableReferences_accountsAt (Watch.skipping_skips _ _) (hW.skipping _) true ?_
  exact (Watch.admitsDue_ofText h fun hdue hrun =>
    .update hc hkind (.tables hupdate hoptions hdue) hrun).skipping _

theorem deleteTable_passes {s : ParseState DeleteClauses} {u : Unit}
    (hkind : c.current.kind = .keyword .DELETE)
    (htable : deleteTable (ParseState.start c) = .ok u s) :
    ∃ named, Passes (Watch.ofText DeleteClauses h) named (ParseState.start c) s := by
  have hW := Watch.ofText_ofClauses (κ := DeleteClauses) h
  refine tables_passes h hc ?_ (by rw [tableParts, firstKeyword?_eq hc hkind]) htable
  refine (accept_anyhow (by decide)).bind fun _ s₁ hdelete _ => .of_over fun hs => ?_
  rw [AccountsAt.dialect_bind]
  refine (skipAll_accounts (hs.dialect ▸
    arePlain_hook [] .skippedBehindDelete List.not_mem_nil) trivial).bind fun _ s₂ hoptions _ =>
      (skipKeyword_accounts (arePlain_keywords (by decide)) trivial).bind fun found s₃ hfrom _ => ?_
  refine tableReferences_accountsAt (Watch.skipping_skips _ _) (hW.skipping _) true ?_
  exact (Watch.admitsDue_ofText h fun hdue hrun =>
    .delete hc hkind (.tables hdelete hoptions hfrom hdue) hrun).skipping _

/-! ### Their clauses -/

/-- Behind its table and its columns an insert reads its rows. -/
theorem insertRows_passes {s s' : ParseState InsertClauses} {u v : Unit}
    (hkind : c.current.kind = .keyword .INSERT)
    (htarget : insertTarget (ParseState.start c) = .ok u s)
    (hrows : (do insertValues; insertSet; duplicateKeyUpdate) s = .ok v s')
    (hs : (Watch.ofText InsertClauses h).Over s) :
    ∃ named, Passes (Watch.ofText InsertClauses h) named s s' := by
  have hW := Watch.ofText_ofClauses (κ := InsertClauses) h
  obtain ⟨_, s₁, hvalues, hmore⟩ := bind_eq_ok.1 hrows
  obtain ⟨_, s₂, hset, hduplicate⟩ := bind_eq_ok.1 hmore
  have hrows : (do insertValues; insertSet) s = .ok () s₂ := (bind_of_eq_ok hvalues).trans hset
  obtain ⟨_, hfirst⟩ := (insertValues_accountsAt hW (Watch.admitsDue_ofText h
    fun hdue hrun => .insert hc hkind (.values htarget hdue) hrun)).passes hvalues hs
  obtain ⟨_, hsecond⟩ := (insertSet_accountsAt hW (Watch.admitsDue_ofText h
    fun hdue hrun => .insert hc hkind (.set htarget hvalues hdue) hrun)).passes hset
      (hfirst.stays hs)
  have hread := hfirst.trans hsecond
  obtain ⟨_, hthird⟩ := (duplicateKeyUpdate_accountsAt hW (Watch.admitsDue_ofText h
    fun hdue hrun => .insert hc hkind (.duplicate htarget hrows hdue) hrun)).passes hduplicate
      (hread.stays hs)
  exact ⟨_, hread.trans hthird⟩

include hsorted

theorem insert_tokensAccounted {s' : ParseState InsertClauses} {u : Unit}
    (hkind : c.current.kind = .keyword .INSERT)
    (hinsert : insert (ParseState.start c) = .ok u s') :
    TokensAccounted (TokenStream.ofText d text.toList).tokens (Place.IsSkipped database d text)
      lenient (TokenStream.ofText d text.toList).tokens (unreadParts database d text)
      s'.body.toRouting := by
  have hs := Watch.over_start (κ := InsertClauses) h hc
  obtain ⟨s₁, s₂, s₃, htable, hcolumns, htarget, hclauses, hskip⟩ := insert_eq_ok hinsert
  have hread : insertClauses (ParseState.start c) = .ok () s₃ :=
    (bind_of_eq_ok htarget).trans hclauses
  obtain ⟨_, htables⟩ := insertedTable_passes h hc hkind htable
  obtain ⟨_, hcolumns⟩ := (insertColumns_accounts trivial).passes hcolumns (htables.stays hs)
  have hpasses := htables.trans hcolumns
  obtain ⟨_, hrows⟩ := insertRows_passes h hc hkind htarget hclauses (hpasses.stays hs)
  simp only [unreadParts, firstKeyword?_eq hc hkind, tokensAfter_eq hc hread]
  exact tokensAccounted_of_passes hc hsorted (hpasses.trans hrows).except hskip
    (List.mem_singleton_self _)

theorem update_tokensAccounted {s' : ParseState UpdateClauses} {u : Unit}
    (hkind : c.current.kind = .keyword .UPDATE)
    (hupdate : update (ParseState.start c) = .ok u s') :
    TokensAccounted (TokenStream.ofText d text.toList).tokens (Place.IsSkipped database d text)
      lenient (TokenStream.ofText d text.toList).tokens (unreadParts database d text)
      s'.body.toRouting := by
  have hs := Watch.over_start (κ := UpdateClauses) h hc
  obtain ⟨s₃, s₄, hhead, hwhere, hskip⟩ := update_eq_ok hupdate
  obtain ⟨s₁, s₂, htable, hassign, hskipped⟩ := updateHead_eq_ok hhead
  -- The parts of the text are cut out by runs of their own, which are parts of this one.
  have hassigned : (do updateTable; assignments) (ParseState.start c) = .ok () s₂ :=
    (bind_of_eq_ok htable).trans hassign
  have hread : (do updateHead; whereClause) (ParseState.start c) = .ok () s₄ :=
    (bind_of_eq_ok hhead).trans hwhere
  obtain ⟨_, htables⟩ := updateTable_passes h hc hkind htable
  obtain ⟨_, hassignments⟩ := (assignments_accountsAt (Watch.ofText_ofClauses h)
    (Watch.admitsDue_ofText h fun hdue hrun =>
      .update hc hkind (.assignments htable hdue) hrun)).passes hassign (htables.stays hs)
  simp only [unreadParts, firstKeyword?_eq hc hkind, tokensAfter_eq hc hassigned,
    tokensAfter_eq hc hhead, tokensAfter_eq hc hread]
  exact tokensAccounted_of_where hc hsorted (htables.trans hassignments) hskipped
    (Watch.admitsDue_ofText h fun hdue hrun =>
      .update hc hkind (.whereClause hhead hdue) hrun) hwhere hskip

theorem delete_tokensAccounted {s' : ParseState DeleteClauses} {u : Unit}
    (hkind : c.current.kind = .keyword .DELETE)
    (hdelete : delete (ParseState.start c) = .ok u s') :
    TokensAccounted (TokenStream.ofText d text.toList).tokens (Place.IsSkipped database d text)
      lenient (TokenStream.ofText d text.toList).tokens (unreadParts database d text)
      s'.body.toRouting := by
  obtain ⟨s₂, s₃, hhead, hwhere, hskip⟩ := delete_eq_ok hdelete
  obtain ⟨s₁, htable, hskipped⟩ := deleteHead_eq_ok hhead
  have hread : (do deleteHead; whereClause) (ParseState.start c) = .ok () s₃ :=
    (bind_of_eq_ok hhead).trans hwhere
  obtain ⟨_, htables⟩ := deleteTable_passes h hc hkind htable
  simp only [unreadParts, firstKeyword?_eq hc hkind, tokensAfter_eq hc htable,
    tokensAfter_eq hc hhead, tokensAfter_eq hc hread]
  exact tokensAccounted_of_where hc hsorted htables hskipped
    (Watch.admitsDue_ofText h fun hdue hrun =>
      .delete hc hkind (.whereClause hhead hdue) hrun) hwhere hskip

end

end Grammar

/-! ## Texts -/

/-- *The tokens of a statement.* There is something to say about every token that is read of a text
    that is accepted, if a `SELECT` may be passed wherever it is not looked for. -/
theorem Statement.parse_tokensAccounted {database : Database} {d : Dialect} {text : String}
    {s : Statement} (h : Statement.parse database d text = .ok s)
    {lenient : Place (TokenStream.ofText d text.toList).tokens → Prop}
    (hallows : Statement.Allows database d text lenient) :
    TokensAccounted (TokenStream.ofText d text.toList).tokens (Place.IsSkipped database d text)
      lenient (tokensBehindSelectList database d text) (unreadParts database d text) s.routing := by
  obtain ⟨c, hc, hread⟩ := Statement.parse_eq_ok h
  obtain ⟨_, hsorted⟩ := TokenStream.ofText_sorted d text.toList
  cases hread with
  | select hkind hselect =>
    obtain ⟨r, rfl⟩ := Grammar.select_eq_ok hselect
    simp only [unreadParts, tokensBehindSelectList, firstKeyword?_eq hc hkind, r.tokensDue_eq hc,
      r.tokensSkipped_eq hc]
    exact r.tokensAccounted hc hkind hallows hsorted
  | insert hkind hinsert =>
    simp only [tokensBehindSelectList, firstKeyword?_eq hc hkind]
    exact Grammar.insert_tokensAccounted hallows hc hsorted hkind hinsert
  | update hkind hupdate =>
    simp only [tokensBehindSelectList, firstKeyword?_eq hc hkind]
    exact Grammar.update_tokensAccounted hallows hc hsorted hkind hupdate
  | delete hkind hdelete =>
    simp only [tokensBehindSelectList, firstKeyword?_eq hc hkind]
    exact Grammar.delete_tokensAccounted hallows hc hsorted hkind hdelete

end SqlRouting
