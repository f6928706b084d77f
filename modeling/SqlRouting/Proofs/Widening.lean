import SqlRouting.Proofs.Coupled.Statement
import SqlRouting.Proofs.Moves.Statement

/-!
# More keywords in a hook

Hooks act through the keywords that occur in a text, so one more keyword in a hook
(`Dialect.adding`) may change what is made of the texts with this keyword. It does not only widen
what is accepted: what used to be skipped behind a statement may now be read as a part of it, and be
refused. A statement is accepted as before, however, unless the hook has declined the keyword on the
way (`parse_adding`). Modifiers may always be added, save for the `INTO` of an insertion, since a
statement goes on without them; no other hook can be trusted to widen (`widens_iff`).
-/

namespace SqlRouting

/-! ## Dialects with more keywords -/

/-- The dialect with one more keyword in a hook. -/
def Dialect.adding (d : Dialect) (k : Keyword) : Hook → Dialect
  | .distinctSynonyms => { d with distinctSynonyms := d.distinctSynonyms ++ [k] }
  | .selectOptions => { d with selectOptions := d.selectOptions ++ [k] }
  | .joinTypes => { d with joinTypes := d.joinTypes ++ [k] }
  | .tablePartition => { d with tablePartition := d.tablePartition ++ [k] }
  | .indexHint => { d with indexHint := d.indexHint ++ [k] }
  | .selectItemAlias => { d with selectItemAlias := d.selectItemAlias ++ [k] }
  | .tableAlias => { d with tableAlias := d.tableAlias ++ [k] }
  | .comparisons => { d with comparisons := d.comparisons ++ [k] }
  | .skippedBehindGroupBy => { d with skippedBehindGroupBy := d.skippedBehindGroupBy ++ [k] }
  | .refusedBehindSelect => { d with refusedBehindSelect := d.refusedBehindSelect ++ [k] }
  | .skippedBeforeInto => { d with skippedBeforeInto := d.skippedBeforeInto ++ [k] }
  | .skippedBeforeValues => { d with skippedBeforeValues := d.skippedBeforeValues ++ [k] }
  | .valuesSynonyms => { d with valuesSynonyms := d.valuesSynonyms ++ [k] }
  | .insertSet => { d with insertSet := d.insertSet ++ [k] }
  | .duplicateKeyUpdate => { d with duplicateKeyUpdate := d.duplicateKeyUpdate ++ [k] }
  | .skippedBehindUpdate => { d with skippedBehindUpdate := d.skippedBehindUpdate ++ [k] }
  | .skippedBehindDelete => { d with skippedBehindDelete := d.skippedBehindDelete ++ [k] }

/-- The two dialects read the same tokens. -/
structure Dialect.SameTokens (d e : Dialect) : Prop where
  keywords : d.keywords = e.keywords
  hashComments : d.hashComments = e.hashComments
  backtickNames : d.backtickNames = e.backtickNames
  doubleQuotedStrings : d.doubleQuotedStrings = e.doubleQuotedStrings
  backslashEscapes : d.backslashEscapes = e.backslashEscapes
  atVariables : d.atVariables = e.atVariables

namespace Dialect

variable {d e : Dialect} {h : Hook} {k : Keyword}

theorem sameTokens_adding (d : Dialect) (k : Keyword) (h : Hook) :
    d.SameTokens (d.adding k h) := by
  cases h <;> exact ⟨rfl, rfl, rfl, rfl, rfl, rfl⟩

theorem nullDirection_adding (d : Dialect) (k : Keyword) (h : Hook) :
    (d.adding k h).nullDirection = d.nullDirection := by
  cases h <;> rfl

theorem hook_adding_self (d : Dialect) (k : Keyword) (h : Hook) :
    (d.adding k h).hook h = d.hook h ++ [k] := by
  cases h <;> rfl

theorem hook_adding_of_ne {h' : Hook} (hne : h' ≠ h) : (d.adding k h).hook h' = d.hook h' := by
  cases h <;> cases h' <;> first | rfl | exact absurd rfl hne

theorem mem_hook_adding {k' : Keyword} {h' : Hook} :
    k' ∈ (d.adding k h).hook h' ↔ k' ∈ d.hook h' ∨ h' = h ∧ k' = k := by
  by_cases heq : h' = h
  · subst heq
    simp [hook_adding_self]
  · simp [hook_adding_of_ne heq, heq]

theorem hook_subset_adding (h' : Hook) : d.hook h' ⊆ (d.adding k h).hook h' :=
  fun _ hk => mem_hook_adding.2 (.inl hk)

/-- What is refused stays the same with a keyword in a hook that allows it. -/
theorem hook_adding_subset (hallows : ¬h.Refuses) {h' : Hook} (hrefuses : h'.Refuses) :
    (d.adding k h).hook h' ⊆ d.hook h' :=
  fun _ hk => (mem_hook_adding.1 hk).resolve_right fun heq => hallows (heq.1 ▸ hrefuses)

end Dialect

theorem Lexeme.hexNumber_eq (d e : Dialect) (dict : Dictionary) (start : Nat) (cs : List Char) :
    hexNumber d dict start cs = hexNumber e dict start cs := by
  rw [hexNumber.eq_def, hexNumber.eq_def]
  split <;> rfl

theorem Lexeme.hexString_eq (d e : Dialect) (dict : Dictionary) (start : Nat) (cs : List Char) :
    hexString d dict start cs = hexString e dict start cs := by
  rw [hexString.eq_def, hexString.eq_def]
  split <;> rfl

namespace Dialect.SameTokens

variable {d e : Dialect}

theorem skip_eq (h : d.SameTokens e) (gap : Gap) (pos : Nat) (cs : List Char) :
    Gap.skip d gap pos cs = Gap.skip e gap pos cs := by
  fun_induction Gap.skip d gap pos cs <;> simp_all [Gap.skip, h.hashComments]

/-- Only the rules for quotations and variables look at the dialect. -/
theorem lexeme_eq (h : d.SameTokens e) (dict : Dictionary) (start : Nat) (c : Char)
    (cs : List Char) : Lexeme.read d dict start c cs = Lexeme.read e dict start c cs := by
  have hquotation : Lexeme.quotation d dict start (c :: cs) =
      Lexeme.quotation e dict start (c :: cs) := by
    simp only [Lexeme.quotation, Lexeme.quoted?, h.doubleQuotedStrings, h.backtickNames,
      h.backslashEscapes]
  have hvariable : Lexeme.variableName d dict start (c :: cs) =
      Lexeme.variableName e dict start (c :: cs) := by
    by_cases hc : c = '@'
    · subst hc
      simp only [Lexeme.variableName, h.atVariables]
    · simp [Lexeme.variableName, hc]
  simp only [Lexeme.read, Lexeme.rules, List.findSome?_cons, hquotation, hvariable,
    Lexeme.hexNumber_eq d e, Lexeme.hexString_eq d e]
  rfl

theorem read_eq (h : d.SameTokens e) (dict : Dictionary) (n pos : Nat) (cs : List Char) :
    TokenStream.read d dict n pos cs = TokenStream.read e dict n pos cs := by
  induction n generalizing pos cs with
  | zero => rfl
  | succ n ih => simp only [TokenStream.read, h.skip_eq, h.lexeme_eq, ih]

theorem ofText_eq (h : d.SameTokens e) (cs : List Char) :
    TokenStream.ofText d cs = TokenStream.ofText e cs := by
  rw [TokenStream.ofText, TokenStream.ofText, Dictionary.ofDialect, Dictionary.ofDialect,
    h.keywords, h.read_eq]

end Dialect.SameTokens

/-! ## Texts -/

/-- A keyword of the wider hook is one of the other, or the runs may part at it, or a statement goes
    on without it anyway. -/
theorem Hook.mem_or_of_wider {ws vs : List Keyword} {h : Hook} {k : Keyword} (hk : k ∈ vs) :
    k ∈ ws ∨ (k ∈ vs ∧ k ∉ ws ∧ ¬h.Precedes k) ∨ True ∧ h.Precedes k := by
  by_cases hleft : k ∈ ws
  · exact .inl hleft
  · by_cases hprecedes : h.Precedes k
    · exact .inr (.inr ⟨trivial, hprecedes⟩)
    · exact .inr (.inl ⟨hk, hleft, hprecedes⟩)

/-- Two runs on one text, the right one in a dialect whose hooks have more keywords. They may part
    at these keywords, unless a statement goes on without them anyway. -/
def Pairing.ofWider (d e : Dialect) (hwider : ∀ h, d.hook h ⊆ e.hook h)
    (hrefused : ∀ h, h.Refuses → e.hook h ⊆ d.hook h)
    (nulls : d.nullDirection = e.nullDirection) : Pairing where
  toFolding := .none
  names := True
  occurs _ := True
  left := d
  right := e
  parts h k := k ∈ e.hook h ∧ k ∉ d.hook h ∧ ¬h.Precedes k
  oneSided := True
  hooks _ _ h := ⟨fun hleft => hwider h hleft, Hook.mem_or_of_wider⟩
  refused h _ hh hparts := hparts.2.1 (hrefused h hh hparts.1)
  nulls

namespace Statement

/-- The tokens that the hook has declined on the parse of a text. -/
def declined (database : Database) (d : Dialect) (text : String) (h : Hook) : List Token :=
  (notes database d text).filterMap fun n => if n.hook = h then some n.token else none

theorem mem_declined {database : Database} {d : Dialect} {text : String} {h : Hook} {t : Token} :
    t ∈ declined database d text h ↔ ⟨h, t⟩ ∈ notes database d text := by
  rw [declined, List.mem_filterMap]
  constructor
  · rintro ⟨⟨h', t'⟩, hn, ht⟩
    obtain ⟨rfl, rfl⟩ : h' = h ∧ t' = t := by simpa using ht
    exact hn
  · exact fun hn => ⟨_, hn, by simp⟩

/-- With more keywords in hooks that allow them, a text is parsed as the same statement, unless one
    of them is a token that its hook has declined. -/
theorem parse_of_wider {database : Database} {d e : Dialect} {text : String} {s : Statement}
    (hwider : ∀ h, d.hook h ⊆ e.hook h) (hrefused : ∀ h, h.Refuses → e.hook h ⊆ d.hook h)
    (nulls : d.nullDirection = e.nullDirection)
    (hstream : TokenStream.ofText d text.toList = TokenStream.ofText e text.toList)
    (hdeclined : ∀ h k, k ∈ e.hook h → k ∉ d.hook h → ¬h.Precedes k →
      ∀ t ∈ declined database d text h, t.kind ≠ .keyword k)
    (hparse : parse database d text = .ok s) : parse database e text = .ok s := by
  let P := Pairing.ofWider d e hwider hrefused nulls
  have hexact : P.Exact := ⟨fun _ => rfl, trivial⟩
  have htokens : List.Forall₂ (Token.Alike P) (TokenStream.ofText d text.toList).tokens
      (TokenStream.ofText e text.toList).tokens := by
    rw [← hstream]
    exact List.forall₂_same.2 fun t _ =>
      ⟨rfl, .refl _, fun _ => rfl, rfl, fun _ _ => trivial⟩
  rcases parse_alike_or_mayPart (P := P) database (.refl text) htokens (congrArg _ hstream)
    fun _ => .inl hexact.fold with (⟨_, hn, hparts⟩ | ⟨_, _, he⟩) | halike
  · cases hparts with
    | @declined h t k hk hparts =>
      exact absurd hk (hdeclined h k hparts.1 hparts.2.1 hparts.2.2 t (mem_declined.2 hn))
  · cases hparse.symm.trans he
  · exact (halike.eq hexact).symm.trans hparse

/-- With one more keyword in a hook that allows it, a statement that was accepted is accepted as
    before, unless the hook has declined the keyword somewhere on the way. This does not matter if
    the keyword is a modifier of an update or a deletion, or one of an insertion other than
    `INTO`. -/
theorem parse_adding {database : Database} {d : Dialect} {h : Hook} {k : Keyword} {text : String}
    {s : Statement} (hallows : ¬h.Refuses)
    (hdeclined : h.Precedes k ∨ ∀ t ∈ declined database d text h, t.kind ≠ .keyword k)
    (hparse : parse database d text = .ok s) :
    parse database (d.adding k h) text = .ok s := by
  refine parse_of_wider Dialect.hook_subset_adding
    (fun h' => Dialect.hook_adding_subset hallows) (d.nullDirection_adding k h).symm
    ((d.sameTokens_adding k h).ofText_eq _) (fun h' k' hk' hnot hprecedes => ?_) hparse
  obtain ⟨rfl, rfl⟩ := (Dialect.mem_hook_adding.1 hk').resolve_left hnot
  exact hdeclined.resolve_left hprecedes

/-- A function's name as the alias of a table: the keyword, which occurs in the text as the alias of
    an item, is not declined where tables have theirs. -/
theorem parse_adding_alias : ∃ s,
    parse .mySql .standard "SELECT a LENGTH FROM t b WHERE a = 1" = .ok s ∧
    (∀ t ∈ declined .mySql .standard "SELECT a LENGTH FROM t b WHERE a = 1" .tableAlias,
      t.kind ≠ .keyword .LENGTH) ∧
    parse .mySql (Dialect.standard.adding .LENGTH .tableAlias)
      "SELECT a LENGTH FROM t b WHERE a = 1" = .ok s := by
  have hkeyword : (parse .mySql .standard "SELECT a LENGTH FROM t b WHERE a = 1").map keyword =
      .ok .SELECT := by decide +kernel
  have hdeclined : ∀ t ∈ declined .mySql .standard "SELECT a LENGTH FROM t b WHERE a = 1"
      .tableAlias, t.kind ≠ .keyword .LENGTH := by decide +kernel
  obtain ⟨s, hparse, _⟩ := exists_of_map hkeyword
  exact ⟨s, hparse, hdeclined, parse_adding (by decide) (.inr hdeclined) hparse⟩

/-- What an insertion does about a conflict is skipped behind its rows, until `ON` is taken for the
    start of `ON DUPLICATE KEY UPDATE`. -/
theorem refused_adding_on :
    .ON ∈ (Dictionary.ofDialect .standard).keywords ∧ ¬Hook.duplicateKeyUpdate.Refuses ∧
    (∃ s, parse .mySql .standard
      "INSERT INTO t (a) VALUES (1) ON CONFLICT DO NOTHING" = .ok s) ∧
    ∀ s, parse .mySql (Dialect.standard.adding .ON .duplicateKeyUpdate)
      "INSERT INTO t (a) VALUES (1) ON CONFLICT DO NOTHING" ≠ .ok s := by
  refine ⟨by decide +kernel, by decide, ?_, fun s hparse => ?_⟩
  · have hkeyword : (parse .mySql .standard
        "INSERT INTO t (a) VALUES (1) ON CONFLICT DO NOTHING").map keyword = .ok .INSERT := by
      decide +kernel
    obtain ⟨s, hparse, _⟩ := exists_of_map hkeyword
    exact ⟨s, hparse⟩
  · have hnone : (parse .mySql (Dialect.standard.adding .ON .duplicateKeyUpdate)
        "INSERT INTO t (a) VALUES (1) ON CONFLICT DO NOTHING").toOption.isSome = false := by
      decide +kernel
    rw [hparse] at hnone
    cases hnone

end Statement

/-! ## Hooks that only widen -/

namespace Hook

open Statement (parse)

/-- In every dialect one more of its keywords in the hook leaves all statements accepted. -/
def Widens (h : Hook) : Prop :=
  ∀ (database : Database) (d : Dialect), ∀ k ∈ (Dictionary.ofDialect d).keywords,
    ∀ text s, parse database d text = .ok s → ∃ s', parse database (d.adding k h) text = .ok s'

/-- A keyword, and a text with it that is accepted as long as the hook does not have it: what is
    behind the keyword is skipped, but cannot be read. -/
def trap? : Hook → Option (Keyword × String)
  | distinctSynonyms | refusedBehindSelect | skippedBehindUpdate | skippedBehindDelete => none
  | selectOptions => some (.SET, "SELECT SET")
  | joinTypes => some (.SET, "SELECT * FROM t SET")
  | tablePartition | indexHint => some (.SET, "SELECT * FROM t SET (")
  | selectItemAlias => some (.SET, "SELECT a SET ,")
  | tableAlias => some (.SET, "SELECT * FROM t SET ,")
  | comparisons => some (.SET, "SELECT * FROM t WHERE a SET (")
  | skippedBehindGroupBy => some (.SET, "SELECT * FROM t GROUP BY a SET UNION")
  | skippedBeforeInto => some (.INTO, "INSERT INTO t")
  | skippedBeforeValues => some (.SET, "INSERT INTO t SET (")
  | valuesSynonyms | insertSet | duplicateKeyUpdate => some (.SET, "INSERT INTO t SET")

theorem trap?_refused : ∀ h : Hook, ∀ t ∈ h.trap?,
    t.1 ∈ (Dictionary.ofDialect .standard).keywords ∧
    (parse .mySql .standard t.2).toOption.isSome = true ∧
    (parse .mySql (Dialect.standard.adding t.1 h) t.2).toOption.isSome = false := by
  decide +kernel

theorem precedes_of_trap?_eq_none {h : Hook} (hallows : ¬h.Refuses) (htrap : h.trap? = none)
    (k : Keyword) : h.Precedes k := by
  cases h
  case skippedBehindUpdate | skippedBehindDelete => trivial
  case distinctSynonyms => exact absurd (.inl rfl) hallows
  case refusedBehindSelect => exact absurd (.inr rfl) hallows
  all_goals cases htrap

/-- Of the hooks that allow their keywords only those of modifiers behind `UPDATE` and `DELETE` do
    nothing but widen what is accepted. -/
theorem widens_iff {h : Hook} (hallows : ¬h.Refuses) : h.Widens ↔ ∀ k, h.Precedes k := by
  constructor
  · intro hwidens
    cases htrap : h.trap? with
    | none => exact precedes_of_trap?_eq_none hallows htrap
    | some t =>
      obtain ⟨hk, haccepted, hrefused⟩ := trap?_refused h t htrap
      cases hparse : parse .mySql .standard t.2 with
      | error e =>
        rw [hparse] at haccepted
        cases haccepted
      | ok s =>
        obtain ⟨s', hparse'⟩ := hwidens .mySql .standard t.1 hk t.2 s hparse
        rw [hparse'] at hrefused
        cases hrefused
  · intro hprecedes database d k _ text s hparse
    refine ⟨s, Statement.parse_of_wider Dialect.hook_subset_adding
      (fun h' => Dialect.hook_adding_subset hallows) (d.nullDirection_adding k h).symm
      ((d.sameTokens_adding k h).ofText_eq _) (fun h' k' hk' hnot hnone => ?_) hparse⟩
    obtain ⟨rfl, rfl⟩ := (Dialect.mem_hook_adding.1 hk').resolve_left hnot
    exact absurd (hprecedes k') hnone

end Hook

end SqlRouting
