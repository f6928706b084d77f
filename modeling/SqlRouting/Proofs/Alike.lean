import Mathlib.Data.List.Forall2
import SqlRouting.Parser
import SqlRouting.Text.Unquoted

/-!
# Runs that are alike

What a parse depends on becomes apparent from two runs side by side. A *pairing* says how the two
may differ: in their dialects, where on the keywords that occur the hooks agree or the runs may
part, and in their texts, as long as they agree after every character has been folded in the same
way. Everything that is read and recorded on the way has its own relation `Alike`, which says what
the difference of texts amounts to there: the names of tables and all that is counted or located
stay the same, while pieces of the text agree only after folding.
-/

namespace SqlRouting

/-- The places in the grammar where dialects differ. -/
inductive Hook where
  | distinctSynonyms
  | selectOptions
  | joinTypes
  | tablePartition
  | indexHint
  | selectItemAlias
  | tableAlias
  | comparisons
  | skippedBehindGroupBy
  | refusedBehindSelect
  | skippedBeforeInto
  | skippedBeforeValues
  | valuesSynonyms
  | insertSet
  | duplicateKeyUpdate
  | skippedBehindUpdate
  | skippedBehindDelete
  deriving DecidableEq, Repr

namespace Hook

/-- All hooks, in the order in which a dialect lists them. -/
def all : List Hook :=
  [distinctSynonyms, selectOptions, joinTypes, tablePartition, indexHint, selectItemAlias,
    tableAlias, comparisons, skippedBehindGroupBy, refusedBehindSelect, skippedBeforeInto,
    skippedBeforeValues, valuesSynonyms, insertSet, duplicateKeyUpdate, skippedBehindUpdate,
    skippedBehindDelete]

theorem mem_all (h : Hook) : h ∈ all := by
  cases h <;> decide

instance {p : Hook → Prop} [DecidablePred p] : Decidable (∀ h, p h) :=
  decidable_of_iff (∀ h ∈ all, p h) ⟨fun hp h => hp h (mem_all h), fun hp h _ => hp h⟩

/-- The keywords of the hook are refused where it is asked; those of the others are allowed. -/
def Refuses (h : Hook) : Prop :=
  h = .distinctSynonyms ∨ h = .refusedBehindSelect

instance : DecidablePred Refuses :=
  fun h => inferInstanceAs (Decidable (h = .distinctSynonyms ∨ h = .refusedBehindSelect))

/-- Where the hook is asked, a statement goes on without the keyword in any case: modifiers come
    before the name of a table, from which at most a `FROM` parts them, or before `INTO`. -/
def Precedes : Hook → Keyword → Prop
  | .skippedBehindUpdate, _ | .skippedBehindDelete, _ => True
  | .skippedBeforeInto, k => k ≠ .INTO
  | _, _ => False

end Hook

/-- The keywords that a dialect allows or refuses at a hook. -/
def Dialect.hook (d : Dialect) : Hook → List Keyword
  | .distinctSynonyms => d.distinctSynonyms
  | .selectOptions => d.selectOptions
  | .joinTypes => d.joinTypes
  | .tablePartition => d.tablePartition
  | .indexHint => d.indexHint
  | .selectItemAlias => d.selectItemAlias
  | .tableAlias => d.tableAlias
  | .comparisons => d.comparisons
  | .skippedBehindGroupBy => d.skippedBehindGroupBy
  | .refusedBehindSelect => d.refusedBehindSelect
  | .skippedBeforeInto => d.skippedBeforeInto
  | .skippedBeforeValues => d.skippedBeforeValues
  | .valuesSynonyms => d.valuesSynonyms
  | .insertSet => d.insertSet
  | .duplicateKeyUpdate => d.duplicateKeyUpdate
  | .skippedBehindUpdate => d.skippedBehindUpdate
  | .skippedBehindDelete => d.skippedBehindDelete

/-- Texts are compared after every character has been folded. Folding may change the case of
    letters, and nothing else that matters. -/
structure Folding where
  fold : Char → Char
  toLower_fold : ∀ c, (fold c).toLower = c.toLower
  utf8Size_fold : ∀ c, (fold c).utf8Size = c.utf8Size
  isNameQuote_fold : ∀ c, Text.isNameQuote (fold c) = Text.isNameQuote c
  isBlank_fold : ∀ c, Text.isBlank (fold c) = Text.isBlank c

/-- Texts are compared as they are. -/
def Folding.none : Folding where
  fold := id
  toLower_fold _ := rfl
  utf8Size_fold _ := rfl
  isNameQuote_fold _ := rfl
  isBlank_fold _ := rfl

/-- How two runs may differ. -/
structure Pairing extends Folding where
  /-- The names behind dots are the same, and so are the conditions. -/
  names : Prop
  /-- The keywords that occur in the texts. -/
  occurs : Keyword → Prop
  left : Dialect
  right : Dialect
  /-- The keywords at which the runs may part, since a hook has them only on the right. -/
  parts : Hook → Keyword → Prop
  /-- Nothing is said about the right run if the left one fails. -/
  oneSided : Prop
  hooks : ∀ k, occurs k → ∀ h, (k ∈ left.hook h → k ∈ right.hook h) ∧
    (k ∈ right.hook h → k ∈ left.hook h ∨ parts h k ∨ oneSided ∧ h.Precedes k)
  refused : ∀ h k, h.Refuses → ¬parts h k
  nulls : left.nullDirection = right.nullDirection

namespace Pairing

variable (P : Pairing)

/-- The two runs differ in their dialects alone. -/
structure Exact : Prop where
  fold : ∀ c, P.fold c = c
  names : P.names

/-- The runs never part, whether they fail or not. -/
structure Strict : Prop where
  parts : ∀ h k, ¬P.parts h k
  twoSided : ¬P.oneSided

/-- The two lists have the same of the keywords that occur. -/
def SameWords (ws vs : List Keyword) : Prop :=
  ∀ k, P.occurs k → (k ∈ ws ↔ k ∈ vs)

/-- Of the keywords that occur, the second list has those of the first, and besides only such at
    which the runs may part. -/
def Wider (h : Hook) (ws vs : List Keyword) : Prop :=
  ∀ k, P.occurs k → (k ∈ ws → k ∈ vs) ∧ (k ∈ vs → k ∈ ws ∨ P.parts h k)

variable {P}

theorem SameWords.refl (ws : List Keyword) : P.SameWords ws ws :=
  fun _ _ => Iff.rfl

/-- The keywords of a hook that refuses them are the same in the two dialects. -/
theorem SameWords.hook (P : Pairing) (h : Hook) (hh : h.Refuses) :
    P.SameWords (P.left.hook h) (P.right.hook h) := by
  intro k hk
  refine ⟨(P.hooks k hk h).1, fun hright => ?_⟩
  rcases (P.hooks k hk h).2 hright with hleft | hparts | ⟨_, hprecedes⟩
  · exact hleft
  · exact absurd hparts (P.refused h k hh)
  · rcases hh with rfl | rfl <;> exact hprecedes.elim

theorem Wider.append (us : List Keyword) {h : Hook} {ws vs : List Keyword} (hw : P.Wider h ws vs) :
    P.Wider h (us ++ ws) (us ++ vs) := by
  intro k hk
  rw [List.mem_append, List.mem_append]
  exact ⟨Or.imp_right (hw k hk).1, fun hright => hright.elim (fun hus => .inl (.inl hus))
    fun hvs => ((hw k hk).2 hvs).imp_left .inr⟩

theorem Wider.cons (w : Keyword) {h : Hook} {ws vs : List Keyword} (hw : P.Wider h ws vs) :
    P.Wider h (w :: ws) (w :: vs) :=
  hw.append [w]

/-- The keywords of a hook in the two dialects, unless they are modifiers. -/
theorem Wider.hook (P : Pairing) (h : Hook) (hh : ∀ k, ¬h.Precedes k) :
    P.Wider h (P.left.hook h) (P.right.hook h) :=
  fun k hk => ⟨(P.hooks k hk h).1, fun hright =>
    ((P.hooks k hk h).2 hright).imp_right (Or.resolve_right · fun hp => hh k hp.2)⟩

end Pairing

variable {P : Pairing}

/-! ## Texts -/

namespace Text

theorem byteLength_map_fold (cs : List Char) : byteLength (cs.map P.fold) = byteLength cs := by
  induction cs with
  | nil => rfl
  | cons c cs ih => simp [P.utf8Size_fold, ih]

theorem splitBytes?_map_fold (n : Nat) (cs : List Char) :
    splitBytes? n (cs.map P.fold) =
      (splitBytes? n cs).map fun (before, after) => (before.map P.fold, after.map P.fold) := by
  fun_induction splitBytes? n cs with
  | case1 cs => simp [splitBytes?]
  | case2 n => simp [splitBytes?]
  | case3 n c cs hle ih =>
    rw [List.map_cons, splitBytes?, P.utf8Size_fold, if_pos hle, ih, Option.map_map, Option.map_map]
    rfl
  | case4 n c cs hle =>
    rw [List.map_cons, splitBytes?, P.utf8Size_fold, if_neg hle, Option.map_none]

theorem slice?_map_fold (cs : List Char) (start stop : Nat) :
    slice? (cs.map P.fold) start stop = (slice? cs start stop).map (·.map P.fold) := by
  unfold slice?
  split
  case isFalse => rfl
  case isTrue =>
    rw [splitBytes?_map_fold]
    cases splitBytes? start cs with
    | none => rfl
    | some before =>
      simp only [Option.map_some, Option.bind_eq_bind, Option.bind_some, splitBytes?_map_fold]
      cases splitBytes? (stop - start) before.2 <;> rfl

theorem trimEnd_map_fold (cs : List Char) : trimEnd (cs.map P.fold) = (trimEnd cs).map P.fold := by
  have hblank : isBlank ∘ P.fold = isBlank := funext P.isBlank_fold
  rw [trimEnd, trimEnd, ← List.map_reverse, List.dropWhile_map, hblank, List.map_reverse]

/-- The two texts are the same after folding. -/
def Alike (P : Pairing) (s t : String) : Prop :=
  s.toList.map P.fold = t.toList.map P.fold

namespace Alike

variable {s t s' t' : String}

theorem refl (s : String) : Alike P s s :=
  rfl

theorem of_eq (h : s = t) : Alike P s t :=
  h ▸ refl s

theorem ofList {cs ds : List Char} (h : cs.map P.fold = ds.map P.fold) :
    Alike P (String.ofList cs) (String.ofList ds) := by
  simpa [Alike] using h

theorem byteLength_eq (h : Alike P s t) : byteLength s.toList = byteLength t.toList := by
  rw [← byteLength_map_fold (P := P) s.toList, h, byteLength_map_fold]

theorem append (h : Alike P s t) (h' : Alike P s' t') : Alike P (s ++ s') (t ++ t') := by
  unfold Alike at h h' ⊢
  rw [String.toList_append, String.toList_append, List.map_append, List.map_append, h, h']

theorem unquoted (h : Alike P s t) : Alike P (unquoted s) (unquoted t) := by
  have hquote : (fun c => !isNameQuote c) ∘ P.fold = fun c => !isNameQuote c :=
    funext fun c => congrArg _ (P.isNameQuote_fold c)
  refine ofList ?_
  have hfiltered := congrArg (List.filter fun c => !isNameQuote c) h
  rwa [List.filter_map, List.filter_map, hquote] at hfiltered

theorem lower_eq (h : Alike P s t) : lower s = lower t := by
  have hlower : Char.toLower ∘ P.fold = Char.toLower := funext P.toLower_fold
  have hmap := congrArg (List.map Char.toLower) h
  rw [List.map_map, List.map_map, hlower] at hmap
  rw [lower, lower, hmap]

/-- Comparisons without regard to case do not tell the texts apart. -/
theorem sameLetters_eq (h : Alike P s t) (h' : Alike P s' t') :
    sameLetters s s' = sameLetters t t' := by
  rw [sameLetters, sameLetters, h.lower_eq, h'.lower_eq]

theorem eq (h : Alike P s t) (hfold : ∀ c, P.fold c = c) : s = t := by
  have hfold : P.fold = id := funext hfold
  exact String.toList_injective (by simpa [Alike, hfold] using h)

end Alike

end Text

/-! ## Tokens and cursors -/

/-- The keyword that tokens of the kind are. -/
def TokenKind.keyword? : TokenKind → Option Keyword
  | keyword k => some k
  | literal _ | symbol _ | endOfText => none

/-- The two tokens are of the same kind and at the same place, and only the letters of a keyword may
    differ. -/
structure Token.Alike (P : Pairing) (t u : Token) : Prop where
  kind : t.kind = u.kind
  literal : Text.Alike P t.literal u.literal
  exact : t.kind.keyword? = none → t.literal = u.literal
  stop : t.stop = u.stop
  occurs : ∀ k, t.kind = .keyword k → P.occurs k

theorem Token.Alike.start_eq {t u : Token} (h : t.Alike P u) : t.start = u.start := by
  rw [Token.start, Token.start, h.stop, h.kind, h.literal.byteLength_eq]

/-- Behind a dot there is no keyword. -/
def Token.AdmitsBehind (t u : Token) : Prop :=
  t.kind = .symbol .dot → u.kind.keyword? = none

instance : DecidableRel Token.AdmitsBehind :=
  fun t u => inferInstanceAs (Decidable (t.kind = .symbol .dot → u.kind.keyword? = none))

/-- The two cursors stand on alike tokens in alike texts. If names behind dots are the same then for
    one of two reasons: all tokens are, or only keywords are not and none of them is behind a
    dot. -/
structure Cursor.Alike (P : Pairing) (c c' : Cursor) : Prop where
  text : c.text.map P.fold = c'.text.map P.fold
  tokens : List.Forall₂ (Token.Alike P) c.tokens c'.tokens
  failure : c.failure = c'.failure
  database : c.database = c'.database
  left : c.dialect = P.left
  right : c'.dialect = P.right
  behindDots : P.names → (∀ x, P.fold x = x) ∨ c.tokens.IsChain Token.AdmitsBehind

namespace Cursor.Alike

variable {c c' : Cursor}

theorem current (h : c.Alike P c') : c.current.Alike P c'.current :=
  (List.forall₂_cons.1 h.tokens).1

theorem kind_eq (h : c.Alike P c') : c.current.kind = c'.current.kind :=
  h.current.kind

theorem ahead (h : c.Alike P c') : List.Forall₂ (Token.Alike P) c.ahead c'.ahead :=
  (List.forall₂_cons.1 h.tokens).2

theorem movesLeft_eq (h : c.Alike P c') : c.movesLeft = c'.movesLeft :=
  congrArg (· + 1) h.ahead.length_eq

theorem byteLength_eq (h : c.Alike P c') : Text.byteLength c.text = Text.byteLength c'.text := by
  rw [← Text.byteLength_map_fold (P := P) c.text, h.text, Text.byteLength_map_fold]

theorem isSymbol_eq (h : c.Alike P c') (x : Symbol) : c.isSymbol x = c'.isSymbol x := by
  rw [isSymbol, isSymbol, h.kind_eq]

theorem isOperator_eq (h : c.Alike P c') : c.isOperator = c'.isOperator :=
  List.any_congr rfl h.isSymbol_eq

theorem isName_eq (h : c.Alike P c') : c.isName = c'.isName := by
  rw [isName, isName, h.kind_eq]

theorem isEnd_eq (h : c.Alike P c') : c.isEnd = c'.isEnd := by
  rw [isEnd, isEnd, h.kind_eq]

theorem isAny_eq (h : c.Alike P c') (kinds : List TokenKind) :
    c.isAny kinds = c'.isAny kinds := by
  rw [isAny, isAny, h.kind_eq]

theorem isKeyword_eq (h : c.Alike P c') {ws vs : List Keyword} (hsame : P.SameWords ws vs) :
    c.isKeyword ws = c'.isKeyword vs := by
  rw [isKeyword, isKeyword, ← h.kind_eq]
  split
  case h_1 k hk => exact decide_eq_decide.2 (hsame k (h.current.occurs k hk))
  case h_2 => rfl

/-- Two moves of the cursor, or failures of the same cause. -/
inductive Move (P : Pairing) : Except LexicalError Cursor → Except LexicalError Cursor → Prop where
  | ok {c c' : Cursor} : c.Alike P c' → Move P (.ok c) (.ok c')
  | error (e : LexicalError) : Move P (.error e) (.error e)

theorem next (h : c.Alike P c') : Move P c.next c'.next := by
  have hahead := h.ahead
  have hfailure := h.failure
  rw [Cursor.next, Cursor.next]
  generalize hts : c.ahead = ts at hahead ⊢
  generalize hus : c'.ahead = us at hahead ⊢
  cases hahead with
  | cons ht hmore =>
    refine .ok ⟨h.text, .cons ht hmore, hfailure, h.database, h.left, h.right, fun hnames => ?_⟩
    refine (h.behindDots hnames).imp_right fun hchain => ?_
    rw [Cursor.tokens, hts, List.isChain_cons_cons] at hchain
    exact hchain.2
  | nil =>
    rw [← hfailure]
    cases c.failure with
    | some e => exact .error e
    | none => exact .ok h

/-- What stands behind a dot is written the same if names are. -/
theorem literal_eq_behind_dot (h : c.Alike P c') (hnames : P.names)
    (hdot : c.isSymbol .dot = true) {d d' : Cursor} (hd : c.next = .ok d) (hd' : c'.next = .ok d') :
    d.current.literal = d'.current.literal := by
  have hkind : c.current.kind = .symbol .dot := by simpa [isSymbol] using hdot
  have hahead := h.ahead
  have hfailure := h.failure
  rw [Cursor.next] at hd hd'
  generalize hts : c.ahead = ts at hahead hd
  generalize hus : c'.ahead = us at hahead hd'
  cases hahead with
  | cons ht hmore =>
    cases hd
    cases hd'
    rcases h.behindDots hnames with hfold | hchain
    · exact ht.literal.eq hfold
    · rw [Cursor.tokens, hts, List.isChain_cons_cons] at hchain
      exact ht.exact (hchain.1 hkind)
  | nil =>
    rw [← hfailure] at hd'
    cases hc : c.failure with
    | some e =>
      rw [hc] at hd
      cases hd
    | none =>
      rw [hc] at hd hd'
      cases hd
      cases hd'
      exact h.current.exact (by rw [hkind]; rfl)

end Cursor.Alike

/-! ## Tables, expressions and conditions -/

/-- The two tables have the same name and alike aliases. -/
structure Table.Alike (P : Pairing) (t u : Table) : Prop where
  name : t.name = u.name
  asName : Option.Rel (Text.Alike P) t.asName u.asName

theorem Table.Alike.isNamed_eq {t u : Table} (h : t.Alike P u) {name name' : String}
    (hname : Text.Alike P name name') : t.isNamed name = u.isNamed name' :=
  (Text.Alike.of_eq h.name).sameLetters_eq hname

/-- A name is equally one of two alike names that may be missing. -/
theorem Text.Alike.any_sameLetters_eq {a a' : Option String} (h : Option.Rel (Text.Alike P) a a')
    {name name' : String} (hname : Text.Alike P name name') :
    a.any (Text.sameLetters · name) = a'.any (Text.sameLetters · name') := by
  cases h with
  | none => rfl
  | some h => exact h.sameLetters_eq hname

theorem Table.Alike.isAliased_eq {t u : Table} (h : t.Alike P u) {name name' : String}
    (hname : Text.Alike P name name') : t.isAliased name = u.isAliased name' :=
  Text.Alike.any_sameLetters_eq h.asName hname

theorem Table.Alike.eq {t u : Table} (h : t.Alike P u) (hP : P.Exact) : t = u := by
  obtain ⟨name, asName⟩ := t
  obtain ⟨name', asName'⟩ := u
  obtain rfl : name = name' := h.name
  cases h.asName with
  | none => rfl
  | some halias => rw [Text.Alike.eq halias hP.fold]

/-- The search through two lists that are alike item by item finds alike items. -/
theorem forall₂_find? {α : Type} {R : α → α → Prop} {p q : α → Bool} {as bs : List α}
    (h : List.Forall₂ R as bs) (hpq : ∀ a b, R a b → p a = q b) :
    Option.Rel R (as.find? p) (bs.find? q) := by
  induction h with
  | nil => exact .none
  | cons hab _ ih =>
    rw [List.find?_cons, List.find?_cons, hpq _ _ hab]
    split
    · exact .some hab
    · exact ih

/-- Two lists that are alike item by item equally have an item that is looked for. -/
theorem forall₂_any_eq {α : Type} {R : α → α → Prop} {p q : α → Bool} {as bs : List α}
    (h : List.Forall₂ R as bs) (hpq : ∀ a b, R a b → p a = q b) : as.any p = bs.any q := by
  induction h with
  | nil => rfl
  | cons hab _ ih => rw [List.any_cons, List.any_cons, hpq _ _ hab, ih]

theorem map_eq_of_forall₂ {α β : Type} {R : α → α → Prop} {f : α → β} {as bs : List α}
    (h : List.Forall₂ R as bs) (hf : ∀ a b, R a b → f a = f b) : as.map f = bs.map f := by
  induction h with
  | nil => rfl
  | cons hab _ ih => rw [List.map_cons, List.map_cons, hf _ _ hab, ih]

theorem forall₂_isEmpty_eq {α : Type} {R : α → α → Prop} {as bs : List α}
    (h : List.Forall₂ R as bs) : as.isEmpty = bs.isEmpty := by
  cases h <;> rfl

theorem rel_cases {α : Type} {R : α → α → Prop} {a b : Option α} (h : Option.Rel R a b) :
    (a = none ∧ b = none) ∨ ∃ x y, a = some x ∧ b = some y ∧ R x y := by
  cases h with
  | none => exact .inl ⟨rfl, rfl⟩
  | some hxy => exact .inr ⟨_, _, rfl, rfl, hxy⟩

theorem rel_orElse {α : Type} {R : α → α → Prop} {a b a' b' : Option α} (h : Option.Rel R a b)
    (h' : Option.Rel R a' b') : Option.Rel R (a <|> a') (b <|> b') := by
  cases h with
  | some hab => exact .some hab
  | none => exact h'

theorem rel_map {α β : Type} {R : α → α → Prop} {S : β → β → Prop} {f g : α → β} {a b : Option α}
    (h : Option.Rel R a b) (hfg : ∀ a b, R a b → S (f a) (g b)) :
    Option.Rel S (a.map f) (b.map g) := by
  cases h with
  | some hab => exact .some (hfg _ _ hab)
  | none => exact .none

/-- The two lists of tables agree table by table. -/
def Tables.Alike (P : Pairing) (ts us : Tables) : Prop :=
  List.Forall₂ (Table.Alike P) ts.toList us.toList

namespace Tables.Alike

variable {ts us : Tables}

theorem size_eq (h : ts.Alike P us) : ts.size = us.size :=
  h.length_eq

theorem contains_eq (h : ts.Alike P us) {name name' : String} (hname : Text.Alike P name name') :
    ts.contains name = us.contains name' :=
  forall₂_any_eq h fun _ _ ht => ht.isNamed_eq hname

theorem names_eq (h : ts.Alike P us) : ts.names = us.names :=
  map_eq_of_forall₂ h fun _ _ ht => ht.name

theorem firstName?_eq (h : ts.Alike P us) : ts.firstName? = us.firstName? :=
  congrArg List.head? h.names_eq

theorem add (h : ts.Alike P us) {t u : Table} (ht : t.Alike P u) :
    (ts.add t).Alike P (us.add u) := by
  rw [Tables.add, Tables.add, h.contains_eq (.of_eq ht.name)]
  split
  · exact h
  · exact List.rel_append h (.cons ht .nil)

theorem find? (h : ts.Alike P us) {name name' : String} (hname : Text.Alike P name name') :
    Option.Rel (Table.Alike P) (ts.find? name) (us.find? name') :=
  rel_orElse (forall₂_find? h fun _ _ ht => ht.isNamed_eq hname)
    (forall₂_find? h fun _ _ ht => ht.isAliased_eq hname)

theorem eq (h : ts.Alike P us) (hP : P.Exact) : ts = us := by
  have heq : ts.toList = us.toList := by
    simpa using List.Forall₂.imp (fun _ _ ht => ht.eq hP) h
  cases ts
  cases us
  exact congrArg _ heq

end Tables.Alike

/-- The two expressions are of the same shape; what is neither a value nor a lone name is alike as a
    text. -/
inductive Expression.Alike (P : Pairing) : Expression → Expression → Prop where
  | placeholder (i : Nat) : Alike P (.placeholder i) (.placeholder i)
  | text (s : String) : Alike P (.text s) (.text s)
  | number (n : Number) : Alike P (.number n) (.number n)
  | identifier (s : String) : Alike P (.identifier s) (.identifier s)
  | property {owner owner' name name' : String} :
    Text.Alike P owner owner' → Text.Alike P name name' → (P.names → name = name') →
      Alike P (.property owner name) (.property owner' name')
  | other {s s' : String} : Text.Alike P s s' → Alike P (.other s) (.other s')

namespace Expression.Alike

variable {e e' : Expression}

theorem refl (e : Expression) : e.Alike P e := by
  cases e with
  | placeholder i => exact .placeholder i
  | text s => exact .text s
  | number n => exact .number n
  | identifier s => exact .identifier s
  | property => exact .property (.refl _) (.refl _) fun _ => rfl
  | other => exact .other (.refl _)

theorem isValue_eq (h : e.Alike P e') : e.isValue = e'.isValue := by
  cases h <;> rfl

theorem eq_of_isValue (h : e.Alike P e') (hvalue : e.isValue = true) : e = e' := by
  cases h with
  | placeholder | text | number => rfl
  | identifier | property | other => cases hvalue

theorem eq (h : e.Alike P e') (hP : P.Exact) : e = e' := by
  cases h with
  | placeholder | text | number | identifier => rfl
  | property howner hname => rw [howner.eq hP.fold, hname.eq hP.fold]
  | other h => rw [h.eq hP.fold]

end Expression.Alike

/-- The two columns belong to the same table, and their names are the same if names are. -/
structure Column.Alike (P : Pairing) (c c' : Column) : Prop where
  name : P.names → c.name = c'.name
  table : c.table = c'.table

theorem Column.Alike.eq {c c' : Column} (h : c.Alike P c') (hnames : P.names) : c = c' := by
  obtain ⟨name, table⟩ := c
  obtain ⟨name', table'⟩ := c'
  obtain rfl : name = name' := h.name hnames
  obtain rfl : table = table' := h.table
  rfl

theorem Expression.Alike.columnName? {e e' : Expression} (h : e.Alike P e') :
    Option.Rel (fun name name' => P.names → name = name') e.columnName? e'.columnName? := by
  cases h with
  | placeholder | text | number | other => exact .none
  | identifier s => exact .some fun _ => rfl
  | property _ _ hname => exact .some hname

theorem Tables.Alike.column? {ts us : Tables} (h : ts.Alike P us) {e e' : Expression}
    (he : e.Alike P e') : Option.Rel (Column.Alike P) (ts.column? e) (us.column? e') := by
  cases he with
  | placeholder | text | number | other => exact .none
  | identifier s =>
    rw [Tables.column?, Tables.column?, h.size_eq, h.firstName?_eq]
    split
    · exact .some ⟨fun _ => rfl, rfl⟩
    · exact .none
  | property howner _ hname =>
    exact rel_map (h.find? howner) fun _ _ ht => ⟨hname, congrArg some ht.name⟩

/-! ## Marks -/

/-- The two marks are the same, or they stand at the same place and their texts are alike. -/
inductive Mark.Alike (P : Pairing) : Mark → Mark → Prop where
  | refl (m : Mark) : Alike P m m
  | items (start : Nat) {texts texts' : List String} :
    List.Forall₂ (Text.Alike P) texts texts' → Alike P (.items start texts) (.items start texts')

namespace Mark.Alike

variable {m m' : Mark} {ms ms' : List Mark}

theorem start_eq (h : m.Alike P m') : m.start = m'.start := by
  cases h <;> rfl

theorem eq (h : m.Alike P m') (hP : P.Exact) : m = m' := by
  cases h with
  | refl => rfl
  | items start htexts =>
    have heq := List.Forall₂.imp (fun _ _ ht => Text.Alike.eq ht hP.fold) htexts
    rw [List.forall₂_eq_eq_eq] at heq
    rw [heq]

theorem prefixLength_eq (hms : List.Forall₂ (Mark.Alike P) ms ms') (start : Nat) :
    prefixLength (·.start ≤ start) ms = prefixLength (·.start ≤ start) ms' := by
  have hany (i : Nat) : ms[i]?.any (fun m => m.start ≤ start) =
      ms'[i]?.any fun m => m.start ≤ start := by
    induction hms generalizing i with
    | nil => rfl
    | cons hm _ ih =>
      cases i with
      | zero => simp [hm.start_eq]
      | succ i => simpa using ih i
  simp only [prefixLength, hany, hms.length_eq]

theorem forall₂_insertIdx (hms : List.Forall₂ (Mark.Alike P) ms ms') (hm : m.Alike P m') (i : Nat) :
    List.Forall₂ (Mark.Alike P) (ms.insertIdx i m) (ms'.insertIdx i m') := by
  induction hms generalizing i with
  | nil =>
    cases i with
    | zero => exact .cons hm .nil
    | succ i => exact .nil
  | cons hn hns ih =>
    cases i with
    | zero => exact .cons hm (.cons hn hns)
    | succ i => exact .cons hn (ih i)

/-- A mark is inserted at the same place. -/
theorem insert (hm : m.Alike P m') (hms : List.Forall₂ (Mark.Alike P) ms ms') :
    List.Forall₂ (Mark.Alike P) (Mark.insert m ms) (Mark.insert m' ms') := by
  rw [Mark.insert, Mark.insert, prefixLength_eq hms, hm.start_eq]
  exact forall₂_insertIdx hms hm _

end Mark.Alike

/-! ## Routing and errors -/

/-- The two statements, as far as routing is concerned, are alike. The conditions are the same only
    if the names behind dots are. -/
structure Routing.Alike (P : Pairing) (r r' : Routing) : Prop where
  tables : r.tables.Alike P r'.tables
  conditions : P.names → r.conditions = r'.conditions
  marks : List.Forall₂ (Mark.Alike P) r.marks r'.marks
  parameters : r.parameters = r'.parameters

theorem Routing.Alike.empty : Routing.Alike P {} {} :=
  ⟨.nil, fun _ => rfl, .nil, rfl⟩

theorem Routing.Alike.eq {r r' : Routing} (h : r.Alike P r') (hP : P.Exact) : r = r' := by
  have hmarks := List.Forall₂.imp (fun _ _ hm => Mark.Alike.eq hm hP) h.marks
  rw [List.forall₂_eq_eq_eq] at hmarks
  obtain ⟨tables, conditions, marks, parameters⟩ := r
  obtain ⟨tables', conditions', marks', parameters'⟩ := r'
  obtain rfl : tables = tables' := h.tables.eq hP
  obtain rfl : conditions = conditions' := h.conditions hP.names
  obtain rfl : marks = marks' := hmarks
  obtain rfl : parameters = parameters' := h.parameters
  rfl

/-- The two errors have the same cause, with alike literals of the tokens in question. -/
inductive ParseError.Alike (P : Pairing) : ParseError → ParseError → Prop where
  | refl (e : ParseError) : Alike P e e
  | unexpectedToken (kind : TokenKind) {literal literal' : String} (position : Nat) :
    Text.Alike P literal literal' →
      Alike P (.unexpectedToken kind literal position) (.unexpectedToken kind literal' position)
  | unmatchedToken (expected actual : TokenKind) {literal literal' : String} :
    Text.Alike P literal literal' →
      Alike P (.unmatchedToken expected actual literal) (.unmatchedToken expected actual literal')

theorem ParseError.Alike.eq {e e' : ParseError} (h : e.Alike P e') (hP : P.Exact) : e = e' := by
  cases h with
  | refl => rfl
  | unexpectedToken kind position h => rw [h.eq hP.fold]
  | unmatchedToken expected actual h => rw [h.eq hP.fold]

end SqlRouting
