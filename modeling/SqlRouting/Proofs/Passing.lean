import SqlRouting.Proofs.Alike
import SqlRouting.Proofs.Due
import SqlRouting.Proofs.Growth
import SqlRouting.Proofs.Reads

/-!
# Passing tokens

Most tokens are passed because the grammar asks for them. Some are passed unseen: as parts of an
operand, as aliases, and inside of parentheses that are skipped as text. What gets by in this way is
the subject of `Passes`, which says of the tokens between two states that each is *accounted for*: a
`SELECT` by where it stands, and an owner, the name before a dot, by what a `Watch` says about it in
the later state.

Whether a token is passed unseen depends on what stands before it. So parsers are compared by pre-
and postconditions on the state (`Accounts`). Where an operand is due depends on the state alone,
and so does all that it passes, so what may be passed there is said by a condition on that state
(`Watch.Admits`).
-/

namespace SqlRouting

open SqlRouting.Parser (Items Rounds)

/-! ## Places -/

/-- A place in a list of tokens: one of them, with those before and those behind it. -/
structure Place (stream : List Token) where
  before : List Token
  token : Token
  after : List Token
  stream_eq : stream = before ++ token :: after

/-- The keywords behind which an item, an operand or a name is due outside of comparisons. -/
def itemKeywords : List Keyword :=
  [.SELECT, .ALL, .ON, .BY, .SET, .AS, .UPDATE]

/-- The kinds of tokens behind which something is due. -/
def Dialect.callingKinds (d : Dialect) : List TokenKind :=
  (callingKeywords d ++ itemKeywords ++ d.selectOptions).map .keyword ++
    Grammar.looseComparisons ++ (Symbol.colonEqual :: callingSymbols).map .symbol

theorem callingKinds_keyword (d : Dialect) (keywords : List Keyword)
    (h : keywords ⊆ callingKeywords d ++ itemKeywords ++ d.selectOptions) :
    keywords.map .keyword ⊆ d.callingKinds :=
  List.Subset.trans (List.map_subset _ h)
    (List.subset_append_of_subset_left _ (List.subset_append_left _ _))

theorem callingKinds_symbol (d : Dialect) (symbols : List Symbol)
    (h : symbols ⊆ .colonEqual :: callingSymbols) :
    symbols.map .symbol ⊆ d.callingKinds :=
  List.Subset.trans (List.map_subset _ h) (List.subset_append_right _ _)

/-- Nothing is due behind a name or the end of the text. -/
theorem ne_of_mem_callingKinds {d : Dialect} {k : TokenKind} (h : k ∈ d.callingKinds) :
    k ≠ LiteralClass.identifier ∧ k ≠ .endOfText := by
  simp only [Dialect.callingKinds, Grammar.looseComparisons, List.mem_append, List.mem_map,
    List.mem_cons, List.not_mem_nil, or_false] at h
  constructor
  · rintro rfl
    simp at h
  · rintro rfl
    simp at h

/-- The kinds of tokens that join what is before them to what is behind them. -/
def jointKinds : List TokenKind :=
  (Symbol.dot :: .tilde :: Symbol.operators).map .symbol

namespace Place

variable {stream : List Token}

/-- At the place is a dot, and directly before it the name `t`, which owns what is behind. -/
structure OwnedBy (p : Place stream) (t : Token) : Prop where
  dot : p.token.kind = .symbol .dot
  name : t.kind = LiteralClass.identifier
  last : p.before.getLast? = some t

/-- What the dot at the place joins is joined to more: the token before it to something before,
    or the token behind it to something behind. -/
def IsJoined (p : Place stream) : Prop :=
  (∃ before u t, p.before = before ++ [u, t] ∧ u.kind ∈ jointKinds) ∨
    ∃ name u after, p.after = name :: u :: after ∧ u.kind ∈ .symbol .leftParen :: jointKinds

theorem suffix (p : Place stream) : p.token :: p.after <:+ stream :=
  ⟨p.before, p.stream_eq.symm⟩

/-- The place is among the tokens `ts`, in parentheses that open there. -/
def IsInside (p : Place stream) (ts : List Token) : Prop :=
  ∃ before, ts = before ++ p.token :: p.after ∧ 0 < depthBehind 0 before

/-- The place is among the first of the tokens `ts`, before the last of them, which are `us`. -/
def IsBetween (p : Place stream) (ts us : List Token) : Prop :=
  p.token :: p.after <:+ ts ∧ us <:+ p.after

/-- A place among the tokens is before the last of them, or among these. -/
theorem isBetween_or_suffix {p : Place stream} {ts us : List Token}
    (h : p.token :: p.after <:+ ts) (hus : us <:+ stream) :
    p.IsBetween ts us ∨ p.token :: p.after <:+ us := by
  rcases List.suffix_or_suffix_of_suffix p.suffix hus with hp | hus
  · exact .inr hp
  · rcases List.suffix_cons_iff.1 hus with heq | hus
    · exact .inr (heq ▸ List.suffix_rfl)
    · exact .inl ⟨h, hus⟩

/-- The place is determined by the number of tokens before it. -/
theorem ext_length {p q : Place stream} (h : p.before.length = q.before.length) :
    p.before = q.before ∧ p.token = q.token ∧ p.after = q.after := by
  have heq := p.stream_eq.symm.trans q.stream_eq
  obtain ⟨hbefore, htokens⟩ := List.append_inj heq h
  exact ⟨hbefore, List.cons.inj htokens⟩

end Place

/-! ## Watching a parse -/

/-- What is watched of a parse. -/
structure Watch (κ : Type) (stream : List Token) where
  dialect : Dialect
  /-- The tokens in which parentheses are counted. -/
  base : List Token
  /-- The place is in parentheses that are skipped. -/
  grouped : Place stream → Prop
  /-- A `SELECT` may be passed at the place. -/
  lenient : Place stream → Prop
  /-- No name is marked. -/
  silent : Prop
  /-- What there is to say in a state about the owner before a dot that has been passed. -/
  settled : ParseState κ → Place stream → Token → Prop
  /-- A hook with a `SELECT` lets it pass anywhere. -/
  hooks : ∀ h, .SELECT ∈ dialect.hook h → ∀ p, lenient p
  /-- Behind `AS` a `SELECT` is taken for an alias. -/
  aliases : ∀ p t, p.before.getLast? = some t → t.kind = .keyword .AS → lenient p
  /-- What has been said stays true when more names are marked, all of them behind the dot. -/
  grow : ∀ {s s' : ParseState κ} {named : List Token} {p : Place stream} {t : Token},
    stream.Pairwise (·.start < ·.start) → Growth named s.body.toRouting s'.body.toRouting →
    named ⊆ p.after → settled s p t → settled s' p t

namespace Watch

variable {κ : Type} {stream : List Token}

/-- A watch for a time without marks, in which something else is said about owners. -/
def during (W : Watch κ stream) (X : Place stream → Token → Prop) : Watch κ stream where
  dialect := W.dialect
  base := W.base
  grouped := W.grouped
  lenient := W.lenient
  silent := True
  settled := fun _ => X
  hooks := W.hooks
  aliases := W.aliases
  grow := fun _ _ _ h => h

/-- A watch of these tokens alone, in which a `SELECT` may be passed and parentheses are skipped. -/
def within (W : Watch κ stream) (base : List Token) : Watch κ stream where
  dialect := W.dialect
  base := base
  grouped := (·.IsInside base)
  lenient := fun _ => True
  silent := W.silent
  settled := W.settled
  hooks := fun _ _ _ => trivial
  aliases := fun _ _ _ _ => trivial
  grow := W.grow

variable (W : Watch κ stream)

/-- Parentheses are skipped. -/
def Skips : Prop :=
  ∀ p : Place stream, p.IsInside W.base → W.grouped p

/-- Parentheses are skipped, and a `SELECT` may be passed anywhere. -/
structure Open : Prop where
  skips : W.Skips
  lenient : ∀ p, W.lenient p

theorem within_open (base : List Token) : (W.within base).Open :=
  ⟨fun _ => id, fun _ => trivial⟩

variable {W} in
theorem Open.during (h : W.Open) (X : Place stream → Token → Prop) : (W.during X).Open :=
  ⟨h.skips, h.lenient⟩

/-- The state is one of the parse that is watched. -/
structure Over (s : ParseState κ) : Prop where
  on : s.On stream
  dialect : s.cursor.dialect = W.dialect
  base : s.cursor.tokens <:+ W.base

end Watch

section

variable {κ : Type} {stream base : List Token} {W W' : Watch κ stream} {s s₁ s' : ParseState κ}
  {p : Place stream}

/-- The token at the place is accounted for: it is in parentheses that are skipped, or it is
    neither a `SELECT` nor behind an owner, or else there is something to say. -/
def Accounted (W : Watch κ stream) (s : ParseState κ) (p : Place stream) : Prop :=
  W.grouped p ∨ (p.token.kind = .keyword .SELECT → W.lenient p) ∧ ∀ t, p.OwnedBy t → W.settled s p t

/-- The place is the one under the cursor. -/
def Place.At (p : Place stream) (s : ParseState κ) : Prop :=
  p.token :: p.after = s.cursor.tokens

/-- The token under the cursor is not a dot behind the name that owns what follows. -/
def Unowned (stream : List Token) (s : ParseState κ) : Prop :=
  ∀ p : Place stream, p.At s → ∀ t, ¬p.OwnedBy t

theorem Unowned.of_kind (h : s.cursor.current.kind ≠ .symbol .dot) : Unowned stream s := by
  intro p hp t ht
  exact h ((congrArg Token.kind (List.cons.inj hp).1).symm.trans ht.dot)

/-- The token under the cursor may be passed, whatever it is. -/
structure Passable (W : Watch κ stream) (s : ParseState κ) : Prop where
  unowned : Unowned stream s
  lenient : ∀ p : Place stream, p.At s → p.token.kind = .keyword .SELECT → W.lenient p

theorem Passable.of_kind (hdot : s.cursor.current.kind ≠ .symbol .dot)
    (hselect : s.cursor.current.kind ≠ .keyword .SELECT) : Passable W s where
  unowned := .of_kind hdot
  lenient := by
    intro p hp hk
    exact absurd ((congrArg Token.kind (List.cons.inj hp).1).symm.trans hk) hselect

theorem Watch.Open.passable (hW : W.Open) (h : Unowned stream s) : Passable W s :=
  ⟨h, fun p _ _ => hW.lenient p⟩

/-- Directly before the place under the cursor stands a token of one of these kinds. -/
def Behind (stream : List Token) (kinds : List TokenKind) (s : ParseState κ) : Prop :=
  ∀ p : Place stream, p.At s → ∃ t, p.before.getLast? = some t ∧ t.kind ∈ kinds

/-- Before the place behind a token that has been passed stands this token. -/
theorem Place.At.pred (hp : p.At s') (hs : s.On stream) (hnext : s.cursor.next = .ok s'.cursor)
    (hend : s.cursor.current.kind ≠ .endOfText) :
    ∃ q : Place stream, q.At s ∧ p.before = q.before ++ [s.cursor.current] := by
  obtain ⟨before, hbefore⟩ := hs.tokens
  have heq := hbefore.trans p.stream_eq
  rw [hp, Cursor.tokens_of_next hs.closed hnext hend, List.append_cons] at heq
  exact ⟨⟨before, s.cursor.current, s.cursor.ahead, hbefore.symm⟩, rfl,
    (List.append_cancel_right heq).symm⟩

theorem Behind.of_next {kinds : List TokenKind} (hs : s.On stream)
    (hnext : s.cursor.next = .ok s'.cursor) (hkind : s.cursor.current.kind ∈ kinds)
    (hend : .endOfText ∉ kinds) : Behind stream kinds s' := by
  intro p hp
  obtain ⟨q, _, hbefore⟩ := hp.pred hs hnext fun hk => hend (hk ▸ hkind)
  exact ⟨s.cursor.current, by simp [hbefore], hkind⟩

theorem Behind.mono {kinds kinds' : List TokenKind} (h : Behind stream kinds s)
    (hkinds : kinds ⊆ kinds') : Behind stream kinds' s :=
  fun p hp => (h p hp).imp fun _ ht => ⟨ht.1, hkinds ht.2⟩

/-- Behind a token that calls for something, nothing is owned by a name. -/
theorem Behind.unowned {kinds : List TokenKind} {d : Dialect} (h : Behind stream kinds s)
    (hcalling : kinds ⊆ d.callingKinds) : Unowned stream s := by
  intro p hp t ht
  obtain ⟨u, hlast, hu⟩ := h p hp
  rw [ht.last, Option.some.injEq] at hlast
  exact (ne_of_mem_callingKinds (hcalling hu)).1 (hlast ▸ ht.name)

theorem Unowned.of_next {d : Dialect} (hs : s.On stream) (hnext : s.cursor.next = .ok s'.cursor)
    (hkind : s.cursor.current.kind ∈ d.callingKinds) : Unowned stream s' :=
  (Behind.of_next hs hnext hkind fun h => (ne_of_mem_callingKinds h).2 rfl).unowned
    (List.Subset.refl _)

theorem Passable.during {X : Place stream → Token → Prop} (h : Passable W s) :
    Passable (W.during X) s :=
  ⟨h.unowned, h.lenient⟩

/-- What leaves the cursor where it is stays in the parse that is watched. -/
theorem Watch.Over.of_cursor (h : W.Over s) (hcursor : s'.cursor = s.cursor) : W.Over s' :=
  ⟨⟨hcursor ▸ h.on.tokens, hcursor ▸ h.on.closed⟩, hcursor ▸ h.dialect, hcursor ▸ h.base⟩

theorem Watch.Over.within (h : W.Over s) (hbase : s.cursor.tokens <:+ base) :
    (W.within base).Over s :=
  ⟨h.on, h.dialect, hbase⟩

theorem Watch.Over.during {X : Place stream → Token → Prop} (h : W.Over s) :
    (W.during X).Over s :=
  ⟨h.on, h.dialect, h.base⟩

theorem Passable.accounted (h : Passable W s) (hp : p.At s) : Accounted W s' p :=
  .inr ⟨h.lenient p hp, fun t ht => absurd ht (h.unowned p hp t)⟩

/-! ## Between two states -/

/-- The token at the place is passed between two states. -/
def Place.IsPassed (p : Place stream) (s s' : ParseState κ) : Prop :=
  p.IsBetween s.cursor.tokens s'.cursor.tokens

namespace Place.IsPassed

/-- On the way past a state the token is passed before it or behind it. -/
theorem split (h : p.IsPassed s s') (hs₁ : s₁.cursor.tokens <:+ stream) :
    p.IsPassed s s₁ ∨ p.IsPassed s₁ s' :=
  (isBetween_or_suffix h.1 hs₁).imp_right fun hp => ⟨hp, h.2⟩

/-- No token is passed if the cursor stays where it is. -/
theorem not_of_tokens_eq (h : p.IsPassed s s') (heq : s'.cursor.tokens = s.cursor.tokens) :
    False := by
  have hlength := (h.1.trans (heq ▸ h.2)).length_le
  simp only [List.length_cons] at hlength
  omega

/-- If a single token is passed, it is the one under the cursor. -/
theorem at_of_cons (h : p.IsPassed s s') (htokens : s.cursor.tokens = s.cursor.current ::
    s'.cursor.tokens) : p.At s ∧ p.after = s'.cursor.tokens := by
  have hlength := h.2.length_le
  have hp := h.1
  rw [htokens] at hp
  have heq := hp.eq_of_length_le (by simpa using hlength)
  exact ⟨heq.trans htokens.symm, (List.cons.inj heq).2⟩

end Place.IsPassed

/-- From one state to another these names have been marked, which are among the tokens passed, and
    every token that has been passed is accounted for, provided that the tokens are in order and
    what was marked before agrees with the tables. -/
structure Passes (W : Watch κ stream) (named : List Token) (s s' : ParseState κ) : Prop where
  on : s'.On stream
  dialect : s'.cursor.dialect = s.cursor.dialect
  passed : ∃ passed, s.cursor.tokens = passed ++ s'.cursor.tokens ∧ named.Sublist passed
  growth : Growth named s.body.toRouting s'.body.toRouting
  accounts : stream.Pairwise (·.start < ·.start) → s.body.Agrees →
    ∀ p : Place stream, p.IsPassed s s' → Accounted W s' p

namespace Passes

variable {named named' : List Token}

theorem suffix (h : Passes W named s s') : s'.cursor.tokens <:+ s.cursor.tokens := by
  obtain ⟨passed, htokens, _⟩ := h.passed
  exact ⟨passed, htokens.symm⟩

theorem named_subset (h : Passes W named s s') : named ⊆ s.cursor.tokens := by
  obtain ⟨passed, htokens, hnamed⟩ := h.passed
  rw [htokens]
  exact fun t ht => List.mem_append_left _ (hnamed.subset ht)

/-- Behind a state of the parse that is watched there are others. -/
theorem stays (h : Passes W named s s') (hs : W.Over s) : W.Over s' :=
  ⟨h.on, h.dialect.trans hs.dialect, h.suffix.trans hs.base⟩

/-- What is not needed need not be said. -/
theorem imp (h : Passes W named s s')
    (hgrouped : ∀ p : Place stream, p.IsPassed s s' → W.grouped p → W'.grouped p)
    (hlenient : ∀ p : Place stream, p.IsPassed s s' → W.lenient p → W'.lenient p)
    (hsettled : s.body.Agrees → ∀ p t, W.settled s' p t → W'.settled s' p t) :
    Passes W' named s s' where
  on := h.on
  dialect := h.dialect
  passed := h.passed
  growth := h.growth
  accounts := by
    intro hsorted hs p hp
    refine (h.accounts hsorted hs p hp).imp (hgrouped p hp) fun ⟨hselect, howner⟩ => ⟨?_, ?_⟩
    · exact fun hk => hlenient p hp (hselect hk)
    · exact fun t ht => hsettled hs p t (howner t ht)

/-- What is said about owners may be said in other words. -/
theorem imp_settled {X : Place stream → Token → Prop} (h : Passes (W.during X) named s s')
    (hsettled : s.body.Agrees → ∀ p t, X p t → W.settled s' p t) : Passes W named s s' :=
  h.imp (fun _ _ => id) (fun _ _ => id) hsettled

theorem trans (h : Passes W named s s₁) (h' : Passes W named' s₁ s') :
    Passes W (named ++ named') s s' where
  on := h'.on
  dialect := h'.dialect.trans h.dialect
  passed := by
    obtain ⟨passed, htokens, hnamed⟩ := h.passed
    obtain ⟨passed', htokens', hnamed'⟩ := h'.passed
    exact ⟨passed ++ passed', by rw [htokens, htokens', List.append_assoc], hnamed.append hnamed'⟩
  growth := h.growth.trans h'.growth
  accounts := by
    intro hsorted hs p hp
    rcases hp.split h.on.tokens with hp | hp
    · refine (h.accounts hsorted hs p hp).imp_right fun ⟨hselect, howner⟩ => ⟨hselect, ?_⟩
      -- Whatever is marked later stands behind the place.
      intro t ht
      exact W.grow hsorted h'.growth
        (List.Subset.trans h'.named_subset hp.2.subset) (howner t ht)
    · exact h'.accounts hsorted (h.growth.agrees hs) p hp

/-- The cursor stays, and what is marked stays. -/
theorem stay (hs : s.On stream) (hcursor : s'.cursor = s.cursor)
    (hgrowth : Growth [] s.body.toRouting s'.body.toRouting) : Passes W [] s s' where
  on := ⟨hcursor ▸ hs.tokens, hcursor ▸ hs.closed⟩
  dialect := by rw [hcursor]
  passed := ⟨[], by rw [hcursor, List.nil_append], .slnil⟩
  growth := hgrowth
  accounts := fun _ _ p hp => (hp.not_of_tokens_eq (by rw [hcursor])).elim

theorem refl (hs : s.On stream) : Passes W [] s s :=
  stay hs rfl (.refl _)

/-- A single token is passed, and what is marked stays. -/
theorem next (hs : s.On stream) (hnext : s.cursor.next = .ok s'.cursor)
    (hgrowth : Growth [] s.body.toRouting s'.body.toRouting)
    (h : ∀ p : Place stream, p.At s → p.after = s'.cursor.tokens → Accounted W s' p) :
    Passes W [] s s' := by
  rcases Cursor.next_eq_ok hs.closed hnext with ⟨_, hcursor⟩ | ⟨_, htokens, _⟩
  · exact stay hs hcursor hgrowth
  · have hon := hs.next hnext
    refine ⟨⟨hon.tokens, hon.closed⟩, Cursor.dialect_of_next hs.closed hnext,
      ⟨[s.cursor.current], htokens, List.nil_sublist _⟩, hgrowth, fun _ _ p hp => ?_⟩
    obtain ⟨hat, hafter⟩ := hp.at_of_cons htokens
    exact h p hat hafter

/-- A token that may be passed is passed. -/
theorem next_of_passable (hs : s.On stream) (h : Passable W s)
    (hnext : s.cursor.next = .ok s'.cursor)
    (hgrowth : Growth [] s.body.toRouting s'.body.toRouting) : Passes W [] s s' :=
  next hs hnext hgrowth fun _ hp _ => h.accounted hp

/-- A name that has been passed first may be marked last. -/
theorem mark {X : Place stream → Token → Prop} {t : Token} {s₂ : ParseState κ}
    (h : Passes (W.during X) [] s s')
    (hsettled : s.body.Agrees → ∀ p t, X p t → W.settled s₂ p t)
    (ht : s.cursor.current = t) (hpassed : s'.cursor.tokens ≠ s.cursor.tokens)
    (hcursor : s₂.cursor = s'.cursor)
    (hgrowth : Growth [t] s'.body.toRouting s₂.body.toRouting) : Passes W [t] s s₂ where
  on := ⟨hcursor ▸ h.on.tokens, hcursor ▸ h.on.closed⟩
  dialect := by rw [hcursor, h.dialect]
  passed := by
    obtain ⟨passed, htokens, _⟩ := h.passed
    cases passed with
    | nil => exact absurd htokens.symm hpassed
    | cons u passed =>
      have hcurrent : s.cursor.current = u := (List.cons.inj htokens).1
      refine ⟨u :: passed, by rw [hcursor, htokens], ?_⟩
      rw [← ht, hcurrent]
      exact (List.nil_sublist _).cons_cons _
  growth := h.growth.trans hgrowth
  accounts := by
    intro hsorted hs p hp
    have hp' : p.IsPassed s s' := ⟨hp.1, hcursor ▸ hp.2⟩
    exact (h.accounts hsorted hs p hp').imp_right fun ⟨hselect, howner⟩ =>
      ⟨hselect, fun u hu => hsettled hs p u (howner u hu)⟩

end Passes

end

/-! ## Parsers -/

/-- A success of the parser from the state `s` on accounts for the tokens that it passes, and behind
    it `Q` holds. -/
def AccountsAt {κ α : Type} {stream : List Token} (W : Watch κ stream) (s : ParseState κ)
    (p : Parser κ α) (Q : α → ParseState κ → Prop) : Prop :=
  ∀ ⦃a s'⦄, p s = .ok a s' → W.Over s →
    (∃ named, (W.silent → named = []) ∧ Passes W named s s') ∧ Q a s'

/-- Wherever `P` holds, a success of the parser accounts for the tokens that it passes, and
    behind it `Q` holds. -/
def Accounts {κ α : Type} {stream : List Token} (W : Watch κ stream) (P : ParseState κ → Prop)
    (p : Parser κ α) (Q : α → ParseState κ → Prop) : Prop :=
  ∀ ⦃s⦄, P s → AccountsAt W s p Q

/-- Nothing is asked of a state. -/
abbrev Anywhere {κ : Type} : ParseState κ → Prop :=
  fun _ => True

/-- Nothing is said about a result. -/
abbrev Anyhow {κ α : Type} : α → ParseState κ → Prop :=
  fun _ _ => True

namespace AccountsAt

open SqlRouting.Parser

variable {κ α β : Type} {stream : List Token} {W : Watch κ stream} {s s₁ : ParseState κ}
  {Q Q' : α → ParseState κ → Prop} {R : β → ParseState κ → Prop}

theorem pure {a : α} (h : Q a s) : AccountsAt W s (Pure.pure a) Q := by
  intro b s' hp hs
  obtain ⟨rfl, rfl⟩ := pure_eq_ok.1 hp
  exact ⟨⟨[], fun _ => rfl, .refl hs.on⟩, h⟩

/-- What follows a parser is known to start where that stops. -/
theorem bind {p : Parser κ α} {f : α → Parser κ β} (hp : AccountsAt W s p Q)
    (hf : ∀ a s₁, p s = .ok a s₁ → Q a s₁ → AccountsAt W s₁ (f a) R) :
    AccountsAt W s (p >>= f) R := by
  intro b s' h hs
  obtain ⟨a, s₁, h₁, h⟩ := bind_eq_ok.1 h
  obtain ⟨⟨named, hnamed, hpasses⟩, hQ⟩ := hp h₁ hs
  obtain ⟨⟨named', hnamed', hpasses'⟩, hR⟩ := hf a s₁ h₁ hQ h (hpasses.stays hs)
  exact ⟨⟨_, fun hq => by simp [hnamed hq, hnamed' hq], hpasses.trans hpasses'⟩, hR⟩

theorem imp {p : Parser κ α} (h : AccountsAt W s p Q) (hQ : ∀ a s, Q a s → Q' a s) :
    AccountsAt W s p Q' :=
  fun a s' hp hs => (h hp hs).imp_right (hQ a s')

/-- What follows a parser may start anywhere. -/
theorem bind_anywhere {p : Parser κ α} {f : α → Parser κ β} (hp : AccountsAt W s p Q)
    (hf : ∀ a, Accounts W Anywhere (f a) R) : AccountsAt W s (p >>= f) R :=
  hp.bind fun a _ _ _ => hf a trivial

theorem anyhow {p : Parser κ α} (h : AccountsAt W s p Q) : AccountsAt W s p Anyhow :=
  h.imp fun _ _ _ => trivial

/-- A parser accounts for its tokens in the states of the parse that is watched. -/
theorem of_over {p : Parser κ α} (h : W.Over s → AccountsAt W s p Q) : AccountsAt W s p Q :=
  fun _ _ hp hs => h hs hp hs

/-- A parser that never succeeds has nothing to account for. -/
theorem of_not_ok {p : Parser κ α} (h : ∀ {a s'}, p s = .ok a s' → False) : AccountsAt W s p Q :=
  fun _ _ hp => (h hp).elim

/-- A parser that only looks passes nothing. -/
theorem of_eq {p : Parser κ α} (h : ∀ {a s'}, p s = .ok a s' → s = s') :
    AccountsAt W s p fun _ s' => s = s' := by
  intro a s' hp hs
  obtain rfl := h hp
  exact ⟨⟨[], fun _ => rfl, .refl hs.on⟩, rfl⟩

/-! Looking does not change what is passed. -/

theorem cursor_bind {f : Cursor → Parser κ α} :
    AccountsAt W s (cursor >>= f) Q ↔ AccountsAt W s (f s.cursor) Q := .rfl

theorem current_bind {f : Token → Parser κ α} :
    AccountsAt W s (current >>= f) Q ↔ AccountsAt W s (f s.cursor.current) Q := .rfl

theorem dialect_bind {f : Dialect → Parser κ α} :
    AccountsAt W s (dialect >>= f) Q ↔ AccountsAt W s (f s.cursor.dialect) Q := .rfl

theorem routing_bind {f : Routing → Parser κ α} :
    AccountsAt W s (routing >>= f) Q ↔ AccountsAt W s (f s.body.toRouting) Q := .rfl

end AccountsAt

namespace Accounts

open SqlRouting.Parser

variable {κ α β : Type} {stream : List Token} {W : Watch κ stream}
  {P P' : ParseState κ → Prop} {Q Q' : α → ParseState κ → Prop} {R : β → ParseState κ → Prop}

theorem pure {a : α} (h : ∀ s, P s → Q a s) : Accounts W P (Pure.pure a) Q :=
  fun s hP => .pure (h s hP)

theorem bind {p : Parser κ α} {f : α → Parser κ β} (hp : Accounts W P p Q)
    (hf : ∀ a, Accounts W (Q a) (f a) R) : Accounts W P (p >>= f) R :=
  fun _ hP => (hp hP).bind fun a _ _ hQ => hf a hQ

theorem ite {c : Prop} [Decidable c] {p q : Parser κ α} (hp : Accounts W P p Q)
    (hq : Accounts W P q Q) : Accounts W P (if c then p else q) Q := by
  split
  · exact hp
  · exact hq

theorem imp {p : Parser κ α} (h : Accounts W P p Q) (hP : ∀ s, P' s → P s)
    (hQ : ∀ a s, Q a s → Q' a s) : Accounts W P' p Q' :=
  fun s hP' => (h (hP s hP')).imp hQ

/-- It does not matter where the parser starts. -/
theorem anywhere {p : Parser κ α} (h : Accounts W Anywhere p Q) : Accounts W P p Q :=
  fun _ _ => h trivial

/-- A parser that never succeeds has nothing to account for. -/
theorem of_not_ok {p : Parser κ α} (h : ∀ {s a s'}, p s = .ok a s' → False) : Accounts W P p Q :=
  fun _ _ => .of_not_ok h

/-- A parser that only looks passes nothing. -/
theorem of_eq {p : Parser κ α} (h : ∀ {s a s'}, p s = .ok a s' → s = s') :
    Accounts W P p fun _ => P :=
  fun _ hP => (AccountsAt.of_eq h).imp fun _ _ heq => heq ▸ hP

/-- A parser that leaves the cursor where it is and marks no names passes nothing. -/
theorem of_stay {p : Parser κ α} (h : ∀ {s a s'}, p s = .ok a s' → s'.cursor = s.cursor ∧
      Growth [] s.body.toRouting s'.body.toRouting)
    (hP : ∀ s s' : ParseState κ, s'.cursor = s.cursor → P s → P s') :
    Accounts W P p fun _ => P := by
  intro s hPs a s' hp hs
  obtain ⟨hcursor, hgrowth⟩ := h hp
  exact ⟨⟨[], fun _ => rfl, .stay hs.on hcursor hgrowth⟩, hP s s' hcursor hPs⟩

end Accounts

namespace Parser

variable {κ α β : Type} {stream : List Token} {W : Watch κ stream}
  {P : ParseState κ → Prop} {Q : α → ParseState κ → Prop} {s s₁ s' : ParseState κ}

/-! ### Looking -/

theorem throw_accounts (e : ParseError) : Accounts W P (MonadExcept.throw e) Q :=
  .of_not_ok fun h => throw_eq_ok.1 h

theorem throw_bind_accounts (e : ParseError) (f : β → Parser κ α) :
    Accounts W P ((MonadExcept.throw e : Parser κ β) >>= f) Q :=
  .of_not_ok fun h => by simp [bind_eq_ok, throw_eq_ok] at h

theorem unexpected_accounts : Accounts W P unexpected Q :=
  .of_not_ok fun h => unexpected_eq_ok.1 h

theorem unexpected_bind_accounts (f : β → Parser κ α) : Accounts W P (unexpected >>= f) Q :=
  .of_not_ok fun h => unexpected_bind_eq_ok.1 h

theorem cursor_accounts {f : Cursor → Parser κ α}
    (h : ∀ c, Accounts W (fun s => P s ∧ s.cursor = c) (f c) Q) : Accounts W P (cursor >>= f) Q :=
  fun s hP => AccountsAt.cursor_bind.2 (h s.cursor ⟨hP, rfl⟩)

theorem current_accounts {f : Token → Parser κ α}
    (h : ∀ t, Accounts W (fun s => P s ∧ s.cursor.current = t) (f t) Q) :
    Accounts W P (current >>= f) Q :=
  fun s hP => AccountsAt.current_bind.2 (h s.cursor.current ⟨hP, rfl⟩)

theorem dialect_accounts {f : Dialect → Parser κ α} (h : Accounts W P (f W.dialect) Q) :
    Accounts W P (dialect >>= f) Q :=
  fun _ hP => .of_over fun hs => by
    rw [AccountsAt.dialect_bind, hs.dialect]
    exact h hP

theorem routing_accounts {f : Routing → Parser κ α} (h : ∀ r, Accounts W P (f r) Q) :
    Accounts W P (routing >>= f) Q :=
  fun s hP => AccountsAt.routing_bind.2 (h s.body.toRouting hP)

theorem clauses_accounts : Accounts W P (clauses (κ := κ)) fun _ => P :=
  .of_eq fun h => (pure_eq_ok.1 h).2

theorem refuseEnd_accounts : Accounts W P refuseEnd fun _ => P :=
  .of_eq fun h => (refuseEnd_eq_ok.1 h).2

theorem refuse_accounts (keywords : List Keyword) : Accounts W P (refuse keywords) fun _ => P :=
  .of_eq fun h => (refuse_eq_ok.1 h).2

theorem slice_accounts (start stop : Nat) : Accounts W P (slice start stop) fun _ => P :=
  .of_eq fun h => (slice_eq_ok.1 h).2

theorem textSince_accounts (start : Nat) : Accounts W P (textSince start) fun _ => P :=
  .of_eq eq_of_textSince

theorem placeholdersSince_accounts (before : Nat) :
    Accounts W P (placeholdersSince before) fun _ => P :=
  .of_eq fun h => by
    simp only [placeholdersSince, routing_bind, ite_eq_ok, throw_eq_ok, pure_eq_ok, and_false,
      or_false] at h
    exact h.2.2

/-! ### Recording -/

theorem modifyClauses_accounts (f : κ → κ) : Accounts W Anywhere (modifyClauses f) Anyhow :=
  .of_stay (fun h => by obtain rfl := modifyClauses_eq_ok.1 h; exact ⟨rfl, .refl _⟩)
    fun _ _ _ _ => trivial

/-- A change of the routing part that leaves tables and marks of names as they are. -/
theorem modifyRouting_accounts {f : Routing → Routing} (h : ∀ r, Growth [] r (f r)) :
    Accounts W Anywhere (modifyRouting f) Anyhow :=
  .of_stay (fun hp => by obtain rfl := modifyRouting_eq_ok.1 hp; exact ⟨rfl, h _⟩)
    fun _ _ _ _ => trivial

/-! ### Passing tokens -/

theorem growth_of_advance {u : Unit} (h : advance s = .ok u s') :
    s.cursor.next = .ok s'.cursor ∧ Growth [] s.body.toRouting s'.body.toRouting := by
  obtain ⟨c, hnext, rfl⟩ := advance_eq_ok.1 h
  exact ⟨hnext, .refl _⟩

/-- Counting a placeholder marks no name. -/
theorem growth_of_countPlaceholder {u v : Unit} (h : countPlaceholder s = .ok u s₁)
    (h' : advance s₁ = .ok v s') :
    s.cursor.next = .ok s'.cursor ∧ Growth [] s.body.toRouting s'.body.toRouting := by
  obtain ⟨c, hnext, rfl⟩ := advance_eq_ok.1 h'
  rw [cursor_of_countPlaceholder h] at hnext
  refine ⟨hnext, ?_⟩
  rw [countPlaceholder_eq_ok] at h
  subst h
  split
  · exact .of_tables_eq rfl (.refl _)
  · exact .refl _

theorem growth_of_takeName {t : Token} (h : takeName s = .ok t s') :
    s.cursor.next = .ok s'.cursor ∧ Growth [] s.body.toRouting s'.body.toRouting := by
  obtain ⟨_, c, hnext, h⟩ := takeName_eq_ok.1 h
  split at h
  · subst h
    exact ⟨hnext, .refl _⟩
  · subst h
    exact ⟨hnext, .refl _⟩

/-- Tokens of these kinds are passed anywhere, and none of them is the end of the text. -/
structure ArePlain (W : Watch κ stream) (kinds : List TokenKind) : Prop where
  dot : .symbol .dot ∉ kinds
  stop : .endOfText ∉ kinds
  lenient : .keyword .SELECT ∈ kinds → ∀ p, W.lenient p

theorem ArePlain.of_not_mem {kinds : List TokenKind}
    (h : ∀ kind ∈ kinds, kind ∉ [.symbol .dot, .endOfText, .keyword .SELECT]) :
    ArePlain W kinds where
  dot hmem := h _ hmem (by simp)
  stop hmem := h _ hmem (by simp)
  lenient hmem := absurd (by simp) (h _ hmem)

theorem arePlain_keywords {keywords : List Keyword} (h : .SELECT ∉ keywords) :
    ArePlain W (keywords.map .keyword) where
  dot := by simp
  stop := by simp
  lenient hmem := absurd hmem (by simpa using h)

/-- The keywords of a hook are passed anywhere, and so are others with them. -/
theorem arePlain_hook (keywords : List Keyword) (hook : Hook) (h : .SELECT ∉ keywords) :
    ArePlain W ((keywords ++ W.dialect.hook hook).map .keyword) where
  dot := by simp
  stop := by simp
  lenient hmem := W.hooks hook (by simpa [h] using hmem)

theorem ArePlain.passable {kinds : List TokenKind} (h : ArePlain W kinds)
    (hkind : s.cursor.current.kind ∈ kinds) : Passable W s where
  unowned := .of_kind fun hdot => h.dot (hdot ▸ hkind)
  lenient := by
    intro p hp hk
    have hp : p.token.kind = s.cursor.current.kind := congrArg Token.kind (List.cons.inj hp).1
    rw [← hp, hk] at hkind
    exact h.lenient hkind p

theorem ArePlain.passes {kinds : List TokenKind} (h : ArePlain W kinds) (hs : s.On stream)
    (hkind : s.cursor.current.kind ∈ kinds) (hnext : s.cursor.next = .ok s'.cursor)
    (hgrowth : Growth [] s.body.toRouting s'.body.toRouting) : Passes W [] s s' :=
  .next_of_passable hs (h.passable hkind) hnext hgrowth

theorem advance_accounts : Accounts W (Passable W) advance Anyhow := by
  intro s hpassable u s' hp hs
  obtain ⟨hnext, hgrowth⟩ := growth_of_advance hp
  exact ⟨⟨[], fun _ => rfl, .next_of_passable hs.on hpassable hnext hgrowth⟩, trivial⟩

/-- Behind a token of these kinds, or else where they start, tokens are skipped. -/
theorem skipIf_accountsAt {kinds : List TokenKind} (h : ArePlain W kinds) :
    AccountsAt W s (skipIf kinds) fun found s' =>
      cond found (Behind stream kinds s') (s = s' ∧ s.cursor.current.kind ∉ kinds) := by
  intro found s' hp hs
  obtain ⟨hfound, hp⟩ := skipIf_eq_ok.1 hp
  cases found with
  | false =>
    obtain rfl : s = s' := hp
    exact ⟨⟨[], fun _ => rfl, .refl hs.on⟩, rfl, of_decide_eq_false hfound⟩
  | true =>
    have hkind := of_decide_eq_true hfound
    obtain ⟨hnext, hgrowth⟩ := growth_of_advance hp
    exact ⟨⟨[], fun _ => rfl, h.passes hs.on hkind hnext hgrowth⟩,
      .of_next hs.on hnext hkind h.stop⟩

theorem skipIf_accounts {kinds : List TokenKind} (h : ArePlain W kinds) :
    Accounts W P (skipIf kinds) fun found s => cond found (Behind stream kinds s) (P s) := by
  intro s hP
  refine (skipIf_accountsAt h).imp fun found s' hfound => ?_
  cases found with
  | false => exact hfound.1 ▸ hP
  | true => exact hfound

theorem skipIf_anywhere {kinds : List TokenKind} (h : ArePlain W kinds) :
    Accounts W Anywhere (skipIf kinds) Anyhow :=
  fun _ _ => (skipIf_accountsAt h).anyhow

/-- Behind tokens that are skipped `p` goes on, and otherwise `q` does. -/
theorem skipIf_then {kinds : List TokenKind} {p q : Parser κ α} (h : ArePlain W kinds)
    (hp : ∀ s₁, skipIf kinds s = .ok true s₁ → Behind stream kinds s₁ → AccountsAt W s₁ p Q)
    (hq : s.cursor.current.kind ∉ kinds → AccountsAt W s q Q) :
    AccountsAt W s (skipIf kinds >>= fun found => if found then p else q) Q := by
  refine (skipIf_accountsAt h).bind fun found s₁ hrun hfound => ?_
  cases found with
  | false =>
    obtain ⟨rfl, hkind⟩ := hfound
    exact hq hkind
  | true => exact hp s₁ hrun hfound

theorem skipIf_then_accounts {kinds : List TokenKind} {p q : Parser κ α} (h : ArePlain W kinds)
    (hp : Accounts W Anywhere p Q) (hq : Accounts W P q Q) :
    Accounts W P (skipIf kinds >>= fun found => if found then p else q) Q :=
  fun _ hP => skipIf_then h (fun _ _ _ => hp trivial) fun _ => hq hP

theorem skipKeyword_then {keywords : List Keyword} {p q : Parser κ α}
    (h : ArePlain W (keywords.map .keyword))
    (hp : ∀ s₁, skipKeyword keywords s = .ok true s₁ →
      Behind stream (keywords.map .keyword) s₁ → AccountsAt W s₁ p Q)
    (hq : s.cursor.isKeyword keywords = false → AccountsAt W s q Q) :
    AccountsAt W s (skipKeyword keywords >>= fun found => if found then p else q) Q := by
  rw [skipKeyword_eq_skipIf] at hp ⊢
  refine skipIf_then h hp fun hkind => hq ?_
  rw [← Bool.not_eq_true]
  exact fun hfound => hkind (Cursor.kind_mem_of_isKeyword hfound)

theorem skipKeyword_accounts {keywords : List Keyword} (h : ArePlain W (keywords.map .keyword)) :
    Accounts W Anywhere (skipKeyword keywords) Anyhow := by
  rw [skipKeyword_eq_skipIf]
  exact skipIf_anywhere h

theorem skipKeyword_then_accounts {keywords : List Keyword} {p q : Parser κ α}
    (h : ArePlain W (keywords.map .keyword)) (hp : Accounts W Anywhere p Q)
    (hq : Accounts W P q Q) :
    Accounts W P (skipKeyword keywords >>= fun found => if found then p else q) Q :=
  fun _ hP => skipKeyword_then h (fun _ _ _ => hp trivial) fun _ => hq hP

theorem accept_passes {kind : TokenKind} {u : Unit} (h : ArePlain W [kind])
    (hp : accept kind s = .ok u s') (hs : s.On stream) : Passes W [] s s' := by
  obtain ⟨hkind, hadvance⟩ := accept_eq_ok.1 hp
  obtain ⟨hnext, hgrowth⟩ := growth_of_advance hadvance
  exact h.passes hs (by simp [hkind]) hnext hgrowth

theorem accept_accounts {kind : TokenKind} (h : ArePlain W [kind]) :
    Accounts W P (accept kind) fun _ => Behind stream [kind] := by
  intro s _ u s' hp hs
  refine ⟨⟨[], fun _ => rfl, accept_passes h hp hs.on⟩, ?_⟩
  obtain ⟨hkind, hadvance⟩ := accept_eq_ok.1 hp
  exact .of_next hs.on (growth_of_advance hadvance).1 (by simp [hkind]) h.stop

theorem accept_anywhere {kind : TokenKind} (h : ArePlain W [kind]) :
    Accounts W P (accept kind) Anyhow :=
  (accept_accounts h).imp (fun _ h => h) fun _ _ _ => trivial

theorem accept_anyhow {kind : TokenKind}
    (h : kind ∉ [.symbol .dot, .endOfText, .keyword .SELECT]) :
    AccountsAt W s (accept kind) Anyhow :=
  accept_anywhere (P := Anywhere) (.of_not_mem (by simpa using h)) trivial

/-- Behind a token that calls for something, nothing is owned by a name. -/
theorem accept_unowned {kind : TokenKind} {d : Dialect} (h : ArePlain W [kind])
    (hcalling : kind ∈ d.callingKinds) : Accounts W P (accept kind) fun _ => Unowned stream :=
  (accept_accounts h).imp (fun _ h => h) fun _ _ hbehind =>
    hbehind.unowned (by simpa using hcalling)

/-! ### Repetition -/

/-- A loop accounts for its tokens if every round does that it comes to. -/
theorem loop_accountsAt {step : Parser κ Bool}
    (h : ∀ s₁, Rounds step s s₁ → P s₁ → AccountsAt W s₁ step fun _ => P) (hP : P s) :
    AccountsAt W s (loop step) fun _ => P := by
  rw [loop, AccountsAt.cursor_bind]
  generalize s.cursor.movesLeft = n
  induction n generalizing s with
  | zero => exact .pure hP
  | succ n ih =>
    rw [iterate]
    refine (h s .refl hP).bind fun more s₁ hround hP₁ => ?_
    cases more with
    | false => exact .pure hP₁
    | true => exact ih (fun s₂ hrounds => h s₂ (.head hround hrounds)) hP₁

theorem loop_accounts {step : Parser κ Bool} (h : Accounts W P step fun _ => P) :
    Accounts W P (loop step) fun _ => P :=
  fun _ hP => loop_accountsAt (fun _ _ hP => h hP) hP

/-- A list accounts for its tokens if every item does that it comes to. -/
theorem separatedBy_accountsAt {item : Parser κ α} {separator : Parser κ Bool}
    (hi : ∀ s₁, Items separator item s s₁ → P s₁ → AccountsAt W s₁ item Anyhow)
    (hs : Accounts W Anywhere separator fun found s => found = true → P s) (hP : P s) :
    AccountsAt W s (separatedBy separator item) Anyhow := by
  rw [separatedBy, AccountsAt.cursor_bind]
  generalize s.cursor.movesLeft = n
  induction n generalizing s with
  | zero => exact .pure trivial
  | succ n ih =>
    refine (hi s .refl hP).bind fun a s₁ hitem _ => (hs trivial).bind fun found s₂ hfound hP₂ => ?_
    cases found with
    | false => exact .pure trivial
    | true =>
      have hround : (do let _ ← item; separator) s = .ok true s₂ := by
        rw [bind_of_eq_ok hitem, hfound]
      exact (ih (fun s₃ hitems => hi s₃ (.head hround hitems)) (hP₂ rfl)).bind
        fun _ _ _ _ => .pure trivial

/-- Behind a comma nothing is owned by a name. -/
theorem comma_unowned :
    Accounts W P (skipSymbol .comma) fun found s => found = true → Unowned stream s := by
  refine fun s _ => (skipIf_accountsAt (.of_not_mem (by decide))).imp fun found s' hfound => ?_
  rintro rfl
  exact Behind.unowned hfound (callingKinds_symbol W.dialect [.comma] (by decide))

theorem commaSeparated_accountsAt {item : Parser κ α}
    (h : ∀ s₁, Items (skipSymbol .comma) item s s₁ → Unowned stream s₁ →
      AccountsAt W s₁ item Anyhow) (hs : Unowned stream s) :
    AccountsAt W s (commaSeparated item) Anyhow :=
  separatedBy_accountsAt h comma_unowned hs

/-- Items that start anywhere do so behind a comma, too. -/
theorem commaSeparated_anywhere {item : Parser κ α}
    (h : ∀ s₁, Items (skipSymbol .comma) item s s₁ → AccountsAt W s₁ item Anyhow) :
    AccountsAt W s (commaSeparated item) Anyhow :=
  separatedBy_accountsAt (P := Anywhere) (fun s₁ hitems _ => h s₁ hitems)
    (comma_unowned.imp (fun _ h => h) fun _ _ _ _ => trivial) trivial

/-! ### Skipping -/

/-- Behind keywords that call for something, nothing is owned by a name. -/
theorem skipAll_unowned {keywords : List Keyword} (h : ArePlain W (keywords.map .keyword))
    (hcalling : keywords.map .keyword ⊆ W.dialect.callingKinds) :
    Accounts W (Unowned stream) (skipAll keywords) fun _ => Unowned stream := by
  refine loop_accounts fun s hunowned more s' hp hs => ?_
  simp only [cursor_bind, ite_eq_ok, bind_eq_ok, pure_eq_ok, trace_eq_ok] at hp
  rcases hp with ⟨hk, _, _, rfl, _, s₂, hadvance, _, rfl⟩ | ⟨_, _, rfl⟩
  · have hkind := Cursor.kind_mem_of_isKeyword hk
    obtain ⟨hnext, hgrowth⟩ := growth_of_advance hadvance
    exact ⟨⟨[], fun _ => rfl, h.passes hs.on hkind hnext hgrowth⟩,
      .of_next hs.on hnext (hcalling hkind)⟩
  · exact ⟨⟨[], fun _ => rfl, .refl hs.on⟩, hunowned⟩

theorem skipAll_accounts {keywords : List Keyword} (h : ArePlain W (keywords.map .keyword)) :
    Accounts W Anywhere (skipAll keywords) Anyhow := by
  refine loop_accounts fun s _ more s' hp hs => ⟨?_, trivial⟩
  simp only [cursor_bind, ite_eq_ok, bind_eq_ok, pure_eq_ok, trace_eq_ok] at hp
  rcases hp with ⟨hk, _, _, rfl, _, s₂, hadvance, _, rfl⟩ | ⟨_, _, rfl⟩
  · have hkind := Cursor.kind_mem_of_isKeyword hk
    obtain ⟨hnext, hgrowth⟩ := growth_of_advance hadvance
    exact ⟨[], fun _ => rfl, h.passes hs.on hkind hnext hgrowth⟩
  · exact ⟨[], fun _ => rfl, .refl hs.on⟩

/-- Between the start of the tokens and the cursor more than `depth` groups are opened. -/
def IsInside (base : List Token) (depth : Nat) (s : ParseState κ) : Prop :=
  ∃ before, base = before ++ s.cursor.tokens ∧ depth < depthBehind 0 before

/-- What is open around a group is open behind a token inside of it. -/
theorem IsInside.next {base : List Token} {depth : Nat} (h : IsInside base depth s)
    (hs : s.cursor.Closed) (hnext : s.cursor.next = .ok s'.cursor)
    (hopen : ¬(s.cursor.current.kind = .symbol .rightParen ∧ depth = 0)) :
    IsInside base (s.cursor.current.depthBehind depth) s' := by
  obtain ⟨before, hbase, hdepth⟩ := h
  rcases Cursor.next_eq_ok hs hnext with ⟨hend, hcursor⟩ | ⟨_, htokens, _⟩
  · rw [IsInside, hcursor]
    refine ⟨before, hbase, ?_⟩
    simpa [Token.depthBehind, hend] using hdepth
  · refine ⟨before ++ [s.cursor.current], by rw [hbase, htokens, List.append_assoc]; rfl, ?_⟩
    rw [depthBehind_concat]
    exact Token.depthBehind_lt hdepth hopen

/-- Whatever is passed inside of a group stands in parentheses. -/
theorem IsInside.passes {depth : Nat} (hW : W.Skips) (h : IsInside W.base depth s)
    (hs : s.On stream) (hnext : s.cursor.next = .ok s'.cursor)
    (hgrowth : Growth [] s.body.toRouting s'.body.toRouting) : Passes W [] s s' := by
  refine .next hs hnext hgrowth fun p hp _ => .inl (hW p ?_)
  obtain ⟨before, hbase, hdepth⟩ := h
  exact ⟨before, by rw [hbase, hp], Nat.zero_lt_of_lt hdepth⟩

theorem skipToClosing_passes {n depth : Nat} {u : Unit} (hW : W.Skips)
    (h : skipToClosing n depth s = .ok u s') (hs : s.On stream)
    (hinside : IsInside W.base depth s) :
    Passes W [] s s' ∧ s'.cursor.current.kind = .symbol .rightParen := by
  induction n generalizing depth s with
  | zero => exact (unexpected_eq_ok.1 h).elim
  | succ n ih =>
    rcases skipToClosing_eq_ok h with ⟨hclosed, _, rfl⟩ |
      ⟨hopen, m, s₁, s₂, hn, hcount, hadvance, h⟩
    · exact ⟨.refl hs, hclosed⟩
    · obtain rfl := Nat.succ.inj hn
      obtain ⟨hnext, hgrowth⟩ := growth_of_countPlaceholder hcount hadvance
      have hpasses : Passes W [] s s₂ := hinside.passes hW hs hnext hgrowth
      obtain ⟨hpasses', hclosed⟩ := ih h hpasses.on (hinside.next hs.closed hnext hopen)
      exact ⟨hpasses.trans hpasses', hclosed⟩

/-- Behind a group, if there is one, nothing is owned by a name. -/
theorem skipParentheses_accounts (hW : W.Skips) :
    Accounts W P skipParentheses fun _ s => P s ∨ Unowned stream s := by
  intro s hP text s' h hs
  simp only [skipParentheses, cursor_bind, current_bind, ite_eq_ok, bind_eq_ok, pure_eq_ok,
    slice_eq_ok] at h
  rcases h with ⟨hopen, _, s₁, hadvance, _, s₂, hskip, _, _, ⟨_, rfl⟩, _, s₃, hadvance', _, rfl⟩ |
    ⟨_, _, rfl⟩
  · have hkind : s.cursor.current.kind = .symbol .leftParen := of_decide_eq_true hopen
    obtain ⟨hnext, hgrowth⟩ := growth_of_advance hadvance
    obtain ⟨hnext', hgrowth'⟩ := growth_of_advance hadvance'
    have hopened : Passes W [] s s₁ :=
      .next_of_passable hs.on (.of_kind (by simp [hkind]) (by simp [hkind])) hnext hgrowth
    have hinside : IsInside W.base 0 s₁ := by
      obtain ⟨before, hbase⟩ := hs.base
      rw [Cursor.tokens_of_next hs.on.closed hnext (by simp [hkind]), List.append_cons] at hbase
      refine ⟨_, hbase.symm, ?_⟩
      simp [depthBehind_concat, Token.depthBehind, hkind]
    obtain ⟨hpasses, hclosed⟩ := skipToClosing_passes hW hskip hopened.on hinside
    have hclosing : Passes W [] s₂ s₃ :=
      .next_of_passable hpasses.on (.of_kind (by simp [hclosed]) (by simp [hclosed])) hnext'
        hgrowth'
    refine ⟨⟨[], fun _ => rfl, (hopened.trans hpasses).trans hclosing⟩, .inr fun p hp t ht => ?_⟩
    -- Directly before the cursor stands the closing parenthesis.
    obtain ⟨q, _, hbefore⟩ := hp.pred hpasses.on hnext' (by simp [hclosed])
    have hlast := ht.last
    have hname := ht.name
    rw [hbefore, List.getLast?_concat, Option.some.injEq] at hlast
    simp [← hlast, hclosed] at hname
  · exact ⟨⟨[], fun _ => rfl, .refl hs.on⟩, .inl hP⟩

theorem skipParentheses_anywhere (hW : W.Skips) : Accounts W Anywhere skipParentheses Anyhow :=
  (skipParentheses_accounts hW).imp (fun _ h => h) fun _ _ _ => trivial

end Parser

end SqlRouting
