import SqlRouting.Proofs.Coupled.Statement

/-!
# What hooks do

A dialect acts on a parse in three ways: it decides on the token stream, it has a place for nulls,
and its hooks allow or refuse keywords. The hooks do nothing else: two dialects that agree on the
other two, and whose hooks agree on the keywords of a text, make the same of the text
(`parse_eq_of_hooks`). In particular, a text without keywords of any hook is parsed as in the
grammar alone.
-/

namespace SqlRouting

/-- The keywords of a token stream. -/
def TokenStream.keywords (s : TokenStream) : List Keyword :=
  s.tokens.filterMap (·.kind.keyword?)

theorem TokenStream.mem_keywords {s : TokenStream} {t : Token} {k : Keyword} (ht : t ∈ s.tokens)
    (hk : t.kind = .keyword k) : k ∈ s.keywords :=
  List.mem_filterMap.2 ⟨t, ht, by rw [hk]; rfl⟩

/-- Two runs on one text, in dialects whose hooks agree on its keywords. -/
def Pairing.ofHooks (d e : Dialect) (keywords : List Keyword)
    (hooks : ∀ k ∈ keywords, ∀ h, k ∈ d.hook h ↔ k ∈ e.hook h)
    (nulls : d.nullDirection = e.nullDirection) : Pairing where
  toFolding := .none
  names := True
  occurs := (· ∈ keywords)
  left := d
  right := e
  parts _ _ := False
  oneSided := False
  hooks k hk h := ⟨(hooks k hk h).1, fun hright => .inl ((hooks k hk h).2 hright)⟩
  refused _ _ _ := id
  nulls

/-- Hooks act through their keywords only: a text with the same token stream in two dialects is
    parsed in the same way, if each of its keywords is in the same hooks of both. -/
theorem Statement.parse_eq_of_hooks (database : Database) {d e : Dialect} {text : String}
    (nulls : d.nullDirection = e.nullDirection)
    (hstream : TokenStream.ofText d text.toList = TokenStream.ofText e text.toList)
    (hooks : ∀ k ∈ (TokenStream.ofText d text.toList).keywords, ∀ h, k ∈ d.hook h ↔ k ∈ e.hook h) :
    parse database d text = parse database e text := by
  let P := Pairing.ofHooks d e _ hooks nulls
  have hexact : P.Exact := ⟨fun _ => rfl, trivial⟩
  have htoken (t : Token) (ht : t ∈ (TokenStream.ofText d text.toList).tokens) : t.Alike P t :=
    ⟨rfl, .refl _, fun _ => rfl, rfl, fun _ hk => TokenStream.mem_keywords ht hk⟩
  refine (parse_alike (P := P) database (.refl text) ?_ (congrArg _ hstream)
    fun _ => .inl hexact.fold).eq hexact
  change List.Forall₂ _ _ (TokenStream.ofText e text.toList).tokens
  rw [← hstream]
  exact List.forall₂_same.2 htoken

/-- An aggregation is parsed in the dialect of MySQL as in the grammar alone:
    none of its keywords is in a hook. -/
theorem Statement.parse_mySql_eq_standard :
    Statement.parse .mySql .mySql "SELECT COUNT(id) AS n FROM orders WHERE user_id = 7" =
      Statement.parse .mySql .standard "SELECT COUNT(id) AS n FROM orders WHERE user_id = 7" :=
  Statement.parse_eq_of_hooks .mySql rfl (by decide +kernel) (by decide +kernel)

end SqlRouting
