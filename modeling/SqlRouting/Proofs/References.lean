import SqlRouting.Proofs.Facing
import SqlRouting.Proofs.Moves.Statement

/-!
# References to tables

Which tokens of an update or a deletion name its tables is a matter of the tokens alone: names of
tables stand directly behind the head of the statement, behind a comma and behind the keywords of a
join (`References.Introduced`), and a reference goes on behind a name with all that may belong to
it, an alias, hints and the condition of a join. `References.ofTokens` reads a list of tokens in
this way, with no state, no errors and no statement, and `tableNames` are the names that it finds.
It stops at a token that is neither a comma nor a keyword of a join (`References.headKind_rest`).
-/

namespace SqlRouting

/-! ## Names -/

/-- The token is read as a name without its quotes. -/
def Token.name (t : Token) : String :=
  Text.unquoted t.literal

/-- The names with one more, unless it is there already, in upper or lower case. -/
def addName (names : List String) (name : String) : List String :=
  if names.any (Text.sameLetters · name) then names else names ++ [name]

theorem Tables.names_add (ts : Tables) (t : Table) :
    (ts.add t).names = addName ts.names t.name := by
  have hany : ts.contains t.name = ts.names.any (Text.sameLetters · t.name) := by
    rw [contains, names, List.any_map]
    rfl
  rw [addName, ← hany]
  cases h : ts.contains t.name with
  | true => simp [names, toList_add_of_contains h]
  | false => simp [names, toList_add_of_not_contains h]

/-! ## Lists of tokens -/

namespace References

variable {σ : Type}

/-- What becomes of `a` by the steps that can be made from it, at most `n` of them. -/
def repeated (step? : σ → Option σ) : Nat → σ → σ
  | 0, a => a
  | n + 1, a =>
    match step? a with
    | some b => repeated step? n b
    | none => a

theorem repeated_of_none {step? : σ → Option σ} {a : σ} (h : step? a = none) (n : Nat) :
    repeated step? n a = a := by
  cases n with
  | zero => rfl
  | succ n => rw [repeated, h]

/-- What becomes of `a` by items with a separator between them, at most `n` of them. -/
def separated (item : σ → σ) (separator? : σ → Option σ) : Nat → σ → σ
  | 0, a => a
  | n + 1, a =>
    match separator? (item a) with
    | some b => separated item separator? n b
    | none => item a

/-- The tokens behind the first one. Behind the end of the text is its end again. -/
def behindToken (ts : List Token) : List Token :=
  if headKind ts = .endOfText then ts else ts.tail

/-- The tokens behind the first one, if that is of one of these kinds. -/
def behindKind? (kinds : List TokenKind) (ts : List Token) : Option (List Token) :=
  if headKind ts ∈ kinds then some ts.tail else none

/-- The tokens behind all the first ones that are of one of these kinds. -/
def behindKinds (kinds : List TokenKind) (ts : List Token) : List Token :=
  ts.dropWhile (·.kind ∈ kinds)

/-- The tokens behind the parenthesis that closes a group, `depth` groups being open inside. -/
def behindClosing : Nat → List Token → List Token
  | _, [] => []
  | depth, t :: ts =>
    if t.kind = .symbol .rightParen ∧ depth = 0 then ts
    else behindClosing (t.depthBehind depth) ts

/-- The tokens behind a group in parentheses, if they start with one. -/
def behindGroup (ts : List Token) : List Token :=
  if headKind ts = .symbol .leftParen then behindClosing 0 ts.tail else ts

/-! ### Operands -/

/-- The kinds of tokens that join more to an operand. -/
def joints : List TokenKind :=
  (Symbol.dot :: Symbol.operators).map .symbol

/-- The tokens behind what a joint joins to an operand: a token or a group, or both. -/
def behindJoined (ts : List Token) : List Token :=
  behindGroup (if headKind ts = .symbol .leftParen then ts else ts.tail)

/-- The tokens behind a joint and what it joins, perhaps with signs. -/
def behindJoint? (ts : List Token) : Option (List Token) :=
  (behindKind? joints ts).map fun more =>
    behindJoined (behindKinds [Symbol.minus, Symbol.plus, Symbol.tilde] more)

/-- The tokens behind all that is joined to an operand. -/
def behindJoints (ts : List Token) : List Token :=
  repeated behindJoint? ts.length ts

/-- The tokens behind any token and, if a dot follows, the name that it owns. -/
def behindAtom (ts : List Token) : List Token :=
  match behindKind? [Symbol.dot] (behindToken ts) with
  | some more => behindToken more
  | none => behindToken ts

/-- The tokens behind an operand without signs: a group, or an atom, which may have arguments, and
    all that is joined to it. -/
def behindUnsigned (ts : List Token) : List Token :=
  behindJoints (behindGroup (if headKind ts = .symbol .leftParen then ts else behindAtom ts))

/-- The tokens behind an operand. -/
def behindOperand (ts : List Token) : List Token :=
  behindUnsigned (behindKinds [Symbol.minus, Symbol.plus] ts)

/-! ### Tables -/

/-- The tokens behind the alias of a table, if there is one. Behind `AS` it may be anything but a
    symbol, and otherwise a name, a string or one of the keywords of the dialect. -/
def behindAlias (d : Dialect) (ts : List Token) : List Token :=
  match behindKind? [.keyword .AS] ts with
  | some more =>
    match headKind more with
    | .endOfText | .symbol _ => more
    | _ => more.tail
  | none =>
    (behindKind? ([.literal .identifier, .literal .chars] ++ d.tableAlias.map .keyword) ts).getD ts

/-- The tokens behind an index hint. -/
def behindHint? (d : Dialect) (ts : List Token) : Option (List Token) :=
  (behindKind? (d.indexHint.map .keyword) ts).map fun more =>
    behindGroup (behindKinds (Grammar.indexHintTargets.map .keyword) more)

/-- The tokens behind all index hints. -/
def behindIndexHints (d : Dialect) (ts : List Token) : List Token :=
  repeated (behindHint? d) ts.length ts

/-- The tokens behind the partitions of a table and its index hints. -/
def behindHints (d : Dialect) (ts : List Token) : List Token :=
  behindIndexHints d ((behindKind? (d.tablePartition.map .keyword) ts).elim ts behindGroup)

/-- The keywords of a join. -/
def joinKinds (d : Dialect) : List TokenKind :=
  (Grammar.joinTypes ++ d.joinTypes).map .keyword

/-- The tokens behind the keywords of a join, if there are any. -/
def behindJoinType? (d : Dialect) (ts : List Token) : Option (List Token) :=
  (behindKind? (joinKinds d) ts).map (behindKinds (joinKinds d))

/-- The tokens behind an equation of two operands. -/
def behindEquation (ts : List Token) : List Token :=
  behindOperand (behindOperand ts).tail

/-- The tokens behind equations joined by `AND`. -/
def behindEquations (ts : List Token) : List Token :=
  separated behindEquation (behindKind? [.keyword .AND]) ts.length ts

/-- The tokens behind the condition of a join, if there is one. -/
def behindCondition (ts : List Token) : List Token :=
  (behindKind? [.keyword .ON] ts).elim
    ((behindKind? [.keyword .USING] ts).elim ts behindGroup) behindEquations

end References

/-- What has been read of the references to tables: the tokens that name tables, and the tokens
    that are left. -/
structure References where
  names : List Token
  rest : List Token

namespace References

/-- A part of the references that names no table is read. -/
def skip (f : List Token → List Token) (r : References) : References :=
  { r with rest := f r.rest }

/-- The name of a table is read, with its alias. -/
def factor (d : Dialect) (r : References) : References where
  names := r.names ++ r.rest.take 1
  rest := behindAlias d r.rest.tail

/-- A table is read, with its alias and its hints. -/
def table (d : Dialect) (r : References) : References :=
  (factor d r).skip (behindHints d)

/-- A table that is joined to those before it is read, with the condition for it. -/
def joined? (d : Dialect) (r : References) : Option References :=
  (behindJoinType? d r.rest).map fun more => (table d ⟨r.names, more⟩).skip behindCondition

/-- A table is read with all those that are joined to it. -/
def reference (d : Dialect) (r : References) : References :=
  let first := table d r
  repeated (joined? d) first.rest.length first

/-- A comma is read, behind which is another reference. -/
def comma? (r : References) : Option References :=
  (behindKind? [.symbol .comma] r.rest).map fun more => { r with rest := more }

/-- The references to tables that the tokens start with. -/
def ofTokens (d : Dialect) (ts : List Token) : References :=
  separated (reference d) comma? ts.length ⟨[], ts⟩

end References

/-- The tokens of an update or a deletion behind its head, where its references to tables start. -/
def tokensAtReferences (d : Dialect) (ts : List Token) : List Token :=
  match headKind ts with
  | .keyword .UPDATE => References.behindKinds (d.skippedBehindUpdate.map .keyword) ts.tail
  | .keyword .DELETE =>
    let more := References.behindKinds (d.skippedBehindDelete.map .keyword) ts.tail
    (References.behindKind? [.keyword .FROM] more).getD more
  | _ => []

/-- The tokens of an update or a deletion that name tables in its references. -/
def tableNames (d : Dialect) (ts : List Token) : List Token :=
  (References.ofTokens d (tokensAtReferences d ts)).names

namespace References

/-! ## Where names stand -/

section

variable {σ : Type} {step? : σ → Option σ} {item : σ → σ} {a : σ} {n : Nat}

/-- What every step keeps is kept by all of them. -/
theorem repeated_of_step {P : σ → Prop} (hstep : ∀ {a b}, P a → step? a = some b → P b) (ha : P a) :
    P (repeated step? n a) := by
  induction n generalizing a with
  | zero => exact ha
  | succ n ih =>
    rw [repeated]
    split
    case h_1 b hb => exact ih (hstep ha hb)
    case h_2 => exact ha

/-- An item starts where `P` holds, first and behind every separator, and ends where `Q` does. -/
theorem separated_of_item {P Q : σ → Prop} (hitem : ∀ {a}, P a → Q (item a))
    (hstep : ∀ {a b}, Q a → step? a = some b → P b) (hPQ : ∀ {a}, P a → Q a) (ha : P a) :
    Q (separated item step? n a) := by
  induction n generalizing a with
  | zero => exact hPQ ha
  | succ n ih =>
    rw [separated]
    split
    case h_1 b hb => exact ih (hstep (hitem ha) hb)
    case h_2 => exact hitem ha

/-- If every step makes something smaller, no step can be made in the end. -/
theorem step?_repeated {size : σ → Nat} (hstep : ∀ {a b}, step? a = some b → size b < size a)
    (hn : size a ≤ n) : step? (repeated step? n a) = none := by
  induction n generalizing a with
  | zero =>
    refine Option.eq_none_iff_forall_ne_some.2 fun b hb => ?_
    have hlt : size b < size a := hstep hb
    omega
  | succ n ih =>
    rw [repeated]
    split
    case h_1 b hb =>
      have hlt := hstep hb
      exact ih (by omega)
    case h_2 hnone => exact hnone

/-- If every separator makes something smaller and no item makes it larger, a list ends with an item
    and before no separator. -/
theorem separated_ends {Q : σ → Prop} {size : σ → Nat} (hitem : ∀ a, Q (item a))
    (hsize : ∀ a, size (item a) ≤ size a) (hstep : ∀ {a b}, step? a = some b → size b < size a)
    (hzero : ∀ a, size a = 0 → Q a) (hn : size a ≤ n) :
    Q (separated item step? n a) ∧ step? (separated item step? n a) = none := by
  induction n generalizing a with
  | zero =>
    refine ⟨hzero a (Nat.le_zero.1 hn), Option.eq_none_iff_forall_ne_some.2 fun b hb => ?_⟩
    have hlt : size b < size a := hstep hb
    omega
  | succ n ih =>
    rw [separated]
    split
    case h_1 b hb =>
      have hlt := hstep hb
      have hle := hsize a
      exact ih (by omega)
    case h_2 hnone => exact ⟨hitem a, hnone⟩

end

section

variable {ts us : List Token} {kinds : List TokenKind} {d : Dialect}

theorem behindToken_suffix : behindToken ts <:+ ts := by
  rw [behindToken]
  split
  · exact List.suffix_rfl
  · exact List.tail_suffix ts

theorem of_behindKind? (h : behindKind? kinds ts = some us) :
    headKind ts ∈ kinds ∧ ts.tail = us := by
  rw [behindKind?] at h
  split at h
  case isTrue hkind => exact ⟨hkind, Option.some.inj h⟩
  case isFalse => cases h

theorem behindKind?_suffix (h : behindKind? kinds ts = some us) : us <:+ ts :=
  (of_behindKind? h).2 ▸ List.tail_suffix ts

theorem behindClosing_suffix {depth : Nat} : behindClosing depth ts <:+ ts := by
  induction ts generalizing depth with
  | nil => exact List.suffix_rfl
  | cons t ts ih =>
    rw [behindClosing]
    split
    · exact List.suffix_cons t ts
    · exact ih.trans (List.suffix_cons t ts)

theorem behindGroup_suffix : behindGroup ts <:+ ts := by
  rw [behindGroup]
  split
  · exact behindClosing_suffix.trans (List.tail_suffix ts)
  · exact List.suffix_rfl

/-- Steps that do not lead back do not lead back together. -/
theorem repeated_suffix {step? : List Token → Option (List Token)} {n : Nat}
    (hstep : ∀ {ts us}, step? ts = some us → us <:+ ts) : repeated step? n ts <:+ ts :=
  repeated_of_step (P := (· <:+ ts)) (fun hts hus => (hstep hus).trans hts) List.suffix_rfl

theorem behindJoint?_suffix (h : behindJoint? ts = some us) : us <:+ ts := by
  obtain ⟨more, hmore, rfl⟩ := Option.map_eq_some_iff.1 h
  have hjoined {vs : List Token} : behindJoined vs <:+ vs := by
    rw [behindJoined]
    split
    · exact behindGroup_suffix
    · exact behindGroup_suffix.trans (List.tail_suffix vs)
  exact (hjoined.trans (List.dropWhile_suffix _)).trans (behindKind?_suffix hmore)

theorem behindAtom_suffix : behindAtom ts <:+ ts := by
  rw [behindAtom]
  split
  case h_1 more hmore =>
    exact behindToken_suffix.trans ((behindKind?_suffix hmore).trans behindToken_suffix)
  case h_2 => exact behindToken_suffix

theorem behindOperand_suffix : behindOperand ts <:+ ts := by
  have hunsigned {vs : List Token} : behindUnsigned vs <:+ vs := by
    rw [behindUnsigned]
    refine (repeated_suffix behindJoint?_suffix).trans (behindGroup_suffix.trans ?_)
    split
    · exact List.suffix_rfl
    · exact behindAtom_suffix
  exact hunsigned.trans (List.dropWhile_suffix _)

theorem behindAlias_suffix : behindAlias d ts <:+ ts := by
  rw [behindAlias]
  split
  case h_1 more hmore =>
    refine List.IsSuffix.trans ?_ (behindKind?_suffix hmore)
    split
    · exact List.suffix_rfl
    · exact List.suffix_rfl
    · exact List.tail_suffix more
  case h_2 =>
    cases halias : behindKind? ([.literal .identifier, .literal .chars] ++
        d.tableAlias.map .keyword) ts with
    | some more => exact behindKind?_suffix halias
    | none => exact List.suffix_rfl

theorem behindHints_suffix : behindHints d ts <:+ ts := by
  have hhint {ts us : List Token} (h : behindHint? d ts = some us) : us <:+ ts := by
    obtain ⟨more, hmore, rfl⟩ := Option.map_eq_some_iff.1 h
    exact (behindGroup_suffix.trans (List.dropWhile_suffix _)).trans (behindKind?_suffix hmore)
  refine (repeated_suffix hhint).trans ?_
  cases hpartition : behindKind? (d.tablePartition.map .keyword) ts with
  | some more => exact behindGroup_suffix.trans (behindKind?_suffix hpartition)
  | none => exact List.suffix_rfl

theorem behindCondition_suffix : behindCondition ts <:+ ts := by
  have hequation {vs : List Token} : behindEquation vs <:+ vs :=
    behindOperand_suffix.trans ((List.tail_suffix _).trans behindOperand_suffix)
  have hequations {vs : List Token} : behindEquations vs <:+ vs :=
    separated_of_item (P := (· <:+ vs)) (Q := (· <:+ vs)) (fun h => hequation.trans h)
      (fun h hus => (behindKind?_suffix hus).trans h) id List.suffix_rfl
  rw [behindCondition]
  cases hon : behindKind? [.keyword .ON] ts with
  | some more => exact hequations.trans (behindKind?_suffix hon)
  | none =>
    cases husing : behindKind? [.keyword .USING] ts with
    | some more => exact behindGroup_suffix.trans (behindKind?_suffix husing)
    | none => exact List.suffix_rfl

/-- A token that is passed is one less. -/
theorem length_of_behindKind? (hend : .endOfText ∉ kinds) (h : behindKind? kinds ts = some us) :
    us.length < ts.length := by
  obtain ⟨hkind, rfl⟩ := of_behindKind? h
  cases ts with
  | nil => exact absurd hkind hend
  | cons t ts => exact Nat.lt_succ_self _

/-- Directly before the tokens behind the keywords of a join stands one of these. -/
theorem exists_of_behindJoinType? (h : behindJoinType? d ts = some us) :
    ∃ u, u.kind ∈ joinKinds d ∧ u :: us <:+ ts := by
  obtain ⟨more, hmore, rfl⟩ := Option.map_eq_some_iff.1 h
  obtain ⟨hkind, rfl⟩ := of_behindKind? hmore
  cases ts with
  | nil => simp [joinKinds] at hkind
  | cons t ts =>
    rw [headKind_cons] at hkind
    rw [List.tail_cons]
    clear h hmore
    induction ts generalizing t with
    | nil => exact ⟨t, hkind, List.suffix_rfl⟩
    | cons v ts ih =>
      rw [behindKinds]
      by_cases hv : v.kind ∈ joinKinds d
      · rw [List.dropWhile_cons_of_pos (by simpa using hv)]
        obtain ⟨u, hu, hsuffix⟩ := ih v hv
        exact ⟨u, hu, hsuffix.trans (List.suffix_cons t _)⟩
      · rw [List.dropWhile_cons_of_neg (by simpa using hv)]
        exact ⟨t, hkind, List.suffix_rfl⟩

/-- The token is the first of the tokens, or stands directly behind a comma or a keyword of a
    join. -/
def Introduced (d : Dialect) (ts : List Token) (t : Token) : Prop :=
  ts.head? = some t ∨ ∃ before u after, ts = before ++ u :: t :: after ∧
    u.kind ∈ .symbol .comma :: joinKinds d

/-- The references are read from the tokens, and their names are introduced in them. -/
structure Within (d : Dialect) (ts : List Token) (r : References) : Prop where
  rest : r.rest <:+ ts
  names : ∀ t ∈ r.names, Introduced d ts t

/-- The next token is introduced as well, if there is one. -/
def IsDue (d : Dialect) (ts : List Token) (r : References) : Prop :=
  r.Within d ts ∧ ∀ t ∈ r.rest.head?, Introduced d ts t

variable {r r' : References}

/-- Behind a comma or the keywords of a join the next token is introduced. -/
theorem Within.isDue (h : r.Within d ts) {u : Token} (hsuffix : u :: us <:+ ts)
    (hkind : u.kind ∈ .symbol .comma :: joinKinds d) : IsDue d ts ⟨r.names, us⟩ := by
  refine ⟨⟨(List.suffix_cons u us).trans hsuffix, h.names⟩, fun t ht => .inr ?_⟩
  obtain ⟨after, rfl⟩ := List.head?_eq_some_iff.1 ht
  obtain ⟨before, hbefore⟩ := hsuffix
  exact ⟨before, u, after, hbefore.symm, hkind⟩

theorem Within.skip {f : List Token → List Token} (h : r.Within d ts)
    (hf : ∀ {us}, f us <:+ us) : (r.skip f).Within d ts :=
  ⟨hf.trans h.rest, h.names⟩

theorem IsDue.table (h : IsDue d ts r) : (table d r).Within d ts := by
  refine ⟨behindHints_suffix.trans (behindAlias_suffix.trans
    ((List.tail_suffix _).trans h.1.rest)), fun t ht => ?_⟩
  rcases List.mem_append.1 ht with ht | ht
  · exact h.1.names t ht
  · refine h.2 t ?_
    cases hrest : r.rest with
    | nil => simp [hrest] at ht
    | cons u us => simpa [hrest, eq_comm] using ht

theorem Within.joined? (h : r.Within d ts) (hr' : joined? d r = some r') : r'.Within d ts := by
  obtain ⟨more, hmore, rfl⟩ := Option.map_eq_some_iff.1 hr'
  obtain ⟨u, hu, hsuffix⟩ := exists_of_behindJoinType? hmore
  have hdue := h.isDue (hsuffix.trans h.rest) (List.mem_cons_of_mem _ hu)
  exact hdue.table.skip behindCondition_suffix

theorem IsDue.reference (h : IsDue d ts r) : (reference d r).Within d ts :=
  repeated_of_step Within.joined? h.table

theorem Within.comma? (h : r.Within d ts) (hr' : comma? r = some r') : IsDue d ts r' := by
  obtain ⟨more, hmore, rfl⟩ := Option.map_eq_some_iff.1 hr'
  obtain ⟨hkind, rfl⟩ := of_behindKind? hmore
  cases hrest : r.rest with
  | nil => simp [hrest] at hkind
  | cons u us =>
    rw [hrest, headKind_cons, List.mem_singleton] at hkind
    exact h.isDue (hrest ▸ h.rest) (List.mem_cons.2 (.inl hkind))

/-- Names of tables stand directly behind the head of the statement, behind a comma and behind the
    keywords of a join. -/
theorem introduced_of_mem {t : Token} (ht : t ∈ (ofTokens d ts).names) : Introduced d ts t := by
  have hstart : IsDue d ts ⟨[], ts⟩ :=
    ⟨⟨List.suffix_rfl, by simp⟩, fun t ht => .inl ht⟩
  exact (separated_of_item IsDue.reference Within.comma? (·.1) hstart).names t ht

/-! ## Where references stop -/

theorem length_table_le : (table d r).rest.length ≤ r.rest.length :=
  (behindHints_suffix.trans (behindAlias_suffix.trans (List.tail_suffix _))).length_le

theorem length_of_joined? (h : joined? d r = some r') : r'.rest.length < r.rest.length := by
  obtain ⟨more, hmore, rfl⟩ := Option.map_eq_some_iff.1 h
  obtain ⟨u, _, hsuffix⟩ := exists_of_behindJoinType? hmore
  calc (behindCondition (table d ⟨r.names, more⟩).rest).length
    _ ≤ (table d ⟨r.names, more⟩).rest.length := behindCondition_suffix.length_le
    _ ≤ more.length := length_table_le
    _ < (u :: more).length := Nat.lt_succ_self _
    _ ≤ r.rest.length := hsuffix.length_le

theorem length_of_comma? (h : comma? r = some r') : r'.rest.length < r.rest.length := by
  obtain ⟨more, hmore, rfl⟩ := Option.map_eq_some_iff.1 h
  exact length_of_behindKind? (by simp) hmore

/-- The references stop at a token that is neither a comma nor a keyword of a join. -/
theorem headKind_rest : headKind (ofTokens d ts).rest ∉ .symbol .comma :: joinKinds d := by
  have hlength (r : References) : (reference d r).rest.length ≤ r.rest.length :=
    repeated_of_step (P := (·.rest.length ≤ r.rest.length))
      (fun hle hb => Nat.le_trans (Nat.le_of_lt (length_of_joined? hb)) hle) length_table_le
  have hzero (r : References) (hr : r.rest.length = 0) : joined? d r = none := by
    rw [joined?, List.length_eq_zero_iff.1 hr]
    simp [behindJoinType?, behindKind?, joinKinds]
  have hends : joined? d (ofTokens d ts) = none ∧ comma? (ofTokens d ts) = none :=
    separated_ends (Q := (joined? d · = none))
      (fun r => step?_repeated length_of_joined? (Nat.le_refl _)) hlength length_of_comma? hzero
      (Nat.le_refl _)
  obtain ⟨hjoin, hcomma⟩ := hends
  rw [joined?, behindJoinType?, Option.map_eq_none_iff, Option.map_eq_none_iff,
    behindKind?] at hjoin
  rw [comma?, Option.map_eq_none_iff, behindKind?] at hcomma
  simp_all

end

end References

end SqlRouting
