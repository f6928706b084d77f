import Mathlib.Data.List.Nodup
import SqlRouting.Proofs.Moves.Statement

/-!
# The indices of placeholders

A placeholder takes its index when it is read, and what it is recorded in may be recorded much
later: the condition of a list of values, an assignment, a limit whose numbers change their roles.
All the same the indices that a statement records tell its placeholders apart and follow the text
(`parse_indices`): those of the assignments come first, then those of the conditions, then those of
the limit, and all of them are below the number of parameters. So the numbers of a limit have values
whenever all parameters have.

The counter only grows, and a placeholder is an operand of its own only with an index between the
counters before and behind it (`operand_ascending`). Everything else is kept as invariants of the
clauses that record operands (`Preserves`).
-/

namespace SqlRouting

/-! ## What is recorded -/

/-- The index of a placeholder. -/
def Expression.index? : Expression → Option Nat
  | placeholder index => some index
  | text _ | number _ | identifier _ | property _ _ | other _ => none

/-- The indices of the placeholders among the expressions. -/
def indices (es : List Expression) : List Nat :=
  es.filterMap Expression.index?

theorem indices_append (es es' : List Expression) :
    indices (es ++ es') = indices es ++ indices es' :=
  List.filterMap_append

/-- The comparison is one with so many values. -/
def Comparison.Takes : Comparison → Nat → Prop
  | equal, n => n = 1
  | isIn, n => 1 ≤ n
  | between, n => n = 2

/-- The indices of the placeholders that a column is compared with. -/
def Condition.indices (c : Condition) : List Nat :=
  SqlRouting.indices c.values

/-- The indices of the placeholders in a limit, that of the offset first. -/
def Limit.indices (l : Limit) : List Nat :=
  (l.offset.toList ++ l.rowCount.toList).filterMap LimitValue.parameterIndex?

/-- The indices of the placeholders in the assignments of an update. -/
def UpdateClauses.indices (u : UpdateClauses) : List Nat :=
  SqlRouting.indices (u.assignments.map Prod.snd)

namespace Statement

/-- The indices of the placeholders that columns are set to. -/
def assignmentIndices : Statement → List Nat
  | update body => body.clauses.indices
  | select _ | insert _ | delete _ => []

/-- The indices of the placeholders in the conditions. -/
def conditionIndices (s : Statement) : List Nat :=
  s.routing.conditions.toList.flatMap Condition.indices

/-- The indices of the placeholders in the limit. -/
def limitIndices (s : Statement) : List Nat :=
  (s.limit?.map Limit.indices).getD []

end Statement

/-- What a number of a limit stands for under the parameters: itself, or the parameter of its
    placeholder. -/
inductive LimitValue.Denotes (parameters : List Int) : LimitValue → Int → Prop
  | literal (value : Int) : Denotes parameters (.literal value) value
  | parameter {index : Nat} {value : Int} (h : parameters[index]? = some value) :
    Denotes parameters (.parameter index) value

/-! ## Indices in order -/

/-- The indices increase, from `low` on and below `high`. -/
structure Ascending (low high : Nat) (is : List Nat) : Prop where
  sorted : is.Pairwise (· < ·)
  bounds : ∀ i ∈ is, low ≤ i ∧ i < high

namespace Ascending

variable {low low' middle high high' : Nat} {is js : List Nat}

theorem nil : Ascending low high [] :=
  ⟨.nil, by simp⟩

theorem mono (h : Ascending low high is) (hlow : low' ≤ low) (hhigh : high ≤ high') :
    Ascending low' high' is := by
  refine ⟨h.sorted, fun i hi => ?_⟩
  have := h.bounds i hi
  omega

theorem append (h : Ascending low middle is) (h' : Ascending middle high js)
    (hlow : low ≤ middle) (hhigh : middle ≤ high) : Ascending low high (is ++ js) := by
  refine ⟨List.pairwise_append.2 ⟨h.sorted, h'.sorted, fun i hi j hj => ?_⟩, fun i hi => ?_⟩
  · exact Nat.lt_of_lt_of_le (h.bounds i hi).2 (h'.bounds j hj).1
  · rcases List.mem_append.1 hi with hi | hi
    · have := h.bounds i hi
      omega
    · have := h'.bounds i hi
      omega

end Ascending

/-- The indices are different, from `low` on and below `high`. -/
structure Fresh (low high : Nat) (is : List Nat) : Prop where
  nodup : is.Nodup
  bounds : ∀ i ∈ is, low ≤ i ∧ i < high

theorem Ascending.fresh {low high : Nat} {is : List Nat} (h : Ascending low high is) :
    Fresh low high is :=
  ⟨h.sorted.imp Nat.ne_of_lt, h.bounds⟩

theorem Fresh.mono {low low' high high' : Nat} {is : List Nat} (h : Fresh low high is)
    (hlow : low' ≤ low) (hhigh : high ≤ high') : Fresh low' high' is := by
  refine ⟨h.nodup, fun i hi => ?_⟩
  have := h.bounds i hi
  omega

theorem Fresh.swap {low high : Nat} {is js : List Nat} (h : Fresh low high (is ++ js)) :
    Fresh low high (js ++ is) :=
  ⟨List.perm_append_comm.nodup h.nodup, fun i hi => h.bounds i (List.mem_append.2
    (List.mem_append.1 hi).symm)⟩

theorem Limit.indices_pair (database : Database) (offset rowCount : LimitValue) :
    (Limit.mk database (some offset) (some rowCount)).indices =
      offset.parameterIndex?.toList ++ rowCount.parameterIndex?.toList := by
  cases offset <;> cases rowCount <;> rfl

/-- Conditions on different columns whose placeholders have different indices, increasing in each
    condition, from `low` on and below `high`. -/
structure Conditions.Numbered (low high : Nat) (cs : Conditions) : Prop where
  columns : cs.toList.Pairwise (·.column ≠ ·.column)
  ascending : ∀ c ∈ cs.toList, Ascending low high c.indices
  disjoint : cs.toList.Pairwise fun c c' => ∀ i ∈ c.indices, i ∉ c'.indices

namespace Conditions.Numbered

variable {low middle high : Nat} {cs : Conditions} {c : Condition}

theorem empty : Numbered low high {} :=
  ⟨.nil, by simp, .nil⟩

theorem mono (h : cs.Numbered low middle) (hle : middle ≤ high) : cs.Numbered low high :=
  ⟨h.columns, fun c hc => (h.ascending c hc).mono (Nat.le_refl _) hle, h.disjoint⟩

/-- A condition with new indices may be added, whether it replaces an old one or not. -/
theorem add (h : cs.Numbered low middle) (hc : Ascending middle high c.indices)
    (hlow : low ≤ middle) (hhigh : middle ≤ high) : (cs.add c).Numbered low high := by
  have hold : ∀ old ∈ cs.toList, Ascending low high old.indices := fun old hmem =>
    (h.ascending old hmem).mono (Nat.le_refl _) hhigh
  have hfresh : ∀ old ∈ cs.toList, ∀ i ∈ old.indices, i ∉ c.indices := by
    intro old hmem i hi hi'
    have hlt := ((h.ascending old hmem).bounds i hi).2
    have hle := (hc.bounds i hi').1
    omega
  unfold Conditions.add
  split
  case isTrue =>
    refine ⟨?_, fun new hnew => ?_, ?_⟩
    · simpa [List.pairwise_map] using h.columns
    · obtain ⟨old, hmem, rfl⟩ := List.mem_map.1 hnew
      unfold replace
      split
      · exact hc.mono hlow (Nat.le_refl _)
      · exact hold old hmem
    -- As the columns differ, of two conditions at most one is replaced.
    · refine List.pairwise_map.2 ((h.columns.and h.disjoint).imp_of_mem ?_)
      intro a b ha hb hab i hi
      unfold replace at hi ⊢
      split at hi
      case isTrue hcol =>
        rw [if_neg fun hcol' => hab.1 (hcol.trans hcol'.symm)]
        exact fun hi' => hfresh b hb i hi' hi
      case isFalse =>
        split
        · exact hfresh a ha i hi
        · exact hab.2 i hi
  case isFalse hnone =>
    have hnone : ∀ old ∈ cs.toList, old.column ≠ c.column := by simpa [get?] using hnone
    refine ⟨?_, fun new hnew => ?_, ?_⟩
    · exact List.pairwise_append.2 ⟨h.columns, by simp, by simpa using hnone⟩
    · rcases List.mem_append.1 hnew with hmem | hmem
      · exact hold new hmem
      · rw [List.mem_singleton.1 hmem]
        exact hc.mono hlow (Nat.le_refl _)
    · exact List.pairwise_append.2 ⟨h.disjoint, by simp, by simpa using hfresh⟩

end Conditions.Numbered

/-! ## Invariants -/

/-- The number of parameters never decreases. -/
theorem Run.parameters_le {κ : Type} {E : Scope κ} {stream : List Token} {s s' : ParseState κ}
    (h : Run E stream s s') (hs : s.On stream) : s.body.parameters ≤ s'.body.parameters := by
  refine h.rel (R := fun s s' => s.body.parameters ≤ s'.body.parameters)
    (fun _ => Nat.le_refl _) Nat.le_trans ?_ hs
  intro s s' _ hmove
  cases hmove with
  | count => exact Nat.le_succ _
  | _ => exact Nat.le_refl _

/-- The parser moves along the stream and keeps the invariant. -/
def Preserves {κ α : Type} (I : ParseState κ → Prop) (p : Parser κ α) : Prop :=
  ∀ ⦃stream s a s'⦄, p s = .ok a s' → s.On stream → s'.On stream ∧ (I s → I s')

namespace Preserves

open SqlRouting.Parser

variable {κ α β : Type} {I : ParseState κ → Prop}

theorem pure (a : α) : Preserves I (Pure.pure a) := by
  intro stream s b s' h hs
  obtain ⟨_, rfl⟩ := pure_eq_ok.1 h
  exact ⟨hs, id⟩

theorem bind {p : Parser κ α} {f : α → Parser κ β} (hp : Preserves I p)
    (hf : ∀ a, Preserves I (f a)) : Preserves I (p >>= f) := by
  intro stream s b s' h hs
  obtain ⟨a, s₁, h₁, h⟩ := bind_eq_ok.1 h
  obtain ⟨hs₁, hI₁⟩ := hp h₁ hs
  obtain ⟨hs', hI'⟩ := hf a h hs₁
  exact ⟨hs', fun hI => hI' (hI₁ hI)⟩

theorem ite {c : Prop} [Decidable c] {p q : Parser κ α} (hp : Preserves I p)
    (hq : Preserves I q) : Preserves I (if c then p else q) := by
  split
  · exact hp
  · exact hq

/-- Moves keep whatever they do not touch. -/
theorem of_moves {E : Scope κ} {p : Parser κ α} (hp : Moves E p)
    (hI : ∀ {stream s s'}, Run E stream s s' → s.On stream → I s → I s') : Preserves I p :=
  fun _ _ _ _ h hs => ⟨(hp h).on hs, hI (hp h) hs⟩

theorem separatedBy {separator : Parser κ Bool} {item : Parser κ α} (hsep : Preserves I separator)
    (hitem : Preserves I item) : Preserves I (Parser.separatedBy separator item) := by
  intro stream s as s' h hs
  rw [Parser.separatedBy, cursor_bind] at h
  generalize s.cursor.movesLeft = n at h
  induction n generalizing s as with
  | zero => exact Preserves.pure [] h hs
  | succ n ih =>
    simp only [collect, bind_eq_ok, ite_eq_ok, pure_eq_ok] at h
    obtain ⟨a, s₁, h₁, more, s₂, h₂, h⟩ := h
    obtain ⟨hs₁, hI₁⟩ := hitem h₁ hs
    obtain ⟨hs₂, hI₂⟩ := hsep h₂ hs₁
    rcases h with ⟨_, as', s₃, h, _, rfl⟩ | ⟨_, _, rfl⟩
    · obtain ⟨hs₃, hI₃⟩ := ih hs₂ h
      exact ⟨hs₃, fun hI => hI₃ (hI₂ (hI₁ hI))⟩
    · exact ⟨hs₂, fun hI => hI₂ (hI₁ hI)⟩

end Preserves

namespace Grammar

open SqlRouting.Parser

variable {κ : Type} {stream : List Token} {s s' : ParseState κ}

/-! ## Operands -/

/-- A placeholder takes the next index. -/
theorem index_of_atom {t : Token} {i : Nat} (h : atom t s = .ok (.placeholder i) s') :
    s.body.parameters = i ∧ s.counted = s' := by
  rw [atom] at h
  generalize t.kind = kind at h
  split at h
  case h_1 =>
    simp only [bind_eq_ok, takePlaceholder_eq_ok, pure_eq_ok, Expression.placeholder.injEq] at h
    obtain ⟨_, _, ⟨rfl, rfl⟩, rfl, rfl⟩ := h
    exact ⟨rfl, rfl⟩
  case h_3 => cases hn : Number.ofInt? t.literal <;> simp [hn, pure_eq_ok] at h
  case h_4 => cases hn : Number.ofHex? t.literal <;> simp [hn, pure_eq_ok] at h
  all_goals simp [pure_eq_ok] at h

theorem index_of_unsignedOperand {i : Nat} (h : unsignedOperand s = .ok (.placeholder i) s')
    (hs : s.On stream) : s.body.parameters ≤ i ∧ i < s'.body.parameters := by
  simp only [unsignedOperand, current_bind, cursor_bind, ite_eq_ok, bind_eq_ok, pure_eq_ok,
    reduceCtorEq, false_and, and_false, exists_false, false_or] at h
  obtain ⟨_, value, s₁, hatom, _, s₂, hadvance, dotted, s₃, hdot, _, composite, s₄, hcomposite, _,
    rfl, rfl⟩ := h
  have hfirst : Run (Scope.marksOnly κ) stream s s₂ := atom_run hatom hadvance
  have hrest : Run (Scope.marksOnly κ) stream s₂ s₄ :=
    (skipSymbol_moves (by decide) hdot).trans (skipComposite_moves hcomposite)
  -- The counter has been advanced before the cursor is.
  obtain ⟨rfl, rfl⟩ := index_of_atom hatom
  obtain ⟨c, _, rfl⟩ := advance_eq_ok.1 hadvance
  exact ⟨Nat.le_refl _, hrest.parameters_le (hfirst.on hs)⟩

/-- An operand that is a placeholder has an index that was not given before and is given then. -/
theorem operand_ascending {e : Expression} (h : operand s = .ok e s') (hs : s.On stream) :
    Ascending s.body.parameters s'.body.parameters (indices [e]) := by
  cases e with
  | placeholder i =>
    simp only [operand, current_bind, cursor_bind, bind_eq_ok, ite_eq_ok, pure_eq_ok] at h
    obtain ⟨found, s₁, hsigns, value, s₂, hvalue, h⟩ := h
    have hsigns : Run (Scope.marksOnly κ) stream s s₁ := signs_moves _ hsigns
    rcases h with ⟨_, rfl, rfl⟩ | ⟨_, h⟩
    · have hindex := index_of_unsignedOperand hvalue (hsigns.on hs)
      have hle := hsigns.parameters_le hs
      refine ⟨by simp [indices, Expression.index?], fun j hj => ?_⟩
      obtain rfl : j = i := by simpa [indices, Expression.index?] using hj
      omega
    -- Behind signs no placeholder is an operand of its own.
    · cases value <;> simp only [bind_eq_ok, pure_eq_ok, reduceCtorEq, false_and, and_false,
        exists_false] at h
  | text | number | identifier | property | other => exact .nil

/-- The placeholders of a list have increasing indices if those of an item have new ones. -/
theorem commaSeparated_ascending {α : Type} {E : Scope κ} {item : Parser κ α} {f : α → Expression}
    (hmoves : Moves E item)
    (hitem : ∀ {s a s'}, item s = .ok a s' → s.On stream →
      Ascending s.body.parameters s'.body.parameters (indices [f a]))
    {as : List α} (h : commaSeparated item s = .ok as s') (hs : s.On stream) :
    Ascending s.body.parameters s'.body.parameters (indices (as.map f)) := by
  rw [commaSeparated, separatedBy, cursor_bind] at h
  generalize s.cursor.movesLeft = n at h
  induction n generalizing s as with
  | zero =>
    obtain ⟨rfl, rfl⟩ := pure_eq_ok.1 h
    exact .nil
  | succ n ih =>
    simp only [collect, bind_eq_ok, ite_eq_ok, pure_eq_ok] at h
    obtain ⟨a, s₁, ha, more, s₂, hmore, h⟩ := h
    have hfirst := hitem ha hs
    have hrun : Run E stream s s₁ := hmoves ha
    have hcomma : Run E stream s₁ s₂ := skipSymbol_moves (by decide) hmore
    have hle := hrun.parameters_le hs
    have hle' := hcomma.parameters_le (hrun.on hs)
    rcases h with ⟨_, as', s₃, h, rfl, rfl⟩ | ⟨_, rfl, rfl⟩
    · rw [List.map_cons, ← List.singleton_append, indices_append]
      have hs₂ := hcomma.on (hrun.on hs)
      have hitems : Run E stream s₂ s₃ := fun hs =>
        (collect_run (Q := fun _ => True) (fun h _ => ⟨hmoves h, trivial⟩)
          (skipSymbol_moves (by decide)) h hs).1 hs
      exact (hfirst.mono (Nat.le_refl _) hle').append (ih hs₂ h) (by omega)
        (hitems.parameters_le hs₂)
    · exact hfirst.mono (Nat.le_refl _) hle'

/-- The placeholders of a list of operands have increasing indices. -/
theorem operands_ascending {es : List Expression} (h : commaSeparated operand s = .ok es s')
    (hs : s.On stream) : Ascending s.body.parameters s'.body.parameters (indices es) := by
  have hascending := commaSeparated_ascending (E := Scope.marksOnly κ) (f := id) operand_moves
    operand_ascending h hs
  rwa [List.map_id] at hascending

/-! ## Conditions -/

/-- The parser reads values, as many as the comparison takes, and gives their placeholders new
    indices. -/
structure ReadsValues {α : Type} (comparison : Comparison) (p : Parser κ α)
    (f : α → List Expression) : Prop where
  moves : Moves (Scope.marksOnly κ) p
  ascending : ∀ {stream s a s'}, p s = .ok a s' → s.On stream →
    Ascending s.body.parameters s'.body.parameters (indices (f a))
  takes : ∀ {s a s'}, p s = .ok a s' → comparison.Takes (f a).length

theorem operand_readsValues : ReadsValues (κ := κ) .equal operand fun e => [e] :=
  ⟨operand_moves, operand_ascending, fun _ => rfl⟩

theorem inValues_readsValues : ReadsValues (κ := κ) .isIn inValues id where
  moves := inValues_moves
  ascending := by
    intro stream s es s' h hs
    simp only [inValues, cursor_bind, ite_eq_ok, bind_eq_ok, throw_eq_ok, false_and, and_false,
      exists_false, false_or, pure_eq_ok] at h
    obtain ⟨_, s₁, hopen, _, values, s₂, hvalues, _, s₃, hclose, rfl, rfl⟩ := h
    have hopen : Run (Scope.marksOnly κ) stream s s₁ := accept_moves (by decide) hopen
    have hlist : Run (Scope.marksOnly κ) stream s₁ s₂ := commaSeparated_moves operand_moves hvalues
    have hclose : Run (Scope.marksOnly κ) stream s₂ s₃ := accept_moves (by decide) hclose
    have hs₁ := hopen.on hs
    exact (operands_ascending hvalues hs₁).mono (hopen.parameters_le hs)
      (hclose.parameters_le (hlist.on hs₁))
  takes := by
    intro s es s' h
    simp only [inValues, cursor_bind, ite_eq_ok, bind_eq_ok, throw_eq_ok, false_and, and_false,
      exists_false, false_or, pure_eq_ok] at h
    obtain ⟨_, s₁, _, _, values, s₂, hvalues, _, s₃, _, rfl, _⟩ := h
    exact List.length_pos_iff.2 (separatedBy_ne_nil hvalues)

theorem betweenBounds_readsValues : ReadsValues (κ := κ) .between betweenBounds id where
  moves := betweenBounds_moves
  ascending := by
    intro stream s es s' h hs
    simp only [betweenBounds, bind_eq_ok, pure_eq_ok] at h
    obtain ⟨low, s₁, hlow, _, s₂, hand, high, s₃, hhigh, rfl, rfl⟩ := h
    have hrun : Run (Scope.marksOnly κ) stream s s₁ := operand_moves hlow
    have hand : Run (Scope.marksOnly κ) stream s₁ s₂ := accept_moves (by decide) hand
    have hrun' : Run (Scope.marksOnly κ) stream s₂ s₃ := operand_moves hhigh
    have hs₁ := hrun.on hs
    have hs₂ := hand.on hs₁
    have hle := hand.parameters_le hs₁
    show Ascending _ _ (indices ([low] ++ [high]))
    rw [indices_append]
    exact ((operand_ascending hlow hs).mono (Nat.le_refl _) hle).append
      (operand_ascending hhigh hs₂) (Nat.le_trans (hrun.parameters_le hs) hle)
      (hrun'.parameters_le hs₂)
  takes := by
    intro s es s' h
    simp only [betweenBounds, bind_eq_ok, pure_eq_ok] at h
    obtain ⟨low, _, _, _, _, _, high, _, _, rfl, _⟩ := h
    rfl

/-- What becomes of a condition: it is recorded on the column that its left side names, if there
    is one and all of its values are values. -/
theorem recordCondition_eq_ok {left : Expression} {comparison : Comparison}
    {values : List Expression} {u : Unit}
    (h : recordCondition left comparison values s = .ok u s') :
    s = s' ∨ ∃ column, s.body.tables.column? left = some column ∧
      (∀ e ∈ values, e.isValue = true) ∧
      { s with body := { s.body with
          conditions := s.body.conditions.add ⟨column, comparison, values⟩ } } = s' := by
  simp only [recordCondition, routing_bind, ite_eq_ok, pure_eq_ok] at h
  rcases h with ⟨hvalues, h⟩ | ⟨_, _, rfl⟩
  · cases hcolumn : s.body.tables.column? left with
    | none =>
      rw [hcolumn] at h
      exact .inl (pure_eq_ok.1 h).2
    | some column =>
      rw [hcolumn] at h
      exact .inr ⟨column, rfl, List.all_eq_true.1 hvalues, modifyRouting_eq_ok.1 h⟩
  · exact .inl rfl

/-! An invariant that is kept by whatever records no conditions, and by a condition that is recorded
with the values that have just been read, is kept by a `WHERE`. -/

section

variable {I : ParseState κ → Prop}
  (hmoves : ∀ {α : Type} {p : Parser κ α}, Moves (Scope.marksOnly κ) p → Preserves I p)
  (hrecord : ∀ {α : Type} {comparison : Comparison} {p : Parser κ α} {f : α → List Expression},
    ReadsValues comparison p f → ∀ left,
      Preserves I (p >>= fun a => recordCondition left comparison (f a)))

include hmoves hrecord

theorem predicate_preserves (left : Expression) : Preserves I (predicate left) :=
  (hmoves dialect_moves).bind fun _ => (hmoves (skipSymbol_moves (by decide))).bind fun _ =>
      .ite (hrecord operand_readsValues left) <|
    (hmoves (skipKeyword_moves _)).bind fun _ => .ite (hrecord inValues_readsValues left) <|
    (hmoves (skipKeyword_moves _)).bind fun _ => .ite (hrecord betweenBounds_readsValues left) <|
    -- All other comparisons are consumed without being recorded.
    (hmoves (skipKeyword_moves _)).bind fun _ => .ite (hmoves negatedComparison_moves) <|
    (hmoves (skipKeyword_moves _)).bind fun _ =>
      .ite (hmoves ((skipKeyword_moves _).bind fun _ => operand_moves.bind fun _ => .pure _)) <|
    (hmoves (skipIf_moves (by simp [looseComparisons]))).bind fun _ =>
      .ite (hmoves (operand_moves.bind fun _ => .pure _)) (.pure _)

theorem comparison_preserves : Preserves I comparison :=
  (hmoves refuseEnd_moves).bind fun _ => (hmoves (skipSymbol_moves (by decide))).bind fun _ =>
    (hmoves operand_moves).bind fun _ => (predicate_preserves hmoves hrecord _).bind fun _ =>
      (hmoves (skipSymbol_moves (by decide))).bind fun _ => .pure _

theorem whereClause_preserves : Preserves I whereClause :=
  (hmoves tableAlias_moves).bind fun _ => (hmoves (skipKeyword_moves _)).bind fun _ => .ite
    (((Preserves.separatedBy (hmoves (skipKeyword_moves _))
      (comparison_preserves hmoves hrecord)).bind fun _ => .pure _).bind fun _ =>
        hmoves (refuse_moves _))
    (.pure _)

end

/-! ## Numbered conditions -/

/-- The conditions are numbered from `low` on, below the counter. -/
def ConditionsNumbered (low : Nat) (s : ParseState κ) : Prop :=
  low ≤ s.body.parameters ∧ s.body.conditions.Numbered low s.body.parameters

theorem ConditionsNumbered.of_run {E : Scope κ} {low : Nat} (hE : ¬E.conditions)
    (h : Run E stream s s') (hs : s.On stream) (hn : ConditionsNumbered low s) :
    ConditionsNumbered low s' := by
  have hle := h.parameters_le hs
  refine ⟨Nat.le_trans hn.1 hle, ?_⟩
  rw [h.conditions_eq hs hE]
  exact hn.2.mono hle

/-- A condition may be recorded with the values that have just been read. -/
theorem recordCondition_numbered {α : Type} {low : Nat} {comparison : Comparison}
    {p : Parser κ α} {f : α → List Expression} (hp : ReadsValues comparison p f)
    (left : Expression) :
    Preserves (ConditionsNumbered low) (p >>= fun a => recordCondition left comparison (f a)) := by
  intro stream s u s' h hs
  obtain ⟨a, s₁, h₁, h⟩ := bind_eq_ok.1 h
  have hrun : Run (Scope.marksOnly κ) stream s s₁ := hp.moves h₁
  have hs₁ := hrun.on hs
  have hascending := hp.ascending h₁ hs
  have hle := hrun.parameters_le hs
  have hnumbered : ConditionsNumbered low s → ConditionsNumbered low s₁ :=
    ConditionsNumbered.of_run id hrun hs
  rcases recordCondition_eq_ok h with rfl | ⟨column, _, _, rfl⟩
  · exact ⟨hs₁, hnumbered⟩
  · refine ⟨⟨hs₁.tokens, hs₁.closed⟩, fun hn => ⟨(hnumbered hn).1, ?_⟩⟩
    -- The old conditions end where the values began.
    have hold : s.body.conditions.Numbered low s.body.parameters := hn.2
    rw [← hrun.conditions_eq hs id] at hold
    exact hold.add hascending hn.1 hle

theorem whereClause_numbered (low : Nat) :
    Preserves (ConditionsNumbered (κ := κ) low) whereClause :=
  whereClause_preserves (fun hp => .of_moves hp (.of_run id)) recordCondition_numbered

/-! ## Assignments -/

/-- The assignments are numbered below the counter. -/
def AssignmentsNumbered (s : ParseState UpdateClauses) : Prop :=
  Ascending 0 s.body.parameters s.body.clauses.indices

theorem AssignmentsNumbered.of_run {E : Scope UpdateClauses} {s s' : ParseState UpdateClauses}
    (hE : ∀ t c c', ¬E.clauses t c c') (h : Run E stream s s') (hs : s.On stream)
    (hn : AssignmentsNumbered s) : AssignmentsNumbered s' := by
  rw [AssignmentsNumbered, h.clauses_eq hs hE]
  exact hn.mono (Nat.le_refl _) (h.parameters_le hs)

/-- An assignment is recorded with the value that has just been read. -/
theorem assignment_preserves : Preserves AssignmentsNumbered assignment := by
  intro stream s u s' h hs
  simp only [assignment, routing_bind, bind_eq_ok, refuseEnd_eq_ok] at h
  obtain ⟨_, _, ⟨_, rfl⟩, target, s₁, htarget, _, s₂, hsign, _, _, ⟨_, rfl⟩, value, s₃, hvalue,
    h⟩ := h
  have hhead : Run (Scope.marksOnly _) stream s s₂ :=
    (operand_moves htarget).trans (skipIf_moves (by decide) hsign)
  have hread : Run (Scope.marksOnly _) stream s₂ s₃ := operand_moves hvalue
  have hs₂ := hhead.on hs
  have hs₃ := hread.on hs₂
  have hnumbered := fun hn => AssignmentsNumbered.of_run (fun _ _ _ => id) hhead hs hn
  cases hcolumn : s₃.body.tables.column? target with
  | none =>
    rw [hcolumn] at h
    obtain ⟨_, rfl⟩ := pure_eq_ok.1 h
    exact ⟨hs₃, fun hn => .of_run (fun _ _ _ => id) hread hs₂ (hnumbered hn)⟩
  | some column =>
    rw [hcolumn] at h
    obtain rfl := modifyClauses_eq_ok.1 h
    refine ⟨⟨hs₃.tokens, hs₃.closed⟩, fun hn => ?_⟩
    have hold : Ascending 0 s₂.body.parameters s₃.body.clauses.indices := by
      rw [hread.clauses_eq hs₂ fun _ _ _ => id]
      exact hnumbered hn
    simp only [AssignmentsNumbered, UpdateClauses.indices, List.map_append, List.map_cons,
      List.map_nil, indices_append]
    exact hold.append (operand_ascending hvalue hs₂) (Nat.zero_le _) (hread.parameters_le hs₂)

/-- All that an update records before its `WHERE` are its table and its assignments. -/
theorem updateHead_numbered {s s' : ParseState UpdateClauses} {u : Unit}
    (h : updateHead s = .ok u s') (hs : s.On stream) (hn : AssignmentsNumbered s) :
    AssignmentsNumbered s' := by
  have htables {p : Parser UpdateClauses Unit}
      (hp : Moves ⟨True, False, fun _ _ _ => False⟩ p) : Preserves AssignmentsNumbered p :=
    .of_moves hp (.of_run fun _ _ _ => id)
  have hhead : Preserves AssignmentsNumbered updateHead :=
    (htables (accept_moves (by decide))).bind fun _ =>
      (Preserves.of_moves dialect_moves (.of_run (E := Scope.marksOnly _) fun _ _ _ => id)).bind
        fun _ => (htables (skipAll_moves _)).bind fun _ =>
          (htables (tableReferences_moves trivial _)).bind fun _ =>
            ((htables (accept_moves (by decide))).bind fun _ =>
              (Preserves.separatedBy
                (.of_moves (skipSymbol_moves (by decide))
                  (.of_run (E := Scope.marksOnly _) fun _ _ _ => id))
                assignment_preserves).bind fun _ => .pure _).bind fun _ =>
              htables (skipUntil_moves _)
  exact (hhead h hs).2 hn

/-! ## Limits -/

/-- A number of a limit that is a placeholder takes the next index. -/
theorem limitValue_ascending {value : LimitValue × Nat} (h : limitValue s = .ok value s') :
    Ascending s.body.parameters s'.body.parameters value.1.parameterIndex?.toList := by
  simp only [limitValue, current_bind] at h
  generalize s.cursor.current.kind = kind at h
  split at h
  case h_1 =>
    cases hn : Number.integer? 10 s.cursor.current.literal.toList with
    | none => simp only [hn, unexpected_bind_eq_ok] at h
    | some n =>
      simp only [hn, bind_eq_ok, pure_eq_ok] at h
      obtain ⟨_, _, ⟨rfl, rfl⟩, _, s₂, _, rfl, rfl⟩ := h
      exact .nil
  case h_2 =>
    simp only [bind_eq_ok, pure_eq_ok, takePlaceholder_eq_ok, advance_eq_ok] at h
    obtain ⟨n, _, ⟨rfl, rfl⟩, _, _, ⟨rfl, rfl⟩, _, _, ⟨_, _, rfl⟩, rfl, rfl⟩ := h
    exact ⟨by simp [LimitValue.parameterIndex?], by
      simp [LimitValue.parameterIndex?, ParseState.counted]⟩
  case h_3 => simp only [unexpected_bind_eq_ok] at h

/-- The numbers of a limit take new indices in the order of the text, whatever their roles. -/
theorem limitRange_fresh {r : Option (LimitValue × Nat) × (LimitValue × Nat)}
    (h : limitRange s = .ok r s') (hs : s.On stream) (database : Database) :
    Fresh s.body.parameters s'.body.parameters
      (Limit.mk database (r.1.map Prod.fst) (some r.2.1)).indices := by
  simp only [limitRange, bind_eq_ok, ite_eq_ok, pure_eq_ok] at h
  obtain ⟨first, s₁, hfirst, comma, s₂, hcomma, h⟩ := h
  have hrun : Run (Scope.marksOnly κ) stream s s₁ := (limitValue_run hfirst).1
  have hskip : Run (Scope.marksOnly κ) stream s₁ s₂ := skipSymbol_moves (by decide) hcomma
  have hs₁ := hrun.on hs
  have hs₂ := hskip.on hs₁
  have hle := hrun.parameters_le hs
  have hle' := hskip.parameters_le hs₁
  have hfirst := (limitValue_ascending hfirst).mono (Nat.le_refl _) hle'
  rcases h with ⟨_, second, s₃, hsecond, rfl, rfl⟩ | ⟨_, offset, s₃, hoffset, h⟩
  · have hrun' : Run (Scope.marksOnly κ) stream s₂ s₃ := (limitValue_run hsecond).1
    simp only [Option.map_some, Limit.indices_pair]
    exact (hfirst.append (limitValue_ascending hsecond) (by omega) (hrun'.parameters_le hs₂)).fresh
  have hskip' : Run (Scope.marksOnly κ) stream s₂ s₃ := skipKeyword_moves _ hoffset
  have hs₃ := hskip'.on hs₂
  have hle'' := hskip'.parameters_le hs₂
  have hfirst := hfirst.mono (Nat.le_refl _) hle''
  rcases h with ⟨_, second, s₄, hsecond, rfl, rfl⟩ | ⟨_, rfl, rfl⟩
  -- Here the row count is read before the offset.
  · have hrun' : Run (Scope.marksOnly κ) stream s₃ s₄ := (limitValue_run hsecond).1
    simp only [Option.map_some, Limit.indices_pair]
    exact (hfirst.append (limitValue_ascending hsecond) (by omega)
      (hrun'.parameters_le hs₃)).fresh.swap
  · exact hfirst.fresh

/-- A limit is recorded with new indices. -/
theorem limit_fresh {s s' : ParseState SelectClauses} {u : Unit} (h : limit s = .ok u s')
    (hs : s.On stream) (hnone : s.body.clauses.limit = none) :
    s.body.parameters ≤ s'.body.parameters ∧ s'.body.conditions = s.body.conditions ∧
      ∀ l ∈ s'.body.clauses.limit, Fresh s.body.parameters s'.body.parameters l.indices := by
  rcases skipKeyword_then_eq_ok.1 h with ⟨_, rfl⟩ | ⟨hlimit, s₁, hadvance, h⟩
  · exact ⟨Nat.le_refl _, rfl, by simp [hnone]⟩
  have hkind := Cursor.isKeyword_singleton.1 hlimit
  have hrun : Run (Scope.marksOnly _) stream s s₁ := advance_run hadvance (by simp [hkind])
  have hs₁ := hrun.on hs
  obtain ⟨⟨offset, rowCount⟩, s₂, hrange, h⟩ := bind_eq_ok.1 h
  have hrun' : Run (Scope.marksOnly _) stream s₁ s₂ := (limitRange_run hrange hs₁).1
  have hfresh := (limitRange_fresh hrange hs₁ s₂.cursor.database).mono (hrun.parameters_le hs)
    (Nat.le_refl _)
  have hle := Nat.le_trans (hrun.parameters_le hs) (hrun'.parameters_le hs₁)
  have hconditions : s₂.body.conditions = s.body.conditions :=
    (hrun.trans hrun').conditions_eq hs id
  -- Recording the limit leaves the counter and the conditions as they are.
  suffices s'.body.parameters = s₂.body.parameters ∧ s'.body.conditions = s₂.body.conditions ∧
      s'.body.clauses.limit =
        some ⟨s₂.cursor.database, offset.map Prod.fst, some rowCount.1⟩ by
    obtain ⟨hparameters, hsame, hl⟩ := this
    refine ⟨hparameters ▸ hle, hsame.trans hconditions, fun l hmem => ?_⟩
    rw [hl, Option.mem_some] at hmem
    exact hparameters ▸ hmem ▸ hfresh
  cases offset with
  | none =>
    simp only [bind_eq_ok, cursor_bind, markLimitValue_eq_ok, modifyClauses_eq_ok] at h
    obtain ⟨_, _, rfl, rfl⟩ := h
    exact ⟨rfl, rfl, rfl⟩
  | some offset =>
    simp only [bind_eq_ok, cursor_bind, markLimitValue_eq_ok, modifyClauses_eq_ok] at h
    obtain ⟨_, _, rfl, _, _, rfl, rfl⟩ := h
    exact ⟨rfl, rfl, rfl⟩

end Grammar

/-! ## Statements -/

/-- The assignments of a statement are numbered first, then its conditions, then its limit. -/
structure Statement.Numbered (s : Statement) (assigned compared : Nat) : Prop where
  assigned_le : assigned ≤ compared
  compared_le : compared ≤ s.routing.parameters
  assignments : Ascending 0 assigned s.assignmentIndices
  conditions : s.routing.conditions.Numbered assigned compared
  limit : Fresh compared s.routing.parameters s.limitIndices

namespace Grammar

open SqlRouting.Parser

variable {c : Cursor}

/-- Before the `WHERE` of a select nothing is recorded that has an index, and behind it only the
    limit is. -/
theorem select_numbered (hc : c.Closed) {s : ParseState SelectClauses}
    (h : select (ParseState.start c) = .ok () s) :
    ∃ assigned compared, (Statement.select s.body).Numbered assigned compared := by
  obtain ⟨r, rfl⟩ := select_eq_ok h
  have hs := ParseState.On.start (κ := SelectClauses) hc
  have hE : ∀ t c c', SelectClauses.Step t c c' → Scope.select.withoutConditions.clauses t c c' :=
    fun _ _ _ h => h
  obtain ⟨hhead, howners⟩ := selectHead_run hE r.selectHead hs
  have hmarked := (hhead.trans (fromClause_moves trivial r.fromClause)).trans
    (markTables_run r.markTables howners)
  have hnone : r.marked.body.conditions = {} := hmarked.conditions_eq hs id
  obtain ⟨hnarrowed, hkeeps⟩ := whereClause_numbered 0 r.whereClause (hmarked.on hs)
  have hnumbered := (hkeeps ⟨Nat.zero_le _, hnone ▸ .empty⟩).of_run (E :=
    Scope.select.withoutConditions) id (r.run_ordered hE) hnarrowed
  have hordered := r.run.on hs
  have hlimit : r.ordered.body.clauses.limit = none := limit_eq_of_run r.run hs
  obtain ⟨hle, hconditions, hfresh⟩ := limit_fresh r.limit hordered hlimit
  -- What is skipped and what is derived changes neither the conditions nor the limit.
  have hskip : Run (Scope.marksOnly _) c.tokens r.limited r.skipped := skipRest_moves r.skipRest
  have hskipped := hskip.parameters_le (limit_on r.limit hordered)
  have hparameters : r.skipped.body.deriveColumns.deriveOrder.parameters =
      r.skipped.body.parameters := congrArg (·.parameters) (derive_routing _)
  obtain ⟨_, hbody⟩ := skipRest_body r.skipRest
  refine ⟨0, r.ordered.body.parameters, Nat.zero_le _, ?_, .nil, ?_, ?_⟩
  · exact hparameters ▸ Nat.le_trans hle hskipped
  · exact (r.routing_eq hordered).2 ▸ hnumbered.2
  · have hkept : r.skipped.body.deriveColumns.deriveOrder.clauses.limit =
        r.limited.body.clauses.limit :=
      (derive_limit _).trans (congrArg (·.clauses.limit) hbody)
    simp only [Statement.limitIndices, Statement.limit?, Statement.routing, hkept, hparameters]
    cases hl : r.limited.body.clauses.limit with
    | none => exact Ascending.nil.fresh
    | some l => exact (hfresh l hl).mono (Nat.le_refl _) hskipped

/-- The `WHERE` of an update is read behind its assignments. -/
theorem update_numbered (hc : c.Closed) {s : ParseState UpdateClauses}
    (h : update (ParseState.start c) = .ok () s) :
    ∃ assigned compared, (Statement.update s.body).Numbered assigned compared := by
  obtain ⟨s₁, s₂, hhead, hwhere, hskip⟩ := update_eq_ok h
  have hs := ParseState.On.start (κ := UpdateClauses) hc
  have hassigned := updateHead_numbered hhead hs .nil
  have hrun : Run (Scope.all _).withoutConditions c.tokens (ParseState.start c) s₁ :=
    updateHead_moves trivial (fun _ _ _ => trivial) hhead
  have hnone : s₁.body.conditions = {} := hrun.conditions_eq hs id
  have hs₁ := hrun.on hs
  obtain ⟨hs₂, hkeeps⟩ := whereClause_numbered s₁.body.parameters hwhere hs₁
  have hnumbered := hkeeps ⟨Nat.le_refl _, hnone ▸ .empty⟩
  have hcompared : Run ⟨True, True, fun _ _ _ => False⟩ c.tokens s₁ s₂ :=
    whereClause_moves trivial hwhere
  have hclauses := hcompared.clauses_eq hs₁ fun _ _ _ => id
  have hskipped : Run (Scope.marksOnly _) c.tokens s₂ s := skipRest_moves hskip
  obtain ⟨_, hbody⟩ := skipRest_body hskip
  refine ⟨s₁.body.parameters, s₂.body.parameters, hnumbered.1, hskipped.parameters_le hs₂, ?_, ?_,
    Ascending.nil.fresh⟩
  · have hkept : s.body.clauses = s₁.body.clauses :=
      (congrArg (·.clauses) hbody).trans hclauses
    simp only [Statement.assignmentIndices, hkept]
    exact hassigned
  · have hkept : s.body.conditions = s₂.body.conditions := congrArg (·.conditions) hbody
    simpa only [Statement.routing, hkept] using hnumbered.2

theorem delete_numbered (hc : c.Closed) {s : ParseState DeleteClauses}
    (h : delete (ParseState.start c) = .ok () s) :
    ∃ assigned compared, (Statement.delete s.body).Numbered assigned compared := by
  obtain ⟨s₁, s₂, hhead, hwhere, hskip⟩ := delete_eq_ok h
  have hs := ParseState.On.start (κ := DeleteClauses) hc
  have hrun : Run (Scope.all _).withoutConditions c.tokens (ParseState.start c) s₁ :=
    deleteHead_moves trivial hhead
  have hnone : s₁.body.conditions = {} := hrun.conditions_eq hs id
  obtain ⟨hs₂, hkeeps⟩ := whereClause_numbered 0 hwhere (hrun.on hs)
  have hnumbered := hkeeps ⟨Nat.zero_le _, hnone ▸ .empty⟩
  have hskipped : Run (Scope.marksOnly _) c.tokens s₂ s := skipRest_moves hskip
  obtain ⟨_, hbody⟩ := skipRest_body hskip
  refine ⟨0, s₂.body.parameters, Nat.zero_le _, hskipped.parameters_le hs₂, .nil, ?_,
    Ascending.nil.fresh⟩
  have hkept : s.body.conditions = s₂.body.conditions := congrArg (·.conditions) hbody
  simpa only [Statement.routing, hkept] using hnumbered.2

end Grammar

/-- The clauses of a statement that is no insert are numbered one after the other. -/
theorem Statement.Read.numbered {c : Cursor} {s : Statement} (h : Read c s) (hc : c.Closed)
    (hinsert : s.keyword ≠ .INSERT) : ∃ assigned compared, s.Numbered assigned compared := by
  cases h with
  | select _ h => exact Grammar.select_numbered hc h
  | insert => exact absurd rfl hinsert
  | update _ h => exact Grammar.update_numbered hc h
  | delete _ h => exact Grammar.delete_numbered hc h

/-- A number of a limit has a value if all of its indices have a parameter. -/
theorem LimitValue.exists_denotes {v : LimitValue} {parameters : List Int}
    (h : ∀ i ∈ v.parameterIndex?, i < parameters.length) :
    ∃ n, v.resolve parameters = some n ∧ v.Denotes parameters n := by
  cases v with
  | literal n => exact ⟨n, rfl, .literal n⟩
  | parameter i =>
    have hi : i < parameters.length := h i rfl
    exact ⟨parameters[i], List.getElem?_eq_getElem hi, .parameter (List.getElem?_eq_getElem hi)⟩

/-- With a parameter for each of its placeholders, a limit has the values that it says. -/
theorem Limit.values_denoted {l : Limit} {parameters : List Int}
    (h : ∀ i ∈ l.indices, i < parameters.length) :
    (∀ v ∈ l.offset, v.Denotes parameters (l.offsetValue parameters)) ∧
      ∀ v ∈ l.rowCount, ∃ n, l.rowCountValue parameters = some n ∧ v.Denotes parameters n := by
  have hmem {v : LimitValue} (hv : v ∈ l.offset.toList ++ l.rowCount.toList) :
      ∃ n, v.resolve parameters = some n ∧ v.Denotes parameters n :=
    LimitValue.exists_denotes fun i hi => h i (List.mem_filterMap.2 ⟨v, hv, hi⟩)
  refine ⟨fun v hv => ?_, fun v hv => ?_⟩
  · obtain ⟨n, hn, hdenotes⟩ := hmem (v := v) (by simp [Option.mem_def.1 hv])
    simpa [offsetValue, Option.mem_def.1 hv, hn] using hdenotes
  · obtain ⟨n, hn, hdenotes⟩ := hmem (v := v) (by simp [Option.mem_def.1 hv])
    exact ⟨n, by simp [rowCountValue, Option.mem_def.1 hv, hn], hdenotes⟩

/-- *The indices of placeholders.* In an accepted statement that is no insert, the placeholders
    recorded in the assignments, the conditions and the limit have different indices below the
    number of parameters. They follow the text: they increase in the assignments and in each
    condition, those of the assignments come before those of the conditions, and these before those
    of the limit. If there are as many parameters as the statement says, the numbers of its limit
    have the values that are written out or bound. -/
theorem parse_indices {database : Database} {d : Dialect} {text : String} {s : Statement}
    (h : Statement.parse database d text = .ok s) (hinsert : s.keyword ≠ .INSERT) :
    (s.assignmentIndices ++ s.conditionIndices ++ s.limitIndices).Nodup ∧
    (∀ i ∈ s.assignmentIndices ++ s.conditionIndices ++ s.limitIndices,
      i < s.routing.parameters) ∧
    s.assignmentIndices.Pairwise (· < ·) ∧
    (∀ c ∈ s.routing.conditions.toList, c.indices.Pairwise (· < ·)) ∧
    (∀ i ∈ s.assignmentIndices, ∀ j ∈ s.conditionIndices, i < j) ∧
    (∀ i ∈ s.assignmentIndices ++ s.conditionIndices, ∀ j ∈ s.limitIndices, i < j) ∧
    ∀ l ∈ s.limit?, ∀ parameters : List Int, s.routing.parameters ≤ parameters.length →
      (∀ v ∈ l.offset, v.Denotes parameters (l.offsetValue parameters)) ∧
        ∀ v ∈ l.rowCount, ∃ n, l.rowCountValue parameters = some n ∧ v.Denotes parameters n := by
  obtain ⟨c, hc, hread⟩ := Statement.parse_eq_ok h
  obtain ⟨_, hclosed, _⟩ := Cursor.ofText_eq_ok hc
  obtain ⟨assigned, compared, hn⟩ := hread.numbered hclosed hinsert
  have hassigned := hn.assignments.bounds
  have hcompared : ∀ i ∈ s.conditionIndices, assigned ≤ i ∧ i < compared := by
    intro i hi
    obtain ⟨condition, hmem, hi⟩ := List.mem_flatMap.1 hi
    exact (hn.conditions.ascending condition hmem).bounds i hi
  have hlimit := hn.limit.bounds
  have hle := hn.assigned_le
  have hle' := hn.compared_le
  have hbefore : ∀ i ∈ s.assignmentIndices, ∀ j ∈ s.conditionIndices, i < j := fun i hi j hj =>
    Nat.lt_of_lt_of_le (hassigned i hi).2 (hcompared j hj).1
  have hbehind : ∀ i ∈ s.assignmentIndices ++ s.conditionIndices, ∀ j ∈ s.limitIndices, i < j := by
    intro i hi j hj
    have := hlimit j hj
    rcases List.mem_append.1 hi with hi | hi
    · have := hassigned i hi
      omega
    · have := hcompared i hi
      omega
  have hbelow : ∀ i ∈ s.assignmentIndices ++ s.conditionIndices ++ s.limitIndices,
      i < s.routing.parameters := by
    intro i hi
    rcases List.mem_append.1 hi with hi | hi
    · rcases List.mem_append.1 hi with hi | hi
      · have := hassigned i hi
        omega
      · have := hcompared i hi
        omega
    · exact (hlimit i hi).2
  -- The three parts are free of repetitions, and they are separated by their bounds.
  have hconditions : s.conditionIndices.Nodup := by
    refine List.nodup_flatMap.2 ⟨fun condition hmem => ?_, hn.conditions.disjoint⟩
    exact (hn.conditions.ascending condition hmem).fresh.nodup
  have hnodup : (s.assignmentIndices ++ s.conditionIndices ++ s.limitIndices).Nodup := by
    refine List.nodup_append.2 ⟨List.nodup_append.2 ⟨hn.assignments.fresh.nodup, hconditions, ?_⟩,
      hn.limit.nodup, fun i hi j hj => Nat.ne_of_lt (hbehind i hi j hj)⟩
    exact fun i hi j hj => Nat.ne_of_lt (hbefore i hi j hj)
  refine ⟨hnodup, hbelow, hn.assignments.sorted, fun condition hmem =>
    (hn.conditions.ascending condition hmem).sorted, hbefore, hbehind, ?_⟩
  intro l hl parameters hlength
  refine Limit.values_denoted fun i hi => ?_
  have hmem : i ∈ s.limitIndices := by simpa [Statement.limitIndices, Option.mem_def.1 hl] using hi
  exact Nat.lt_of_lt_of_le (hlimit i hmem).2 hlength

/-- The condition that has been replaced leaves no index behind, and the offset takes its index
    behind the row count. -/
theorem parse_indices_replaced :
    ∃ s, Statement.parse .mySql .mySql
        "SELECT * FROM t WHERE a IN (?, ?) AND a = ? LIMIT ? OFFSET ?" = .ok s ∧
      s.keyword ≠ .INSERT ∧ s.conditionIndices = [2] ∧ s.limitIndices = [4, 3] ∧
      s.routing.parameters = 5 ∧ ∀ l ∈ s.limit?,
        (∀ v ∈ l.offset, v.Denotes [10, 20, 30, 40, 50] (l.offsetValue [10, 20, 30, 40, 50])) ∧
        ∀ v ∈ l.rowCount, ∃ n, l.rowCountValue [10, 20, 30, 40, 50] = some n ∧
          v.Denotes [10, 20, 30, 40, 50] n := by
  obtain ⟨s, hparse, hs⟩ := Statement.exists_of_map
    (f := fun s => (s.keyword, s.conditionIndices, s.limitIndices, s.routing.parameters))
    (by decide +kernel : (Statement.parse .mySql .mySql
      "SELECT * FROM t WHERE a IN (?, ?) AND a = ? LIMIT ? OFFSET ?").map (fun s =>
        (s.keyword, s.conditionIndices, s.limitIndices, s.routing.parameters)) =
          .ok (.SELECT, [2], [4, 3], 5))
  simp only [Prod.mk.injEq] at hs
  obtain ⟨hkeyword, hconditions, hlimit, hparameters⟩ := hs
  have hinsert : s.keyword ≠ .INSERT := by simp [hkeyword]
  obtain ⟨_, _, _, _, _, _, hvalues⟩ := parse_indices hparse hinsert
  exact ⟨s, hparse, hinsert, hconditions, hlimit, hparameters, fun l hl =>
    hvalues l hl _ (by simp [hparameters])⟩

end SqlRouting
