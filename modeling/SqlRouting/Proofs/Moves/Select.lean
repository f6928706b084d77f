import SqlRouting.Grammar.Limit
import SqlRouting.Grammar.Selection
import SqlRouting.Grammar.Sorting
import SqlRouting.Proofs.Moves.Operand

/-!
# Moves of a select's clauses

The select list, `GROUP BY` and `ORDER BY` only make moves, with which they change the clauses of
the select but not its limit (`SelectClauses.Step`). The limit is the clause that is not recorded by
moves: its marks are put behind all others.
-/

namespace SqlRouting

/-- What reading a clause other than the limit may change while the cursor is on a
    token. Where the select list and `GROUP BY` stop is where the cursor is. -/
structure SelectClauses.Step (t : Token) (c c' : SelectClauses) : Prop where
  limit : c'.limit = c.limit
  selectListStop : c'.selectListStop = c.selectListStop ∨ c'.selectListStop = t.start
  groupByStop : c'.groupByStop = c.groupByStop ∨ c'.groupByStop = t.start

/-- The scope of the clauses of a select before its limit. -/
def Scope.select : Scope SelectClauses :=
  ⟨True, True, SelectClauses.Step⟩

namespace Grammar

open SqlRouting.Parser

variable {κ : Type} {stream : List Token}

/-- A run of clauses does not change the limit. -/
theorem limit_eq_of_run {s s' : ParseState SelectClauses} (h : Run Scope.select stream s s')
    (hs : s.On stream) : s'.body.clauses.limit = s.body.clauses.limit := by
  refine h.rel (R := fun s s' => s'.body.clauses.limit = s.body.clauses.limit) (fun _ => rfl)
    (fun h₁ h₂ => ?_) (fun _ hmove => ?_) hs
  · exact h₂.trans h₁
  · cases hmove with
    | clauses hstep => exact hstep.limit
    | _ => rfl

/-! ## Select lists -/

section

variable {E : Scope κ} {s s' : ParseState κ}

theorem distinct_moves : Moves E (distinct (κ := κ)) :=
  (skipAll_moves _).bind fun _ => (refuse_moves _).bind fun _ =>
    dialect_moves.bind fun _ => refuse_moves _

theorem selectOptions_moves : Moves E (selectOptions (κ := κ)) :=
  dialect_moves.bind fun _ => skipAll_moves _

/-- The owner in a part of an item is a token of the stream. -/
theorem itemPart_run {part : ItemPart} (h : itemPart s = .ok part s') (hs : s.On stream) :
    Run E stream s s' ∧ ∀ t ∈ part.owners, t ∈ stream := by
  simp only [itemPart, cursor_bind, current_bind, ite_eq_ok, bind_eq_ok, refuseEnd_eq_ok,
    pure_eq_ok] at h
  obtain ⟨_, _, ⟨_, rfl⟩, h⟩ := h
  rcases h with ⟨_, _, s₁, hparens, rfl, rfl⟩ | ⟨_, _, s₁, hcount, _, s₂, hadvance, h⟩
  · exact ⟨skipParentheses_moves hparens, by simp⟩
  have hrun : Run E stream s s₂ := countPlaceholder_run hcount hadvance
  rcases h with ⟨_, _, s₃, hparens, rfl, rfl⟩ | ⟨_, dotted, s₃, hdot, h⟩
  · exact ⟨hrun.trans (skipParentheses_moves hparens), by simp⟩
  rcases h with ⟨rfl, name, s₄, hname, rfl, rfl⟩ | ⟨_, rfl, rfl⟩
  · refine ⟨hrun.trans (takeName_run hdot hname), fun t ht => ?_⟩
    -- The owner is the token that was under the cursor, as counting does not move it.
    have hcurrent := congrArg Cursor.current (cursor_of_countPlaceholder hcount)
    dsimp only at ht
    split at ht
    · rw [List.mem_singleton.1 ht, hcurrent]
      exact hs.current_mem
    · simp at ht
  · exact ⟨hrun.trans (skipSymbol_moves (by decide) hdot), by simp⟩

theorem joinedParts_run {n : Nat} {owners : List Token} (h : joinedParts n s = .ok owners s')
    (hs : s.On stream) : Run E stream s s' ∧ ∀ t ∈ owners, t ∈ stream := by
  induction n generalizing s owners with
  | zero =>
    obtain ⟨rfl, rfl⟩ := pure_eq_ok.1 h
    exact ⟨.refl, by simp⟩
  | succ n ih =>
    simp only [joinedParts, cursor_bind, ite_eq_ok, bind_eq_ok, pure_eq_ok] at h
    rcases h with ⟨hop, _, s₁, hadvance, part, s₂, hpart, more, s₃, hmore, rfl, rfl⟩ | ⟨_, rfl, rfl⟩
    · have hrun : Run E stream s s₁ := advance_run hadvance (isJoint_kind (by simp [hop]))
      obtain ⟨hrun', hpart⟩ := itemPart_run hpart (hrun.on hs)
      have hrun := hrun.trans hrun'
      obtain ⟨hrun', hmore⟩ := ih hmore (hrun.on hs)
      refine ⟨hrun.trans hrun', fun t ht => ?_⟩
      rcases List.mem_append.1 ht with ht | ht
      · exact hpart t ht
      · exact hmore t ht
    · exact ⟨.refl, by simp⟩

end

section

variable {E : Scope SelectClauses} {s s' : ParseState SelectClauses}

theorem plainItem_run {start : Nat} {owners : List Token} {r : SelectItem × List Token}
    (h : plainItem start owners s = .ok r s') (hs : s.On stream)
    (ho : ∀ t ∈ owners, t ∈ stream) : Run E stream s s' ∧ ∀ t ∈ r.2, t ∈ stream := by
  simp only [plainItem, cursor_bind, bind_eq_ok, pure_eq_ok] at h
  obtain ⟨more, s₁, hmore, _, s₂, htext, _, s₃, halias, rfl, rfl⟩ := h
  obtain ⟨hrun, hmore⟩ := joinedParts_run hmore hs
  refine ⟨(hrun.trans (textSince_moves _ htext)).trans (selectItemAlias_moves halias), ?_⟩
  intro t ht
  rcases List.mem_append.1 ht with ht | ht
  · exact ho t ht
  · exact hmore t ht

variable (hE : ∀ t c c', SelectClauses.Step t c c' → E.clauses t c c')

include hE

theorem noteStar_moves : Moves E noteStar :=
  modifyClauses_moves fun _ _ => hE _ _ _ ⟨rfl, .inl rfl, .inl rfl⟩

omit hE in
theorem starItem_moves (owner : Option String) : Moves E (starItem owner) :=
  selectItemAlias_moves.bind fun _ => .pure _

omit hE in
theorem aggregationItem_run {function : AggregateFunction} {first : Token}
    {r : SelectItem × List Token} (h : aggregationItem function first s = .ok r s')
    (hs : s.On stream) : Run E stream s s' ∧ ∀ t ∈ r.2, t ∈ stream := by
  simp only [aggregationItem, cursor_bind, ite_eq_ok, bind_eq_ok, pure_eq_ok] at h
  rcases h with ⟨_, inner, s₁, hparens, h⟩ | ⟨_, h⟩
  · have hrun : Run E stream s s₁ := skipParentheses_moves hparens
    rcases h with ⟨_, h⟩ | ⟨_, _, s₂, halias, rfl, rfl⟩
    · obtain ⟨hrun', hr⟩ := plainItem_run (E := E) h (hrun.on hs) (by simp)
      exact ⟨hrun.trans hrun', hr⟩
    · exact ⟨hrun.trans (selectItemAlias_moves halias), by simp⟩
  · exact plainItem_run h hs (by simp)

omit hE in
/-- The name of an aggregation function is no placeholder. -/
theorem aggregateFunction?_kind {t : Token} {function : AggregateFunction}
    (h : aggregateFunction? t = some function) : t.kind ≠ .symbol .question := by
  intro hq
  simp [aggregateFunction?, hq] at h

theorem selectItem_run {r : SelectItem × List Token} (h : selectItem s = .ok r s')
    (hs : s.On stream) : Run E stream s s' ∧ ∀ t ∈ r.2, t ∈ stream := by
  simp only [selectItem, cursor_bind, current_bind, ite_eq_ok, bind_eq_ok, pure_eq_ok] at h
  rcases h with ⟨hstar, _, s₁, hnote, _, s₂, hadvance, _, s₃, hitem, rfl, rfl⟩ | ⟨_, h⟩
  · obtain rfl := modifyClauses_eq_ok.1 hnote
    have hstar : s.cursor.current.kind = .symbol .star := of_decide_eq_true hstar
    refine ⟨((noteStar_moves hE hnote).trans (advance_run hadvance ?_)).trans
      (starItem_moves none hitem), by simp⟩
    simp [hstar]
  · cases hfunction : aggregateFunction? s.cursor.current with
    | some function =>
      simp only [hfunction, bind_eq_ok] at h
      obtain ⟨_, s₁, hadvance, h⟩ := h
      have hrun : Run E stream s s₁ := advance_run hadvance (aggregateFunction?_kind hfunction)
      obtain ⟨hrun', hr⟩ := aggregationItem_run (E := E) h (hrun.on hs)
      exact ⟨hrun.trans hrun', hr⟩
    | none =>
      simp only [hfunction, bind_eq_ok, ite_eq_ok, pure_eq_ok] at h
      obtain ⟨part, s₁, hpart, h⟩ := h
      obtain ⟨hrun, hpart⟩ := itemPart_run (E := E) hpart hs
      rcases h with ⟨_, _, s₂, hnote, _, s₃, hitem, rfl, rfl⟩ | ⟨_, h⟩
      · exact ⟨(hrun.trans (noteStar_moves hE hnote)).trans (starItem_moves _ hitem), hpart⟩
      · obtain ⟨hrun', hr⟩ := plainItem_run (E := E) h (hrun.on hs) hpart
        exact ⟨hrun.trans hrun', hr⟩

theorem selectList_run {owners : List Token} (h : selectList s = .ok owners s')
    (hs : s.On stream) : Run E stream s s' ∧ ∀ t ∈ owners, t ∈ stream := by
  simp only [selectList, commaSeparated, separatedBy, cursor_bind, current_bind, bind_eq_ok,
    pure_eq_ok] at h
  obtain ⟨lists, s₁, hlists, _, s₂, hstop, rfl, rfl⟩ := h
  have hitems : Run E stream s s₁ ∧ ∀ owners ∈ lists, ∀ t ∈ owners, t ∈ stream :=
    collect_run (fun {s a s'} h hs => by
      simp only [bind_eq_ok, pure_eq_ok] at h
      obtain ⟨r, s₁, hitem, _, s₂, hmodify, rfl, rfl⟩ := h
      obtain ⟨hrun, hr⟩ := selectItem_run hE hitem hs
      exact ⟨hrun.trans (modifyClauses_run hmodify (hE _ _ _ ⟨rfl, .inl rfl, .inl rfl⟩)), hr⟩)
    (skipSymbol_moves (by decide)) hlists hs
  refine ⟨hitems.1.trans (modifyClauses_run hstop (hE _ _ _ ⟨rfl, .inr rfl, .inl rfl⟩)), ?_⟩
  intro t ht
  obtain ⟨ts, hts, ht⟩ := List.mem_flatten.1 ht
  exact hitems.2 ts hts t ht

/-! ## Grouping and sorting -/

omit hE in
theorem direction_moves {κ : Type} {E : Scope κ} : Moves E (direction (κ := κ)) :=
  (skipKeyword_moves _).bind fun _ => .ite (.pure _) <|
    (skipKeyword_moves _).bind fun _ => .pure _

omit hE in
theorem sortItem_moves (key : SortKey) (direction : Direction) :
    Moves E (sortItem key direction) :=
  clauses_moves.bind fun _ => dialect_moves.bind fun _ => .pure _

theorem groupItem_moves : Moves E groupItem :=
  refuseEnd_moves.bind fun _ => operand_moves.bind fun e => direction_moves.bind fun _ => by
    cases sortColumn? e with
    | some key =>
      exact (sortItem_moves ..).bind fun _ =>
        modifyClauses_moves fun _ _ => hE _ _ _ ⟨rfl, .inl rfl, .inl rfl⟩
    | none => exact .pure _

theorem groupItems_moves : Moves E groupItems := by
  refine (accept_moves (by decide)).bind fun _ =>
    (commaSeparated_moves (groupItem_moves hE)).bind fun _ => dialect_moves.bind fun _ =>
      (skipAll_moves _).bind fun _ => ?_
  intro stream s u s' h
  rw [current_bind] at h
  exact modifyClauses_run h (hE _ _ _ ⟨rfl, .inl rfl, .inr rfl⟩)

theorem groupBy_moves : Moves E groupBy :=
  (skipKeyword_moves _).bind fun _ => .ite (groupItems_moves hE) (.pure _)

omit hE in
theorem orderKey_moves (e : Expression) : Moves E (orderKey e) := by
  unfold orderKey
  split
  · exact .ite (.pure _) (.throw _)
  · exact .pure _
  · exact unexpected_moves

theorem orderItem_moves : Moves E orderItem :=
  refuseEnd_moves.bind fun _ => operand_moves.bind fun _ => direction_moves.bind fun _ =>
    (orderKey_moves _).bind fun _ => (sortItem_moves ..).bind fun _ =>
      modifyClauses_moves fun _ _ => hE _ _ _ ⟨rfl, .inl rfl, .inl rfl⟩

theorem orderItems_moves : Moves E orderItems :=
  (accept_moves (by decide)).bind fun _ =>
    (commaSeparated_moves (orderItem_moves hE)).bind fun _ => .pure _

theorem orderBy_moves : Moves E orderBy :=
  (skipKeyword_moves _).bind fun _ => .ite (orderItems_moves hE) (.pure _)

end

/-! ## Limits -/

/-- The number of a limit is written out in the stream, or it is a placeholder. -/
inductive LimitValueOf (stream : List Token) : LimitValue × Nat → Prop
  | literal {t : Token} {n : Int} (ht : t ∈ stream) (hkind : t.kind = LiteralClass.int)
    (hn : Number.integer? 10 t.literal.toList = some n) :
    LimitValueOf stream (.literal n, t.start)
  | parameter (n start : Nat) : LimitValueOf stream (.parameter n, start)

theorem LimitValueOf.mono {stream stream' : List Token} {value : LimitValue × Nat}
    (h : LimitValueOf stream value) (hsub : stream ⊆ stream') : LimitValueOf stream' value := by
  cases h with
  | literal ht hkind hn => exact .literal (hsub ht) hkind hn
  | parameter n start => exact .parameter n start

section

variable {E : Scope κ} {s s' : ParseState κ}

theorem limitValue_run {value : LimitValue × Nat} (h : limitValue s = .ok value s') :
    Run E stream s s' ∧ LimitValueOf s.cursor.tokens value := by
  have hmem : s.cursor.current ∈ s.cursor.tokens := List.mem_cons_self ..
  simp only [limitValue, current_bind] at h
  generalize hkind : s.cursor.current.kind = kind at h
  split at h
  case h_1 =>
    cases hn : Number.integer? 10 s.cursor.current.literal.toList with
    | none => simp only [hn, unexpected_bind_eq_ok] at h
    | some n =>
      simp only [hn, bind_eq_ok, pure_eq_ok] at h
      obtain ⟨_, _, ⟨rfl, rfl⟩, _, s₂, hadvance, rfl, rfl⟩ := h
      exact ⟨advance_run hadvance (by simp [hkind]), .literal hmem hkind hn⟩
  case h_2 =>
    simp only [bind_eq_ok, pure_eq_ok, takePlaceholder_eq_ok] at h
    obtain ⟨n, _, ⟨_, rfl⟩, _, _, ⟨rfl, rfl⟩, _, s₂, hadvance, rfl, rfl⟩ := h
    refine ⟨countPlaceholder_run (u := ()) (countPlaceholder_eq_ok.2 ?_) hadvance, .parameter ..⟩
    simp [Cursor.isSymbol, hkind]
  case h_3 => simp only [unexpected_bind_eq_ok] at h

theorem limitRange_run {r : Option (LimitValue × Nat) × (LimitValue × Nat)}
    (h : limitRange s = .ok r s') (hs : s.On stream) :
    Run E stream s s' ∧ (∀ value ∈ r.1, LimitValueOf s.cursor.tokens value) ∧
      LimitValueOf s.cursor.tokens r.2 := by
  simp only [limitRange, bind_eq_ok, ite_eq_ok, pure_eq_ok] at h
  obtain ⟨first, s₁, hfirst, comma, s₂, hcomma, h⟩ := h
  have hvalue {s s' : ParseState κ} {value : LimitValue × Nat} (h : limitValue s = .ok value s') :
      Run E stream s s' ∧ LimitValueOf s.cursor.tokens value := limitValue_run h
  obtain ⟨hrun, hfirst⟩ := hvalue hfirst
  have hrun := hrun.trans (skipSymbol_moves (by decide) hcomma)
  rcases h with ⟨_, second, s₃, hsecond, rfl, rfl⟩ | ⟨_, offset, s₃, hoffset, h⟩
  · obtain ⟨hrun', hsecond⟩ := hvalue hsecond
    refine ⟨hrun.trans hrun', ?_, hsecond.mono (hrun.tokens_suffix hs).subset⟩
    rintro _ ⟨⟩
    exact hfirst
  have hrun := hrun.trans (skipKeyword_moves _ hoffset)
  rcases h with ⟨_, second, s₄, hsecond, rfl, rfl⟩ | ⟨_, rfl, rfl⟩
  · obtain ⟨hrun', hsecond⟩ := hvalue hsecond
    refine ⟨hrun.trans hrun', ?_, hfirst⟩
    rintro _ ⟨⟩
    exact hsecond.mono (hrun.tokens_suffix hs).subset
  · exact ⟨hrun, by simp, hfirst⟩

/-- The marks of a number of a limit: one if it is written out. -/
def marksOfLimitValue (mark : Nat → Int → Mark) : LimitValue × Nat → List Mark
  | (.literal n, start) => [mark start n]
  | (.parameter _, _) => []

theorem markLimitValue_eq_ok {mark : Nat → Int → Mark} {value : LimitValue × Nat} {u : Unit} :
    markLimitValue mark value s = .ok u s' ↔
      { s with body := { s.body with
          marks := s.body.marks ++ marksOfLimitValue mark value } } = s' := by
  obtain ⟨value | index, start⟩ := value
  · exact modifyRouting_eq_ok (f := fun r => { r with marks := r.marks ++ [mark start value] })
  · simp [markLimitValue, marksOfLimitValue, pure_eq_ok]

end

/-- Either there is no limit, or it is recorded at the end of a run as a whole: as the
    limit of the select, and by marks behind all others. -/
theorem limit_eq_ok {E : Scope SelectClauses} {s s' : ParseState SelectClauses} {u : Unit}
    (h : limit s = .ok u s') (hs : s.On stream) :
    s.cursor.isKeyword [.LIMIT] = false ∧ s = s' ∨
    s.cursor.isKeyword [.LIMIT] = true ∧
      ∃ (s₁ : ParseState SelectClauses) (offset : Option (LimitValue × Nat))
        (rowCount : LimitValue × Nat) (database : Database),
        Run E stream s s₁ ∧ s₁.cursor.tokens <:+ s.cursor.ahead ∧
        (∀ value ∈ offset, LimitValueOf s.cursor.ahead value) ∧
        LimitValueOf s.cursor.ahead rowCount ∧
        s' = { s₁ with body := { s₁.body with
          marks := s₁.body.marks ++ ((offset.map (marksOfLimitValue .offset)).getD [] ++
            marksOfLimitValue .rowCount rowCount)
          clauses := { s₁.body.clauses with
            limit := some ⟨database, offset.map Prod.fst, some rowCount.1⟩ } } } := by
  rcases skipKeyword_then_eq_ok.1 h with hnone | ⟨hlimit, s₁, hadvance, h⟩
  · exact .inl hnone
  have hkind := Cursor.isKeyword_singleton.1 hlimit
  obtain ⟨⟨offset, rowCount⟩, s₂, hrange, h⟩ := bind_eq_ok.1 h
  have hrun : Run E stream s s₁ := advance_run hadvance (by simp [hkind])
  obtain ⟨hrun', hoffset, hrowCount⟩ := limitRange_run (E := E) hrange (hrun.on hs)
  rw [ahead_of_advance hadvance hs.closed (by simp [hkind])]
  refine .inr ⟨hlimit, s₂, offset, rowCount, s₂.cursor.database, hrun.trans hrun',
    hrun'.tokens_suffix (hrun.on hs), hoffset, hrowCount, ?_⟩
  -- What is left to do is to record both numbers, and that cannot fail.
  cases offset with
  | none =>
    simp only [bind_eq_ok, cursor_bind, markLimitValue_eq_ok, modifyClauses_eq_ok] at h
    obtain ⟨_, _, rfl, rfl⟩ := h
    simp
  | some offset =>
    simp only [bind_eq_ok, cursor_bind, markLimitValue_eq_ok, modifyClauses_eq_ok] at h
    obtain ⟨_, _, rfl, _, _, rfl, rfl⟩ := h
    simp

/-- Reading a limit leads to a token of the stream. -/
theorem limit_on {s s' : ParseState SelectClauses} {u : Unit} (h : limit s = .ok u s')
    (hs : s.On stream) : s'.On stream := by
  rcases limit_eq_ok (E := Scope.marksOnly _) h hs with
    ⟨_, rfl⟩ | ⟨_, s₁, _, _, _, hrun, _, _, _, rfl⟩
  · exact hs
  · exact ⟨(hrun.on hs).tokens, (hrun.on hs).closed⟩

end Grammar

end SqlRouting
