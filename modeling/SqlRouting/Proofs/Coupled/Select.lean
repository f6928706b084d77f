import SqlRouting.Proofs.Coupled.Operand

/-!
# Selects in step

The clauses of a `SELECT`, two runs at a time. The select list hands back the owners in it, and
`GROUP BY` and `ORDER BY` look items of the list up by their texts; both work on alike data.
-/

namespace SqlRouting

variable {P : Pairing}

/-- What has been read of the two items: alike owners, and equally a star. -/
structure Grammar.ItemPart.Alike (P : Pairing) (p q : Grammar.ItemPart) : Prop where
  owners : List.Forall₂ (Token.Alike P) p.owners q.owners
  isStar : p.isStar = q.isStar

/-- The two items are alike, and so are the owners in them. -/
structure SelectItem.ReadAlike (P : Pairing) (a b : SelectItem × List Token) : Prop where
  item : a.1.Alike P b.1
  owners : List.Forall₂ (Token.Alike P) a.2 b.2

namespace Grammar

open SqlRouting.Parser

section

variable {κ : Type} {C : κ → κ → Prop}

/-! ## The select list -/

theorem distinct_coupled : Coupled P C Eq distinct distinct :=
  (skipAll_coupled (.refl _)).bind_eq fun _ => (refuse_coupled (.refl _)).bind_eq fun _ =>
    dialect_bind_coupled <| refuse_coupled (.hook P .distinctSynonyms (.inl rfl))

theorem selectOptions_coupled : selectOptionsNotes.Coupled P C Eq selectOptions :=
  .dialect_bind <| Notes.askAll_coupled (.hook P .selectOptions fun _ => id)

theorem itemPart_coupled : Coupled P C (ItemPart.Alike P) itemPart itemPart := by
  have hgroup : Coupled P C (ItemPart.Alike P) (do let _ ← skipParentheses; return {})
      (do let _ ← skipParentheses; return {}) :=
    skipParentheses_coupled.bind fun _ _ _ => .pure ⟨.nil, rfl⟩
  refine refuseEnd_coupled.bind_eq fun _ => cursor_coupled.bind fun c d hc =>
    .cond (hc.isSymbol_eq _) hgroup ?_
  refine countPlaceholder_coupled.bind_eq fun _ => current_coupled.bind fun t u h =>
    advance_coupled.bind_eq fun _ => cursor_coupled.bind fun c d hc =>
    .cond (hc.isSymbol_eq _) hgroup ?_
  refine dot_takeName_coupled (fun name name' hname _ => .pure ⟨?_, by rw [hname.kind]⟩)
    (.pure ⟨.nil, rfl⟩)
  rw [← h.kind]
  split
  · exact .cons h .nil
  · exact .nil

theorem joinedParts_coupled (n : Nat) :
    Coupled P C (List.Forall₂ (Token.Alike P)) (joinedParts n) (joinedParts n) := by
  induction n with
  | zero => exact .pure .nil
  | succ n ih =>
    refine cursor_coupled.bind fun c d hc => .cond hc.isOperator_eq ?_ (.pure .nil)
    exact advance_coupled.bind_eq fun _ => itemPart_coupled.bind fun _ _ hpart =>
      ih.bind fun _ _ hmore => .pure (List.rel_append hpart.owners hmore)

theorem markTables_coupled {names names' : List Token}
    (h : List.Forall₂ (Token.Alike P) names names') :
    Coupled P C Eq (markTables names) (markTables names') := by
  rw [markTables, markTables]
  induction h with
  | nil => exact .pure rfl
  | cons hname _ ih => exact (markOwner_coupled hname).bind_eq fun _ => ih

end

theorem plainItem_coupled (start : Nat) {owners owners' : List Token}
    (h : List.Forall₂ (Token.Alike P) owners owners') :
    (plainItemNotes start owners).Coupled P (SelectClauses.Alike P) (SelectItem.ReadAlike P)
      (plainItem start owners') := by
  refine cursor_coupled.noted.bind fun c d hc => ?_
  rw [← hc.movesLeft_eq]
  exact (joinedParts_coupled _).noted.bind fun _ _ hmore =>
    (textSince_coupled _).noted.bind fun _ _ htext =>
    selectItemAlias_coupled.bind fun _ _ halias =>
    .of (.pure ⟨.plain htext.unquoted halias, List.rel_append h hmore⟩)

theorem noteStar_coupled : Coupled P (SelectClauses.Alike P) Eq noteStar noteStar :=
  modifyClauses_coupled fun _ _ h =>
    ⟨rfl, h.selectListStop, h.groupByStop, h.items, h.groupBy, h.orderBy, h.limit⟩

theorem starItem_coupled {owner owner' : Option String}
    (h : Option.Rel (Text.Alike P) owner owner') :
    (starItemNotes owner).Coupled P (SelectClauses.Alike P) (SelectItem.Alike P)
      (starItem owner') :=
  selectItemAlias_coupled.bind fun _ _ _ => .of (.pure (.star h))

theorem aggregationItem_coupled (function : AggregateFunction) {t u : Token} (h : t.Alike P u) :
    (aggregationItemNotes function t).Coupled P (SelectClauses.Alike P) (SelectItem.ReadAlike P)
      (aggregationItem function u) := by
  have hplain : (plainItemNotes t.start []).Coupled P (SelectClauses.Alike P)
      (SelectItem.ReadAlike P) (plainItem u.start []) := h.start_eq ▸ plainItem_coupled _ .nil
  refine cursor_coupled.noted.bind fun c d hc => .cond (hc.isSymbol_eq _) ?_ hplain
  refine skipParentheses_coupled.noted.bind fun inner inner' hinner =>
    cursor_coupled.noted.bind fun c d hc => .cond hc.isOperator_eq hplain ?_
  exact selectItemAlias_coupled.bind fun _ _ halias =>
    .of (.pure ⟨.aggregation ⟨rfl, hinner, halias⟩ .nil, .nil⟩)

theorem selectItem_coupled :
    selectItemNotes.Coupled P (SelectClauses.Alike P) (SelectItem.ReadAlike P) selectItem := by
  refine current_coupled.noted.bind fun t u h => cursor_coupled.noted.bind fun c d hc =>
    .cond (hc.isSymbol_eq _) ?_ ?_
  · exact noteStar_coupled.noted.bind_eq fun _ => advance_coupled.noted.bind_eq fun _ =>
      (starItem_coupled .none).bind fun _ _ hitem => .of (.pure ⟨hitem, .nil⟩)
  · have hfunction : aggregateFunction? u = aggregateFunction? t := by
      rw [aggregateFunction?, aggregateFunction?, h.kind]
    rw [hfunction]
    generalize aggregateFunction? t = function
    cases function with
    | some function => exact advance_coupled.noted.bind_eq fun _ => aggregationItem_coupled _ h
    | none =>
      refine itemPart_coupled.noted.bind fun part part' hpart => ?_
      rw [← h.start_eq]
      refine .cond hpart.isStar ?_ (plainItem_coupled _ hpart.owners)
      exact noteStar_coupled.noted.bind_eq fun _ =>
        (starItem_coupled (.some h.literal.unquoted)).bind fun _ _ hitem =>
        .of (.pure ⟨hitem, hpart.owners⟩)

theorem selectList_coupled :
    selectListNotes.Coupled P (SelectClauses.Alike P) (List.Forall₂ (Token.Alike P))
      selectList := by
  refine (Notes.Coupled.commaSeparated (selectItem_coupled.bind fun _ _ hread => .of <|
    .bind_eq (modifyClauses_coupled fun _ _ h => ?_) fun _ => .pure hread.owners)).bind
      fun _ _ howners => .of <| current_coupled.bind fun t u h => ?_
  · exact ⟨h.containsStar, h.selectListStop, h.groupByStop,
      List.rel_append h.items (.cons hread.item .nil), h.groupBy, h.orderBy, h.limit⟩
  rw [h.start_eq]
  refine .bind_eq (modifyClauses_coupled fun _ _ h => ?_) fun _ => .pure (List.rel_flatten howners)
  exact ⟨h.containsStar, rfl, h.groupByStop, h.items, h.groupBy, h.orderBy, h.limit⟩

/-! ## Grouping and sorting -/

theorem direction_coupled {κ : Type} {C : κ → κ → Prop} : Coupled P C Eq direction direction :=
  (skipKeyword_coupled (.refl _)).bind_eq fun _ => .cond rfl (.pure rfl) <|
    (skipKeyword_coupled (.refl _)).bind_eq fun _ => .pure rfl

theorem sortColumn?_alike {e e' : Expression} (h : e.Alike P e') :
    Option.Rel (SortKey.Alike P) (sortColumn? e) (sortColumn? e') := by
  cases h with
  | placeholder | text | number => exact .none
  | identifier s => exact .some (.column .none (.refl s))
  | property howner hname => exact .some (.column (.some howner) hname)
  | other h => exact .some (.column .none h)

theorem sortItem_coupled {key key' : SortKey} (h : key.Alike P key') (direction : Direction) :
    Coupled P (SelectClauses.Alike P) (SortItem.Alike P) (sortItem key direction)
      (sortItem key' direction) := by
  refine clauses_coupled.bind fun s s' hs => dialect_bind_coupled <| .pure ⟨h, rfl, P.nulls, ?_⟩
  rcases rel_cases h.qualifiedName? with ⟨hk, hl⟩ | ⟨_, _, hk, hl, hname⟩
  · rw [hk, hl]
    exact .none
  · rw [hk, hl]
    exact hs.aliasFor? hname

theorem groupItem_coupled : Coupled P (SelectClauses.Alike P) Eq groupItem groupItem := by
  refine refuseEnd_coupled.bind_eq fun _ => operand_coupled.bind fun e e' he =>
    direction_coupled.bind_eq fun direction => ?_
  rcases rel_cases (sortColumn?_alike he) with ⟨hk, hl⟩ | ⟨_, _, hk, hl, hkey⟩
  · rw [hk, hl]
    exact .pure rfl
  · rw [hk, hl]
    refine (sortItem_coupled hkey direction).bind fun _ _ hitem => modifyClauses_coupled
      fun _ _ h => ?_
    exact ⟨h.containsStar, h.selectListStop, h.groupByStop, h.items,
      List.rel_append h.groupBy (.cons hitem .nil), h.orderBy, h.limit⟩

theorem groupItems_coupled : groupItemsNotes.Coupled P (SelectClauses.Alike P) Eq groupItems := by
  refine (accept_coupled _).noted.bind_eq fun _ =>
    (commaSeparated_coupled groupItem_coupled).noted.bind fun _ _ _ => .dialect_bind <|
    (Notes.askAll_coupled (.hook P .skippedBehindGroupBy fun _ => id)).bind_eq fun _ => .of <|
    current_coupled.bind fun t u h => ?_
  rw [h.start_eq]
  exact modifyClauses_coupled fun _ _ h =>
    ⟨h.containsStar, h.selectListStop, rfl, h.items, h.groupBy, h.orderBy, h.limit⟩

theorem groupBy_coupled : groupByNotes.Coupled P (SelectClauses.Alike P) Eq groupBy :=
  (skipKeyword_coupled (.refl _)).noted.bind_eq fun _ =>
    .cond rfl groupItems_coupled (.of (.pure rfl))

theorem having_coupled {κ : Type} {C : κ → κ → Prop} : Coupled P C Eq having having :=
  refuse_coupled (.refl _)

theorem orderKey_coupled {e e' : Expression} (h : e.Alike P e') :
    Coupled P (SelectClauses.Alike P) (SortKey.Alike P) (orderKey e) (orderKey e') := by
  cases h with
  | number n =>
    cases n with
    | integer index => exact .ite Iff.rfl (.pure (.position _)) (.throw (.refl _))
    | double => exact unexpected_coupled
  | placeholder | text => exact unexpected_coupled
  | identifier s => exact .pure (.column .none (.refl s))
  | property howner hname => exact .pure (.column (.some howner) hname)
  | other h => exact .pure (.column .none h)

theorem orderItem_coupled : Coupled P (SelectClauses.Alike P) Eq orderItem orderItem := by
  refine refuseEnd_coupled.bind_eq fun _ => operand_coupled.bind fun e e' he =>
    direction_coupled.bind_eq fun direction => (orderKey_coupled he).bind fun _ _ hkey =>
    (sortItem_coupled hkey direction).bind fun _ _ hitem => modifyClauses_coupled fun _ _ h => ?_
  exact ⟨h.containsStar, h.selectListStop, h.groupByStop, h.items, h.groupBy,
    List.rel_append h.orderBy (.cons hitem .nil), h.limit⟩

theorem orderBy_coupled : Coupled P (SelectClauses.Alike P) Eq orderBy orderBy :=
  (skipKeyword_coupled (.refl _)).bind_eq fun _ => .cond rfl
    ((accept_coupled _).bind_eq fun _ => (commaSeparated_coupled orderItem_coupled).bind
      fun _ _ _ => .pure rfl) (.pure rfl)

/-! ## Limits -/

section

variable {κ : Type} {C : κ → κ → Prop}

theorem limitValue_coupled : Coupled P C Eq limitValue limitValue := by
  refine current_coupled.bind fun t u h => ?_
  rw [← h.kind, h.start_eq]
  have htaken (value : LimitValue) : Coupled P C Eq (do advance; return (value, u.start))
      (do advance; return (value, u.start)) := advance_coupled.bind_eq fun _ => .pure rfl
  dsimp only
  split
  · rw [h.exact (by rw [‹t.kind = _›]; rfl)]
    split
    · exact .bind_eq (.pure rfl) htaken
    · exact unexpected_bind_coupled _ _
  · exact takePlaceholder_coupled.bind_eq fun _ => .bind_eq (.pure rfl) htaken
  · exact unexpected_bind_coupled _ _

theorem markLimitValue_coupled (mark : Nat → Int → Mark) (value : LimitValue × Nat) :
    Coupled P C Eq (markLimitValue mark value) (markLimitValue mark value) := by
  obtain ⟨value, start⟩ := value
  cases value with
  | literal n =>
    rw [markLimitValue]
    refine modifyRouting_coupled fun _ _ hr => ?_
    exact ⟨hr.tables, hr.conditions, List.rel_append hr.marks (.cons (.refl _) .nil), hr.parameters⟩
  | parameter => exact .pure rfl

theorem limitRange_coupled : Coupled P C Eq limitRange limitRange :=
  limitValue_coupled.bind_eq fun _ => (skipSymbol_coupled _).bind_eq fun _ => .cond rfl
    (limitValue_coupled.bind_eq fun _ => .pure rfl) <|
    (skipKeyword_coupled (.refl _)).bind_eq fun _ => .cond rfl
      (limitValue_coupled.bind_eq fun _ => .pure rfl) (.pure rfl)

end

theorem limit_coupled : Coupled P (SelectClauses.Alike P) Eq limit limit := by
  refine (skipKeyword_coupled (.refl _)).bind_eq fun _ => .cond rfl ?_ (.pure rfl)
  refine limitRange_coupled.bind_eq fun range => ?_
  have hrecord : Coupled P (SelectClauses.Alike P) Eq
      (do
        markLimitValue .rowCount range.2
        let database := (← cursor).database
        modifyClauses fun s =>
          { s with limit := some ⟨database, range.1.map Prod.fst, some range.2.1⟩ })
      (do
        markLimitValue .rowCount range.2
        let database := (← cursor).database
        modifyClauses fun s =>
          { s with limit := some ⟨database, range.1.map Prod.fst, some range.2.1⟩ }) := by
    refine (markLimitValue_coupled _ _).bind_eq fun _ => cursor_coupled.bind fun c d hc => ?_
    rw [hc.database]
    exact modifyClauses_coupled fun _ _ h =>
      ⟨h.containsStar, h.selectListStop, h.groupByStop, h.items, h.groupBy, h.orderBy, rfl⟩
  obtain ⟨offset, rowCount⟩ := range
  cases offset with
  | none => exact hrecord
  | some offset => exact (markLimitValue_coupled _ _).bind_eq fun _ => hrecord

/-! ## Statements -/

theorem fromClause_coupled {κ : Type} {C : κ → κ → Prop} :
    fromClauseNotes.Coupled P C Eq fromClause :=
  (refuse_coupled (.refl _)).noted.bind_eq fun _ => (skipKeyword_coupled (.refl _)).noted.bind_eq
    fun _ => .cond rfl (tableReferences_coupled _) (.of (.pure rfl))

theorem selectRest_coupled {κ : Type} {C : κ → κ → Prop} :
    Coupled P C Eq selectRest selectRest :=
  (refuse_coupled (.refl _)).bind_eq fun _ =>
    dialect_bind_coupled <| refuse_coupled (.hook P .refusedBehindSelect (.inr rfl))

theorem selectHead_coupled :
    selectHeadNotes.Coupled P (SelectClauses.Alike P) (List.Forall₂ (Token.Alike P)) selectHead :=
  (accept_coupled _).noted.bind_eq fun _ => distinct_coupled.noted.bind_eq fun _ =>
    selectOptions_coupled.bind_eq fun _ => selectList_coupled

theorem selectClauses_coupled {owners owners' : List Token}
    (h : List.Forall₂ (Token.Alike P) owners owners') :
    (selectClausesNotes owners).Coupled P (SelectClauses.Alike P) Eq (selectClauses owners') :=
  fromClause_coupled.bind_eq fun _ => (markTables_coupled h).noted.bind_eq fun _ =>
    whereClause_coupled.bind_eq fun _ => groupBy_coupled.bind_eq fun _ => .of <|
    having_coupled.bind_eq fun _ => orderBy_coupled.bind_eq fun _ =>
    limit_coupled.bind_eq fun _ => selectRest_coupled

theorem select_coupled : selectNotes.Coupled P (SelectClauses.Alike P) Eq select :=
  selectHead_coupled.bind fun _ _ howners => (selectClauses_coupled howners).bind_eq fun _ => .of <|
    skipRest_coupled.bind_eq fun _ => modify_coupled fun _ _ hst =>
    ⟨hst.cursor, Body.deriveOrder_alike (Body.deriveColumns_alike hst.body)⟩

end Grammar

end SqlRouting
