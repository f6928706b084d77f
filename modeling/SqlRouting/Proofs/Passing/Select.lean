import SqlRouting.Proofs.Passing.Clauses

/-!
# Owners in select lists

While a select list is read no table is known. So nothing is marked there; the owners of its columns
are collected, in their order, until the tables of the select have been read.
-/

namespace SqlRouting

section

variable {κ : Type} {stream : List Token} {W : Watch κ stream} {s s₁ s' : ParseState κ}

/-- Between two states these owners have been collected: they are among the tokens passed, each is
    followed by a dot, and no other name outside of parentheses is. -/
structure Collects (W : Watch κ stream) (owners : List Token) (s s' : ParseState κ) : Prop where
  passes : Passes (W.during fun _ t => t ∈ owners) [] s s'
  collected : ∃ passed, s.cursor.tokens = passed ++ s'.cursor.tokens ∧ owners.Sublist passed
  owned : ∀ t ∈ owners, ∃ p : Place stream, p.OwnedBy t

namespace Collects

variable {owners owners' : List Token}

/-- Where no owner is passed, none is collected. -/
theorem of_passes (h : Passes (W.during fun _ _ => False) [] s s') : Collects W [] s s' where
  passes := h.imp (fun _ _ => id) (fun _ _ => id) fun _ _ _ => False.elim
  collected := by
    obtain ⟨passed, htokens, _⟩ := h.passed
    exact ⟨passed, htokens, List.nil_sublist _⟩
  owned := by simp

theorem trans (h : Collects W owners s s₁) (h' : Collects W owners' s₁ s') :
    Collects W (owners ++ owners') s s' where
  passes := by
    have hfirst : Passes (W.during fun _ t => t ∈ owners ++ owners') [] s s₁ :=
      h.passes.imp (fun _ _ => id) (fun _ _ => id) fun _ _ _ ht => List.mem_append_left owners' ht
    have hsecond : Passes (W.during fun _ t => t ∈ owners ++ owners') [] s₁ s' :=
      h'.passes.imp (fun _ _ => id) (fun _ _ => id) fun _ _ _ ht => List.mem_append_right owners ht
    exact hfirst.trans hsecond
  collected := by
    obtain ⟨passed, htokens, howners⟩ := h.collected
    obtain ⟨passed', htokens', howners'⟩ := h'.collected
    exact ⟨passed ++ passed', by rw [htokens, htokens', List.append_assoc],
      howners.append howners'⟩
  owned := by
    intro t ht
    rcases List.mem_append.1 ht with ht | ht
    · exact h.owned t ht
    · exact h'.owned t ht

end Collects

theorem Collects.stays {owners : List Token} (h : Collects W owners s s') (hs : W.Over s) :
    W.Over s' :=
  ⟨h.passes.on, h.passes.dialect.trans hs.dialect, h.passes.suffix.trans hs.base⟩

/-- A parser that passes no owner, wherever it starts. -/
theorem Accounts.collects {α : Type} {P : ParseState κ → Prop} {p : Parser κ α}
    {Q : α → ParseState κ → Prop} {a : α} (hp : Accounts (W.during fun _ _ => False) P p Q)
    (h : p s = .ok a s') (hs : W.Over s) (hP : P s) : Collects W [] s s' := by
  obtain ⟨⟨named, hnamed, hpasses⟩, _⟩ := hp hP h hs.during
  exact .of_passes (hnamed trivial ▸ hpasses)

end

namespace Grammar

open SqlRouting.Parser

section

variable {κ : Type} {stream : List Token} {W : Watch κ stream} {s s' : ParseState κ}
  (hW : W.Open)
include hW

/-! ## Items -/

/-- The owner in a part of an item is the token that it starts with. -/
theorem itemPart_collects {part : ItemPart} (h : itemPart s = .ok part s') (hs : W.Over s)
    (hunowned : Unowned stream s) : Collects W part.owners s s' := by
  have hskips : (W.during fun _ _ => False).Skips := hW.skips
  simp only [itemPart, cursor_bind, current_bind, ite_eq_ok, bind_eq_ok, refuseEnd_eq_ok,
    pure_eq_ok] at h
  obtain ⟨_, _, ⟨hend, rfl⟩, h⟩ := h
  rcases h with ⟨_, _, s₁, hparens, rfl, rfl⟩ | ⟨_, _, s₁, hcount, _, s₂, hadvance, h⟩
  · exact (skipParentheses_anywhere hskips).collects hparens hs trivial
  obtain ⟨hnext, hgrowth⟩ := growth_of_countPlaceholder hcount hadvance
  have hfirst : Collects W [] s s₂ :=
    .of_passes (.next_of_passable hs.on (hW.passable hunowned).during hnext hgrowth)
  rcases h with ⟨_, _, s₃, hparens, rfl, rfl⟩ | ⟨_, dotted, s₃, hdot, h⟩
  · exact hfirst.trans
      ((skipParentheses_anywhere hskips).collects hparens (hfirst.stays hs) trivial)
  rcases h with ⟨rfl, name, s₄, hname, rfl, rfl⟩ | ⟨hundotted, rfl, rfl⟩
  · rw [congrArg Cursor.current (cursor_of_countPlaceholder hcount)]
    obtain ⟨hdotKind, _⟩ := skipIf_eq_ok.1 hdot
    have hdotKind : s₂.cursor.current.kind = .symbol .dot := by simpa [Cursor.isAny] using hdotKind
    have howners : ∀ t ∈ (if s.cursor.current.kind = .literal .identifier then
        [s.cursor.current] else []), t = s.cursor.current ∧ t.kind = LiteralClass.identifier := by
      intro t ht
      split at ht
      case isTrue hkind =>
        obtain rfl := List.mem_singleton.1 ht
        exact ⟨rfl, hkind⟩
      case isFalse => cases ht
    obtain ⟨hpasses, htokens, ⟨between, hbetween⟩, _, _⟩ := owner_passes
      (X := fun _ t => t ∈ if s.cursor.current.kind = .literal .identifier then
        [s.cursor.current] else []) hW hs.on hunowned hnext hgrowth hdot hname fun p hp _ => by
          rw [if_pos hp.name]
          exact List.mem_singleton_self _
    -- The owner is the first of the tokens that are passed, and its dot is behind it.
    refine ⟨hpasses, ⟨s.cursor.current :: between, by rw [htokens, ← hbetween]; rfl, ?_⟩, ?_⟩
    · dsimp only
      split
      · exact (List.nil_sublist _).cons_cons _
      · exact List.nil_sublist _
    · intro t ht
      obtain ⟨rfl, hkind⟩ := howners t ht
      obtain ⟨before, hbefore⟩ := hs.on.tokens
      rw [htokens, List.append_cons] at hbefore
      exact ⟨⟨before ++ [s.cursor.current], s₂.cursor.current, s₂.cursor.ahead, hbefore.symm⟩,
        hdotKind, hkind, List.getLast?_concat⟩
  · -- Without a dot behind it the first token owns nothing.
    obtain ⟨_, heq⟩ := skipIf_eq_ok.1 hdot
    rw [Bool.not_eq_true] at hundotted
    subst hundotted
    obtain rfl : s₂ = s₃ := heq
    exact hfirst

theorem joinedParts_collects {n : Nat} {owners : List Token}
    (h : joinedParts n s = .ok owners s') (hs : W.Over s) : Collects W owners s s' := by
  induction n generalizing s owners with
  | zero =>
    obtain ⟨rfl, rfl⟩ := pure_eq_ok.1 h
    exact .of_passes (.refl hs.on)
  | succ n ih =>
    simp only [joinedParts, cursor_bind, ite_eq_ok, bind_eq_ok, pure_eq_ok] at h
    rcases h with ⟨hop, _, s₁, hadvance, part, s₂, hpart, more, s₃, hmore, rfl, rfl⟩ | ⟨_, rfl, rfl⟩
    · obtain ⟨x, hx, hkind⟩ := List.any_eq_true.1 hop
      have hkind : s.cursor.current.kind ∈ Symbol.operators.map TokenKind.symbol :=
        List.mem_map.2 ⟨x, hx, (of_decide_eq_true hkind).symm⟩
      obtain ⟨hnext, hgrowth⟩ := growth_of_advance hadvance
      have hplain {W : Watch κ stream} : ArePlain W (Symbol.operators.map TokenKind.symbol) :=
        .of_not_mem (by decide)
      have hfirst : Collects W [] s s₁ := .of_passes (hplain.passes hs.on hkind hnext hgrowth)
      have hunowned : Unowned stream s₁ :=
        .of_next hs.on hnext (callingKinds_symbol W.dialect Symbol.operators (by decide) hkind)
      have hfirst := hfirst.trans (itemPart_collects hW hpart (hfirst.stays hs) hunowned)
      exact hfirst.trans (ih hmore (hfirst.stays hs))
    · exact .of_passes (.refl hs.on)

end

section

variable {stream : List Token} {W : Watch SelectClauses stream} {s s' : ParseState SelectClauses}

theorem noteStar_accounts : Accounts W Anywhere noteStar Anyhow :=
  modifyClauses_accounts _

theorem starItem_accounts (owner : Option String) :
    Accounts W Anywhere (starItem owner) Anyhow :=
  selectItemAlias_accounts.bind fun _ => .pure fun _ h => h

variable (hW : W.Open)
include hW

theorem plainItem_collects {start : Nat} {owners : List Token} {r : SelectItem × List Token}
    (h : plainItem start owners s = .ok r s') (hs : W.Over s) :
    ∃ more, r.2 = owners ++ more ∧ Collects W more s s' := by
  simp only [plainItem, cursor_bind, bind_eq_ok, pure_eq_ok] at h
  obtain ⟨more, s₁, hmore, _, s₂, htext, _, s₃, halias, rfl, rfl⟩ := h
  obtain rfl := eq_of_textSince htext
  have hmore := joinedParts_collects hW hmore hs
  refine ⟨more, rfl, ?_⟩
  simpa using hmore.trans (selectItemAlias_accounts.collects halias (hmore.stays hs) trivial)

theorem aggregationItem_collects {function : AggregateFunction} {first : Token}
    {r : SelectItem × List Token} (h : aggregationItem function first s = .ok r s')
    (hs : W.Over s) : Collects W r.2 s s' := by
  simp only [aggregationItem, cursor_bind, ite_eq_ok, bind_eq_ok, pure_eq_ok] at h
  rcases h with ⟨_, inner, s₁, hparens, h⟩ | ⟨_, h⟩
  · have hskips : (W.during fun _ _ => False).Skips := hW.skips
    have hparens : Collects W [] s s₁ :=
      (skipParentheses_anywhere hskips).collects hparens hs trivial
    rcases h with ⟨_, h⟩ | ⟨_, _, s₂, halias, rfl, rfl⟩
    · obtain ⟨more, hmore, hitem⟩ := plainItem_collects hW h (hparens.stays hs)
      rw [hmore]
      exact hparens.trans hitem
    · exact hparens.trans (selectItemAlias_accounts.collects halias (hparens.stays hs) trivial)
  · obtain ⟨more, hmore, hitem⟩ := plainItem_collects hW h hs
    rwa [hmore]

theorem selectItem_collects {r : SelectItem × List Token} (h : selectItem s = .ok r s')
    (hs : W.Over s) (hunowned : Unowned stream s) : Collects W r.2 s s' := by
  have hpassable := (hW.passable hunowned).during (X := fun _ _ => False)
  simp only [selectItem, cursor_bind, current_bind, ite_eq_ok, bind_eq_ok, pure_eq_ok] at h
  rcases h with ⟨_, _, s₁, hnote, _, s₂, hadvance, _, s₃, hitem, rfl, rfl⟩ | ⟨_, h⟩
  · obtain rfl := modifyClauses_eq_ok.1 hnote
    obtain ⟨hnext, hgrowth⟩ := growth_of_advance hadvance
    have hfirst : Collects W [] s s₂ :=
      .of_passes (.next_of_passable hs.on hpassable hnext hgrowth)
    exact hfirst.trans ((starItem_accounts none).collects hitem (hfirst.stays hs) trivial)
  cases hfunction : aggregateFunction? s.cursor.current with
  | some function =>
    simp only [hfunction, bind_eq_ok] at h
    obtain ⟨_, s₁, hadvance, h⟩ := h
    obtain ⟨hnext, hgrowth⟩ := growth_of_advance hadvance
    have hfirst : Collects W [] s s₁ :=
      .of_passes (.next_of_passable hs.on hpassable hnext hgrowth)
    exact hfirst.trans (aggregationItem_collects hW h (hfirst.stays hs))
  | none =>
    simp only [hfunction, bind_eq_ok, ite_eq_ok, pure_eq_ok] at h
    obtain ⟨part, s₁, hpart, h⟩ := h
    have hpart := itemPart_collects hW hpart hs hunowned
    rcases h with ⟨_, _, s₂, hnote, _, s₃, hitem, rfl, rfl⟩ | ⟨_, h⟩
    · have hstar := (noteStar_accounts.bind fun _ => starItem_accounts _).collects
        (bind_eq_ok.2 ⟨_, _, hnote, hitem⟩) (hpart.stays hs) trivial
      simpa using hpart.trans hstar
    · obtain ⟨more, hmore, hitem⟩ := plainItem_collects hW h (hpart.stays hs)
      rw [hmore]
      exact hpart.trans hitem

/-! ## Select lists -/

omit hW in
/-- The owners of a list are those of its items. -/
theorem collect_collects {item : Parser SelectClauses (List Token)} {n : Nat}
    {lists : List (List Token)}
    (hitem : ∀ {s owners s'}, item s = .ok owners s' → W.Over s → Unowned stream s →
      Collects W owners s s')
    (h : collect item (skipSymbol .comma) n s = .ok lists s') (hs : W.Over s)
    (hunowned : Unowned stream s) : Collects W lists.flatten s s' := by
  induction n generalizing s lists with
  | zero =>
    obtain ⟨rfl, rfl⟩ := pure_eq_ok.1 h
    exact .of_passes (.refl hs.on)
  | succ n ih =>
    simp only [collect, ite_eq_ok, bind_eq_ok, pure_eq_ok] at h
    obtain ⟨owners, s₁, hfirst, more, s₂, hcomma, h⟩ := h
    have hfirst := hitem hfirst hs hunowned
    have hskipped : Collects W [] s₁ s₂ :=
      (comma_unowned (P := Anywhere)).collects hcomma (hfirst.stays hs) trivial
    have hsecond := hfirst.trans hskipped
    rcases h with ⟨rfl, lists, s₃, h, rfl, rfl⟩ | ⟨_, rfl, rfl⟩
    · have hunowned₂ :=
        (comma_unowned (P := Anywhere) trivial hcomma (hfirst.stays hs)).2 rfl
      simpa using hsecond.trans (ih h (hsecond.stays hs) hunowned₂)
    · simpa using hsecond

theorem selectList_collects {owners : List Token} (h : selectList s = .ok owners s')
    (hs : W.Over s) (hunowned : Unowned stream s) : Collects W owners s s' := by
  simp only [selectList, commaSeparated, separatedBy, cursor_bind, current_bind, bind_eq_ok,
    pure_eq_ok] at h
  obtain ⟨lists, s₁, hlists, _, s₂, hstop, rfl, rfl⟩ := h
  have hitems : Collects W lists.flatten s s₁ := by
    refine collect_collects (fun {s owners s'} h hs hunowned => ?_) hlists hs hunowned
    simp only [bind_eq_ok, pure_eq_ok] at h
    obtain ⟨r, s₁, hitem, _, s₂, hmodify, rfl, rfl⟩ := h
    have hitem := selectItem_collects hW hitem hs hunowned
    simpa using hitem.trans ((modifyClauses_accounts _).collects hmodify (hitem.stays hs) trivial)
  simpa using hitems.trans ((modifyClauses_accounts _).collects hstop (hitems.stays hs) trivial)

/-- Behind `SELECT` and the options of the select stands its list. -/
theorem selectHead_collects {owners : List Token} (h : selectHead s = .ok owners s')
    (hs : W.Over s) : Collects W owners s s' := by
  simp only [selectHead, bind_eq_ok] at h
  obtain ⟨_, s₁, haccept, _, s₂, hdistinct, _, s₃, hoptions, hlist⟩ := h
  obtain ⟨hkind, hadvance⟩ := accept_eq_ok.1 haccept
  obtain ⟨hnext, hgrowth⟩ := growth_of_advance hadvance
  have hunowned : Unowned stream s := .of_kind (by simp [hkind])
  have haccepted : Collects W [] s s₁ :=
    .of_passes (.next_of_passable hs.on (hW.passable hunowned).during hnext hgrowth)
  have hunowned₁ : Unowned stream s₁ := .of_next hs.on hnext
    (callingKinds_keyword W.dialect [.SELECT] (by simp [itemKeywords]) (by simp [hkind]))
  have hhead {W : Watch SelectClauses stream} :
      Accounts W (Unowned stream) (distinct >>= fun _ => selectOptions) fun _ => Unowned stream :=
    ((skipAll_unowned (arePlain_keywords (by decide))
      (callingKinds_keyword _ [.ALL] (by simp [itemKeywords]))).bind fun _ =>
        (refuse_accounts _).bind fun _ => dialect_accounts (refuse_accounts _)).bind fun _ =>
          dialect_accounts (skipAll_unowned (arePlain_hook [] .selectOptions List.not_mem_nil)
            (callingKinds_keyword _ _ (List.subset_append_right _ _)))
  have hoptioned : (distinct >>= fun _ => selectOptions) s₁ = .ok () s₃ :=
    bind_eq_ok.2 ⟨_, _, hdistinct, hoptions⟩
  have hskipped : Collects W [] s₁ s₃ :=
    hhead.collects hoptioned (haccepted.stays hs) hunowned₁
  have hunowned₃ := (hhead hunowned₁ hoptioned (haccepted.stays hs)).2
  have hsecond := haccepted.trans hskipped
  exact hsecond.trans (selectList_collects hW hlist (hsecond.stays hs) hunowned₃)

end

end Grammar

end SqlRouting
