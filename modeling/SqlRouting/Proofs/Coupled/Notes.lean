import SqlRouting.Proofs.Coupled
import SqlRouting.Proofs.Notes

/-!
# Runs in step until they part

Where a hook has more keywords on the right than on the left, the two runs may part: at a keyword
that the left one has declined. So the notes on the left run tell whether they may. Parsers with
notes are *coupled* if their outcomes from alike states are alike unless the runs may part on the
way (`Notes.Coupled`), and again there is a rule for each way to combine them.
-/

namespace SqlRouting

open SqlRouting.Parser

variable {κ α β : Type} {P : Pairing} {C : κ → κ → Prop} {R : α → α → Prop} {S : β → β → Prop}

/-- At the token that has been declined the runs may part. -/
inductive Note.Parts (P : Pairing) : Note → Prop where
  | declined {h : Hook} {t : Token} {k : Keyword} : t.kind = .keyword k → P.parts h k →
    Parts P ⟨h, t⟩

namespace Notes

variable {p p' q q' : Parser κ α} {f g : α → Parser κ β} {s : ParseState κ}

/-- The runs may part on the way: something is noted at which they may, or nothing is said about
    runs that fail on the left, and the run fails. -/
def Parts (P : Pairing) (x : Notes p) (s : ParseState κ) : Prop :=
  (∃ n ∈ x s, n.Parts P) ∨ P.oneSided ∧ ∀ a s', p s ≠ .ok a s'

namespace Parts

variable {x : Notes p} {y : ∀ a, Notes (f a)}

theorem bind_left (h : x.Parts P s) : (x.bind y).Parts P s := by
  rcases h with ⟨n, hn, hparts⟩ | ⟨hside, hfails⟩
  · exact .inl ⟨n, List.mem_append_left _ hn, hparts⟩
  · refine .inr ⟨hside, fun b s' hok => ?_⟩
    obtain ⟨a, s₁, hp, _⟩ := bind_eq_ok.1 hok
    exact hfails a s₁ hp

theorem bind_right {a : α} {s₁ : ParseState κ} (hp : p s = .ok a s₁) (h : (y a).Parts P s₁) :
    (x.bind y).Parts P s := by
  rcases h with ⟨n, hn, hparts⟩ | ⟨hside, hfails⟩
  · exact .inl ⟨n, List.mem_append_right _ (by simpa only [hp] using hn), hparts⟩
  · refine .inr ⟨hside, fun b s' hok => hfails b s' ?_⟩
    rwa [bind_of_eq_ok hp] at hok

end Parts

/-- From alike states the runs may part, or the two parsers come to outcomes that are alike. -/
def Coupled (P : Pairing) (C : κ → κ → Prop) (R : α → α → Prop) (x : Notes p) (q : Parser κ α) :
    Prop :=
  ∀ s t : ParseState κ, s.Alike P C t → x.Parts P s ∨ ParseState.Outcome P C R (p s) (q t)

end Notes

/-- Parsers that are coupled in any case are so whatever is noted. -/
theorem Notes.Coupled.of {p q : Parser κ α} {x : Notes p} (h : Parser.Coupled P C R p q) :
    x.Coupled P C R q :=
  fun s t hst => .inr (h s t hst)

theorem Parser.Coupled.noted {p q : Parser κ α} {x : Notes p} (h : Parser.Coupled P C R p q) :
    x.Coupled P C R q :=
  .of h

namespace Notes

variable {p p' q q' : Parser κ α} {f g : α → Parser κ β}

/-! ## Combinations -/

namespace Coupled

variable {x : Notes p} {x' : Notes p'} {y : ∀ a, Notes (f a)}

theorem bind (hx : x.Coupled P C R q) (hy : ∀ a b, R a b → (y a).Coupled P C S (g b)) :
    (x.bind y).Coupled P C S (q >>= g) := by
  intro s t hst
  rcases hx s t hst with hparts | houtcome
  · exact .inl hparts.bind_left
  · generalize hp : p s = u at houtcome
    generalize hq : q t = v at houtcome
    cases houtcome with
    | ok hab hst' =>
      rw [bind_of_eq_ok hp, bind_of_eq_ok hq]
      exact (hy _ _ hab _ _ hst').imp_left fun hparts => hparts.bind_right hp
    | error he =>
      refine .inr ?_
      simp only [Bind.bind, EStateM.bind, hp, hq]
      exact .error he

/-- What follows two parsers with the same result may depend on it. -/
theorem bind_eq (hx : x.Coupled P C Eq q) (hy : ∀ a, (y a).Coupled P C S (g a)) :
    (x.bind y).Coupled P C S (q >>= g) := by
  refine hx.bind fun a b hab => ?_
  cases hab
  exact hy a

/-- Both take the same of two branches. -/
theorem cond {b c : Bool} (hbc : b = c) (hx : x.Coupled P C R q) (hx' : x'.Coupled P C R q') :
    (Notes.ite (c := b = true) x x').Coupled P C R (if c = true then q else q') := by
  subst hbc
  intro s t hst
  have h := hx s t hst
  have h' := hx' s t hst
  cases b with
  | false => exact h'
  | true => exact h

/-- Each of the two runs sees the dialect of its side. -/
theorem dialect_bind {f g : Dialect → Parser κ α} {y : ∀ d, Notes (f d)}
    (h : (y P.left).Coupled P C R (g P.right)) :
    (Notes.bind (p := dialect) .silent y).Coupled P C R (dialect >>= g) := by
  intro s t hst
  rw [Parser.dialect_bind, Parser.dialect_bind, hst.cursor.left, hst.cursor.right]
  have hrun : (dialect (κ := κ)) s = .ok P.left s := by rw [← hst.cursor.left]; rfl
  exact (h s t hst).imp_left fun hparts => hparts.bind_right hrun

theorem iterate {step step' : Parser κ Bool} {x : Notes step} (h : x.Coupled P C Eq step')
    (n : Nat) : (x.iterate n).Coupled P C Eq (Parser.iterate step' n) := by
  induction n with
  | zero => exact (Parser.Coupled.pure rfl).noted
  | succ n ih => exact h.bind_eq fun _ => .cond rfl ih (Parser.Coupled.pure rfl).noted

theorem loop {step step' : Parser κ Bool} {x : Notes step} (h : x.Coupled P C Eq step') :
    x.loop.Coupled P C Eq (Parser.loop step') := by
  refine cursor_coupled.noted.bind fun c d hc => ?_
  rw [← hc.movesLeft_eq]
  exact h.iterate _

theorem collect {item item' : Parser κ α} {separator separator' : Parser κ Bool} {x : Notes item}
    (hitem : x.Coupled P C R item') (hseparator : Parser.Coupled P C Eq separator separator')
    (n : Nat) : (x.collect n : Notes (Parser.collect item separator n)).Coupled P C
      (List.Forall₂ R) (Parser.collect item' separator' n) := by
  induction n with
  | zero => exact (Parser.Coupled.pure .nil).noted
  | succ n ih =>
    refine hitem.bind fun a b hab => hseparator.noted.bind_eq fun more => .cond rfl ?_ ?_
    · exact ih.bind fun as bs hs => (Parser.Coupled.pure (.cons hab hs)).noted
    · exact (Parser.Coupled.pure (.cons hab .nil)).noted

theorem separatedBy {item item' : Parser κ α} {separator separator' : Parser κ Bool}
    {x : Notes item} (hseparator : Parser.Coupled P C Eq separator separator')
    (hitem : x.Coupled P C R item') :
    (x.separatedBy : Notes (Parser.separatedBy separator item)).Coupled P C (List.Forall₂ R)
      (Parser.separatedBy separator' item') := by
  refine cursor_coupled.noted.bind fun c d hc => ?_
  rw [← hc.movesLeft_eq]
  exact hitem.collect hseparator _

theorem commaSeparated {item item' : Parser κ α} {x : Notes item} (hitem : x.Coupled P C R item') :
    (x.separatedBy : Notes (Parser.commaSeparated item)).Coupled P C (List.Forall₂ R)
      (Parser.commaSeparated item') :=
  .separatedBy (skipSymbol_coupled _) hitem

end Coupled

/-- What is noted in the first round of a loop is noted. -/
theorem mem_loop {step : Parser κ Bool} {x : Notes step} {n : Note} {s : ParseState κ}
    (h : n ∈ x s) : n ∈ x.loop s := by
  have hfirst : n ∈ x.iterate s.cursor.movesLeft s := List.mem_append_left _ h
  exact hfirst

/-! ## Asking -/

/-- Both runs find the token, or neither does, or the left one notes that they may part. -/
theorem ask_coupled {h : Hook} {found : Cursor → Bool} (found' : Cursor → Bool)
    (hcases : ∀ c c' : Cursor, c.Alike P c' → found c = found' c' ∨
      found c = false ∧ Note.Parts P ⟨h, c.current⟩)
    (hsame : ∀ s t, s.Alike P C t → found s.cursor = found' t.cursor →
      ParseState.Outcome P C R (p s) (q t)) :
    (ask h found : Notes p).Coupled P C R q := by
  intro s t hst
  rcases hcases _ _ hst.cursor with hfound | ⟨hnone, hparts⟩
  · exact .inr (hsame s t hst hfound)
  · exact .inl (.inl ⟨_, by simp [ask, hnone], hparts⟩)

end Notes

namespace Cursor.Alike

variable {c c' : Cursor} {h : Hook} {ws vs : List Keyword}

/-- With more keywords on the right, both cursors are on one of them or neither is, or the runs may
    part. -/
theorem isKeyword_cases (hc : c.Alike P c') (hw : P.Wider h ws vs) :
    c.isKeyword ws = c'.isKeyword vs ∨
      c.isKeyword ws = false ∧ Note.Parts P ⟨h, c.current⟩ := by
  rw [isKeyword, isKeyword, ← hc.kind_eq]
  split
  case h_2 => exact .inl rfl
  case h_1 k hk =>
    obtain ⟨hleft, hright⟩ := hw k (hc.current.occurs k hk)
    by_cases hws : k ∈ ws
    · exact .inl (by simp [hws, hleft hws])
    · by_cases hvs : k ∈ vs
      · exact .inr ⟨by simp [hws], .declined hk ((hright hvs).resolve_left hws)⟩
      · exact .inl (by simp [hws, hvs])

theorem isAny_cases (hc : c.Alike P c') (kinds : List TokenKind) (hw : P.Wider h ws vs) :
    c.isAny (kinds ++ ws.map .keyword) = c'.isAny (kinds ++ vs.map .keyword) ∨
      c.isAny (kinds ++ ws.map .keyword) = false ∧ Note.Parts P ⟨h, c.current⟩ := by
  rw [isAny_append, isAny_append, isAny_keywords, isAny_keywords, hc.isAny_eq kinds]
  cases c'.isAny kinds with
  | true => exact .inl rfl
  | false => exact hc.isKeyword_cases hw

end Cursor.Alike

namespace Notes

variable {h : Hook} {ws vs : List Keyword}

theorem askKeyword_coupled (hw : P.Wider h ws vs) :
    (askKeyword h ws).Coupled P C Eq (skipKeyword vs) := by
  refine ask_coupled (·.isKeyword vs) (fun _ _ hc => hc.isKeyword_cases hw) fun s t hst hfound => ?_
  rw [skipKeyword, skipKeyword, cursor_bind, cursor_bind, hfound]
  exact Parser.Coupled.cond rfl (advance_coupled.bind_eq fun _ => .pure rfl) (.pure rfl) s t hst

theorem askKind_coupled (kinds : List TokenKind) (hw : P.Wider h ws vs) :
    (askKind h (kinds ++ ws.map .keyword)).Coupled P C Eq
      (skipIf (kinds ++ vs.map .keyword)) := by
  refine ask_coupled _ (fun _ _ hc => hc.isAny_cases kinds hw) fun s t hst hfound => ?_
  rw [skipIf, skipIf, cursor_bind, cursor_bind, hfound]
  exact Parser.Coupled.cond rfl (advance_coupled.bind_eq fun _ => .pure rfl) (.pure rfl) s t hst

/-! ## Skipping -/

/-- A round of skipping keywords. -/
def skipStep (keywords : List Keyword) : Parser κ Bool := do
  let c ← cursor
  if c.isKeyword keywords then
    trace (.skippedKeyword c.current.literal)
    advance
    return true
  else return false

theorem skipStep_of_not_isKeyword {s : ParseState κ} (h : s.cursor.isKeyword ws = false) :
    skipStep ws s = .ok false s := by
  rw [skipStep, cursor_bind, h]
  rfl

/-- Nothing is skipped before a token that is none of the keywords. -/
theorem iterate_skipStep_of_not_isKeyword {s : ParseState κ} (h : s.cursor.isKeyword ws = false)
    (n : Nat) : Parser.iterate (skipStep ws) n s = .ok () s := by
  cases n with
  | zero => rfl
  | succ n =>
    rw [Parser.iterate, bind_of_eq_ok (skipStep_of_not_isKeyword h)]
    rfl

theorem skipStep_outcome {s t : ParseState κ} (hst : s.Alike P C t)
    (hs : s.cursor.isKeyword ws = true) (ht : t.cursor.isKeyword vs = true) :
    ParseState.Outcome P C (fun a b => a = true ∧ b = true) (skipStep ws s) (skipStep vs t) := by
  rw [skipStep, skipStep, cursor_bind, cursor_bind, hs, ht]
  exact Parser.Coupled.bind_eq (trace_coupled _ _)
    (fun _ => advance_coupled.bind_eq fun _ => .pure ⟨rfl, rfl⟩) s t hst

/-- What the left run skips, the right run skips too. Where the left one stops, the right one does,
    unless it is on a keyword that is skipped on the right only. -/
theorem iterate_skipStep_follows (hsub : ∀ k, P.occurs k → k ∈ ws → k ∈ vs) (n : Nat)
    {s t : ParseState κ} (hst : s.Alike P C t) :
    ParseState.Outcome P C Eq (Parser.iterate (skipStep ws) n s)
        (Parser.iterate (skipStep vs) n t) ∨
      ∃ s' t' m k, Parser.iterate (skipStep ws) n s = .ok () s' ∧ s'.Alike P C t' ∧
        Parser.iterate (skipStep vs) n t = Parser.iterate (skipStep vs) (m + 1) t' ∧
        s'.cursor.current.kind = .keyword k ∧ k ∉ ws ∧ k ∈ vs := by
  induction n generalizing s t with
  | zero => exact .inl (.ok rfl hst)
  | succ n ih =>
    cases hs : s.cursor.isKeyword ws with
    | false =>
      have hstays := iterate_skipStep_of_not_isKeyword hs (n + 1)
      cases ht : t.cursor.isKeyword vs with
      | false =>
        rw [hstays, iterate_skipStep_of_not_isKeyword ht]
        exact .inl (.ok rfl hst)
      | true =>
        obtain ⟨k, hk, hvs⟩ := Cursor.isKeyword_iff.1 ht
        rw [← hst.cursor.kind_eq] at hk
        have hws : k ∉ ws := fun hws =>
          Bool.false_ne_true (hs ▸ Cursor.isKeyword_iff.2 ⟨k, hk, hws⟩)
        exact .inr ⟨s, t, n, k, hstays, hst, rfl, hk, hws, hvs⟩
    | true =>
      obtain ⟨k, hk, hws⟩ := Cursor.isKeyword_iff.1 hs
      have ht : t.cursor.isKeyword vs = true := Cursor.isKeyword_iff.2
        ⟨k, hst.cursor.kind_eq ▸ hk, hsub k (hst.cursor.current.occurs k hk) hws⟩
      have houtcome := skipStep_outcome hst hs ht
      rw [Parser.iterate, Parser.iterate]
      generalize hp : skipStep ws s = u at houtcome
      generalize hq : skipStep vs t = v at houtcome
      cases houtcome with
      | ok hab hst' =>
        obtain ⟨rfl, rfl⟩ := hab
        rw [bind_of_eq_ok hp, bind_of_eq_ok hq]
        exact ih hst'
      | error he =>
        simp only [Bind.bind, EStateM.bind, hp, hq]
        exact .inl (.error he)

theorem skipAll_follows (hsub : ∀ k, P.occurs k → k ∈ ws → k ∈ vs) {s t : ParseState κ}
    (hst : s.Alike P C t) :
    ParseState.Outcome P C Eq (skipAll ws s) (skipAll vs t) ∨
      ∃ s' t' m k, skipAll ws s = .ok () s' ∧ s'.Alike P C t' ∧
        skipAll vs t = Parser.iterate (skipStep vs) (m + 1) t' ∧
        s'.cursor.current.kind = .keyword k ∧ k ∉ ws ∧ k ∈ vs := by
  have hright : skipAll vs t = Parser.iterate (skipStep vs) s.cursor.movesLeft t := by
    rw [hst.cursor.movesLeft_eq]
    rfl
  rw [hright]
  exact iterate_skipStep_follows hsub _ hst

theorem askAll_coupled (hw : P.Wider h ws vs) :
    (askAll h ws).Coupled P C Eq (skipAll vs) := by
  intro s t hst
  rcases skipAll_follows (fun k hk => (hw k hk).1) hst with
    houtcome | ⟨s', t', m, k, hs, hst', _, hk, hws, hvs⟩
  · exact .inr houtcome
  · have hparts := ((hw k (hst'.cursor.current.occurs k hk)).2 hvs).resolve_left hws
    exact .inl (.inl ⟨⟨h, s'.cursor.current⟩, by simp [askAll, hs], .declined hk hparts⟩)

/-- Before what follows modifiers the right run may skip more of them: there either the left run
    fails, or the right one comes to the same outcome. -/
theorem askAll_bind_coupled {p q : Parser κ α} {x : Notes p} (h : Hook)
    (hx : x.Coupled P C R q)
    (hpast : ∀ (s t : ParseState κ) (k : Keyword) (m : Nat), P.oneSided → s.Alike P C t →
      s.cursor.current.kind = .keyword k → h.Precedes k → k ∈ P.right.hook h → x.Parts P s ∨
        ParseState.Outcome P C R (p s)
          ((Parser.iterate (skipStep (P.right.hook h)) (m + 1) >>= fun _ => q) t)) :
    (Notes.bind (askAll h (P.left.hook h)) fun _ => x).Coupled P C R
      (skipAll (P.right.hook h) >>= fun _ => q) := by
  intro s t hst
  rcases skipAll_follows (fun k hk => (P.hooks k hk h).1) hst with
    houtcome | ⟨s', t', m, k, hs, hst', ht, hk, hws, hvs⟩
  · generalize hp : skipAll (P.left.hook h) s = u at houtcome
    generalize hq : skipAll (P.right.hook h) t = v at houtcome
    cases houtcome with
    | ok _ hst' =>
      rw [bind_of_eq_ok hp, bind_of_eq_ok hq]
      exact (hx _ _ hst').imp_left fun hparts => hparts.bind_right hp
    | error he =>
      simp only [Bind.bind, EStateM.bind, hp, hq]
      exact .inr (.error he)
  · rcases (P.hooks k (hst'.cursor.current.occurs k hk) h).2 hvs with hleft | hparts | ⟨hside, hp⟩
    · exact absurd hleft hws
    · refine .inl (Parts.bind_left (.inl ⟨⟨h, s'.cursor.current⟩, ?_, .declined hk hparts⟩))
      simp [askAll, hs]
    · have hgoes : (skipAll (P.right.hook h) >>= fun _ => q) t =
          (Parser.iterate (skipStep (P.right.hook h)) (m + 1) >>= fun _ => q) t' := by
        simp only [Bind.bind, EStateM.bind, ht]
      rw [bind_of_eq_ok hs, hgoes]
      exact (hpast s' t' k m hside hst' hk hp hvs).imp_left fun hparts => hparts.bind_right hs

end Notes

end SqlRouting
