import SqlRouting.Proofs.Alike.Clauses
import SqlRouting.Proofs.Parser

/-!
# Two runs in step

Two parsers are *coupled* if from alike states they both succeed, with related results and in alike
states, or both fail with alike errors (`Parser.Coupled`). Parsers are coupled once their parts are:
there is a rule for each way to combine parsers, and one for each parser that others are made of. No
parser of the grammar looks at a cursor in any other way than through them.
-/

namespace SqlRouting

variable {κ α β : Type} {P : Pairing} {C : κ → κ → Prop} {R : α → α → Prop} {S : β → β → Prop}

/-- The two states have alike cursors and bodies. What has been traced is left out, since keywords
    are traced as they are written. -/
structure ParseState.Alike (P : Pairing) (C : κ → κ → Prop) (s t : ParseState κ) : Prop where
  cursor : s.cursor.Alike P t.cursor
  body : s.body.Alike P C t.body

/-- The two outcomes are results that are related, in alike states, or alike errors. -/
inductive ParseState.Outcome (P : Pairing) (C : κ → κ → Prop) (R : α → α → Prop) :
    EStateM.Result ParseError (ParseState κ) α → EStateM.Result ParseError (ParseState κ) α →
      Prop where
  | ok {a b : α} {s t : ParseState κ} : R a b → s.Alike P C t → Outcome P C R (.ok a s) (.ok b t)
  | error {e f : ParseError} {s t : ParseState κ} : e.Alike P f →
    Outcome P C R (.error e s) (.error f t)

namespace Parser

/-- From alike states the two parsers come to outcomes that are alike. -/
def Coupled (P : Pairing) (C : κ → κ → Prop) (R : α → α → Prop) (p q : Parser κ α) : Prop :=
  ∀ s t : ParseState κ, s.Alike P C t → ParseState.Outcome P C R (p s) (q t)

/-! ## Combinations -/

theorem outcome_bind {p q : Parser κ α} {f g : α → Parser κ β} {s t : ParseState κ}
    (h : ParseState.Outcome P C R (p s) (q t)) (hfg : ∀ a b, R a b → Coupled P C S (f a) (g b)) :
    ParseState.Outcome P C S ((p >>= f) s) ((q >>= g) t) := by
  simp only [Bind.bind, EStateM.bind]
  generalize p s = u at h ⊢
  generalize q t = v at h ⊢
  cases h with
  | ok hab hst => exact hfg _ _ hab _ _ hst
  | error he => exact .error he

namespace Coupled

theorem pure {a b : α} (h : R a b) : Coupled P C R (pure a : Parser κ α) (Pure.pure b) :=
  fun _ _ hst => .ok h hst

theorem throw {e f : ParseError} (h : e.Alike P f) :
    Coupled P C R (throw e : Parser κ α) (MonadExcept.throw f) :=
  fun _ _ _ => .error h

theorem bind {p q : Parser κ α} {f g : α → Parser κ β} (h : Coupled P C R p q)
    (hfg : ∀ a b, R a b → Coupled P C S (f a) (g b)) : Coupled P C S (p >>= f) (q >>= g) :=
  fun s t hst => outcome_bind (h s t hst) hfg

/-- Nothing follows a failure. -/
theorem throw_bind {e e' : ParseError} (h : e.Alike P e') (f g : α → Parser κ β) :
    Coupled P C S (MonadExcept.throw e >>= f) (MonadExcept.throw e' >>= g) :=
  fun _ _ _ => .error h

/-- What follows two parsers with the same result may depend on it. -/
theorem bind_eq {p q : Parser κ α} {f g : α → Parser κ β} (h : Coupled P C Eq p q)
    (hfg : ∀ a, Coupled P C S (f a) (g a)) : Coupled P C S (p >>= f) (q >>= g) := by
  refine h.bind fun a b hab => ?_
  cases hab
  exact hfg a

theorem ite {c d : Prop} [Decidable c] [Decidable d] {p p' q q' : Parser κ α} (hcd : c ↔ d)
    (hp : Coupled P C R p p') (hq : Coupled P C R q q') :
    Coupled P C R (if c then p else q) (if d then p' else q') := by
  by_cases hc : c
  · rwa [if_pos hc, if_pos (hcd.1 hc)]
  · rwa [if_neg hc, if_neg fun hd => hc (hcd.2 hd)]

/-- Both take the same of two branches. -/
theorem cond {b c : Bool} {p p' q q' : Parser κ α} (hbc : b = c) (hp : Coupled P C R p p')
    (hq : Coupled P C R q q') :
    Coupled P C R (if b = true then p else q) (if c = true then p' else q') :=
  ite (hbc ▸ Iff.rfl) hp hq

end Coupled

/-! ## Looking -/

theorem cursor_coupled : Coupled P C (Cursor.Alike P) cursor cursor :=
  fun _ _ hst => .ok hst.cursor hst

theorem current_coupled : Coupled P C (Token.Alike P) current current :=
  fun _ _ hst => .ok hst.cursor.current hst

theorem routing_coupled : Coupled P C (Routing.Alike P) routing routing :=
  fun _ _ hst => .ok hst.body.routing hst

theorem clauses_coupled : Coupled P C C clauses clauses :=
  fun _ _ hst => .ok hst.body.clauses hst

/-- Each of the two runs sees the dialect of its side. -/
theorem dialect_bind_coupled {f g : Dialect → Parser κ α}
    (h : Coupled P C R (f P.left) (g P.right)) :
    Coupled P C R (dialect >>= f) (dialect >>= g) := by
  intro s t hst
  rw [dialect_bind, dialect_bind, hst.cursor.left, hst.cursor.right]
  exact h s t hst

/-! ## Moves of the cursor -/

theorem advance_coupled : Coupled P C Eq advance advance := by
  intro s t hst
  rw [advance, get_bind, get_bind]
  have hnext := hst.cursor.next
  generalize s.cursor.next = u at hnext ⊢
  generalize t.cursor.next = v at hnext ⊢
  cases hnext with
  | ok hc => exact .ok rfl ⟨hc, hst.body⟩
  | error e => exact .error (.refl _)

theorem unexpected_coupled : Coupled P C R unexpected unexpected := by
  refine cursor_coupled.bind fun c d h => .throw ?_
  rw [Cursor.unexpected, Cursor.unexpected, h.kind_eq, h.current.start_eq]
  exact .unexpectedToken _ _ h.current.literal

theorem unexpected_bind_coupled (f g : α → Parser κ β) :
    Coupled P C S (unexpected >>= f) (unexpected >>= g) :=
  .bind (R := fun _ _ => False) unexpected_coupled fun _ _ h => h.elim

theorem refuseEnd_coupled : Coupled P C Eq refuseEnd refuseEnd :=
  cursor_coupled.bind fun _ _ h => .cond h.isEnd_eq unexpected_coupled (.pure rfl)

theorem skipIf_coupled (kinds : List TokenKind) :
    Coupled P C Eq (skipIf kinds) (skipIf kinds) :=
  cursor_coupled.bind fun _ _ hc =>
    .cond (hc.isAny_eq kinds) (advance_coupled.bind_eq fun _ => .pure rfl) (.pure rfl)

theorem skipKeyword_coupled {ws vs : List Keyword} (h : P.SameWords ws vs) :
    Coupled P C Eq (skipKeyword ws) (skipKeyword vs) :=
  cursor_coupled.bind fun _ _ hc =>
    .cond (hc.isKeyword_eq h) (advance_coupled.bind_eq fun _ => .pure rfl) (.pure rfl)

theorem skipSymbol_coupled (x : Symbol) : Coupled P C Eq (skipSymbol x) (skipSymbol x) :=
  skipIf_coupled _

theorem accept_coupled (kind : TokenKind) : Coupled P C Eq (accept kind) (accept kind) := by
  refine current_coupled.bind fun t u h => .ite (by rw [h.kind]) advance_coupled (.throw ?_)
  rw [h.kind]
  exact .unmatchedToken _ _ h.literal

theorem refuse_coupled {ws vs : List Keyword} (h : P.SameWords ws vs) :
    Coupled P C Eq (refuse ws) (refuse vs) := by
  refine cursor_coupled.bind fun c d hc => .cond (hc.isKeyword_eq h) (.throw ?_) (.pure rfl)
  rw [hc.kind_eq]
  exact .refl _

theorem slice_coupled (start stop : Nat) :
    Coupled P C (Text.Alike P) (slice start stop) (slice start stop) := by
  refine cursor_coupled.bind fun c d hc => ?_
  have hmap := congrArg (Text.slice? · start stop) hc.text
  rw [Text.slice?_map_fold, Text.slice?_map_fold] at hmap
  generalize Text.slice? c.text start stop = part at hmap ⊢
  generalize Text.slice? d.text start stop = part' at hmap ⊢
  cases part with
  | none =>
    obtain rfl : part' = none := by simpa using hmap.symm
    exact .throw (.refl _)
  | some part =>
    obtain ⟨part', rfl, hpart⟩ := Option.map_eq_some_iff.1 hmap.symm
    exact .pure (.ofList hpart.symm)

theorem textSince_coupled (start : Nat) :
    Coupled P C (Text.Alike P) (textSince start) (textSince start) := by
  refine current_coupled.bind fun t u h => ?_
  rw [h.start_eq]
  refine (slice_coupled _ _).bind fun text text' htext => .pure (.ofList ?_)
  rw [← Text.trimEnd_map_fold, ← Text.trimEnd_map_fold, htext]

/-! ## Records -/

theorem modifyRouting_coupled {f g : Routing → Routing}
    (h : ∀ r r', r.Alike P r' → (f r).Alike P (g r')) :
    Coupled P C Eq (modifyRouting f) (modifyRouting g) :=
  fun _ _ hst => .ok rfl ⟨hst.cursor, h _ _ hst.body.routing, hst.body.clauses⟩

theorem modifyClauses_coupled {f g : κ → κ} (h : ∀ a b, C a b → C (f a) (g b)) :
    Coupled P C Eq (modifyClauses f) (modifyClauses g) :=
  fun _ _ hst => .ok rfl ⟨hst.cursor, hst.body.routing, h _ _ hst.body.clauses⟩

theorem addMark_coupled {m m' : Mark} (h : m.Alike P m') :
    Coupled P C Eq (addMark m) (addMark m') :=
  modifyRouting_coupled fun _ _ hr => ⟨hr.tables, hr.conditions, h.insert hr.marks, hr.parameters⟩

theorem addTable_coupled {t u : Table} (h : t.Alike P u) :
    Coupled P C Eq (addTable t) (addTable u) :=
  modifyRouting_coupled fun _ _ hr => ⟨hr.tables.add h, hr.conditions, hr.marks, hr.parameters⟩

theorem addCondition_coupled {c c' : Condition} (h : P.names → c = c') :
    Coupled P C Eq (addCondition c) (addCondition c') := by
  refine modifyRouting_coupled fun r r' hr => ⟨hr.tables, fun hnames => ?_, hr.marks, hr.parameters⟩
  rw [hr.conditions hnames, h hnames]

theorem takePlaceholder_coupled : Coupled P C Eq takePlaceholder takePlaceholder := by
  refine routing_coupled.bind fun r r' hr => ?_
  rw [hr.parameters]
  exact .bind_eq (modifyRouting_coupled fun r r' hr => ⟨hr.tables, hr.conditions, hr.marks,
    congrArg (· + 1) hr.parameters⟩) fun _ => .pure rfl

theorem placeholdersSince_coupled (before : Nat) :
    Coupled P C Eq (placeholdersSince before) (placeholdersSince before) := by
  refine routing_coupled.bind fun r r' hr => ?_
  rw [hr.parameters]
  exact .ite Iff.rfl (.pure rfl) (.throw (.refl _))

theorem countPlaceholder_coupled : Coupled P C Eq countPlaceholder countPlaceholder :=
  cursor_coupled.bind fun _ _ hc => .cond (hc.isSymbol_eq _)
    (takePlaceholder_coupled.bind_eq fun _ => .pure rfl) (.pure rfl)

theorem trace_coupled (e f : TraceEvent) : Coupled P C Eq (trace e) (trace f) :=
  fun _ _ hst => .ok rfl ⟨hst.cursor, hst.body⟩

theorem modify_coupled {f g : ParseState κ → ParseState κ}
    (h : ∀ s t, s.Alike P C t → (f s).Alike P C (g t)) : Coupled P C Eq (modify f) (modify g) :=
  fun _ _ hst => .ok rfl (h _ _ hst)

/-- Names that are taken are related as the tokens under the cursors are. -/
theorem takeName_outcome {R : Token → Token → Prop} {s t : ParseState κ} (hst : s.Alike P C t)
    (h : R s.cursor.current t.cursor.current) :
    ParseState.Outcome P C R (takeName s) (takeName t) := by
  have hmove : Coupled P C R (do advance; return s.cursor.current)
      (do advance; return t.cursor.current) := advance_coupled.bind_eq fun _ => .pure h
  rw [takeName, current_bind, current_bind]
  refine Coupled.bind cursor_coupled (fun c d hc => ?_) s t hst
  refine .cond (hc.isSymbol_eq _) ?_ hmove
  exact .bind_eq (modify_coupled fun _ _ hst => ⟨hst.cursor, hst.body⟩) fun _ => hmove

theorem skipSymbol_bind (x : Symbol) (f : Bool → Parser κ α) (s : ParseState κ) :
    (skipSymbol x >>= f) s =
      if s.cursor.isSymbol x then (advance >>= fun _ => f true) s else f false s := by
  have hany : s.cursor.isAny [.symbol x] = s.cursor.isSymbol x := by
    simp [Cursor.isAny, Cursor.isSymbol]
  rw [skipSymbol, skipIf, bind_assoc, cursor_bind, hany]
  split
  · rw [bind_assoc]
    rfl
  · rfl

/-- Behind a dot two names that are taken are the same if names are. -/
theorem dot_takeName_coupled {f g : Token → Parser κ α} {p q : Parser κ α}
    (hfg : ∀ t u, t.Alike P u → (P.names → t.literal = u.literal) → Coupled P C R (f t) (g u))
    (hpq : Coupled P C R p q) :
    Coupled P C R (do if ← skipSymbol .dot then f (← takeName) else p)
      (do if ← skipSymbol .dot then g (← takeName) else q) := by
  intro s t hst
  have hdot := hst.cursor.isSymbol_eq .dot
  have hnext := hst.cursor.next
  have hsame := hst.cursor.literal_eq_behind_dot
  rw [skipSymbol_bind, skipSymbol_bind, ← hdot]
  split
  case isFalse => exact hpq s t hst
  case isTrue hc =>
    rw [advance, bind_assoc, bind_assoc, get_bind, get_bind]
    generalize s.cursor.next = u at hnext hsame ⊢
    generalize t.cursor.next = v at hnext hsame ⊢
    cases hnext with
    | error e => exact .error (.refl _)
    | @ok d d' hd =>
      have hst' : ParseState.Alike P C { s with cursor := d } { t with cursor := d' } :=
        ⟨hd, hst.body⟩
      change ParseState.Outcome P C R ((takeName >>= f) { s with cursor := d })
        ((takeName >>= g) { t with cursor := d' })
      have hname := takeName_outcome
        (R := fun t u => t.Alike P u ∧ (P.names → t.literal = u.literal)) hst'
        ⟨hd.current, fun hnames => hsame hnames hc rfl rfl⟩
      exact outcome_bind hname fun t u h => hfg t u h.1 h.2

/-! ## Repetition -/

theorem iterate_coupled {step step' : Parser κ Bool} (h : Coupled P C Eq step step') (n : Nat) :
    Coupled P C Eq (iterate step n) (iterate step' n) := by
  induction n with
  | zero => exact .pure rfl
  | succ n ih => exact h.bind_eq fun _ => .cond rfl ih (.pure rfl)

theorem loop_coupled {step step' : Parser κ Bool} (h : Coupled P C Eq step step') :
    Coupled P C Eq (loop step) (loop step') := by
  refine cursor_coupled.bind fun c d hc => ?_
  rw [hc.movesLeft_eq]
  exact iterate_coupled h _

theorem collect_coupled {item item' : Parser κ α} {separator separator' : Parser κ Bool}
    (hitem : Coupled P C R item item') (hseparator : Coupled P C Eq separator separator')
    (n : Nat) :
    Coupled P C (List.Forall₂ R) (collect item separator n) (collect item' separator' n) := by
  induction n with
  | zero => exact .pure .nil
  | succ n ih =>
    refine hitem.bind fun a b hab => hseparator.bind_eq fun more => .cond rfl ?_ ?_
    · exact ih.bind fun as bs hs => .pure (.cons hab hs)
    · exact .pure (.cons hab .nil)

theorem separatedBy_coupled {item item' : Parser κ α} {separator separator' : Parser κ Bool}
    (hseparator : Coupled P C Eq separator separator') (hitem : Coupled P C R item item') :
    Coupled P C (List.Forall₂ R) (separatedBy separator item) (separatedBy separator' item') := by
  refine cursor_coupled.bind fun c d hc => ?_
  rw [hc.movesLeft_eq]
  exact collect_coupled hitem hseparator _

theorem commaSeparated_coupled {item item' : Parser κ α} (hitem : Coupled P C R item item') :
    Coupled P C (List.Forall₂ R) (commaSeparated item) (commaSeparated item') :=
  separatedBy_coupled (skipSymbol_coupled _) hitem

/-! ## Skipping -/

theorem skipAll_coupled {ws vs : List Keyword} (h : P.SameWords ws vs) :
    Coupled P C Eq (skipAll ws) (skipAll vs) :=
  loop_coupled <| cursor_coupled.bind fun _ _ hc => .cond (hc.isKeyword_eq h)
    ((trace_coupled _ _).bind_eq fun _ => advance_coupled.bind_eq fun _ => .pure rfl) (.pure rfl)

theorem skipUntil_coupled (kinds : List TokenKind) :
    Coupled P C Eq (skipUntil kinds) (skipUntil kinds) :=
  loop_coupled <| cursor_coupled.bind fun _ _ hc =>
    .cond (by rw [hc.isEnd_eq, hc.isAny_eq kinds]) (.pure rfl)
      (countPlaceholder_coupled.bind_eq fun _ => advance_coupled.bind_eq fun _ => .pure rfl)

theorem skipRest_coupled : Coupled P C Eq skipRest skipRest := by
  refine cursor_coupled.bind fun c d hc => .cond (by rw [hc.isEnd_eq]) ?_ (.pure rfl)
  rw [hc.current.start_eq, hc.byteLength_eq]
  exact (slice_coupled _ _).bind fun _ _ _ => (trace_coupled _ _).bind_eq fun _ =>
    skipUntil_coupled _

theorem skipToClosing_coupled (n depth : Nat) :
    Coupled P C Eq (skipToClosing n depth) (skipToClosing n depth) := by
  induction n generalizing depth with
  | zero => exact unexpected_coupled
  | succ n ih =>
    refine current_coupled.bind fun t u h => ?_
    rw [← h.kind]
    have hnext (depth : Nat) : Coupled P C Eq (do advance; skipToClosing n depth)
        (do advance; skipToClosing n depth) := advance_coupled.bind_eq fun _ => ih depth
    split
    · exact unexpected_coupled
    · exact .pure rfl
    · exact hnext _
    · exact hnext _
    · exact countPlaceholder_coupled.bind_eq fun _ => hnext _

theorem skipParentheses_coupled : Coupled P C (Text.Alike P) skipParentheses skipParentheses := by
  refine cursor_coupled.bind fun c d hc => .cond (hc.isSymbol_eq _) ?_ (.pure (.refl _))
  rw [hc.movesLeft_eq, hc.current.start_eq]
  refine advance_coupled.bind_eq fun _ => (skipToClosing_coupled _ _).bind_eq fun _ =>
    current_coupled.bind fun t u h => ?_
  rw [h.stop]
  exact (slice_coupled _ _).bind fun _ _ htext => advance_coupled.bind_eq fun _ => .pure htext

end Parser

end SqlRouting
