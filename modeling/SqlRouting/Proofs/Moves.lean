import Mathlib.Logic.Relation
import SqlRouting.Proofs.Cursor
import SqlRouting.Proofs.Parser

/-!
# Moves

Whatever a parser does to its state when it succeeds, it does by moves of few kinds (`Move`): it
passes a token, counting it if it is a placeholder, or it records something. A parser may record
marks wherever it likes, but tables, conditions and clauses only within its *scope*. That a parser
makes only such moves (`Moves`) is shown for each in turn; what is kept by every move is thereby
kept by every run of a parser.
-/

namespace SqlRouting

open Relation (ReflTransGen)

/-! ## Moves -/

/-- The marks that a token may get: the name of a table, or the place of rows. -/
inductive Mark.Of (t : Token) : Mark → Prop
  | table (h : t.kind = LiteralClass.identifier) : Mark.Of t (.table t.start t.literal)
  | insertValues (table : String) : Mark.Of t (.insertValues t.start table)

/-- What a parser may record besides marks: tables, conditions, and changes of the
    clauses while the cursor is on a token. -/
structure Scope (κ : Type) where
  tables : Prop
  conditions : Prop
  clauses : Token → κ → κ → Prop

/-- A move in the given scope, along a stream of tokens. -/
inductive Move {κ : Type} (E : Scope κ) (stream : List Token) :
    ParseState κ → ParseState κ → Prop
  /-- A token that is no placeholder is passed. -/
  | pass {s c} (hnext : s.cursor.next = .ok c) (h : s.cursor.current.kind ≠ .symbol .question) :
    Move E stream s { s with cursor := c }
  /-- A placeholder is passed and counted. -/
  | count {s c} (hnext : s.cursor.next = .ok c) (h : s.cursor.current.kind = .symbol .question) :
    Move E stream s { s.counted with cursor := c }
  /-- A dot and the placeholder behind it are passed; the placeholder is taken for
      a name. -/
  | name {s c c'} (hnext : s.cursor.next = .ok c) (hdot : s.cursor.current.kind = .symbol .dot)
    (hnext' : c.next = .ok c') (h : c.current.kind = .symbol .question) :
    Move E stream s { s with cursor := c', unnumbered := s.unnumbered ++ [c.current] }
  | trace {s} (e : TraceEvent) : Move E stream s { s with events := s.events ++ [e] }
  | mark {s t m} (ht : t ∈ stream) (hm : Mark.Of t m) :
    Move E stream s { s with body := { s.body with marks := m.insert s.body.marks } }
  | table {s} (hE : E.tables) (t : Table) :
    Move E stream s { s with body := { s.body with tables := s.body.tables.add t } }
  | conditions {s} (hE : E.conditions) (cs : Conditions) :
    Move E stream s { s with body := { s.body with conditions := cs } }
  | clauses {s clauses} (hE : E.clauses s.cursor.current s.body.clauses clauses) :
    Move E stream s { s with body := { s.body with clauses } }

/-- The cursor is on a token of the stream. -/
structure ParseState.On {κ : Type} (stream : List Token) (s : ParseState κ) : Prop where
  tokens : s.cursor.tokens <:+ stream
  closed : s.cursor.Closed

namespace ParseState.On

variable {κ : Type} {E : Scope κ} {stream : List Token} {s s' : ParseState κ}

theorem current_mem (h : s.On stream) : s.cursor.current ∈ stream :=
  h.tokens.subset (List.mem_cons_self ..)

theorem next {c : Cursor} (h : s.On stream) (hnext : s.cursor.next = .ok c) :
    ({ s with cursor := c } : ParseState κ).On stream :=
  ⟨(Cursor.tokens_suffix_of_next h.closed hnext).trans h.tokens, h.closed.next hnext⟩

/-- A move leads to a token of the stream. -/
theorem move (h : s.On stream) (hmove : Move E stream s s') : s'.On stream := by
  cases hmove with
  | pass hnext => exact h.next hnext
  | count hnext => exact ⟨(h.next hnext).tokens, (h.next hnext).closed⟩
  | name hnext _ hnext' =>
    have h' := (h.next hnext).next hnext'
    exact ⟨h'.tokens, h'.closed⟩
  | trace | mark | table | conditions | clauses => exact ⟨h.tokens, h.closed⟩

end ParseState.On

/-- A run: moves one after the other, from a token of the stream. -/
def Run {κ : Type} (E : Scope κ) (stream : List Token) (s s' : ParseState κ) : Prop :=
  s.On stream → ReflTransGen (Move E stream) s s'

namespace Run

variable {κ : Type} {E : Scope κ} {stream : List Token} {s s₁ s' : ParseState κ}

theorem refl : Run E stream s s :=
  fun _ => .refl

theorem on (h : Run E stream s s') (hs : s.On stream) : s'.On stream := by
  have hmoves := h hs
  clear h
  induction hmoves with
  | refl => exact hs
  | tail _ hmove ih => exact ih.move hmove

theorem trans (h : Run E stream s s₁) (h' : Run E stream s₁ s') : Run E stream s s' :=
  fun hs => (h hs).trans (h' (h.on hs))

theorem of_move (h : Move E stream s s') : Run E stream s s' :=
  fun _ => .single h

/-- A relation that is reflexive and transitive and holds across every move holds across
    every run. -/
theorem rel {R : ParseState κ → ParseState κ → Prop} (hrefl : ∀ s, R s s)
    (htrans : ∀ {s s₁ s'}, R s s₁ → R s₁ s' → R s s')
    (hmove : ∀ {s s'}, s.On stream → Move E stream s s' → R s s')
    (h : Run E stream s s') (hs : s.On stream) : R s s' := by
  have hmoves := h hs
  clear h
  induction hmoves with
  | refl => exact hrefl s
  -- The last move starts on the stream, since the moves before it lead there.
  | tail hmoves hmove' ih => exact htrans ih (hmove (on (fun _ => hmoves) hs) hmove')

/-- The cursor never moves back. -/
theorem tokens_suffix (h : Run E stream s s') (hs : s.On stream) :
    s'.cursor.tokens <:+ s.cursor.tokens := by
  refine h.rel (R := fun s s' => s'.cursor.tokens <:+ s.cursor.tokens) (fun _ => List.suffix_rfl)
    (fun h₁ h₂ => h₂.trans h₁) ?_ hs
  intro s s' hs hmove
  cases hmove with
  | pass hnext | count hnext => exact Cursor.tokens_suffix_of_next hs.closed hnext
  | name hnext _ hnext' =>
    exact (Cursor.tokens_suffix_of_next (hs.closed.next hnext) hnext').trans
      (Cursor.tokens_suffix_of_next hs.closed hnext)
  | trace | mark | table | conditions | clauses => exact List.suffix_rfl

/-- A run does not move back. -/
theorem length_le (h : Run E s.cursor.tokens s s') (hs : s.cursor.Closed) :
    s'.cursor.Closed ∧ s'.cursor.ahead.length ≤ s.cursor.ahead.length := by
  have hon : s.On s.cursor.tokens := ⟨List.suffix_rfl, hs⟩
  have hle := (h.tokens_suffix hon).length_le
  simp only [Cursor.tokens, List.length_cons] at hle
  exact ⟨(h.on hon).closed, by omega⟩

/-- The dialect stays the same. -/
theorem dialect_eq (h : Run E stream s s') (hs : s.On stream) :
    s'.cursor.dialect = s.cursor.dialect := by
  refine h.rel (R := fun s s' => s'.cursor.dialect = s.cursor.dialect) (fun _ => rfl)
    (fun h₁ h₂ => h₂.trans h₁) ?_ hs
  intro s s' hs hmove
  cases hmove with
  | pass hnext | count hnext => exact Cursor.dialect_of_next hs.closed hnext
  | name hnext _ hnext' =>
    exact (Cursor.dialect_of_next (hs.closed.next hnext) hnext').trans
      (Cursor.dialect_of_next hs.closed hnext)
  | trace | mark | table | conditions | clauses => rfl

/-- A run that may not record conditions leaves them as they are. -/
theorem conditions_eq (h : Run E stream s s') (hs : s.On stream) (hE : ¬E.conditions) :
    s'.body.conditions = s.body.conditions := by
  refine h.rel (R := fun s s' => s'.body.conditions = s.body.conditions) (fun _ => rfl)
    (fun h₁ h₂ => h₂.trans h₁) ?_ hs
  intro s s' hs hmove
  cases hmove with
  | conditions h => exact absurd h hE
  | _ => rfl

/-- A run that may not record tables leaves them as they are. -/
theorem tables_eq (h : Run E stream s s') (hs : s.On stream) (hE : ¬E.tables) :
    s'.body.tables = s.body.tables := by
  refine h.rel (R := fun s s' => s'.body.tables = s.body.tables) (fun _ => rfl)
    (fun h₁ h₂ => h₂.trans h₁) ?_ hs
  intro s s' hs hmove
  cases hmove with
  | table h => exact absurd h hE
  | _ => rfl

/-- A run that may not change the clauses leaves them as they are. -/
theorem clauses_eq (h : Run E stream s s') (hs : s.On stream) (hE : ∀ t c c', ¬E.clauses t c c') :
    s'.body.clauses = s.body.clauses := by
  refine h.rel (R := fun s s' => s'.body.clauses = s.body.clauses) (fun _ => rfl)
    (fun h₁ h₂ => h₂.trans h₁) ?_ hs
  intro s s' hs hmove
  cases hmove with
  | clauses h => exact (hE _ _ _ h).elim
  | _ => rfl

/-- The position of the cursor never decreases. -/
theorem start_le (h : Run E stream s s') (hs : s.On stream)
    (hsorted : stream.Pairwise (·.start < ·.start)) :
    s.cursor.current.start ≤ s'.cursor.current.start := by
  have hmem : s'.cursor.current ∈ s.cursor.tokens :=
    (h.tokens_suffix hs).subset (List.mem_cons_self ..)
  have hpair := hsorted.sublist hs.tokens.sublist
  rcases List.mem_cons.1 hmem with heq | hahead
  · exact heq ▸ Nat.le_refl _
  · exact Nat.le_of_lt ((List.pairwise_cons.1 hpair).1 _ hahead)

end Run

/-- The scope in which nothing but marks may be recorded. -/
def Scope.marksOnly (κ : Type) : Scope κ :=
  ⟨False, False, fun _ _ _ => False⟩

/-- The scope in which everything may be recorded. -/
def Scope.all (κ : Type) : Scope κ :=
  ⟨True, True, fun _ _ _ => True⟩

/-- The scope without tables. -/
def Scope.withoutTables {κ : Type} (E : Scope κ) : Scope κ :=
  { E with tables := False }

/-- The scope without conditions. -/
def Scope.withoutConditions {κ : Type} (E : Scope κ) : Scope κ :=
  { E with conditions := False }

/-! ## Parsers that move -/

/-- Every success of the parser is a run in the given scope. -/
def Moves {κ α : Type} (E : Scope κ) (p : Parser κ α) : Prop :=
  ∀ ⦃stream s a s'⦄, p s = .ok a s' → Run E stream s s'

namespace Moves

open SqlRouting.Parser

variable {κ α β : Type} {E : Scope κ}

theorem pure (a : α) : Moves E (Pure.pure a) := by
  intro stream s b s' h
  obtain ⟨_, rfl⟩ := pure_eq_ok.1 h
  exact .refl

theorem bind {p : Parser κ α} {f : α → Parser κ β} (hp : Moves E p) (hf : ∀ a, Moves E (f a)) :
    Moves E (p >>= f) := by
  intro stream s b s' h
  obtain ⟨a, s₁, h₁, h⟩ := bind_eq_ok.1 h
  exact (hp h₁).trans (hf a h)

theorem ite {c : Prop} [Decidable c] {p q : Parser κ α} (hp : Moves E p) (hq : Moves E q) :
    Moves E (if c then p else q) := by
  split
  · exact hp
  · exact hq

theorem throw (e : ParseError) : Moves E (MonadExcept.throw e : Parser κ α) :=
  fun _ _ _ _ h => (throw_eq_ok.1 h).elim

/-- What would follow a failure does not matter. -/
theorem throw_bind (e : ParseError) (f : α → Parser κ β) :
    Moves E ((MonadExcept.throw e : Parser κ α) >>= f) := by
  intro stream s b s' h
  obtain ⟨_, _, h, _⟩ := bind_eq_ok.1 h
  exact (throw_eq_ok.1 h).elim

/-- A parser that only looks makes no move. -/
theorem of_eq {p : Parser κ α} (h : ∀ {s a s'}, p s = .ok a s' → s = s') : Moves E p := by
  intro stream s a s' hp
  obtain rfl := h hp
  exact .refl

end Moves

namespace Parser

variable {κ α β : Type} {E : Scope κ} {stream : List Token} {s s' s₁ : ParseState κ}

/-! ## Looking -/

theorem cursor_moves : Moves E (cursor (κ := κ)) :=
  .of_eq fun h => (pure_eq_ok.1 h).2

theorem current_moves : Moves E (current (κ := κ)) :=
  .of_eq fun h => (pure_eq_ok.1 h).2

theorem dialect_moves : Moves E (dialect (κ := κ)) :=
  .of_eq fun h => (pure_eq_ok.1 h).2

theorem routing_moves : Moves E (routing (κ := κ)) :=
  .of_eq fun h => (pure_eq_ok.1 h).2

theorem clauses_moves : Moves E (clauses (κ := κ)) :=
  .of_eq fun h => (pure_eq_ok.1 h).2

theorem unexpected_moves : Moves E (unexpected (κ := κ) (α := α)) :=
  .of_eq fun h => (unexpected_eq_ok.1 h).elim

theorem unexpected_bind_moves (f : α → Parser κ β) : Moves E (unexpected >>= f) :=
  fun _ _ _ _ h => (unexpected_bind_eq_ok.1 h).elim

theorem refuseEnd_moves : Moves E (refuseEnd (κ := κ)) :=
  .of_eq fun h => (refuseEnd_eq_ok.1 h).2

theorem refuse_moves (keywords : List Keyword) : Moves E (refuse (κ := κ) keywords) :=
  .of_eq fun h => (refuse_eq_ok.1 h).2

theorem slice_moves (start stop : Nat) : Moves E (slice (κ := κ) start stop) :=
  .of_eq fun h => (slice_eq_ok.1 h).2

theorem textSince_moves (start : Nat) : Moves E (textSince (κ := κ) start) :=
  current_moves.bind fun _ => (slice_moves ..).bind fun _ => .pure _

theorem placeholdersSince_moves (before : Nat) : Moves E (placeholdersSince (κ := κ) before) :=
  routing_moves.bind fun _ => .ite (.pure _) (.throw _)

/-! ## Passing tokens -/

/-- The cursor may move on from any token but a placeholder. -/
theorem advance_run {u : Unit} (h : advance s = .ok u s')
    (hq : s.cursor.current.kind ≠ .symbol .question) : Run E stream s s' := by
  obtain ⟨c, hnext, rfl⟩ := advance_eq_ok.1 h
  exact .of_move (.pass hnext hq)

/-- Before the end of the text the cursor moves to the next token. -/
theorem ahead_of_advance {u : Unit} (h : advance s = .ok u s') (hs : s.cursor.Closed)
    (hend : s.cursor.current.kind ≠ .endOfText) : s.cursor.ahead = s'.cursor.tokens := by
  obtain ⟨c, hnext, rfl⟩ := advance_eq_ok.1 h
  exact (List.cons.inj (Cursor.tokens_of_next hs hnext hend)).2

/-- A run that passes a token first comes closer to the end of the text. -/
theorem shrinks_of_advance {u : Unit} (h : advance s = .ok u s₁) (hs : s.cursor.Closed)
    (hend : s.cursor.current.kind ≠ .endOfText) (hrun : Run E s₁.cursor.tokens s₁ s') :
    s'.cursor.Closed ∧ s'.cursor.ahead.length < s.cursor.ahead.length := by
  have hahead := ahead_of_advance h hs hend
  obtain ⟨c, hnext, rfl⟩ := advance_eq_ok.1 h
  obtain ⟨hclosed, hle⟩ := hrun.length_le (hs.next hnext)
  exact ⟨hclosed, by rw [hahead]; exact Nat.lt_succ_of_le hle⟩

theorem skipIf_moves {kinds : List TokenKind} (hq : .symbol .question ∉ kinds) :
    Moves E (skipIf (κ := κ) kinds) := by
  intro stream s found s' h
  obtain ⟨hfound, h⟩ := skipIf_eq_ok.1 h
  cases found with
  | false => exact (show s = s' from h) ▸ .refl
  | true =>
    refine advance_run h fun hkind => hq ?_
    simpa [Cursor.isAny, hkind] using hfound

theorem skipSymbol_moves {x : Symbol} (hq : x ≠ .question) : Moves E (skipSymbol (κ := κ) x) :=
  skipIf_moves (by simpa using hq.symm)

theorem skipKeyword_moves (keywords : List Keyword) :
    Moves E (skipKeyword (κ := κ) keywords) := by
  intro stream s found s' h
  obtain ⟨hfound, h⟩ := skipKeyword_eq_ok.1 h
  cases found with
  | false => exact (show s = s' from h) ▸ .refl
  | true =>
    refine advance_run h fun hkind => ?_
    simp [Cursor.isKeyword, hkind] at hfound

theorem accept_moves {kind : TokenKind} (hq : kind ≠ .symbol .question) :
    Moves E (accept (κ := κ) kind) := by
  intro stream s u s' h
  obtain ⟨hkind, h⟩ := accept_eq_ok.1 h
  exact advance_run h (hkind ▸ hq)

/-- Counting the token under the cursor if it is a placeholder, the cursor may move on
    from any token. -/
theorem countPlaceholder_run {u v : Unit} (h : countPlaceholder s = .ok u s₁)
    (h' : advance s₁ = .ok v s') : Run E stream s s' := by
  obtain ⟨c, hnext, rfl⟩ := advance_eq_ok.1 h'
  rw [countPlaceholder_eq_ok] at h
  split at h
  case isTrue hq =>
    subst h
    exact .of_move (.count hnext (of_decide_eq_true hq))
  case isFalse hq =>
    subst h
    exact .of_move (.pass hnext (by simpa [Cursor.isSymbol] using hq))

theorem countPlaceholder_moves {p : Parser κ α} (hp : Moves E p) :
    Moves E (countPlaceholder >>= fun _ => advance >>= fun _ => p) := by
  intro stream s a s' h
  simp only [bind_eq_ok] at h
  obtain ⟨_, s₁, h₁, _, s₂, h₂, h⟩ := h
  exact (countPlaceholder_run h₁ h₂).trans (hp h)

theorem trace_moves (e : TraceEvent) : Moves E (trace (κ := κ) e) := by
  intro stream s u s' h
  obtain rfl := trace_eq_ok.1 h
  exact .of_move (.trace e)

theorem modifyClauses_run {f : κ → κ} {u : Unit} (h : modifyClauses f s = .ok u s')
    (hE : E.clauses s.cursor.current s.body.clauses (f s.body.clauses)) :
    Run E stream s s' := by
  obtain rfl := modifyClauses_eq_ok.1 h
  exact .of_move (.clauses hE)

theorem modifyClauses_moves {f : κ → κ} (hE : ∀ t c, E.clauses t c (f c)) :
    Moves E (modifyClauses f) :=
  fun _ _ _ _ h => modifyClauses_run h (hE ..)

/-! ## Repetition -/

theorem iterate_moves {step : Parser κ Bool} (h : Moves E step) (n : Nat) :
    Moves E (iterate step n) := by
  induction n with
  | zero => exact .pure ()
  | succ n ih => exact h.bind fun _ => .ite ih (.pure ())

theorem loop_moves {step : Parser κ Bool} (h : Moves E step) : Moves E (loop step) :=
  cursor_moves.bind fun _ => iterate_moves h _

/-- Items are read by a run, and what holds of every item that is read in the stream
    holds of each of them. -/
theorem collect_run {item : Parser κ α} {separator : Parser κ Bool} {Q : α → Prop}
    (hi : ∀ {s a s'}, item s = .ok a s' → s.On stream → Run E stream s s' ∧ Q a)
    (hs : Moves E separator) {n : Nat} {as : List α} (h : collect item separator n s = .ok as s')
    (hon : s.On stream) : Run E stream s s' ∧ ∀ a ∈ as, Q a := by
  induction n generalizing s as with
  | zero =>
    obtain ⟨rfl, rfl⟩ := pure_eq_ok.1 h
    exact ⟨.refl, by simp⟩
  | succ n ih =>
    simp only [collect, ite_eq_ok, bind_eq_ok, pure_eq_ok] at h
    obtain ⟨a, s₁, hitem, more, s₂, hsep, h⟩ := h
    obtain ⟨hrun, ha⟩ := hi hitem hon
    have hrun' := hrun.trans (hs hsep)
    rcases h with ⟨_, as', s₃, hmore, rfl, rfl⟩ | ⟨_, rfl, rfl⟩
    · obtain ⟨hrest, has⟩ := ih hmore (hrun'.on hon)
      exact ⟨hrun'.trans hrest, by simpa using ⟨ha, has⟩⟩
    · exact ⟨hrun', by simpa using ha⟩

theorem separatedBy_moves {item : Parser κ α} {separator : Parser κ Bool} (hi : Moves E item)
    (hs : Moves E separator) : Moves E (separatedBy separator item) :=
  cursor_moves.bind fun _ _ _ _ _ h hon =>
    (collect_run (Q := fun _ => True) (fun h _ => ⟨hi h, trivial⟩) hs h hon).1 hon

/-- There is at least one item. -/
theorem separatedBy_first {item : Parser κ α} {separator : Parser κ Bool} (hi : Moves E item)
    (hs : Moves E separator) {as : List α} (h : separatedBy separator item s = .ok as s') :
    ∃ a s₁, item s = .ok a s₁ ∧ Run E stream s₁ s' := by
  simp only [separatedBy, cursor_bind, Cursor.movesLeft, collect, bind_eq_ok, ite_eq_ok,
    pure_eq_ok] at h
  obtain ⟨a, s₁, hitem, more, s₂, hsep, h⟩ := h
  refine ⟨a, s₁, hitem, (hs hsep).trans ?_⟩
  rcases h with ⟨_, as', s₃, hmore, _, rfl⟩ | ⟨_, _, rfl⟩
  · intro hon
    exact (collect_run (Q := fun _ => True) (fun h _ => ⟨hi h, trivial⟩) hs hmore hon).1 hon
  · exact .refl

theorem separatedBy_ne_nil {item : Parser κ α} {separator : Parser κ Bool} {as : List α}
    (h : separatedBy separator item s = .ok as s') : as ≠ [] := by
  simp only [separatedBy, cursor_bind, Cursor.movesLeft, collect, bind_eq_ok, ite_eq_ok,
    pure_eq_ok] at h
  obtain ⟨a, s₁, _, more, s₂, _, ⟨_, as', s₃, _, rfl, _⟩ | ⟨_, rfl, _⟩⟩ := h
  · exact List.cons_ne_nil _ _
  · exact List.cons_ne_nil _ _

theorem commaSeparated_moves {item : Parser κ α} (h : Moves E item) :
    Moves E (commaSeparated item) :=
  separatedBy_moves h (skipSymbol_moves (by decide))

/-- What every round of a loop keeps, the loop keeps. -/
theorem loop_rel {R : ParseState κ → ParseState κ → Prop} (hrefl : ∀ s, R s s)
    (htrans : ∀ {s s₁ s'}, R s s₁ → R s₁ s' → R s s') {step : Parser κ Bool}
    (hstep : ∀ {s b s'}, step s = .ok b s' → R s s') {u : Unit} (h : loop step s = .ok u s') :
    R s s' := by
  rw [loop, cursor_bind] at h
  generalize s.cursor.movesLeft = n at h
  induction n generalizing s with
  | zero => exact (pure_eq_ok.1 h).2 ▸ hrefl s
  | succ n ih =>
    simp only [iterate, bind_eq_ok, ite_eq_ok, pure_eq_ok] at h
    obtain ⟨more, s₁, h₁, ⟨_, h⟩ | ⟨_, _, rfl⟩⟩ := h
    · exact htrans (hstep h₁) (ih h)
    · exact hstep h₁

/-- What every item and every separator keep, a list of items keeps. -/
theorem separatedBy_rel {R : ParseState κ → ParseState κ → Prop} (hrefl : ∀ s, R s s)
    (htrans : ∀ {s s₁ s'}, R s s₁ → R s₁ s' → R s s') {item : Parser κ α}
    {separator : Parser κ Bool} (hitem : ∀ {s a s'}, item s = .ok a s' → R s s')
    (hseparator : ∀ {s b s'}, separator s = .ok b s' → R s s') {as : List α}
    (h : separatedBy separator item s = .ok as s') : R s s' := by
  rw [separatedBy, cursor_bind] at h
  generalize s.cursor.movesLeft = n at h
  induction n generalizing s as with
  | zero => exact (pure_eq_ok.1 h).2 ▸ hrefl s
  | succ n ih =>
    simp only [collect, bind_eq_ok, ite_eq_ok, pure_eq_ok] at h
    obtain ⟨a, s₁, h₁, more, s₂, h₂, h⟩ := h
    have hfirst := htrans (hitem h₁) (hseparator h₂)
    rcases h with ⟨_, as', s₃, hmore, _, rfl⟩ | ⟨_, _, rfl⟩
    · exact htrans hfirst (ih hmore)
    · exact hfirst

/-- A loop whose rounds consume a token goes on until a round answers `false`. -/
theorem loop_done {step : Parser κ Bool}
    (hstep : ∀ {s s'}, s.cursor.Closed → step s = .ok true s' →
      s'.cursor.Closed ∧ s'.cursor.ahead.length < s.cursor.ahead.length)
    {u : Unit} (hs : s.cursor.Closed) (h : loop step s = .ok u s') :
    ∃ s₁, s₁.cursor.Closed ∧ step s₁ = .ok false s' := by
  rw [loop, cursor_bind] at h
  have hn : s.cursor.ahead.length < s.cursor.movesLeft := Nat.lt_succ_self _
  generalize s.cursor.movesLeft = n at h hn
  induction n generalizing s with
  | zero => omega
  | succ n ih =>
    simp only [iterate, bind_eq_ok, ite_eq_ok, pure_eq_ok] at h
    obtain ⟨more, s₁, h₁, ⟨rfl, h⟩ | ⟨hmore, _, rfl⟩⟩ := h
    -- The bound stays above the number of tokens ahead, so it never ends the loop.
    · obtain ⟨hs₁, hlt⟩ := hstep hs h₁
      exact ih hs₁ h (by omega)
    · exact ⟨s, hs, by simpa [hmore] using h₁⟩

/-- A token that is skipped is one less ahead. -/
theorem skipIf_shrinks {kinds : List TokenKind} (hend : .endOfText ∉ kinds)
    (hs : s.cursor.Closed) (h : skipIf kinds s = .ok true s') :
    s'.cursor.Closed ∧ s'.cursor.ahead.length < s.cursor.ahead.length := by
  obtain ⟨hfound, hadvance⟩ := skipIf_eq_ok.1 h
  exact shrinks_of_advance (E := .all κ) hadvance hs
    (fun hk => hend (hk ▸ of_decide_eq_true hfound)) .refl

theorem skipKeyword_shrinks {keywords : List Keyword} (hs : s.cursor.Closed)
    (h : skipKeyword keywords s = .ok true s') :
    s'.cursor.Closed ∧ s'.cursor.ahead.length < s.cursor.ahead.length := by
  rw [skipKeyword_eq_skipIf] at h
  exact skipIf_shrinks (by simp) hs h

/-- Items are read until no separator follows. -/
theorem separatedBy_done {item : Parser κ α} {separator : Parser κ Bool} (hi : Moves E item)
    (hsep : ∀ {s s'}, s.cursor.Closed → separator s = .ok true s' →
      s'.cursor.Closed ∧ s'.cursor.ahead.length < s.cursor.ahead.length)
    {as : List α} (hs : s.cursor.Closed) (h : separatedBy separator item s = .ok as s') :
    ∃ s₁, s₁.cursor.Closed ∧ separator s₁ = .ok false s' := by
  rw [separatedBy, cursor_bind] at h
  have hn : s.cursor.ahead.length < s.cursor.movesLeft := Nat.lt_succ_self _
  generalize s.cursor.movesLeft = n at h hn
  induction n generalizing s as with
  | zero => omega
  | succ n ih =>
    simp only [collect, ite_eq_ok, bind_eq_ok, pure_eq_ok] at h
    obtain ⟨a, s₁, hitem, more, s₂, hmore, h⟩ := h
    obtain ⟨hs₁, hle⟩ := Run.length_le (hi hitem) hs
    rcases h with ⟨rfl, as', s₃, h, _, rfl⟩ | ⟨hnone, _, rfl⟩
    -- An item does not move the cursor back, and a separator moves it on.
    · obtain ⟨hs₂, hlt⟩ := hsep hs₁ hmore
      exact ih hs₂ h (by omega)
    · exact ⟨s₁, hs₁, by simpa [hnone] using hmore⟩

/-! ## Skipping -/

theorem skipAll_moves (keywords : List Keyword) : Moves E (skipAll (κ := κ) keywords) := by
  refine loop_moves ?_
  intro stream s more s' h
  simp only [cursor_bind, ite_eq_ok, bind_eq_ok, pure_eq_ok, trace_eq_ok] at h
  rcases h with ⟨hk, _, _, rfl, _, s₂, hadvance, _, rfl⟩ | ⟨_, _, rfl⟩
  · refine (Run.of_move (.trace _)).trans (advance_run hadvance fun hkind => ?_)
    simp [Cursor.isKeyword, show s.cursor.current.kind = _ from hkind] at hk
  · exact .refl

theorem skipUntil_moves (kinds : List TokenKind) : Moves E (skipUntil (κ := κ) kinds) :=
  loop_moves (cursor_moves.bind fun _ => .ite (.pure _) (countPlaceholder_moves (.pure _)))

theorem skipRest_moves : Moves E (skipRest (κ := κ)) :=
  cursor_moves.bind fun _ =>
    .ite ((slice_moves ..).bind fun _ => (trace_moves _).bind fun _ => skipUntil_moves _) (.pure _)

/-- Skipping leaves the statement as it is, save for the number of its placeholders. -/
theorem skipUntil_body {kinds : List TokenKind} {u : Unit} (h : skipUntil kinds s = .ok u s') :
    ∃ n, s'.body = { s.body with parameters := n } := by
  refine loop_rel (R := fun s s' => ∃ n, s'.body = { s.body with parameters := n })
    (fun s => ⟨s.body.parameters, rfl⟩) (fun ⟨_, h₁⟩ ⟨n, h₂⟩ => ⟨n, by rw [h₂, h₁]⟩)
    (fun {s b s'} h => ?_) h
  simp only [cursor_bind, ite_eq_ok, bind_eq_ok, pure_eq_ok, countPlaceholder_eq_ok,
    advance_eq_ok] at h
  rcases h with ⟨_, _, rfl⟩ | ⟨_, _, _, rfl, _, _, ⟨_, _, rfl⟩, _, rfl⟩
  · exact ⟨_, rfl⟩
  · split
    · exact ⟨_, rfl⟩
    · exact ⟨_, rfl⟩

theorem skipRest_body {u : Unit} (h : skipRest s = .ok u s') :
    ∃ n, s'.body = { s.body with parameters := n } := by
  simp only [skipRest, cursor_bind, ite_eq_ok, bind_eq_ok, slice_eq_ok, trace_eq_ok,
    pure_eq_ok] at h
  rcases h with ⟨_, _, _, ⟨_, rfl⟩, _, s₁, rfl, h⟩ | ⟨_, _, rfl⟩
  · obtain ⟨n, hbody⟩ := skipUntil_body h
    exact ⟨n, hbody⟩
  · exact ⟨_, rfl⟩

/-- Counting the token under the cursor does not move it. -/
theorem cursor_of_countPlaceholder {u : Unit} (h : countPlaceholder s = .ok u s') :
    s'.cursor = s.cursor := by
  rw [countPlaceholder_eq_ok] at h
  subst h
  split <;> rfl

/-- Skipping stops at one of the tokens looked for, or at the end of the text. -/
theorem skipUntil_done {kinds : List TokenKind} {u : Unit} (h : skipUntil kinds s = .ok u s')
    (hs : s.cursor.Closed) :
    s'.cursor.Closed ∧ (s'.cursor.isEnd || s'.cursor.isAny kinds) = true := by
  rw [skipUntil] at h
  have hdone := loop_done (fun {s s'} hs h => ?_) hs h
  · obtain ⟨s₁, hs₁, h⟩ := hdone
    simp only [cursor_bind, ite_eq_ok, bind_eq_ok, pure_eq_ok] at h
    rcases h with ⟨hend, _, rfl⟩ | ⟨_, _, _, _, _, _, _, h, _⟩
    · exact ⟨hs₁, hend⟩
    · cases h
  · simp only [cursor_bind, ite_eq_ok, bind_eq_ok, pure_eq_ok] at h
    rcases h with ⟨_, h, _⟩ | ⟨hend, _, s₁, hcount, _, s₂, hadvance, _, rfl⟩
    · cases h
    -- Counting a placeholder leaves the cursor where it is; only the move behind it counts.
    rw [← cursor_of_countPlaceholder hcount] at hs hend ⊢
    exact shrinks_of_advance (E := .all κ) hadvance hs
      (fun hk => by simp [Cursor.isEnd, hk] at hend) .refl

/-- Skipping to the end of the text ends there. -/
theorem skipRest_isEnd {u : Unit} (h : skipRest s = .ok u s') (hs : s.cursor.Closed) :
    s'.cursor.Closed ∧ s'.cursor.isEnd = true := by
  simp only [skipRest, cursor_bind, ite_eq_ok, bind_eq_ok, slice_eq_ok, trace_eq_ok,
    pure_eq_ok] at h
  rcases h with ⟨_, _, _, ⟨_, rfl⟩, _, s₁, rfl, h⟩ | ⟨hend, _, rfl⟩
  · obtain ⟨hclosed, hend⟩ := skipUntil_done h hs
    exact ⟨hclosed, by simpa [Cursor.isAny] using hend⟩
  · exact ⟨hs, by simpa using hend⟩

/-- The parenthesis that closes a group is found, and all on the way is passed. -/
theorem skipToClosing_run {n depth : Nat} {u : Unit} (h : skipToClosing n depth s = .ok u s') :
    Run E stream s s' ∧ s'.cursor.current.kind = .symbol .rightParen := by
  induction n generalizing depth s with
  | zero => exact (unexpected_eq_ok.1 h).elim
  | succ n ih =>
    rcases skipToClosing_eq_ok h with ⟨hclosed, _, rfl⟩ | ⟨_, m, s₁, s₂, hn, hcount, hadvance, h⟩
    · exact ⟨.refl, hclosed⟩
    · obtain rfl := Nat.succ.inj hn
      obtain ⟨hrun, hclosed⟩ := ih h
      exact ⟨(countPlaceholder_run hcount hadvance).trans hrun, hclosed⟩

theorem skipParentheses_moves : Moves E (skipParentheses (κ := κ)) := by
  intro stream s text s' h
  simp only [skipParentheses, cursor_bind, current_bind, ite_eq_ok, bind_eq_ok, pure_eq_ok,
    slice_eq_ok] at h
  rcases h with ⟨hopen, _, s₁, hadvance, _, s₂, hskip, _, _, ⟨_, rfl⟩, _, s₃, hadvance', _, rfl⟩ |
    ⟨_, _, rfl⟩
  · have hkind : s.cursor.current.kind = .symbol .leftParen := of_decide_eq_true hopen
    obtain ⟨hrun, hclosed⟩ := skipToClosing_run hskip
    exact ((advance_run hadvance (by simp [hkind])).trans hrun).trans
      (advance_run hadvance' (by simp [hclosed]))
  · exact .refl

end Parser

end SqlRouting
