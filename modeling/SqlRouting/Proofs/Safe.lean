import Mathlib.Data.List.InsertIdx
import SqlRouting.Proofs.Moves

/-!
# Parsers that keep their promises

A fault is a promise of parsing that is broken: a piece of the text is cut out between two positions
that are no character boundaries in order, or there are fewer placeholders than before. A parser is
*safe* if it never fails by a fault, wherever in the text it starts: what it fails by is a refusal
of the token under the cursor or of the one behind it (`Cursor.Refuses`). Since a session goes on
behind a failure, this takes more than the parser itself: whether it succeeds or fails, the cursor
stands on a token of the text behind, no further back than before (`Cursor.Behind`), and nothing
that has been recorded is forgotten (`Routing.KeptIn`); together this is `Follows`.
-/

namespace SqlRouting

open Text (IsBoundary byteLength)

/-- The error is a promise that has been broken. -/
def ParseError.IsFault (e : ParseError) : Prop :=
  ∃ f, e = .fault f

/-- The cursor stands in the text: the tokens from it on are tokens of the text, one behind the
    other, up to its end or an error. -/
structure Cursor.Stands (text : List Char) (c : Cursor) : Prop where
  text_eq : c.text = text
  tokens_at : ∀ t ∈ c.tokens, t.At text
  sorted : c.tokens.Pairwise (·.start < ·.start)
  closed : c.Closed

/-- The cursor `c'` stands in the text, on a token of those from the cursor `c` on. -/
structure Cursor.Behind (text : List Char) (c c' : Cursor) : Prop where
  stands : c'.Stands text
  tokens_suffix : c'.tokens <:+ c.tokens
  failure_eq : c'.failure = c.failure
  start_le : c.current.start ≤ c'.current.start

/-- What is recorded in `r` is kept in `r'`: its tables are the first ones there, its marks are
    there in the same order, and the placeholders are not fewer. -/
structure Routing.KeptIn (r r' : Routing) : Prop where
  tables_prefix : r.tables.toList <+: r'.tables.toList
  marks_sublist : r.marks.Sublist r'.marks
  parameters_le : r.parameters ≤ r'.parameters

/-- The state `s'` may follow `s`: its cursor stands in the text, no further back, and
    what has been recorded is kept. -/
structure Follows {κ : Type} (text : List Char) (s s' : ParseState κ) : Prop where
  behind : s.cursor.Behind text s'.cursor
  kept : s.body.toRouting.KeptIn s'.body.toRouting

/-- What may be refused at the cursor: the token under it, with its kind and literal, or that there
    is no token behind it. -/
inductive Cursor.Refuses (c : Cursor) : ParseError → Prop
  | lexical {e : LexicalError} (h : c.next = .error e) : c.Refuses (.lexical e)
  | unexpected : c.Refuses c.unexpected
  | unmatched {kind : TokenKind} (h : kind ≠ c.current.kind) :
    c.Refuses (.unmatchedToken kind c.current.kind c.current.literal)
  | unsupportedToken : c.Refuses (.unsupportedToken c.current.kind)
  | unsupported (cause : Unsupported) : c.Refuses (.unsupported cause)

theorem Cursor.Refuses.not_isFault {c : Cursor} {e : ParseError} (h : c.Refuses e) : ¬e.IsFault := by
  rintro ⟨f, rfl⟩
  cases h

/-! ## Positions -/

/-- A token starts and stops on character boundaries, in this order. -/
theorem Token.At.boundaries {text : List Char} {t : Token} (h : t.At text) :
    IsBoundary text t.start ∧ IsBoundary text t.stop ∧ t.start ≤ t.stop := by
  refine ⟨?_, ?_, Nat.sub_le ..⟩
  · obtain ⟨before, cs, htext, hstart, _⟩ := h.spelled
    exact ⟨before, cs, htext, hstart⟩
  · cases h with
    | @lexeme before cs l htext hl =>
      obtain ⟨rest, rfl⟩ := hl.spelled
      exact ⟨before ++ l.spelling, rest, by simp [htext], Text.byteLength_append ..⟩
    | final => exact ⟨text, [], by simp, rfl⟩

namespace Cursor

variable {text : List Char} {c c' : Cursor}

theorem Stands.current_at (h : c.Stands text) : c.current.At text :=
  h.tokens_at _ (List.mem_cons_self ..)

/-- Of two tokens from the cursor on the later one starts further on. -/
theorem Stands.start_lt (h : c.Stands text) {t u : Token} {us : List Token}
    (hsuffix : t :: us <:+ c.tokens) (hu : u ∈ us) : t.start < u.start :=
  (List.pairwise_cons.1 (h.sorted.sublist hsuffix.sublist)).1 u hu

theorem Stands.start_le (h : c.Stands text) {t : Token} (ht : t ∈ c.tokens) :
    c.current.start ≤ t.start := by
  rcases List.mem_cons.1 ht with rfl | hahead
  · exact Nat.le_refl _
  · exact Nat.le_of_lt (h.start_lt List.suffix_rfl hahead)

namespace Behind

theorem refl (h : c.Stands text) : c.Behind text c :=
  ⟨h, List.suffix_rfl, rfl, Nat.le_refl _⟩

theorem trans {c₁ : Cursor} (h : c.Behind text c₁) (h' : c₁.Behind text c') : c.Behind text c' where
  stands := h'.stands
  tokens_suffix := h'.tokens_suffix.trans h.tokens_suffix
  failure_eq := h'.failure_eq.trans h.failure_eq
  start_le := Nat.le_trans h.start_le h'.start_le

end Behind

/-- A cursor moves on in the text. -/
theorem Stands.next (h : c.Stands text) (hnext : c.next = .ok c') : c.Behind text c' := by
  have hsuffix := tokens_suffix_of_next h.closed hnext
  refine ⟨⟨?_, fun t ht => h.tokens_at t (hsuffix.subset ht), h.sorted.sublist hsuffix.sublist,
    h.closed.next hnext⟩, hsuffix, failure_of_next h.closed hnext, ?_⟩
  · rcases next_eq_ok h.closed hnext with ⟨_, rfl⟩ | ⟨_, _, hc'⟩
    · exact h.text_eq
    · rw [hc']
      exact h.text_eq
  · rcases next_eq_ok h.closed hnext with ⟨_, rfl⟩ | ⟨_, htokens, _⟩
    · exact Nat.le_refl _
    · have hsorted := h.sorted
      rw [htokens, List.pairwise_cons] at hsorted
      exact Nat.le_of_lt (hsorted.1 _ (List.mem_cons_self ..))

/-- The cursor of a text stands in it. -/
theorem stands_of_ofText {database : Database} {d : Dialect} {text : String}
    (h : ofText database d text = .ok c) : c.Stands text.toList := by
  obtain ⟨htokens, hclosed, _⟩ := ofText_eq_ok h
  obtain ⟨hat, hsorted⟩ := TokenStream.ofText_sorted d text.toList
  refine ⟨?_, htokens ▸ hat, htokens ▸ hsorted, hclosed⟩
  unfold ofText at h
  dsimp only at h
  split at h
  · cases h
    rfl
  · cases h
  · cases h
    rfl

end Cursor

/-! ## Records -/

namespace Routing.KeptIn

variable {r r₁ r' : Routing}

/-- Changes of the conditions alone keep the rest. -/
theorem of_eq (htables : r'.tables = r.tables) (hmarks : r'.marks = r.marks)
    (hparameters : r'.parameters = r.parameters) : r.KeptIn r' where
  tables_prefix := htables ▸ List.prefix_rfl
  marks_sublist := hmarks ▸ .refl _
  parameters_le := Nat.le_of_eq hparameters.symm

theorem refl (r : Routing) : r.KeptIn r :=
  of_eq rfl rfl rfl

theorem trans (h : r.KeptIn r₁) (h' : r₁.KeptIn r') : r.KeptIn r' where
  tables_prefix := h.tables_prefix.trans h'.tables_prefix
  marks_sublist := h.marks_sublist.trans h'.marks_sublist
  parameters_le := Nat.le_trans h.parameters_le h'.parameters_le

/-- A table is added behind the others, if at all. -/
theorem addTable (r : Routing) (t : Table) : r.KeptIn { r with tables := r.tables.add t } where
  tables_prefix := by
    cases h : r.tables.contains t.name with
    | true => exact Tables.toList_add_of_contains h ▸ List.prefix_rfl
    | false => exact Tables.toList_add_of_not_contains h ▸ List.prefix_append ..
  marks_sublist := .refl _
  parameters_le := Nat.le_refl _

/-- Marks that become more in any way keep the rest. -/
theorem of_sublist {ms : List Mark} (h : r.marks.Sublist ms) : r.KeptIn { r with marks := ms } where
  tables_prefix := List.prefix_rfl
  marks_sublist := h
  parameters_le := Nat.le_refl _

/-- A mark that is put in its place parts others, but does not replace any. -/
theorem addMark (r : Routing) (m : Mark) : r.KeptIn { r with marks := m.insert r.marks } :=
  of_sublist (List.sublist_insertIdx ..)

/-- A placeholder that is counted keeps the rest. -/
theorem count (r : Routing) : r.KeptIn { r with parameters := r.parameters + 1 } where
  tables_prefix := List.prefix_rfl
  marks_sublist := .refl _
  parameters_le := Nat.le_succ _

end Routing.KeptIn

namespace Follows

variable {κ : Type} {text : List Char} {s s₁ s' : ParseState κ}

theorem refl (h : s.cursor.Stands text) : Follows text s s :=
  ⟨.refl h, .refl _⟩

theorem trans (h : Follows text s s₁) (h' : Follows text s₁ s') : Follows text s s' :=
  ⟨h.behind.trans h'.behind, h.kept.trans h'.kept⟩

theorem parameters_le (h : Follows text s s') : s.body.parameters ≤ s'.body.parameters :=
  h.kept.parameters_le

theorem stands (h : Follows text s s') : s'.cursor.Stands text :=
  h.behind.stands

theorem start_le (h : Follows text s s') : s.cursor.current.start ≤ s'.cursor.current.start :=
  h.behind.start_le

end Follows

/-! ## Safe parsers -/

/-- However the parser ends from the state `s`, what it leaves behind may follow `s`, and
    what it fails by may be refused there. -/
def SafeAt {κ α : Type} (text : List Char) (s : ParseState κ) (p : Parser κ α) : Prop :=
  match p s with
  | .ok _ s' => Follows text s s'
  | .error e s' => Follows text s s' ∧ s'.cursor.Refuses e

/-- The parser keeps its promises wherever in the text it starts. -/
def Safe {κ α : Type} (text : List Char) (p : Parser κ α) : Prop :=
  ∀ s : ParseState κ, s.cursor.Stands text → SafeAt text s p

open SqlRouting.Parser

variable {κ α β : Type} {text : List Char} {s : ParseState κ}

namespace SafeAt

theorem pure (hs : s.cursor.Stands text) (a : α) : SafeAt text s (Pure.pure a) :=
  Follows.refl hs

theorem throw (hs : s.cursor.Stands text) {e : ParseError} (he : s.cursor.Refuses e) :
    SafeAt text s (MonadExcept.throw e : Parser κ α) :=
  ⟨.refl hs, he⟩

/-- What follows a parser has to be safe only where that one leads. -/
theorem bind {p : Parser κ α} {f : α → Parser κ β} (hp : SafeAt text s p)
    (hf : ∀ a s₁, p s = .ok a s₁ → Follows text s s₁ → SafeAt text s₁ (f a)) :
    SafeAt text s (p >>= f) := by
  unfold SafeAt at hp ⊢
  simp only [Bind.bind, EStateM.bind]
  cases hrun : p s with
  | ok a s₁ =>
    rw [hrun] at hp
    have hmore := hf a s₁ hrun hp
    unfold SafeAt at hmore
    dsimp only
    cases hrun' : f a s₁ with
    | ok b s' =>
      rw [hrun'] at hmore
      exact hp.trans hmore
    | error e s' =>
      rw [hrun'] at hmore
      exact ⟨hp.trans hmore.1, hmore.2⟩
  | error e s₁ =>
    rw [hrun] at hp
    exact hp

theorem ite {c : Prop} [Decidable c] {p q : Parser κ α} (hp : SafeAt text s p)
    (hq : SafeAt text s q) : SafeAt text s (if c then p else q) := by
  split
  · exact hp
  · exact hq

end SafeAt

namespace Safe

theorem pure (a : α) : Safe text (Pure.pure a : Parser κ α) :=
  fun _ hs => .pure hs a

/-- What is not supported may be refused anywhere. -/
theorem unsupported (cause : Unsupported) :
    Safe text (MonadExcept.throw (.unsupported cause) : Parser κ α) :=
  fun _ hs => .throw hs (.unsupported cause)

theorem bind {p : Parser κ α} {f : α → Parser κ β} (hp : Safe text p) (hf : ∀ a, Safe text (f a)) :
    Safe text (p >>= f) :=
  fun _ hs => (hp _ hs).bind fun a s₁ _ h => hf a s₁ h.stands

theorem ite {c : Prop} [Decidable c] {p q : Parser κ α} (hp : Safe text p) (hq : Safe text q) :
    Safe text (if c then p else q) :=
  fun s hs => .ite (hp s hs) (hq s hs)

/-- What would follow a failure does not matter. -/
theorem unsupported_bind (cause : Unsupported) (f : α → Parser κ β) :
    Safe text ((MonadExcept.throw (.unsupported cause) : Parser κ α) >>= f) :=
  fun s hs => (unsupported cause s hs).bind fun _ _ h => (throw_eq_ok.1 h).elim

end Safe

namespace Parser

/-! ## Looking -/

/-- A parser that only looks is safe if what it does with what it sees is. -/
theorem cursor_bind_safe {f : Cursor → Parser κ α}
    (hf : ∀ c, c.Stands text → Safe text (f c)) : Safe text (cursor >>= f) :=
  fun s hs => hf s.cursor hs s hs

theorem current_bind_safe {f : Token → Parser κ α} (hf : ∀ t, t.At text → Safe text (f t)) :
    Safe text (current >>= f) :=
  fun s hs => hf s.cursor.current hs.current_at s hs

theorem cursor_bind_safeAt {f : Cursor → Parser κ α} (hf : SafeAt text s (f s.cursor)) :
    SafeAt text s (cursor >>= f) :=
  hf

theorem current_bind_safeAt {f : Token → Parser κ α} (hf : SafeAt text s (f s.cursor.current)) :
    SafeAt text s (current >>= f) :=
  hf

theorem routing_bind_safeAt {f : Routing → Parser κ α}
    (hf : SafeAt text s (f s.body.toRouting)) : SafeAt text s (routing >>= f) :=
  hf

theorem dialect_safe : Safe text (dialect (κ := κ)) :=
  fun _ hs => .refl hs

theorem routing_safe : Safe text (routing (κ := κ)) :=
  fun _ hs => .refl hs

theorem clauses_safe : Safe text (clauses (κ := κ)) :=
  fun _ hs => .refl hs

theorem unexpected_safe : Safe text (unexpected (κ := κ) (α := α)) :=
  fun _ hs => cursor_bind_safeAt (.throw hs .unexpected)

theorem unexpected_bind_safe (f : α → Parser κ β) : Safe text (unexpected >>= f) :=
  fun s hs => (unexpected_safe s hs).bind fun _ _ h => (unexpected_eq_ok.1 h).elim

theorem refuseEnd_safe : Safe text (refuseEnd (κ := κ)) :=
  cursor_bind_safe fun _ _ => .ite unexpected_safe (.pure ())

theorem refuse_safe (keywords : List Keyword) : Safe text (refuse (κ := κ) keywords) :=
  fun _ hs => cursor_bind_safeAt (.ite (.throw hs .unsupportedToken) (.pure hs ()))

/-! ## Slices -/

/-- A piece of the text between two of its boundaries can be cut out. -/
theorem slice_safe {start stop : Nat} (hstart : IsBoundary text start)
    (hstop : IsBoundary text stop) (hle : start ≤ stop) :
    Safe text (slice (κ := κ) start stop) :=
  cursor_bind_safe fun c hc => by
    obtain ⟨part, hpart⟩ := hstart.exists_slice? hstop hle
    rw [hc.text_eq, hpart]
    exact .pure _

theorem textSince_safe {start : Nat} (hstart : IsBoundary text start) :
    Safe text (textSince (κ := κ) start) :=
  current_bind_safe fun t ht => by
    have hstop : IsBoundary text (max t.start start) := by
      rcases Nat.le_total t.start start with hle | hle
      · rwa [Nat.max_eq_right hle]
      · rw [Nat.max_eq_left hle]
        exact ht.boundaries.1
    exact (slice_safe hstart hstop (Nat.le_max_right ..)).bind fun _ => .pure _

/-! ## The statement -/

/-- Whatever keeps the cursor and what has been recorded is safe. -/
theorem modify_safe {f : ParseState κ → ParseState κ}
    (hf : ∀ s, (f s).cursor = s.cursor ∧ s.body.toRouting.KeptIn (f s).body.toRouting) :
    Safe text (modify f : Parser κ Unit) := by
  refine fun s hs => ⟨?_, (hf s).2⟩
  rw [(hf s).1]
  exact .refl hs

theorem modifyRouting_safe {f : Routing → Routing} (hf : ∀ r : Routing, r.KeptIn (f r)) :
    Safe text (modifyRouting (κ := κ) f) :=
  modify_safe fun _ => ⟨rfl, hf _⟩

theorem modifyClauses_safe (f : κ → κ) : Safe text (modifyClauses f) :=
  modify_safe fun _ => ⟨rfl, .refl _⟩

theorem addMark_safe (m : Mark) : Safe text (addMark (κ := κ) m) :=
  modifyRouting_safe fun r => .addMark r m

theorem addTable_safe (t : Table) : Safe text (addTable (κ := κ) t) :=
  modifyRouting_safe fun r => .addTable r t

theorem addCondition_safe (c : Condition) : Safe text (addCondition (κ := κ) c) :=
  modifyRouting_safe fun _ => .of_eq rfl rfl rfl

theorem takePlaceholder_safe : Safe text (takePlaceholder (κ := κ)) :=
  routing_safe.bind fun _ => (modifyRouting_safe .count).bind fun _ => .pure _

theorem countPlaceholder_safe : Safe text (countPlaceholder (κ := κ)) :=
  cursor_bind_safe fun _ _ => .ite (takePlaceholder_safe.bind fun _ => .pure _) (.pure _)

/-- The difference of the numbers of placeholders is that of a number to an earlier one. -/
theorem placeholdersSince_of_le {before : Nat} (hbefore : before ≤ s.body.parameters) :
    placeholdersSince before s = .ok (s.body.parameters - before) s := by
  rw [placeholdersSince, routing_bind]
  exact congrFun (if_pos hbefore) s

theorem placeholdersSince_safeAt {before : Nat} (hs : s.cursor.Stands text)
    (hbefore : before ≤ s.body.parameters) : SafeAt text s (placeholdersSince before) := by
  rw [SafeAt, placeholdersSince_of_le hbefore]
  exact .refl hs

theorem trace_safe (e : TraceEvent) : Safe text (trace (κ := κ) e) :=
  modify_safe fun _ => ⟨rfl, .refl _⟩

/-! ## Passing tokens -/

theorem advance_safe : Safe text (advance (κ := κ)) := by
  intro s hs
  rw [SafeAt, advance, get_bind]
  cases hnext : s.cursor.next with
  | ok c => exact ⟨hs.next hnext, .refl _⟩
  | error e => exact ⟨.refl hs, .lexical hnext⟩

theorem skipIf_safe (kinds : List TokenKind) : Safe text (skipIf (κ := κ) kinds) :=
  cursor_bind_safe fun _ _ => .ite (advance_safe.bind fun _ => .pure _) (.pure _)

theorem skipSymbol_safe (x : Symbol) : Safe text (skipSymbol (κ := κ) x) :=
  skipIf_safe _

theorem skipKeyword_safe (keywords : List Keyword) : Safe text (skipKeyword (κ := κ) keywords) :=
  cursor_bind_safe fun _ _ => .ite (advance_safe.bind fun _ => .pure _) (.pure _)

theorem accept_safe (kind : TokenKind) : Safe text (accept (κ := κ) kind) := by
  refine fun s hs => current_bind_safeAt ?_
  split
  case isTrue => exact advance_safe s hs
  case isFalse hne => exact .throw hs (.unmatched (Ne.symm hne))

theorem takeName_safe : Safe text (takeName (κ := κ)) := by
  refine current_bind_safe fun _ _ => cursor_bind_safe fun _ _ =>
    .ite (Safe.bind (modify_safe ?_) fun _ => ?_) ?_
  · exact fun _ => ⟨rfl, .refl _⟩
  all_goals exact advance_safe.bind fun _ => .pure _

/-! ## Repetition -/

theorem iterate_safe {step : Parser κ Bool} (h : Safe text step) (n : Nat) :
    Safe text (iterate step n) := by
  induction n with
  | zero => exact .pure ()
  | succ n ih => exact h.bind fun _ => .ite ih (.pure ())

theorem loop_safe {step : Parser κ Bool} (h : Safe text step) : Safe text (loop step) :=
  cursor_bind_safe fun _ _ => iterate_safe h _

theorem collect_safe {item : Parser κ α} {separator : Parser κ Bool} (hi : Safe text item)
    (hs : Safe text separator) (n : Nat) : Safe text (collect item separator n) := by
  induction n with
  | zero => exact .pure []
  | succ n ih =>
    exact hi.bind fun _ => hs.bind fun _ => .ite (ih.bind fun _ => .pure _) (.pure _)

theorem separatedBy_safe {item : Parser κ α} {separator : Parser κ Bool} (hi : Safe text item)
    (hs : Safe text separator) : Safe text (separatedBy separator item) :=
  cursor_bind_safe fun _ _ => collect_safe hi hs _

theorem commaSeparated_safe {item : Parser κ α} (h : Safe text item) :
    Safe text (commaSeparated item) :=
  separatedBy_safe h (skipSymbol_safe _)

/-! ## Skipping -/

theorem skipAll_safe (keywords : List Keyword) : Safe text (skipAll (κ := κ) keywords) :=
  loop_safe <| cursor_bind_safe fun _ _ =>
    .ite ((trace_safe _).bind fun _ => advance_safe.bind fun _ => .pure _) (.pure _)

theorem skipUntil_safe (kinds : List TokenKind) : Safe text (skipUntil (κ := κ) kinds) :=
  loop_safe <| cursor_bind_safe fun _ _ => .ite (.pure _) <|
    countPlaceholder_safe.bind fun _ => advance_safe.bind fun _ => .pure _

theorem skipRest_safe : Safe text (skipRest (κ := κ)) :=
  cursor_bind_safe fun c hc => by
    have hstart := hc.current_at.boundaries.1
    have hend : IsBoundary text (byteLength c.text) :=
      ⟨text, [], (List.append_nil _).symm, by rw [hc.text_eq]⟩
    have hle : c.current.start ≤ byteLength c.text := by
      rw [hc.text_eq]
      exact hstart.le
    exact .ite ((slice_safe hstart hend hle).bind fun _ => (trace_safe _).bind fun _ =>
      skipUntil_safe _) (.pure _)

theorem skipToClosing_safe (n depth : Nat) : Safe text (skipToClosing (κ := κ) n depth) := by
  induction n generalizing depth with
  | zero => exact unexpected_safe
  | succ n ih =>
    refine current_bind_safe fun t _ => ?_
    split
    · exact unexpected_safe
    · exact .pure ()
    · exact advance_safe.bind fun _ => ih _
    · exact advance_safe.bind fun _ => ih _
    · exact countPlaceholder_safe.bind fun _ => advance_safe.bind fun _ => ih _

/-- The text of a group is cut out from where it opens to where the cursor has come since. -/
theorem skipParentheses_safe : Safe text (skipParentheses (κ := κ)) := by
  intro s hs
  refine cursor_bind_safeAt ?_
  split
  · refine (advance_safe s hs).bind fun _ s₁ _ h₁ => ?_
    refine (skipToClosing_safe _ _ s₁ h₁.stands).bind fun _ s₂ _ h₂ => ?_
    obtain ⟨_, hstop, hle⟩ := h₂.stands.current_at.boundaries
    have hle' := Nat.le_trans (h₁.trans h₂).start_le hle
    exact ((slice_safe hs.current_at.boundaries.1 hstop hle').bind fun _ =>
      advance_safe.bind fun _ => .pure _) s₂ h₂.stands
  · exact .pure hs _

/-- A group that is never closed is refused at the end of the text, and not by a fault. -/
example : (Cursor.ofText .mySql .mySql "(é").toOption.map (fun c =>
    match skipParentheses (ParseState.start c : ParseState Unit) with
    | .ok _ _ => none
    | .error e _ => some e) = some (some (.unexpectedToken .endOfText "" 3)) := by
  decide +kernel

end Parser

end SqlRouting
