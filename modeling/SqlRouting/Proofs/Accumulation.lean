import Mathlib.Data.List.Chain
import SqlRouting.Proofs.Sessions

/-!
# What is recorded stays

Clauses can be read into a statement one by one, in any order, and a failure need not be the end:
what the parser has done by then stays, and reading goes on behind it. This holds even if no token
can be read somewhere. The cursor stays on the last token then, and the next one is looked for
further on (`Cursor.resume`); how far is left open, so that what is proved holds wherever it is.

No attempt takes anything back (`Grows`): the tables so far are the first ones behind it, the marks
so far are there in the same order, there are not fewer placeholders, and the token under the cursor
does not start further back. The marks need not be in the order of their positions for that, and
they are not behind a `LIMIT`.
-/

namespace SqlRouting

open Text (byteLength)

/-! ## Behind a token that cannot be read -/

namespace Cursor

/-- The text behind the token under the cursor. -/
def textBehind (c : Cursor) : List Char :=
  ((Text.splitBytes? c.current.stop c.text).map Prod.snd).getD []

/-- The cursor on the same token, where the tokens ahead are those that can be read from a place on
    which is `skipped` characters behind it. -/
def resume (skipped : Nat) (c : Cursor) : Cursor :=
  let rest := c.textBehind.drop skipped
  let stream := TokenStream.read c.dialect (Dictionary.ofDialect c.dialect) (rest.length + 1)
    (byteLength c.text - byteLength rest) rest
  { c with ahead := stream.tokens, failure := stream.failure }

end Cursor

/-- A token that is not the end of the text has some text. -/
theorem Token.At.start_lt_stop {text : List Char} {t : Token} (h : t.At text)
    (hend : t.kind ≠ .endOfText) : t.start < t.stop := by
  cases h with
  | @lexeme before cs l _ hl =>
    have hpos := hl.byteLength_pos
    rw [hl.start_toToken]
    simp only [Lexeme.toToken]
    omega
  | final => exact absurd rfl hend

namespace Cursor.Stands

variable {text : List Char} {c : Cursor}

/-- What is read again is the end of the text, behind the token under the cursor. -/
theorem exists_before (h : c.Stands text) (skipped : Nat) :
    ∃ before, text = before ++ c.textBehind.drop skipped ∧ c.current.stop ≤ byteLength before := by
  obtain ⟨before, behind, rfl, hstop⟩ := h.current_at.boundaries.2.1
  have hbehind : c.textBehind = behind := by
    rw [Cursor.textBehind, h.text_eq, ← hstop, Text.splitBytes?_append]
    rfl
  refine ⟨before ++ behind.take skipped, ?_, ?_⟩
  · rw [hbehind, List.append_assoc, List.take_append_drop]
  · rw [Text.byteLength_append, hstop]
    exact Nat.le_add_right ..

/-- A cursor that is not at the end stands in the text as before, wherever it looks for the next
    token. -/
theorem resume (h : c.Stands text) (hend : c.current.kind ≠ .endOfText) (skipped : Nat) :
    (c.resume skipped).Stands text := by
  obtain ⟨before, htext, hstop⟩ := h.exists_before skipped
  generalize hrest : c.textBehind.drop skipped = rest at htext
  let stream := TokenStream.read c.dialect (Dictionary.ofDialect c.dialect) (rest.length + 1)
    (byteLength before) rest
  have hresume :
      c.resume skipped = { c with ahead := stream.tokens, failure := stream.failure } := by
    have hpos : byteLength c.text - byteLength rest = byteLength before := by
      rw [h.text_eq, htext, Text.byteLength_append, Nat.add_sub_cancel]
    simp only [Cursor.resume, hrest, hpos, stream]
  have hread := @TokenStream.read_sorted c.dialect (Dictionary.ofDialect c.dialect)
    (rest.length + 1) text rest before htext
  have hcurrent := h.current_at.start_lt_stop hend
  rw [hresume]
  refine ⟨h.text_eq, List.forall_mem_cons.2 ⟨h.current_at, fun t ht => (hread.1 t ht).1⟩,
    List.pairwise_cons.2 ⟨fun t ht => ?_, hread.2⟩, fun t more hmore => ?_⟩
  · exact Nat.lt_of_lt_of_le hcurrent (Nat.le_trans hstop (hread.1 t ht).2)
  · rcases List.suffix_cons_iff.1 hmore with hmore | hmore
    -- Reading on gives a token or an error, so the token under the cursor is not the last one.
    · obtain ⟨rfl, rfl⟩ := List.cons.inj hmore
      exact iff_of_false hend fun ⟨hnil, hfailure⟩ =>
        TokenStream.read_ne_nil (Nat.lt_succ_self _) hfailure hnil
    · exact TokenStream.read_closed htext (Nat.lt_succ_self _) hmore

end Cursor.Stands

/-! ## Attempts -/

namespace Session

/-- A clause whose parser needs no more of a statement than what all kinds of statements have. -/
inductive SharedStep where
  | distinct
  | options
  | tables (single : Bool)
  | conditions
  | having
  | rest
  deriving DecidableEq, Repr

/-- The parser of the clause. -/
def SharedStep.parser {κ : Type} : SharedStep → Parser κ Answer
  | distinct => do Grammar.distinct; return .nothing
  | options => do Grammar.selectOptions; return .nothing
  | tables single => do Grammar.tableReferences single; return .nothing
  | conditions => do Grammar.whereClause; return .nothing
  | having => do Grammar.having; return .nothing
  | rest => do Grammar.selectRest; return .nothing

/-- A step that goes on with the statement there is. -/
inductive Part (σ : Type) where
  | cursor (step : CursorStep)
  | shared (step : SharedStep)
  | clause (step : σ)
  deriving DecidableEq, Repr

/-- The parser of the step. -/
def Part.parser {κ σ : Type} [StatementKind κ σ] : Part σ → Parser κ Answer
  | cursor step => step.parser
  | shared step => step.parser
  | clause step => StatementKind.clause step

/-- A step, and how many characters are passed over if it fails because no token can be read. -/
structure Attempt (σ : Type) where
  step : Part σ
  skipped : Nat := 0
  deriving DecidableEq, Repr

section

variable {κ σ : Type} [StatementKind κ σ]

/-- The state that an attempt leaves behind, whether the step succeeds or fails. -/
def Attempt.left (a : Attempt σ) (s : ParseState κ) : ParseState κ :=
  match (a.step.parser : Parser κ Answer) s with
  | .ok _ s' => s'
  | .error (.lexical _) s' => { s' with cursor := s'.cursor.resume a.skipped }
  | .error _ s' => s'

/-- The states from `s` on, before and behind each of the attempts. -/
def trail : List (Attempt σ) → ParseState κ → List (ParseState κ)
  | [], s => [s]
  | a :: attempts, s => s :: trail attempts (a.left s)

end

/-- Nothing that is there in `s` is taken back in `s'`, and the cursor is not further back. -/
structure Grows {κ : Type} (s s' : ParseState κ) : Prop where
  kept : s.body.toRouting.KeptIn s'.body.toRouting
  start_le : s.cursor.current.start ≤ s'.cursor.current.start

theorem SharedStep.parser_safe {κ : Type} {text : List Char} (step : SharedStep) :
    Safe text (step.parser (κ := κ)) := by
  cases step with
  | distinct => exact Grammar.distinct_safe.bind fun _ => .pure _
  | options => exact Grammar.selectOptions_safe.bind fun _ => .pure _
  | tables single => exact (Grammar.tableReferences_safe single).bind fun _ => .pure _
  | conditions => exact Grammar.whereClause_safe.bind fun _ => .pure _
  | having => exact (Parser.refuse_safe _).bind fun _ => .pure _
  | rest => exact Grammar.selectRest_safe.bind fun _ => .pure _

section

variable {κ σ : Type} [StatementKind κ σ] [StatementKind.IsSafe κ] {text : List Char}
  {s : ParseState κ}

theorem Part.parser_safe (step : Part σ) : Safe text (step.parser : Parser κ Answer) := by
  cases step with
  | cursor step => exact step.parser_safe
  | shared step => exact step.parser_safe
  | clause step => exact StatementKind.IsSafe.clause text step

/-- One attempt takes nothing back, and leaves the cursor in the text. -/
theorem Attempt.left_grows (a : Attempt σ) (hs : s.cursor.Stands text) :
    Grows s (a.left s) ∧ (a.left s).cursor.Stands text := by
  have hsafe := a.step.parser_safe (κ := κ) s hs
  unfold SafeAt at hsafe
  rw [Attempt.left]
  split
  case h_1 hrun =>
    rw [hrun] at hsafe
    exact ⟨⟨hsafe.kept, hsafe.start_le⟩, hsafe.stands⟩
  case h_2 s' hrun =>
    rw [hrun] at hsafe
    obtain ⟨hfollows, hrefuses⟩ := hsafe
    have hend : s'.cursor.current.kind ≠ .endOfText := by
      cases hrefuses with
      | lexical hnext => exact hfollows.stands.closed.kind_ne_of_next_error hnext
    exact ⟨⟨hfollows.kept, hfollows.start_le⟩, hfollows.stands.resume hend a.skipped⟩
  case h_3 hrun =>
    rw [hrun] at hsafe
    exact ⟨⟨hsafe.1.kept, hsafe.1.start_le⟩, hsafe.1.stands⟩

omit [StatementKind.IsSafe κ] in
@[simp] theorem head?_trail (attempts : List (Attempt σ)) (s : ParseState κ) :
    (trail attempts s).head? = some s := by
  cases attempts <;> rfl

/-- No attempt among any takes anything back. -/
theorem trail_grows (attempts : List (Attempt σ)) (hs : s.cursor.Stands text) :
    (trail attempts s).IsChain Grows := by
  induction attempts generalizing s with
  | nil => exact .singleton s
  | cons a attempts ih =>
    obtain ⟨hgrows, hleft⟩ := a.left_grows hs
    exact .cons (ih hleft) (by simpa using hgrows)

end

/-- *What is recorded stays.* Whatever clauses are read, in whatever order, into a statement of any
    kind, and whatever of them fails: each attempt leaves the tables as the first ones of those
    behind it and the marks in their order among those behind it, it leaves no fewer placeholders,
    and the cursor on a token that starts no further back. -/
theorem clauses_only_add {database : Database} {d : Dialect} {text : String} {c : Cursor}
    (hc : Cursor.ofText database d text = .ok c) :
    (∀ (attempts : List (Attempt SelectStep)) (body : Body SelectClauses),
      (trail attempts { cursor := c, body }).IsChain Grows) ∧
    (∀ (attempts : List (Attempt InsertStep)) (body : Body InsertClauses),
      (trail attempts { cursor := c, body }).IsChain Grows) ∧
    (∀ (attempts : List (Attempt UpdateStep)) (body : Body UpdateClauses),
      (trail attempts { cursor := c, body }).IsChain Grows) ∧
    ∀ (attempts : List (Attempt DeleteStep)) (body : Body DeleteClauses),
      (trail attempts { cursor := c, body }).IsChain Grows := by
  have hstands := Cursor.stands_of_ofText hc
  exact ⟨fun attempts _ => trail_grows attempts hstands,
    fun attempts _ => trail_grows attempts hstands,
    fun attempts _ => trail_grows attempts hstands,
    fun attempts _ => trail_grows attempts hstands⟩

/-- A condition cannot be read, but the row count behind it can. -/
theorem clauses_only_add_behind_error :
    ∃ c, Cursor.ofText .mySql .mySql "t, u WHERE a = 0xg LIMIT 3" = .ok c ∧
      let states := trail (κ := SelectClauses)
        [⟨.clause (.tables false), 0⟩, ⟨.clause .conditions, 3⟩, ⟨.cursor .advance, 0⟩,
          ⟨.cursor .advance, 0⟩, ⟨.clause .limit, 0⟩] (ParseState.start c)
      states.IsChain Grows ∧
        states.map (fun s => (s.body.marks.length, s.cursor.current.start)) =
          [(0, 0), (2, 5), (2, 13), (2, 17), (2, 19), (3, 26)] := by
  have hc : Cursor.ofText .mySql .mySql "t, u WHERE a = 0xg LIMIT 3" = .ok
      ⟨"t, u WHERE a = 0xg LIMIT 3".toList, ⟨.literal .identifier, "t", 1⟩,
        [⟨.symbol .comma, ",", 2⟩, ⟨.literal .identifier, "u", 4⟩, ⟨.keyword .WHERE, "WHERE", 10⟩,
          ⟨.literal .identifier, "a", 12⟩, ⟨.symbol .equal, "=", 14⟩],
        some (.invalidHexDigit 'g' 17), .mySql, .mySql⟩ := by
    decide +kernel
  exact ⟨_, hc, (clauses_only_add hc).1 _ _, by decide +kernel⟩

end Session

end SqlRouting
