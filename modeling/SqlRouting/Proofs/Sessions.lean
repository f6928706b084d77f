import SqlRouting.Parse
import SqlRouting.Proofs.Faults
import SqlRouting.Proofs.Scanner
import SqlRouting.Session

/-!
# Parsing never breaks a promise

A session may apply the parsers in any order, and hand them any statements (`Turn`). Each step of it
is safe, so wherever it leaves the cursor, the next one is safe from there (`Session.run_steady`).
With the scanner, which cuts the text only between two of its characters, this is `parse_faultless`:
nothing that is done with a text ends in a fault. Neither does the counter of open groups go below
zero, for which parsing makes no check.
-/

namespace SqlRouting

open SqlRouting.Parser

/-! ## Groups -/

/-- The number of groups that are open behind a token, or nothing if the token closes one and
    none is open. -/
def Token.depthBehind? (depth : Nat) (t : Token) : Option Nat :=
  match t.kind with
  | .symbol .leftParen => some (depth + 1)
  | .symbol .rightParen => if 0 < depth then some (depth - 1) else none
  | _ => some depth

/-- Between two states tokens have been passed, and counting the groups that they open and
    close has led from one number of open groups to another. -/
def Counts {κ : Type} (s : ParseState κ) (depth : Nat) (s' : ParseState κ) (depth' : Nat) : Prop :=
  ∃ passed, s.cursor.tokens = passed ++ s'.cursor.tokens ∧
    passed.foldlM Token.depthBehind? depth = some depth'

section

variable {κ : Type} {s s₁ s' : ParseState κ} {depth depth₁ depth' : Nat}

theorem Counts.refl (s : ParseState κ) (depth : Nat) : Counts s depth s depth :=
  ⟨[], rfl, rfl⟩

theorem Counts.trans (h : Counts s depth s₁ depth₁) (h' : Counts s₁ depth₁ s' depth') :
    Counts s depth s' depth' := by
  obtain ⟨passed, htokens, hcount⟩ := h
  obtain ⟨passed', htokens', hcount'⟩ := h'
  refine ⟨passed ++ passed', by rw [htokens, htokens', List.append_assoc], ?_⟩
  rw [List.foldlM_append, hcount]
  exact hcount'

theorem Counts.of_cursor (h : s'.cursor = s.cursor) (depth : Nat) : Counts s depth s' depth :=
  ⟨[], by rw [h, List.nil_append], rfl⟩

/-- However looking for the parenthesis that closes a group ends, closing the groups on the way
    has taken none from zero; if it succeeds, all of them have been closed. -/
def Counted (s : ParseState κ) (depth : Nat) :
    EStateM.Result ParseError (ParseState κ) Unit → Prop
  | .ok _ s' => Counts s depth s' 0
  | .error _ s' => ∃ depth', Counts s depth s' depth'

theorem Counted.trans {r : EStateM.Result ParseError (ParseState κ) Unit}
    (h : Counts s depth s₁ depth₁) (h' : Counted s₁ depth₁ r) : Counted s depth r := by
  cases r with
  | ok _ s' => exact h.trans h'
  | error _ s' => exact h'.imp fun _ => h.trans

namespace Parser

/-- What counts behind a token counts before it, if the token closes no group that is not
    open. -/
theorem advance_counted {p : Parser κ Unit} (hs : s.cursor.Closed)
    (hend : s.cursor.current.kind ≠ .endOfText)
    (hdepth : s.cursor.current.depthBehind? depth = some depth₁)
    (hp : ∀ s₁, s₁.cursor.Closed → Counted s₁ depth₁ (p s₁)) :
    Counted s depth ((advance >>= fun _ => p) s) := by
  cases hnext : s.cursor.next with
  | ok c =>
    have hadvance : advance s = .ok () { s with cursor := c } := advance_eq_ok.2 ⟨c, hnext, rfl⟩
    rw [bind_of_eq_ok hadvance]
    refine .trans ⟨[s.cursor.current], ?_, ?_⟩ (hp _ (hs.next hnext))
    · exact Cursor.tokens_of_next hs hnext hend
    · simp [List.foldlM, hdepth]
  | error e =>
    have hadvance : advance s = .error (.lexical e) s := by
      rw [advance, get_bind, hnext]
      rfl
    simp only [bind, EStateM.bind, hadvance]
    exact ⟨depth, .refl s depth⟩

theorem skipToClosing_counted (n depth : Nat) (hs : s.cursor.Closed) :
    Counted s depth (skipToClosing n depth s) := by
  induction n generalizing depth s with
  | zero => exact ⟨depth, .refl s depth⟩
  | succ n ih =>
    rw [skipToClosing, current_bind]
    generalize hkind : s.cursor.current.kind = kind
    split
    case h_1 => exact ⟨depth, .refl s depth⟩
    case h_2 => exact .refl s 0
    case h_3 _ depth =>
      exact advance_counted hs (by simp [hkind]) (by simp [Token.depthBehind?, hkind])
        fun _ => ih depth
    case h_4 =>
      exact advance_counted hs (by simp [hkind]) (by simp [Token.depthBehind?, hkind])
        fun _ => ih (depth + 1)
    -- Any other token leaves the groups as they are, and counting it leaves the cursor.
    case h_5 hend hleft hnone hsome =>
      have hcount : countPlaceholder s = .ok () _ := countPlaceholder_eq_ok.2 rfl
      have hcursor := cursor_of_countPlaceholder hcount
      have hdepth : s.cursor.current.depthBehind? depth = some depth := by
        rw [Token.depthBehind?, hkind]
        split
        · exact absurd rfl hleft
        · cases depth with
          | zero => exact (hnone rfl rfl).elim
          | succ depth => exact (hsome depth rfl rfl).elim
        · rfl
      rw [bind_of_eq_ok hcount]
      refine .trans (Counts.of_cursor hcursor depth) ?_
      rw [← hcursor] at hs hkind hdepth
      exact advance_counted hs (by simpa [hkind] using hend) hdepth fun _ => ih depth

end Parser

end

/-! ## Steps -/

/-- An answer that is no broken promise. -/
def Answered (r : Except ParseError Answer) : Prop :=
  ∀ e, r = .error e → ¬e.IsFault

theorem Answered.ok (a : Answer) : Answered (.ok a) :=
  fun _ h => by cases h

/-- A parser has ended on a cursor in the text, and it has broken no promise. -/
def Ends {κ α : Type} (text : List Char) : EStateM.Result ParseError (ParseState κ) α → Prop
  | .ok _ s => s.cursor.Stands text
  | .error e s => s.cursor.Stands text ∧ ¬e.IsFault

section

variable {κ α β : Type} {text : List Char}

theorem Safe.ends {p : Parser κ α} (h : Safe text p) {s : ParseState κ}
    (hs : s.cursor.Stands text) : Ends text (p s) := by
  have hp := h s hs
  rw [SafeAt] at hp
  cases hrun : p s with
  | ok a s' =>
    rw [hrun] at hp
    exact hp.stands
  | error e s' =>
    rw [hrun] at hp
    exact ⟨hp.1.stands, hp.2.not_isFault⟩

theorem Safe.map {p : Parser κ α} (h : Safe text p) (f : α → β) : Safe text (f <$> p) := by
  rw [map_eq_pure_bind]
  exact h.bind fun _ => .pure _

theorem CursorStep.parser_safe (step : CursorStep) : Safe text (step.parser (κ := κ)) := by
  cases step with
  | look => exact .pure _
  | isEnd | isAny | isKeyword | isSymbol => exact cursor_bind_safe fun _ _ => .pure _
  | unexpected => exact unexpected_safe
  | advance => exact advance_safe.bind fun _ => .pure _
  | skipIf kinds => exact (skipIf_safe kinds).map _
  | skipKeyword keywords => exact (skipKeyword_safe keywords).map _
  | skipSymbol x => exact (skipSymbol_safe x).map _
  | skipAll keywords => exact (skipAll_safe keywords).bind fun _ => .pure _
  | skipUntil kinds => exact (skipUntil_safe kinds).bind fun _ => .pure _
  | skipRest => exact skipRest_safe.bind fun _ => .pure _
  | skipParentheses => exact skipParentheses_safe.map _
  | accept kind => exact (accept_safe kind).bind fun _ => .pure _
  | refuse keywords => exact (refuse_safe keywords).bind fun _ => .pure _
  | operand => exact Grammar.operand_safe.map _
  | selectItemAlias => exact Grammar.selectItemAlias_safe.map _
  | tableAlias => exact Grammar.tableAlias_safe.map _

theorem SelectStep.parser_safe (step : SelectStep) : Safe text step.parser := by
  cases step with
  | distinct => exact Grammar.distinct_safe.bind fun _ => .pure _
  | options => exact Grammar.selectOptions_safe.bind fun _ => .pure _
  | list => exact Grammar.selectList_safe.map _
  | tables single => exact (Grammar.tableReferences_safe single).bind fun _ => .pure _
  | conditions => exact Grammar.whereClause_safe.bind fun _ => .pure _
  | groupBy => exact Grammar.groupBy_safe.bind fun _ => .pure _
  | having => exact (refuse_safe _).bind fun _ => .pure _
  | orderBy => exact Grammar.orderBy_safe.bind fun _ => .pure _
  | limit => exact Grammar.limit_safe.bind fun _ => .pure _
  | rest => exact Grammar.selectRest_safe.bind fun _ => .pure _

theorem InsertStep.parser_safe (step : InsertStep) : Safe text step.parser := by
  cases step with
  | into => exact Grammar.insertInto_safe.bind fun _ => .pure _
  | columns => exact Grammar.insertColumns_safe.bind fun _ => .pure _
  | values => exact Grammar.insertValues_safe.bind fun _ => .pure _
  | assignments => exact Grammar.insertSet_safe.bind fun _ => .pure _
  | duplicateKeyUpdate => exact Grammar.duplicateKeyUpdate_safe.bind fun _ => .pure _

theorem UpdateStep.parser_safe (step : UpdateStep) : Safe text step.parser := by
  cases step with
  | tables single => exact (Grammar.tableReferences_safe single).bind fun _ => .pure _
  | assignments => exact Grammar.assignments_safe.bind fun _ => .pure _
  | conditions => exact Grammar.whereClause_safe.bind fun _ => .pure _

theorem DeleteStep.parser_safe (step : DeleteStep) : Safe text step.parser := by
  cases step with
  | tables single => exact (Grammar.tableReferences_safe single).bind fun _ => .pure _
  | conditions => exact Grammar.whereClause_safe.bind fun _ => .pure _

end

/-! ## Sessions -/

/-- The parsers of a kind of statement are safe. -/
class StatementKind.IsSafe (κ : Type) {σ : outParam Type} [StatementKind κ σ] : Prop where
  clause : ∀ (text : List Char) (step : σ), Safe text (StatementKind.clause step : Parser κ Answer)
  whole : ∀ text : List Char, Safe text (StatementKind.whole : Parser κ Unit)

instance : StatementKind.IsSafe SelectClauses :=
  ⟨fun _ => SelectStep.parser_safe, fun _ => Grammar.select_safe⟩

instance : StatementKind.IsSafe InsertClauses :=
  ⟨fun _ => InsertStep.parser_safe, fun _ => Grammar.insert_safe⟩

instance : StatementKind.IsSafe UpdateClauses :=
  ⟨fun _ => UpdateStep.parser_safe, fun _ => Grammar.update_safe⟩

instance : StatementKind.IsSafe DeleteClauses :=
  ⟨fun _ => DeleteStep.parser_safe, fun _ => Grammar.delete_safe⟩

namespace Session

variable {κ σ : Type} [StatementKind κ σ] [StatementKind.IsSafe κ] {text : List Char}
  {s : ParseState κ}

omit [StatementKind.IsSafe κ] in
/-- A statement of its own may have fewer placeholders than that of the session, but its parser
    leaves the cursor in the text. -/
theorem afresh_ends {p : Parser κ Unit} (h : Safe text p)
    (hs : s.cursor.Stands text) : Ends text (afresh p s) := by
  have hp : Ends text (p { s with body := Body.empty }) := h.ends hs
  rw [afresh]
  cases hrun : p { s with body := Body.empty } with
  | ok u s' =>
    rw [hrun] at hp
    exact hp
  | error e s' =>
    rw [hrun] at hp
    exact hp

theorem parser_ends (st : Step σ) (hs : s.cursor.Stands text) :
    Ends text ((parser st : Parser κ Answer) s) := by
  cases st with
  | cursor step => exact step.parser_safe.ends hs
  | clause step => exact (StatementKind.IsSafe.clause text step).ends hs
  | whole =>
    have hp := afresh_ends (StatementKind.IsSafe.whole (κ := κ) text) hs
    simp only [parser, bind, EStateM.bind]
    cases hrun : afresh (StatementKind.whole : Parser κ Unit) s with
    | ok u s' =>
      rw [hrun] at hp
      exact hp
    | error e s' =>
      rw [hrun] at hp
      exact hp

/-- A step breaks no promise and leaves the cursor in the text. -/
theorem step_steady (st : Step σ) (hs : s.cursor.Stands text) :
    Answered (step st s).1 ∧ (step st s).2.cursor.Stands text := by
  have hp := parser_ends st hs
  rw [step]
  cases hrun : (parser st : Parser κ Answer) s with
  | ok a s' =>
    rw [hrun] at hp
    exact ⟨.ok a, hp⟩
  | error e s' =>
    rw [hrun] at hp
    exact ⟨fun _ h => Except.error.inj h ▸ hp.2, hp.1⟩

/-- No step of a session breaks a promise. -/
theorem run_steady (steps : List (Step σ)) (hs : s.cursor.Stands text) :
    ∀ o ∈ run steps s, Answered o.1 ∧ o.2.cursor.Stands text := by
  induction steps generalizing s with
  | nil => simp [run]
  | cons st steps ih =>
    have hstep := step_steady st hs
    intro o ho
    rw [run] at ho
    split at ho
    · exact List.mem_singleton.1 ho ▸ hstep
    · rcases List.mem_cons.1 ho with rfl | ho
      · exact hstep
      · exact ih hstep.2 o ho

end Session

/-! ## Several statements -/

/-- Some steps of a session, and the statement that is handed to them. -/
inductive Turn where
  | select (steps : List (Step SelectStep)) (body : Body SelectClauses)
  | insert (steps : List (Step InsertStep)) (body : Body InsertClauses)
  | update (steps : List (Step UpdateStep)) (body : Body UpdateClauses)
  | delete (steps : List (Step DeleteStep)) (body : Body DeleteClauses)

namespace Turn

/-- What the steps answer from a cursor on, and the cursor behind each of them. -/
def outcomes (c : Cursor) : Turn → List (Except ParseError Answer × Cursor)
  | select steps body => ofSteps steps body
  | insert steps body => ofSteps steps body
  | update steps body => ofSteps steps body
  | delete steps body => ofSteps steps body
where
  /-- The same of steps for statements of one kind. -/
  ofSteps {κ σ : Type} [StatementKind κ σ] (steps : List (Step σ)) (body : Body κ) :
      List (Except ParseError Answer × Cursor) :=
    (Session.run steps { cursor := c, body }).map fun o => (o.1, o.2.cursor)

/-- What is answered in turn, each turn going on where the one before has left the cursor. A token
    that cannot be read ends it. -/
def run : List Turn → Cursor → List (Except ParseError Answer × Cursor)
  | [], _ => []
  | turn :: turns, c =>
    let outcomes := turn.outcomes c
    match outcomes.getLast? with
    | none => run turns c
    | some last =>
      if Session.isLast last.1 then outcomes else outcomes ++ run turns last.2

theorem outcomes_steady {text : List Char} {c : Cursor} (hc : c.Stands text) (turn : Turn) :
    ∀ o ∈ turn.outcomes c, Answered o.1 ∧ o.2.Stands text := by
  have hsteps {κ σ : Type} [StatementKind κ σ] [StatementKind.IsSafe κ] (steps : List (Step σ))
      (body : Body κ) : ∀ o ∈ outcomes.ofSteps c steps body, Answered o.1 ∧ o.2.Stands text := by
    intro o ho
    obtain ⟨o', ho', rfl⟩ := List.mem_map.1 ho
    exact Session.run_steady steps (s := { cursor := c, body }) hc o' ho'
  cases turn with
  | select steps body => exact hsteps steps body
  | insert steps body => exact hsteps steps body
  | update steps body => exact hsteps steps body
  | delete steps body => exact hsteps steps body

/-- No step of any turn breaks a promise. -/
theorem run_steady {text : List Char} (turns : List Turn) {c : Cursor} (hc : c.Stands text) :
    ∀ o ∈ run turns c, Answered o.1 ∧ o.2.Stands text := by
  induction turns generalizing c with
  | nil => simp [run]
  | cons turn turns ih =>
    have hturn := outcomes_steady hc turn
    intro o ho
    simp only [run] at ho
    split at ho
    case h_1 => exact ih hc o ho
    case h_2 last hlast =>
      split at ho
      · exact hturn o ho
      · rcases List.mem_append.1 ho with ho | ho
        · exact hturn o ho
        · exact ih (hturn last (List.mem_of_getLast? hlast)).2 o ho

end Turn

/-! ## Texts -/

theorem Statement.ofParser_error {κ : Type} [Inhabited κ] {text : List Char}
    {parser : Parser κ Unit} (h : Safe text parser) {f : Body κ → Statement} {c : Cursor}
    (hc : c.Stands text) {e : ParseError} (he : (ofParser parser f c).1 = .error e) :
    ¬e.IsFault := by
  have hp : Ends text (parser (ParseState.start c)) := h.ends hc
  rw [ofParser] at he
  cases hrun : parser (ParseState.start c) with
  | ok u s =>
    rw [hrun] at he
    cases he
  | error e' s =>
    rw [hrun] at he hp
    cases he
    exact hp.2

/-- A text is never refused because a promise is broken. -/
theorem Statement.parse_error {database : Database} {d : Dialect} {text : String} {e : ParseError}
    (h : parse database d text = .error e) : ¬e.IsFault := by
  rw [parse, parseTraced] at h
  cases hc : Cursor.ofText database d text with
  | error cause =>
    rw [hc] at h
    cases h
    rintro ⟨f, ⟨⟩⟩
  | ok c =>
    have hstands := Cursor.stands_of_ofText hc
    rw [hc] at h
    have h : (ofCursor c).1 = .error e := h
    rw [ofCursor] at h
    split at h
    case h_1 => exact ofParser_error Grammar.select_safe hstands h
    case h_2 => exact ofParser_error Grammar.insert_safe hstands h
    case h_3 => exact ofParser_error Grammar.update_safe hstands h
    case h_4 => exact ofParser_error Grammar.delete_safe hstands h
    case h_5 =>
      cases h
      rintro ⟨f, ⟨⟩⟩

/-- *Parsing breaks no promise.* Whatever the text, the dialect and the database, scanning the
    text, parsing it, and applying parsers to it one by one in any order and with any statements
    never ends in a fault: every piece of the text that is cut out lies between two of its
    character boundaries in order, and there are never fewer placeholders than before. Wherever in
    the text the end of a group is looked for, no group is closed that has not been opened. -/
theorem parse_faultless (database : Database) (d : Dialect) (text : String) :
    (∀ e ∈ (Scanner.ofText d text.toList).tokens.2, ¬e.IsFault) ∧
      (∀ e, Statement.parse database d text = .error e → ¬e.IsFault) ∧
      (∀ c, Cursor.ofText database d text = .ok c → ∀ turns, ∀ o ∈ Turn.run turns c,
        ∀ e, o.1 = .error e → ¬e.IsFault) ∧
      ∀ (κ : Type) (s : ParseState κ), s.cursor.Stands text.toList →
        ∀ n depth, Counted s depth (skipToClosing n depth s) := by
  refine ⟨fun e he => ?_, fun e => Statement.parse_error, fun c hc turns o ho => ?_,
    fun κ s hs n depth => ?_⟩
  · rw [Scanner.tokens_eq] at he
    obtain ⟨cause, _, rfl⟩ := Option.map_eq_some_iff.1 he
    rintro ⟨f, ⟨⟩⟩
  · exact (Turn.run_steady turns (Cursor.stands_of_ofText hc) o ho).1
  · exact skipToClosing_counted n depth hs.closed

end SqlRouting
