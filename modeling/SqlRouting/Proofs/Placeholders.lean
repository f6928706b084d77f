import SqlRouting.Proofs.Moves.Statement

/-!
# The count of placeholders

Every placeholder that a parse passes is counted, save those that are read as the name behind an
owner and its dot. So the number of parameters of a statement and the number of those names add up
to the number of question marks among the tokens of its text (`parse_placeholders`).

The sum is kept by every move: what a move takes from the tokens ahead it adds to the count or to
the names (`Run.accounted_eq`). At the end of the text there is nothing left ahead.
-/

namespace SqlRouting

/-- The number of placeholders among some tokens. -/
def questions (ts : List Token) : Nat :=
  ts.countP (·.kind = .symbol .question)

/-- The token is a placeholder of the stream behind a dot. -/
def IsDotted (stream : List Token) (t : Token) : Prop :=
  t.kind = .symbol .question ∧ ∃ dot, dot.kind = .symbol .dot ∧ [dot, t] <:+: stream

/-- The placeholders that have been counted, those that have been read as names, and those
    that are still ahead. -/
def ParseState.accounted {κ : Type} (s : ParseState κ) : Nat :=
  s.body.parameters + s.unnumbered.length + questions s.cursor.tokens

/-- The cursor passes the token under it, and nothing at the end of the text. -/
theorem Cursor.questions_of_next {c c' : Cursor} (hc : c.Closed) (h : c.next = .ok c') :
    questions c.tokens =
      (if c.current.kind = .symbol .question then 1 else 0) + questions c'.tokens := by
  rcases Cursor.next_eq_ok hc h with ⟨hend, rfl⟩ | ⟨_, htokens, _⟩
  · rw [if_neg (by simp [hend]), Nat.zero_add]
  · rw [htokens]
    simp only [questions, List.countP_cons, decide_eq_true_eq]
    omega

section

variable {κ : Type} {E : Scope κ} {stream : List Token} {s s' : ParseState κ}

/-- No move loses sight of a placeholder. -/
theorem Run.accounted_eq (h : Run E stream s s') (hs : s.On stream) :
    s'.accounted = s.accounted := by
  refine h.rel (R := fun s s' => s'.accounted = s.accounted) (fun _ => rfl)
    (fun h₁ h₂ => h₂.trans h₁) ?_ hs
  intro s s' hs hmove
  cases hmove with
  | pass hnext hq =>
    have hpassed := Cursor.questions_of_next hs.closed hnext
    rw [if_neg hq] at hpassed
    simp only [ParseState.accounted]
    omega
  | count hnext hq =>
    have hpassed := Cursor.questions_of_next hs.closed hnext
    rw [if_pos hq] at hpassed
    simp only [ParseState.accounted, ParseState.counted]
    omega
  -- Of the two tokens that are passed the dot is no placeholder, and the other one is a name.
  | name hnext hdot hnext' hq =>
    have hpassed := Cursor.questions_of_next hs.closed hnext
    have hpassed' := Cursor.questions_of_next (hs.closed.next hnext) hnext'
    rw [if_neg (by simp [hdot])] at hpassed
    rw [if_pos hq] at hpassed'
    simp only [ParseState.accounted, List.length_append, List.length_singleton]
    omega
  | trace | mark | table | conditions | clauses => rfl

/-- The placeholders read as names are behind dots. -/
theorem Run.dotted (h : Run E stream s s') (hs : s.On stream)
    (hnames : ∀ t ∈ s.unnumbered, IsDotted stream t) : ∀ t ∈ s'.unnumbered, IsDotted stream t := by
  refine h.rel (R := fun s s' => (∀ t ∈ s.unnumbered, IsDotted stream t) →
    ∀ t ∈ s'.unnumbered, IsDotted stream t) (fun _ h => h) (fun h₁ h₂ h => h₂ (h₁ h)) ?_ hs hnames
  intro s s' hs hmove hnames
  cases hmove with
  | name hnext hdot hnext' hq =>
    intro t ht
    rcases List.mem_append.1 ht with ht | ht
    · exact hnames t ht
    · obtain rfl := List.mem_singleton.1 ht
      refine ⟨hq, _, hdot, ?_⟩
      rcases Cursor.next_eq_ok hs.closed hnext with ⟨hend, _⟩ | ⟨_, htokens, _⟩
      · simp [hdot] at hend
      · refine List.IsInfix.trans ?_ hs.tokens.isInfix
        rw [htokens]
        exact (List.prefix_append [_, _] _).isInfix
  | _ => exact hnames

end

/-! ## Statements -/

/-- A parse has ended: all placeholders have been counted or read as names, and these are
    behind dots. -/
def ParseState.Settled {κ : Type} (stream : List Token) (s : ParseState κ) : Prop :=
  s.body.parameters + s.unnumbered.length = questions stream ∧
    ∀ t ∈ s.unnumbered, IsDotted stream t

section

variable {κ : Type} [Inhabited κ] {E : Scope κ} {c : Cursor} {s s₁ : ParseState κ}

/-- A state at the end of the text that accounts for as many placeholders as the one at its
    start is settled. -/
theorem ParseState.settled_of_isEnd (hs : s.cursor.Closed) (hend : s.cursor.isEnd = true)
    (haccounted : s.accounted = (ParseState.start c : ParseState κ).accounted)
    (hnames : ∀ t ∈ s.unnumbered, IsDotted c.tokens t) : s.Settled c.tokens := by
  have hkind : s.cursor.current.kind = .endOfText := of_decide_eq_true hend
  -- All that is left is the end of the text, which is no placeholder.
  have hahead := ((hs s.cursor.current s.cursor.ahead List.suffix_rfl).1 hkind).1
  refine ⟨?_, hnames⟩
  simpa [ParseState.accounted, questions, Cursor.tokens, hahead, hkind, ParseState.start,
    Body.empty] using haccounted

/-- A parser that makes moves and then skips what is left ends in a settled state. -/
theorem Run.settled (hc : c.Closed) (h : Run E c.tokens (ParseState.start c) s₁)
    {u : Unit} (hskip : Parser.skipRest s₁ = .ok u s) : s.Settled c.tokens := by
  have hon := ParseState.On.start (κ := κ) hc
  have hrun := h.trans (Parser.skipRest_moves hskip)
  obtain ⟨hclosed, hend⟩ := Parser.skipRest_isEnd hskip (h.on hon).closed
  exact ParseState.settled_of_isEnd hclosed hend (hrun.accounted_eq hon)
    (hrun.dotted hon (by simp [ParseState.start]))

end

namespace Grammar

variable {c : Cursor}

/-- The limit of a select is read like everything else of it. -/
theorem limit_accounted {stream : List Token} {s s' : ParseState SelectClauses} {u : Unit}
    (h : limit s = .ok u s') (hs : s.On stream) : s'.accounted = s.accounted ∧
      ((∀ t ∈ s.unnumbered, IsDotted stream t) → ∀ t ∈ s'.unnumbered, IsDotted stream t) := by
  rcases limit_eq_ok (E := Scope.marksOnly _) h hs with
    ⟨_, rfl⟩ | ⟨_, s₁, _, _, _, hrun, _, _, _, rfl⟩
  · exact ⟨rfl, id⟩
  · exact ⟨hrun.accounted_eq hs, hrun.dotted hs⟩

theorem select_settled (hc : c.Closed) {s : ParseState SelectClauses}
    (h : select (ParseState.start c) = .ok () s) : s.Settled c.tokens := by
  obtain ⟨r, rfl⟩ := select_eq_ok h
  have hon := ParseState.On.start (κ := SelectClauses) hc
  have hordered := r.run.on hon
  obtain ⟨haccounted, hnames⟩ := limit_accounted r.limit hordered
  have hlimited := limit_on r.limit hordered
  have hskip : Run (Scope.marksOnly _) c.tokens r.limited r.skipped :=
    Parser.skipRest_moves r.skipRest
  obtain ⟨hclosed, hend⟩ := Parser.skipRest_isEnd r.skipRest hlimited.closed
  have hsettled : r.skipped.Settled c.tokens := by
    refine ParseState.settled_of_isEnd hclosed hend ?_ ?_
    · exact ((hskip.accounted_eq hlimited).trans haccounted).trans (r.run.accounted_eq hon)
    · exact hskip.dotted hlimited (hnames (r.run.dotted hon (by simp [ParseState.start])))
  have hderived : r.skipped.body.deriveColumns.deriveOrder.parameters =
      r.skipped.body.parameters := congrArg (·.parameters) (derive_routing _)
  exact ⟨hderived ▸ hsettled.1, hsettled.2⟩

end Grammar

/-- The placeholders that a parser reads as names behind a cursor. -/
def namesOf {κ : Type} [Inhabited κ] (parser : Parser κ Unit) (c : Cursor) : List Token :=
  match parser (ParseState.start c) with
  | .ok _ s | .error _ s => s.unnumbered

/-- The placeholders of a text that are read as the name behind an owner and its dot while it
    is parsed. -/
def placeholderNames (database : Database) (d : Dialect) (text : String) : List Token :=
  match Cursor.ofText database d text with
  | .error _ => []
  | .ok c =>
    match c.current.kind with
    | .keyword .SELECT => namesOf Grammar.select c
    | .keyword .INSERT => namesOf Grammar.insert c
    | .keyword .UPDATE => namesOf Grammar.update c
    | .keyword .DELETE => namesOf Grammar.delete c
    | _ => []

/-- *The count of placeholders.* The parameters of an accepted statement and the placeholders
    that are read as names add up to the question marks among the tokens of the text. So it is
    exactly without such names that every question mark is counted; each of them is a question
    mark directly behind a dot. -/
theorem parse_placeholders {database : Database} {d : Dialect} {text : String} {s : Statement}
    (h : Statement.parse database d text = .ok s) :
    s.routing.parameters + (placeholderNames database d text).length =
        questions (TokenStream.ofText d text.toList).tokens ∧
      (s.routing.parameters = questions (TokenStream.ofText d text.toList).tokens ↔
        placeholderNames database d text = []) ∧
      ∀ t ∈ placeholderNames database d text,
        IsDotted (TokenStream.ofText d text.toList).tokens t := by
  suffices hsettled : s.routing.parameters + (placeholderNames database d text).length =
        questions (TokenStream.ofText d text.toList).tokens ∧
      ∀ t ∈ placeholderNames database d text,
        IsDotted (TokenStream.ofText d text.toList).tokens t by
    refine ⟨hsettled.1, ?_, hsettled.2⟩
    rw [← List.length_eq_zero_iff]
    omega
  obtain ⟨c, hc, hread⟩ := Statement.parse_eq_ok h
  obtain ⟨htokens, hclosed, _⟩ := Cursor.ofText_eq_ok hc
  rw [← htokens, placeholderNames, hc]
  cases hread with
  | select hkind hread =>
    simp only [hkind, namesOf, hread]
    exact Grammar.select_settled hclosed hread
  | insert hkind hread =>
    obtain ⟨s₁, hrun, hskip⟩ := Grammar.insert_run hread
    simp only [hkind, namesOf, hread]
    exact hrun.settled hclosed hskip
  | update hkind hread =>
    obtain ⟨s₁, hrun, hskip⟩ := Grammar.update_run hread
    simp only [hkind, namesOf, hread]
    exact hrun.settled hclosed hskip
  | delete hkind hread =>
    obtain ⟨s₁, hrun, hskip⟩ := Grammar.delete_run hread
    simp only [hkind, namesOf, hread]
    exact hrun.settled hclosed hskip

/-- Placeholders behind signs and in groups are counted like others. -/
theorem parse_placeholders_signed :
    ∃ s, Statement.parse .mySql .mySql "DELETE FROM t WHERE a = -? AND (b IN (?))" = .ok s ∧
      s.routing.parameters = 2 ∧ s.routing.parameters = questions
        (TokenStream.ofText .mySql "DELETE FROM t WHERE a = -? AND (b IN (?))".toList).tokens := by
  obtain ⟨s, hparse, hparameters⟩ := Statement.exists_of_map
    (f := fun s => s.routing.parameters) (by decide +kernel : (Statement.parse .mySql .mySql
      "DELETE FROM t WHERE a = -? AND (b IN (?))").map (fun s => s.routing.parameters) = .ok 2)
  exact ⟨s, hparse, hparameters, (parse_placeholders hparse).2.1.2 (by decide +kernel)⟩

/-- The placeholder behind an owner is taken for the name of a column and not counted. -/
theorem placeholder_behind_owner :
    ∃ s, Statement.parse .mySql .mySql "SELECT * FROM t WHERE t.? = 1" = .ok s ∧
      s.routing.parameters = 0 ∧
      questions (TokenStream.ofText .mySql "SELECT * FROM t WHERE t.? = 1".toList).tokens = 1 := by
  obtain ⟨s, hparse, hparameters⟩ := Statement.exists_of_map
    (f := fun s => s.routing.parameters) (by decide +kernel : (Statement.parse .mySql .mySql
      "SELECT * FROM t WHERE t.? = 1").map (fun s => s.routing.parameters) = .ok 0)
  exact ⟨s, hparse, hparameters, by decide +kernel⟩

end SqlRouting
