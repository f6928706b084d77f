import SqlRouting.Audit
import SqlRouting.Proofs.Moves.Statement

/-!
# The law of marks

The marks of an accepted statement agree with its text (`parse_marks`): those of a limit come last,
the offset first, and the others before them in the order of their positions. Every mark stands
between two characters of the text, that of a table where the table is spelled, that of a limit
where its number is written out.

The law is an invariant of moves, as all marks but those of a limit belong to tokens of the text
(`Run.lawful`). A select breaks the order in which it is read twice. Its limit is marked without
regard to positions, and its derived columns are marked when it has been read to its end, before the
limit; they find their place because both of them belong to tokens that come before the limit.
-/

namespace SqlRouting

open Text (byteLength)

namespace Mark

/-- What a mark says about the text that starts at its position. -/
def Agrees (rest : List Char) : Mark → Prop
  | table _ spelling => spelling.toList <+: rest
  | offset _ value | rowCount _ value =>
    Number.integer? 10 (rest.takeWhile Char.isDigit) = some value
  | items _ _ | orderBy _ | insertValues _ _ => True

/-- The mark stands between two characters of the text and agrees with it. -/
def Placed (text : List Char) (m : Mark) : Prop :=
  ∃ before rest, text = before ++ rest ∧ byteLength before = m.start ∧ m.Agrees rest

/-- The marks that a limit may have: its offset and its row count, in this order. -/
inductive AreOfLimit : List Mark → Prop
  | none : AreOfLimit []
  | offset (p : Nat) (n : Int) : AreOfLimit [.offset p n]
  | rowCount (q : Nat) (m : Int) : AreOfLimit [.rowCount q m]
  | both (p q : Nat) (n m : Int) : AreOfLimit [.offset p n, .rowCount q m]

/-- The law of the marks of a text: `others` are in order, those of the limit may
    follow, and all are placed. -/
structure Lawful (text : List Char) (others ofLimit : List Mark) : Prop where
  sorted : others.Pairwise (·.start ≤ ·.start)
  notOfLimit : ∀ m ∈ others, m.isOfLimit = false
  areOfLimit : AreOfLimit ofLimit
  placed : ∀ m ∈ others ++ ofLimit, m.Placed text

variable {text : List Char} {m : Mark} {ms others ofLimit : List Mark}

/-! ## Order -/

/-- Marks in order are those at a position or before, and then those behind it. -/
theorem exists_append_of_sorted (h : ms.Pairwise (·.start ≤ ·.start)) (p : Nat) :
    ∃ before after, ms = before ++ after ∧ (∀ n ∈ before, n.start ≤ p) ∧
      ∀ n ∈ after, p < n.start := by
  induction ms with
  | nil => exact ⟨[], [], rfl, by simp, by simp⟩
  | cons n ms ih =>
    obtain ⟨hn, hms⟩ := List.pairwise_cons.1 h
    by_cases hp : n.start ≤ p
    · obtain ⟨before, after, rfl, hbefore, hafter⟩ := ih hms
      exact ⟨n :: before, after, rfl, by simpa [hp] using hbefore, hafter⟩
    · refine ⟨[], n :: ms, rfl, by simp, fun k hk => ?_⟩
      rcases List.mem_cons.1 hk with rfl | hk
      · omega
      · have := hn k hk
        omega

/-- A mark that comes before those of the limit is put in its place among the others. -/
theorem Lawful.insert (h : Lawful text others ofLimit) (hm : m.isOfLimit = false)
    (hplaced : m.Placed text) (hlimit : ∀ n ∈ ofLimit, m.start < n.start) :
    ∃ others', m.insert (others ++ ofLimit) = others' ++ ofLimit ∧
      Lawful text others' ofLimit := by
  obtain ⟨before, after, rfl, hbefore, hafter⟩ := exists_append_of_sorted h.sorted m.start
  -- The bisection stops behind the last mark that is not behind `m`.
  refine ⟨before ++ m :: after, ?_, ?_, fun n hn => ?_, h.areOfLimit, fun n hn => ?_⟩
  · rw [List.append_assoc, insert_append hbefore, List.append_assoc, List.cons_append]
    intro n hn
    rcases List.mem_append.1 hn with hn | hn
    · exact hafter n hn
    · exact hlimit n hn
  · obtain ⟨hb, ha, hba⟩ := List.pairwise_append.1 h.sorted
    refine List.pairwise_append.2 ⟨hb, List.pairwise_cons.2 ⟨fun n hn => ?_, ha⟩, ?_⟩
    · exact Nat.le_of_lt (hafter n hn)
    · intro k hk n hn
      rcases List.mem_cons.1 hn with rfl | hn
      · exact hbefore k hk
      · exact hba k hk n hn
  · by_cases heq : n = m
    · exact heq ▸ hm
    · exact h.notOfLimit n (by simp_all)
  · by_cases heq : n = m
    · exact heq ▸ hplaced
    · exact h.placed n (by simp_all)

/-! ## Audits -/

/-- A mark that is placed is not misplaced. -/
theorem Placed.misplaced?_eq_none (h : m.Placed text) : m.misplaced? text = none := by
  obtain ⟨before, rest, rfl, hstart, hagrees⟩ := h
  unfold misplaced?
  rw [← hstart, Text.splitBytes?_append]
  cases m with
  | table => exact if_pos (List.isPrefixOf_iff_prefix.2 hagrees)
  | offset => exact if_pos hagrees
  | rowCount => exact if_pos hagrees
  | items | orderBy | insertValues => rfl

theorem isSorted_of_pairwise (h : ms.Pairwise (·.start ≤ ·.start)) : isSorted ms = true := by
  induction ms with
  | nil => rfl
  | cons m ms ih =>
    obtain ⟨hm, hms⟩ := List.pairwise_cons.1 h
    cases ms with
    | nil => rfl
    | cons n ms => simpa [isSorted, ih hms] using hm n (List.mem_cons_self ..)

theorem AreOfLimit.areOfLimit (h : AreOfLimit ms) : areOfLimit ms = true := by
  cases h <;> rfl

theorem AreOfLimit.isOfLimit (h : AreOfLimit ms) : ∀ m ∈ ms, m.isOfLimit = true := by
  cases h <;> simp [Mark.isOfLimit]

/-- An audit finds nothing wrong with lawful marks. -/
theorem Lawful.audit_eq_none (h : Lawful text others ofLimit) :
    audit text (others ++ ofLimit) = none := by
  have hlength : prefixLength (!·.isOfLimit) (others ++ ofLimit) = others.length :=
    prefixLength_append (fun m hm => by simp [h.notOfLimit m hm]) fun m hm => by
      simp [h.areOfLimit.isOfLimit m hm]
  simp only [audit, hlength, List.splitAt_eq, List.take_left, List.drop_left,
    isSorted_of_pairwise h.sorted, h.areOfLimit.areOfLimit, Bool.not_true, Bool.false_eq_true,
    if_false]
  exact List.findSome?_eq_none_iff.2 fun m hm => (h.placed m hm).misplaced?_eq_none

/-! ## Marks of tokens -/

/-- The mark of a token stands where the token does. -/
theorem Of.placed {t : Token} (h : Mark.Of t m) (ht : t.At text) : m.Placed text := by
  obtain ⟨before, rest, htext, hstart, hname, _⟩ := ht.spelled
  cases h with
  | table hkind => exact ⟨before, rest, htext, hstart, hname hkind⟩
  | insertValues => exact ⟨before, rest, htext, hstart, trivial⟩

theorem Of.isOfLimit {t : Token} (h : Mark.Of t m) : m.isOfLimit = false := by
  cases h <;> rfl

end Mark

open Mark (Lawful)

/-- Moves keep the law of marks: those they add are of tokens of the text. -/
theorem Run.lawful {κ : Type} {E : Scope κ} {text : List Char} {stream : List Token}
    {s s' : ParseState κ} (h : Run E stream s s') (hs : s.On stream)
    (hat : ∀ t ∈ stream, t.At text) (hlaw : Lawful text s.body.marks []) :
    Lawful text s'.body.marks [] := by
  refine h.rel (R := fun s s' => Lawful text s.body.marks [] → Lawful text s'.body.marks [])
    (fun _ h => h) (fun h₁ h₂ h => h₂ (h₁ h)) ?_ hs hlaw
  intro s s' _ hmove hlaw
  cases hmove with
  | mark ht hm =>
    obtain ⟨others, heq, hlaw⟩ :=
      hlaw.insert hm.isOfLimit (hm.placed (hat _ ht)) (by simp)
    simp only [List.append_nil] at heq
    exact heq ▸ hlaw
  | _ => exact hlaw

/-! ## Limits -/

namespace Grammar

variable {text : List Char} {stream : List Token}

/-- A number of a limit is marked where it is written out. -/
theorem LimitValueOf.placed {mark : Nat → Int → Mark} {value : LimitValue × Nat}
    (h : LimitValueOf stream value) (hat : ∀ t ∈ stream, t.At text)
    (hstart : ∀ p n, (mark p n).start = p)
    (hagrees : ∀ p n rest, (mark p n).Agrees rest ↔
      Number.integer? 10 (rest.takeWhile Char.isDigit) = some n) :
    ∀ m ∈ marksOfLimitValue mark value, m.Placed text ∧ ∃ t ∈ stream, m.start = t.start := by
  cases h with
  | parameter => simp [marksOfLimitValue]
  | @literal t n ht hkind hn =>
    obtain ⟨before, rest, htext, hpos, _, hdigits⟩ := (hat t ht).spelled
    intro m hm
    obtain rfl := List.mem_singleton.1 hm
    refine ⟨⟨before, rest, htext, by rw [hstart, hpos], ?_⟩, t, ht, hstart ..⟩
    rw [hagrees, hdigits hkind, hn]

/-- The marks of a limit have the right kinds. -/
theorem areOfLimit_marks (offset : Option (LimitValue × Nat)) (rowCount : LimitValue × Nat) :
    Mark.AreOfLimit ((offset.map (marksOfLimitValue .offset)).getD [] ++
      marksOfLimitValue .rowCount rowCount) := by
  obtain ⟨m | _, q⟩ := rowCount
  · rcases offset with _ | ⟨n | _, p⟩
    · exact .rowCount q m
    · exact .both p q n m
    · exact .rowCount q m
  · rcases offset with _ | ⟨n | _, p⟩
    · exact .none
    · exact .offset p n
    · exact .none

/-- The marks of a limit follow the others, and all of them stand behind the token at
    which the limit is due. -/
theorem limit_lawful {s s' : ParseState SelectClauses} {u : Unit} (h : limit s = .ok u s')
    (hs : s.On stream) (hat : ∀ t ∈ stream, t.At text)
    (hsorted : stream.Pairwise (·.start < ·.start)) (hlaw : Lawful text s.body.marks []) :
    ∃ others ofLimit, s'.body.marks = others ++ ofLimit ∧ Lawful text others ofLimit ∧
      ∀ m ∈ ofLimit, s.cursor.current.start < m.start := by
  rcases limit_eq_ok (E := Scope.marksOnly _) h hs with
    ⟨_, rfl⟩ | ⟨_, s₁, offset, rowCount, _, hrun, _, hoffset, hrowCount, rfl⟩
  · exact ⟨s.body.marks, [], by simp, hlaw, by simp⟩
  -- The numbers are among the tokens behind the keyword.
  have hahead : ∀ t ∈ s.cursor.ahead, t.At text ∧ s.cursor.current.start < t.start := by
    intro t ht
    have hpair := hsorted.sublist hs.tokens.sublist
    exact ⟨hat t (hs.tokens.subset (List.mem_cons_of_mem _ ht)),
      (List.pairwise_cons.1 hpair).1 t ht⟩
  have hmarks : ∀ m ∈ (offset.map (marksOfLimitValue .offset)).getD [] ++
      marksOfLimitValue .rowCount rowCount,
      m.Placed text ∧ ∃ t ∈ s.cursor.ahead, m.start = t.start := by
    intro m hm
    have hplaced := fun t ht => (hahead t ht).1
    rcases List.mem_append.1 hm with hm | hm
    · cases offset with
      | none => simp at hm
      | some value =>
        exact (hoffset value rfl).placed hplaced (fun _ _ => rfl) (fun _ _ _ => Iff.rfl) m hm
    · exact hrowCount.placed hplaced (fun _ _ => rfl) (fun _ _ _ => Iff.rfl) m hm
  have hlaw₁ := hrun.lawful hs hat hlaw
  refine ⟨s₁.body.marks, _, rfl, ⟨hlaw₁.sorted, hlaw₁.notOfLimit, areOfLimit_marks .., ?_⟩, ?_⟩
  · intro m hm
    rcases List.mem_append.1 hm with hm | hm
    · exact hlaw₁.placed m (by simpa using hm)
    · exact (hmarks m hm).1
  · intro m hm
    obtain ⟨_, t, ht, hstart⟩ := hmarks m hm
    exact hstart ▸ (hahead t ht).2

/-- A limit changes nothing of the clauses but itself. -/
theorem limit_clauses {s s' : ParseState SelectClauses} {u : Unit} (h : limit s = .ok u s')
    (hs : s.On stream) :
    { s'.body.clauses with limit := s.body.clauses.limit } = s.body.clauses := by
  rcases limit_eq_ok (E := Scope.marksOnly _) h hs with
    ⟨_, rfl⟩ | ⟨_, s₁, _, _, _, hrun, _, _, _, rfl⟩
  · rfl
  · rw [← hrun.clauses_eq hs fun _ _ _ h => h]

/-! ## Selects -/

/-- The position is a place in the text that the cursor has reached. -/
def Reached (text : List Char) (s : ParseState SelectClauses) (p : Nat) : Prop :=
  p ≤ s.cursor.current.start ∧ ∃ before rest, text = before ++ rest ∧ byteLength before = p

/-- Where the select list and `GROUP BY` stop is a place that the cursor has reached. -/
theorem reached_of_run {s s' : ParseState SelectClauses} (h : Run Scope.select stream s s')
    (hs : s.On stream) (hat : ∀ t ∈ stream, t.At text)
    (hsorted : stream.Pairwise (·.start < ·.start))
    (hreached : Reached text s s.body.clauses.selectListStop ∧
      Reached text s s.body.clauses.groupByStop) :
    Reached text s' s'.body.clauses.selectListStop ∧
      Reached text s' s'.body.clauses.groupByStop := by
  refine h.rel (R := fun s s' => Reached text s s.body.clauses.selectListStop ∧
      Reached text s s.body.clauses.groupByStop → Reached text s' s'.body.clauses.selectListStop ∧
      Reached text s' s'.body.clauses.groupByStop)
    (fun _ h => h) (fun h₁ h₂ h => h₂ (h₁ h)) ?_ hs hreached
  intro s s' hs hmove hreached
  -- What has been reached stays reached, as the cursor never moves back.
  have hle := (Run.of_move hmove).start_le hs hsorted
  cases hmove with
  | clauses hstep =>
    have hcurrent : Reached text s s.cursor.current.start := by
      obtain ⟨before, rest, htext, hstart, _⟩ := (hat _ hs.current_mem).spelled
      exact ⟨Nat.le_refl _, before, rest, htext, hstart⟩
    constructor
    · rcases hstep.selectListStop with heq | heq
      · exact heq ▸ hreached.1
      · exact heq ▸ hcurrent
    · rcases hstep.groupByStop with heq | heq
      · exact heq ▸ hreached.2
      · exact heq ▸ hcurrent
  | _ => exact ⟨⟨Nat.le_trans hreached.1.1 hle, hreached.1.2⟩,
      Nat.le_trans hreached.2.1 hle, hreached.2.2⟩

/-- A mark at a place that comes before the limit is put among the others. -/
theorem lawful_insert_reached {others ofLimit : List Mark} {s : ParseState SelectClauses}
    {m : Mark} (hlaw : Lawful text others ofLimit) (hm : m.isOfLimit = false)
    (hagrees : ∀ rest, m.Agrees rest) (hreached : Reached text s m.start)
    (hlimit : ∀ n ∈ ofLimit, s.cursor.current.start < n.start) :
    ∃ others', m.insert (others ++ ofLimit) = others' ++ ofLimit ∧
      Lawful text others' ofLimit := by
  obtain ⟨hle, before, rest, htext, hstart⟩ := hreached
  refine hlaw.insert hm ⟨before, rest, htext, hstart, hagrees rest⟩ fun n hn => ?_
  exact Nat.lt_of_le_of_lt hle (hlimit n hn)

/-- The marks of derived columns are put among those that come before the limit. -/
theorem derive_lawful {b : Body SelectClauses} {s : ParseState SelectClauses}
    {others ofLimit : List Mark} (hmarks : b.marks = others ++ ofLimit)
    (hlaw : Lawful text others ofLimit)
    (hlimit : ∀ n ∈ ofLimit, s.cursor.current.start < n.start)
    (hlist : Reached text s b.clauses.selectListStop)
    (hgroup : Reached text s b.clauses.groupByStop) :
    ∃ others', b.deriveColumns.deriveOrder.marks = others' ++ ofLimit ∧
      Lawful text others' ofLimit := by
  obtain ⟨others₁, hmarks₁, hlaw₁⟩ : ∃ others₁, b.deriveColumns.marks = others₁ ++ ofLimit ∧
      Lawful text others₁ ofLimit := by
    simp only [Body.deriveColumns]
    split
    · exact ⟨others, hmarks, hlaw⟩
    · rw [hmarks]
      exact lawful_insert_reached hlaw rfl (fun _ => trivial) hlist hlimit
  rw [Body.deriveOrder]
  split
  · exact ⟨others₁, hmarks₁, hlaw₁⟩
  · simp only [hmarks₁]
    exact lawful_insert_reached hlaw₁ rfl (fun _ => trivial) hgroup hlimit

theorem select_lawful {s s' : ParseState SelectClauses} {u : Unit} (h : select s = .ok u s')
    (hs : s.On stream) (hat : ∀ t ∈ stream, t.At text)
    (hsorted : stream.Pairwise (·.start < ·.start)) (hlaw : Lawful text s.body.marks [])
    (hreached : Reached text s s.body.clauses.selectListStop ∧
      Reached text s s.body.clauses.groupByStop) :
    ∃ others ofLimit, s'.body.marks = others ++ ofLimit ∧ Lawful text others ofLimit := by
  obtain ⟨r, rfl⟩ := select_eq_ok h
  have hordered := r.run.on hs
  obtain ⟨others, ofLimit, hmarks, hlaw, hlimit⟩ :=
    limit_lawful r.limit hordered hat hsorted (r.run.lawful hs hat hlaw)
  obtain ⟨hlist, hgroup⟩ := reached_of_run r.run hs hat hsorted hreached
  obtain ⟨n, hskip⟩ := Parser.skipRest_body r.skipRest
  have hstops := limit_clauses r.limit hordered
  have hmarks' : r.skipped.body.marks = others ++ ofLimit := by rw [hskip, hmarks]
  have hlist' : r.skipped.body.clauses.selectListStop = r.ordered.body.clauses.selectListStop := by
    rw [hskip, ← hstops]
  have hgroup' : r.skipped.body.clauses.groupByStop = r.ordered.body.clauses.groupByStop := by
    rw [hskip, ← hstops]
  obtain ⟨others', hderived, hlaw'⟩ :=
    derive_lawful hmarks' hlaw hlimit (hlist' ▸ hlist) (hgroup' ▸ hgroup)
  exact ⟨others', ofLimit, hderived, hlaw'⟩

end Grammar

/-- Moves from the start of a text make lawful marks, and skipping the rest adds none. -/
theorem Run.lawful_of_skipRest {κ : Type} [Inhabited κ] {E : Scope κ} {text : List Char}
    {c : Cursor} {s s₁ : ParseState κ} (hc : c.Closed) (hat : ∀ t ∈ c.tokens, t.At text)
    (h : Run E c.tokens (ParseState.start c) s₁) {u : Unit}
    (hskip : Parser.skipRest s₁ = .ok u s) :
    ∃ others ofLimit, s.body.marks = others ++ ofLimit ∧ Lawful text others ofLimit := by
  have hempty : Lawful text [] [] := ⟨.nil, by simp, .none, by simp⟩
  exact ⟨_, [], (List.append_nil _).symm,
    (h.trans (Parser.skipRest_moves hskip)).lawful (.start hc) hat hempty⟩

/-- *The law of marks.* The marks of an accepted statement are lawful: those other than
    of a limit come first, in order, those of the limit last, the offset first, and all
    of them agree with the text. So an audit finds nothing wrong with them. -/
theorem parse_marks {database : Database} {d : Dialect} {text : String} {s : Statement}
    (h : Statement.parse database d text = .ok s) :
    Mark.audit text.toList s.routing.marks = none ∧
      ∃ others ofLimit, s.routing.marks = others ++ ofLimit ∧
        Lawful text.toList others ofLimit := by
  suffices hlaw : ∃ others ofLimit, s.routing.marks = others ++ ofLimit ∧
      Lawful text.toList others ofLimit by
    obtain ⟨others, ofLimit, hmarks, hlaw⟩ := hlaw
    exact ⟨hmarks ▸ hlaw.audit_eq_none, others, ofLimit, hmarks, hlaw⟩
  obtain ⟨c, hc, hread⟩ := Statement.parse_eq_ok h
  obtain ⟨htokens, hclosed, _⟩ := Cursor.ofText_eq_ok hc
  obtain ⟨hat, hsorted⟩ := TokenStream.ofText_sorted d text.toList
  rw [← htokens] at hat hsorted
  have hempty : Lawful text.toList [] [] := ⟨.nil, by simp, .none, by simp⟩
  cases hread with
  | select _ hread =>
    -- As long as no clause has been read, its stop is the start of the text.
    have hstart : Grammar.Reached text.toList (ParseState.start c) 0 :=
      ⟨Nat.zero_le _, [], text.toList, rfl, rfl⟩
    exact Grammar.select_lawful hread (.start hclosed) hat hsorted hempty ⟨hstart, hstart⟩
  | insert _ hread =>
    obtain ⟨s₁, hrun, hskip⟩ := Grammar.insert_run hread
    exact hrun.lawful_of_skipRest hclosed hat hskip
  | update _ hread =>
    obtain ⟨s₁, hrun, hskip⟩ := Grammar.update_run hread
    exact hrun.lawful_of_skipRest hclosed hat hskip
  | delete _ hread =>
    obtain ⟨s₁, hrun, hskip⟩ := Grammar.delete_run hread
    exact hrun.lawful_of_skipRest hclosed hat hskip

/-- The columns derived from an average are marked before the table, and the offset before the
    row count. -/
theorem parse_marks_average :
    ∃ s, Statement.parse .mySql .mySql "SELECT AVG(a) FROM t LIMIT 5 OFFSET 2" = .ok s ∧
      s.routing.marks =
        [.items 14 ["COUNT(a) AS AVG_DERIVED_COUNT_0", "SUM(a) AS AVG_DERIVED_SUM_0"],
          .table 19 "t", .offset 36 2, .rowCount 27 5] ∧
      Mark.audit "SELECT AVG(a) FROM t LIMIT 5 OFFSET 2".toList s.routing.marks = none := by
  obtain ⟨s, hparse, hmarks⟩ := Statement.exists_of_map (f := fun s => s.routing.marks)
    (by decide +kernel : (Statement.parse .mySql .mySql
      "SELECT AVG(a) FROM t LIMIT 5 OFFSET 2").map (fun s => s.routing.marks) = .ok
        [.items 14 ["COUNT(a) AS AVG_DERIVED_COUNT_0", "SUM(a) AS AVG_DERIVED_SUM_0"],
          .table 19 "t", .offset 36 2, .rowCount 27 5])
  exact ⟨s, hparse, hmarks, (parse_marks hparse).1⟩

end SqlRouting
