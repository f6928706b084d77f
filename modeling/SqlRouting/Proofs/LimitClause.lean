import SqlRouting.Proofs.Facing
import SqlRouting.Proofs.KeptText

/-!
# Limits as a whole

A limit is read as a whole or not at all. It is one number, or two with a comma or `OFFSET` between
them (`LimitForm`); which of two is the offset depends on what is between them, but placeholders are
numbered in the order of the text. If the tokens behind `LIMIT` are of no form, a token is refused
where a number is due, or the text breaks off (`LimitFails`); then only the placeholders that have
been read are counted (`limit_all_or_nothing`).
-/

namespace SqlRouting

/-! ## The tokens of a limit -/

/-- The number of a limit that the token is, `index` placeholders having come before: a placeholder,
    or digits that stand for a number with a sign and 63 bits. -/
def Token.limitValue? (index : Nat) (t : Token) : Option LimitValue :=
  match t.kind with
  | .literal .int =>
    (Decimal.value? 10 t.literal.toList).bind fun n =>
      if n < 2 ^ 63 then some (.literal n) else none
  | .symbol .question => some (.parameter index)
  | _ => none

/-- The token may be a number of a limit. -/
def Token.isLimitNumber (t : Token) : Bool :=
  (t.limitValue? 0).isSome

/-- The token stands between the two numbers of a limit. -/
def Token.separatesLimit (t : Token) : Bool :=
  t.kind = .symbol .comma || t.kind = .keyword .OFFSET

/-- The tokens of a limit, `index` placeholders having come before, and the token behind them: the
    offset, if there is one, and the row count, each with its position. -/
inductive LimitForm (index : Nat) :
    List Token → Token → Option (LimitValue × Nat) → LimitValue × Nat → Prop
  | rows {t next : Token} {v : LimitValue} (ht : t.limitValue? index = some v)
    (hnext : next.separatesLimit = false) : LimitForm index [t] next none (v, t.start)
  | comma {t sep u next : Token} {v w : LimitValue} (ht : t.limitValue? index = some v)
    (hsep : sep.kind = .symbol .comma) (hu : u.limitValue? (index + questions [t]) = some w) :
    LimitForm index [t, sep, u] next (some (v, t.start)) (w, u.start)
  | offset {t sep u next : Token} {v w : LimitValue} (ht : t.limitValue? index = some v)
    (hsep : sep.kind = .keyword .OFFSET) (hu : u.limitValue? (index + questions [t]) = some w) :
    LimitForm index [t, sep, u] next (some (w, u.start)) (v, t.start)

/-- Behind these tokens a number of the limit is due. -/
inductive LimitDue : List Token → Prop
  | first : LimitDue []
  | second {t sep : Token} (ht : t.isLimitNumber = true) (hsep : sep.separatesLimit = true) :
    LimitDue [t, sep]

/-- What there is of a limit where the text breaks off: a number is due, or has just been read. -/
inductive LimitPart : List Token → Prop
  | due {read : List Token} (h : LimitDue read) : LimitPart read
  | number {read : List Token} {t : Token} (h : LimitDue read) (ht : t.isLimitNumber = true) :
    LimitPart (read ++ [t])

/-- How the limit at a cursor fails: the error, the tokens that have been read, and those from the
    cursor on. -/
inductive LimitFails (c : Cursor) : ParseError → List Token → List Token → Prop
  | unexpected {read more : List Token} {t : Token} (hread : LimitDue read)
    (ht : t.isLimitNumber = false) (hahead : c.ahead = read ++ t :: more) :
    LimitFails c (.unexpectedToken t.kind t.literal t.start) read (t :: more)
  | lexical {last : Token} {e : LexicalError} (hread : LimitPart c.ahead)
    (hlast : c.tokens.getLast? = some last) (hfailure : c.failure = some e) :
    LimitFails c (.lexical e) c.ahead [last]

/-- The state with a limit recorded, and the numbers of it that are written out marked. -/
def ParseState.limited (s : ParseState SelectClauses) (offset : Option (LimitValue × Nat))
    (rowCount : LimitValue × Nat) : ParseState SelectClauses :=
  { s with body := { s.body with
      marks := s.body.marks ++ ((offset.map (Grammar.marksOfLimitValue .offset)).getD [] ++
        Grammar.marksOfLimitValue .rowCount rowCount)
      clauses := { s.body.clauses with
        limit := some ⟨s.cursor.database, offset.map Prod.fst, some rowCount.1⟩ } } }

namespace Token

variable {t : Token} {index : Nat} {v : LimitValue}

/-- Which tokens are numbers does not depend on the placeholders before them. -/
theorem isSome_limitValue? (t : Token) (index : Nat) :
    (t.limitValue? index).isSome = t.isLimitNumber := by
  unfold isLimitNumber limitValue?
  split <;> rfl

theorem exists_limitValue? (h : t.isLimitNumber = true) (index : Nat) :
    ∃ v, t.limitValue? index = some v := by
  rwa [← Option.isSome_iff_exists, isSome_limitValue?]

theorem kind_ne_of_isLimitNumber (h : t.isLimitNumber = true) : t.kind ≠ .endOfText := by
  intro hk
  simp [isLimitNumber, limitValue?, hk] at h

theorem kind_ne_of_separatesLimit (h : t.separatesLimit = true) : t.kind ≠ .endOfText := by
  intro hk
  simp [separatesLimit, hk] at h

/-- The digits of a number are those that a limit takes. -/
theorem map_integer? (t : Token) : (Number.integer? 10 t.literal.toList).map LimitValue.literal =
    (Decimal.value? 10 t.literal.toList).bind fun n =>
      if n < 2 ^ 63 then some (.literal n) else none := by
  rw [Number.integer?]
  cases Decimal.value? 10 t.literal.toList with
  | none => rfl
  | some n =>
    have hle : n ≤ Number.maxInteger ↔ n < 2 ^ 63 := by
      unfold Number.maxInteger
      omega
    simp only [Option.bind_some, hle]
    split <;> rfl

end Token

/-! ## Reading the tokens -/

namespace Grammar

open SqlRouting.Parser

section

variable {κ α : Type} {s : ParseState κ} {n : Nat} {t sep : Token} {ts : List Token}
  {v : LimitValue} {e : LexicalError}

/-- A number of a limit is counted if it is a placeholder, and passed. -/
theorem limitValue_number (ht : t.limitValue? (s.body.parameters + n) = some v) :
    limitValue (s.facing n (t :: ts)) =
      (advance >>= fun _ => pure (v, t.start)) (s.facing (n + questions [t]) (t :: ts)) := by
  rw [limitValue, current_bind, ParseState.current_facing]
  unfold Token.limitValue? at ht
  split at ht
  case h_1 hkind =>
    rw [← Token.map_integer?] at ht
    obtain ⟨k, hk, rfl⟩ := Option.map_eq_some_iff.1 ht
    simp [hkind, hk]
  case h_2 hkind =>
    cases ht
    have htake : takePlaceholder (s.facing n (t :: ts)) =
        .ok (s.body.parameters + n) (s.facing (n + 1) (t :: ts)) :=
      takePlaceholder_eq_ok.2 ⟨rfl, rfl⟩
    simp only [hkind, bind_of_eq_ok htake, pure_bind]
    simp [hkind]
  case h_3 => cases ht

theorem limitValue_facing (ht : t.limitValue? (s.body.parameters + n) = some v) (hts : ts ≠ []) :
    limitValue (s.facing n (t :: ts)) = .ok (v, t.start) (s.facing (n + questions [t]) ts) := by
  rw [limitValue_number ht, bind_of_eq_ok (advance_facing hts)]
  rfl

theorem limitValue_facing_last (ht : t.isLimitNumber = true)
    (hfailure : s.cursor.failure = some e) :
    limitValue (s.facing n [t]) = .error (.lexical e) (s.facing (n + questions [t]) [t]) := by
  obtain ⟨v, hv⟩ := Token.exists_limitValue? ht (s.body.parameters + n)
  rw [limitValue_number hv, bind_of_eq_error (advance_facing_last hfailure)]

/-- Any other token is refused. -/
theorem limitValue_facing_unexpected (ht : t.isLimitNumber = false) :
    limitValue (s.facing n (t :: ts)) =
      .error (.unexpectedToken t.kind t.literal t.start) (s.facing n (t :: ts)) := by
  have hnone : t.limitValue? 0 = none := by simpa [Token.isLimitNumber] using ht
  have hrefuse (f : LimitValue → Parser κ (LimitValue × Nat)) :
      (unexpected >>= f) (s.facing n (t :: ts)) =
        .error (.unexpectedToken t.kind t.literal t.start) (s.facing n (t :: ts)) :=
    bind_of_eq_error rfl
  rw [limitValue, current_bind, ParseState.current_facing]
  unfold Token.limitValue? at hnone
  generalize t.kind = kind at hnone hrefuse
  have hquestion : kind ≠ .symbol .question := by
    rintro rfl
    cases hnone
  have hdigits : kind = .literal .int → Number.integer? 10 t.literal.toList = none := by
    rintro rfl
    rwa [← Option.map_eq_none_iff, Token.map_integer?]
  clear hnone
  split
  case h_1 => simp only [hdigits rfl, hrefuse]
  case h_2 => exact absurd rfl hquestion
  case h_3 => exact hrefuse _

/-- What separates two numbers is no placeholder. -/
theorem questions_separated (hsep : sep.separatesLimit = true) :
    questions [t, sep] = questions [t] := by
  rcases Bool.or_eq_true_iff.1 hsep with hkind | hkind <;> simp [of_decide_eq_true hkind]

/-- What separates two numbers decides how it goes on, and is passed. -/
theorem separator_facing (hsep : sep.separatesLimit = true) (p q r : Parser κ α) :
    (do if ← skipSymbol .comma then p else if ← skipKeyword [.OFFSET] then q else r)
        (s.facing n (sep :: ts)) =
      (advance >>= fun _ => if sep.kind = .symbol .comma then p else q)
        (s.facing n (sep :: ts)) := by
  by_cases hcomma : sep.kind = .symbol .comma
  · have hskip : skipSymbol .comma (s.facing n (sep :: ts)) =
        (advance >>= fun _ => pure true) (s.facing n (sep :: ts)) :=
      skipIf_of_isAny (by simp [hcomma])
    rw [bind_congr_left hskip]
    simp [hcomma]
  · have hoffset : sep.kind = .keyword .OFFSET := by
      simpa [Token.separatesLimit, hcomma] using hsep
    have hskip : skipKeyword [.OFFSET] (s.facing n (sep :: ts)) =
        (advance >>= fun _ => pure true) (s.facing n (sep :: ts)) := by
      rw [skipKeyword_eq_skipIf]
      exact skipIf_of_isAny (by simp [hoffset])
    rw [bind_of_eq_ok (skipSymbol_facing_none (by simpa using hcomma)), if_neg (by simp),
      bind_congr_left hskip]
    simp [hcomma]

/-- Behind a number and what separates it from a second one, that is read, and both get their
    roles. -/
theorem limitRange_separated (ht : t.limitValue? s.body.parameters = some v)
    (hsep : sep.separatesLimit = true) :
    limitRange (s.facing 0 (t :: sep :: ts)) =
      (advance >>= fun _ => limitValue >>= fun w => pure (if sep.kind = .symbol .comma
        then (some (v, t.start), w) else (some w, (v, t.start))))
        (s.facing (questions [t, sep]) (sep :: ts)) := by
  rw [limitRange, bind_of_eq_ok (limitValue_facing (n := 0) ht (by simp)), separator_facing hsep,
    questions_separated hsep, Nat.zero_add]
  split <;> rfl

/-- Two numbers are read in the order of the text. -/
theorem limitRange_two {u next : Token} {more : List Token} {w : LimitValue}
    (ht : t.limitValue? s.body.parameters = some v) (hsep : sep.separatesLimit = true)
    (hu : u.limitValue? (s.body.parameters + questions [t]) = some w) :
    limitRange (s.facing 0 ([t, sep, u] ++ next :: more)) =
      .ok (if sep.kind = .symbol .comma then (some (v, t.start), (w, u.start))
        else (some (w, u.start), (v, t.start)))
        (s.facing (questions [t, sep, u]) (next :: more)) := by
  have hquestions : questions [t, sep, u] = questions [t] + questions [u] := by
    rw [← questions_separated hsep, ← questions_append]
    rfl
  rw [List.cons_append, List.cons_append, List.singleton_append, limitRange_separated ht hsep,
    bind_of_eq_ok (advance_facing (by simp)), questions_separated hsep,
    bind_of_eq_ok (limitValue_facing hu (by simp)), hquestions]
  rfl

/-- The offset and the row count are read from the tokens of a limit. -/
theorem limitRange_of_form {next : Token} {read more : List Token}
    {offset : Option (LimitValue × Nat)} {rowCount : LimitValue × Nat}
    (h : LimitForm s.body.parameters read next offset rowCount) :
    limitRange (s.facing 0 (read ++ next :: more)) =
      .ok (offset, rowCount) (s.facing (questions read) (next :: more)) := by
  cases h with
  | @rows t _ v ht hnext =>
    obtain ⟨hcomma, hoffset⟩ : next.kind ≠ .symbol .comma ∧ next.kind ≠ .keyword .OFFSET := by
      simpa [Token.separatesLimit] using hnext
    rw [limitRange, List.singleton_append, bind_of_eq_ok (limitValue_facing (n := 0) ht (by simp)),
      bind_of_eq_ok (skipSymbol_facing_none (by simpa using hcomma)), if_neg (by simp),
      skipKeyword_eq_skipIf, bind_of_eq_ok (skipIf_facing_none (by simpa using hoffset)),
      if_neg (by simp), Nat.zero_add]
    rfl
  | comma ht hsep hu =>
    rw [limitRange_two ht (by simp [Token.separatesLimit, hsep]) hu, if_pos hsep]
  | offset ht hsep hu =>
    rw [limitRange_two ht (by simp [Token.separatesLimit, hsep]) hu, if_neg (by simp [hsep])]

/-- Where a number is due it is what is read next. -/
theorem limitRange_due {read : List Token} (hread : LimitDue read) (hts : ts ≠ []) :
    ∃ f : LimitValue × Nat → Parser κ _,
      limitRange (s.facing 0 (read ++ ts)) = (limitValue >>= f) (s.facing (questions read) ts) := by
  cases hread with
  | first => exact ⟨_, rfl⟩
  | @second t sep ht hsep =>
    obtain ⟨v, hv⟩ := Token.exists_limitValue? ht s.body.parameters
    exact ⟨_, (limitRange_separated hv hsep).trans (bind_of_eq_ok (advance_facing hts))⟩

/-- Where the tokens behind `LIMIT` are of no form, reading them fails. -/
theorem limitRange_of_fails {e : ParseError} {read seen : List Token}
    (h : LimitFails s.cursor e read seen) (hahead : s.cursor.ahead ≠ []) :
    limitRange (s.facing 0 s.cursor.ahead) = .error e (s.facing (questions read) seen) := by
  cases h with
  | @unexpected _ more t hread ht htokens =>
    obtain ⟨f, hf⟩ := limitRange_due (s := s) hread (List.cons_ne_nil t more)
    rw [htokens, hf, bind_of_eq_error (limitValue_facing_unexpected ht)]
  | @lexical last e hread hlast hfailure =>
    rw [Cursor.tokens, List.getLast?_cons, Option.some.injEq] at hlast
    generalize s.cursor.ahead = ahead at hread hlast hahead
    cases hread with
    | @number read t hdue ht =>
      obtain rfl : t = last := by simpa using hlast
      obtain ⟨f, hf⟩ := limitRange_due (s := s) hdue (List.cons_ne_nil t [])
      rw [hf, bind_of_eq_error (limitValue_facing_last ht hfailure), questions_append]
    | due hdue =>
      cases hdue with
      | first => exact absurd rfl hahead
      | @second t sep ht hsep =>
        obtain rfl : sep = last := by simpa using hlast
        obtain ⟨v, hv⟩ := Token.exists_limitValue? ht s.body.parameters
        rw [limitRange_separated hv hsep, bind_of_eq_error (advance_facing_last hfailure)]

end

variable {s : ParseState SelectClauses} {e : ParseError} {read seen more : List Token}
  {next : Token} {offset : Option (LimitValue × Nat)} {rowCount : LimitValue × Nat}

/-- Nothing fails once the numbers have been read. -/
theorem limit_of_range_ok {s₁ s₂ : ParseState SelectClauses}
    (hskip : skipKeyword [.LIMIT] s = .ok true s₁)
    (hrange : limitRange s₁ = .ok (offset, rowCount) s₂) :
    limit s = .ok () (s₂.limited offset rowCount) := by
  rw [limit, bind_of_eq_ok hskip, if_pos rfl, bind_of_eq_ok hrange]
  cases offset with
  | none | some =>
    simp [ParseState.limited, bind_eq_ok, cursor_bind, markLimitValue_eq_ok, modifyClauses_eq_ok]

/-- The keyword of a limit is passed if there is a token behind it. -/
theorem skipLimit (hlimit : s.cursor.current.kind = .keyword .LIMIT) :
    (s.cursor.ahead ≠ [] → skipKeyword [.LIMIT] s = .ok true (s.facing 0 s.cursor.ahead)) ∧
      ∀ e, s.cursor.ahead = [] → s.cursor.failure = some e →
        skipKeyword [.LIMIT] s = .error (.lexical e) s := by
  have hself : s.facing 0 (s.cursor.current :: s.cursor.ahead) = s := ParseState.facing_self rfl
  rw [skipKeyword_eq_skipIf, skipIf_of_isAny (by simp [Cursor.isAny, hlimit])]
  refine ⟨fun hahead => ?_, fun e hahead hfailure => ?_⟩
  · rw [← hself, bind_of_eq_ok (advance_facing hahead)]
    rfl
  · rw [← hself, hahead, bind_of_eq_error (advance_facing_last hfailure)]

/-- A limit whose tokens are of a form is recorded. -/
theorem limit_of_form (hlimit : s.cursor.current.kind = .keyword .LIMIT)
    (hahead : s.cursor.ahead = read ++ next :: more)
    (h : LimitForm s.body.parameters read next offset rowCount) :
    limit s = .ok () ((s.facing (questions read) (next :: more)).limited offset rowCount) :=
  limit_of_range_ok ((skipLimit hlimit).1 (by simp [hahead]))
    (hahead ▸ limitRange_of_form h)

/-- A limit whose tokens are of no form fails. -/
theorem limit_of_fails (hlimit : s.cursor.current.kind = .keyword .LIMIT)
    (h : LimitFails s.cursor e read seen) :
    limit s = .error e (s.facing (questions read) seen) := by
  by_cases hahead : s.cursor.ahead = []
  · cases h with
    | unexpected _ _ htokens => simp [hahead] at htokens
    | @lexical last e hread hlast hfailure =>
      obtain rfl : s.cursor.current = last := by simpa [Cursor.tokens, hahead] using hlast
      have hself : s.facing 0 [s.cursor.current] = s :=
        ParseState.facing_self (by rw [Cursor.tokens, hahead])
      rw [limit, bind_of_eq_error ((skipLimit hlimit).2 _ hahead hfailure), hahead, questions_nil,
        hself]
  · rw [limit, bind_of_eq_ok ((skipLimit hlimit).1 hahead), if_pos rfl,
      bind_of_eq_error (limitRange_of_fails h hahead)]

end Grammar

/-! ## Forms and failures -/

theorem LimitDue.kind_ne {read : List Token} (h : LimitDue read) :
    ∀ t ∈ read, t.kind ≠ .endOfText := by
  cases h with
  | first => simp
  | second ht hsep =>
    simp [Token.kind_ne_of_isLimitNumber ht, Token.kind_ne_of_separatesLimit hsep]

theorem LimitPart.kind_ne {read : List Token} (h : LimitPart read) :
    ∀ t ∈ read, t.kind ≠ .endOfText := by
  cases h with
  | due h => exact h.kind_ne
  | number h ht =>
    intro u hu
    rcases List.mem_append.1 hu with hu | hu
    · exact h.kind_ne u hu
    · exact List.mem_singleton.1 hu ▸ Token.kind_ne_of_isLimitNumber ht

section

variable {c : Cursor} (hc : c.Closed) (hkind : c.current.kind ≠ .endOfText)
include hc hkind

/-- The text does not end within a limit: it breaks off. -/
theorem LimitPart.fails (h : LimitPart c.ahead) : ∃ e read seen, LimitFails c e read seen := by
  have hne : c.tokens ≠ [] := List.cons_ne_nil _ _
  have hlast : c.tokens.getLast? = some (c.tokens.getLast hne) := List.getLast?_eq_some_getLast hne
  have hend : (c.tokens.getLast hne).kind ≠ .endOfText := by
    rcases List.mem_cons.1 (List.getLast_mem hne) with heq | hmem
    · exact heq ▸ hkind
    · exact h.kind_ne _ hmem
  obtain ⟨e, hfailure⟩ := hc.exists_failure hlast hend
  exact ⟨_, _, _, .lexical h hlast hfailure⟩

/-- Where a number is due there is one, with a token behind it, or the limit fails. -/
theorem LimitDue.number_or_fails {read ts : List Token} (h : LimitDue read)
    (hahead : c.ahead = read ++ ts) :
    (∃ t u more, ts = t :: u :: more ∧ t.isLimitNumber = true) ∨
      ∃ e read seen, LimitFails c e read seen := by
  cases ts with
  | nil => exact .inr (LimitPart.fails hc hkind (by simpa [hahead] using .due h))
  | cons t ts =>
    cases ht : t.isLimitNumber with
    | false => exact .inr ⟨_, _, _, .unexpected h ht hahead⟩
    | true =>
      cases ts with
      | nil => exact .inr (LimitPart.fails hc hkind (hahead ▸ .number h ht))
      | cons u more => exact .inl ⟨t, u, more, rfl, ht⟩

/-- The tokens ahead are those of a limit, or the limit fails. -/
theorem LimitForm.exists_or_fails (index : Nat) :
    (∃ read next more offset rowCount, c.ahead = read ++ next :: more ∧
      LimitForm index read next offset rowCount) ∨ ∃ e read seen, LimitFails c e read seen := by
  rcases LimitDue.first.number_or_fails hc hkind rfl with ⟨t, sep, ts, hahead, ht⟩ | hfails
  case inr => exact .inr hfails
  obtain ⟨v, hv⟩ := Token.exists_limitValue? ht index
  cases hsep : sep.separatesLimit with
  | false => exact .inl ⟨[t], sep, ts, _, _, hahead, .rows hv hsep⟩
  | true =>
    rcases (LimitDue.second ht hsep).number_or_fails hc hkind hahead with
      ⟨u, next, more, rfl, hu⟩ | hfails
    case inr => exact .inr hfails
    obtain ⟨w, hw⟩ := Token.exists_limitValue? hu (index + questions [t])
    refine .inl ⟨[t, sep, u], next, more, ?_⟩
    rcases Bool.or_eq_true_iff.1 hsep with hkind | hkind
    · exact ⟨_, _, hahead, .comma hv (of_decide_eq_true hkind) hw⟩
    · exact ⟨_, _, hahead, .offset hv (of_decide_eq_true hkind) hw⟩

end

/-- *A limit is read as a whole or not at all.* It succeeds exactly if the tokens behind `LIMIT`
    are one or two numbers, with a token behind them: then the cursor is on that token, the
    placeholders among the numbers are counted, and the limit and its marks are recorded, the marks
    behind all others. It fails exactly if a token is refused where a number is due or the text
    breaks off; then nothing changes but the place of the cursor and the number of placeholders. -/
theorem limit_all_or_nothing {s : ParseState SelectClauses} (hs : s.cursor.Closed)
    (hlimit : s.cursor.current.kind = .keyword .LIMIT) :
    (∀ s', Grammar.limit s = .ok () s' ↔ ∃ read next more offset rowCount,
      s.cursor.ahead = read ++ next :: more ∧
        LimitForm s.body.parameters read next offset rowCount ∧
        s' = (s.facing (questions read) (next :: more)).limited offset rowCount) ∧
    ∀ e s', Grammar.limit s = .error e s' ↔ ∃ read seen,
      LimitFails s.cursor e read seen ∧ s' = s.facing (questions read) seen := by
  have hcases := LimitForm.exists_or_fails hs (by simp [hlimit]) s.body.parameters
  refine ⟨fun s' => ⟨fun h => ?_, ?_⟩, fun e s' => ⟨fun h => ?_, ?_⟩⟩
  · rcases hcases with ⟨read, next, more, offset, rowCount, hahead, hform⟩ | ⟨e, read, seen, hfails⟩
    · rw [Grammar.limit_of_form hlimit hahead hform] at h
      cases h
      exact ⟨read, next, more, offset, rowCount, hahead, hform, rfl⟩
    · rw [Grammar.limit_of_fails hlimit hfails] at h
      cases h
  · rintro ⟨read, next, more, offset, rowCount, hahead, hform, rfl⟩
    exact Grammar.limit_of_form hlimit hahead hform
  · rcases hcases with ⟨read, next, more, offset, rowCount, hahead, hform⟩ | ⟨e, read, seen, hfails⟩
    · rw [Grammar.limit_of_form hlimit hahead hform] at h
      cases h
    · rw [Grammar.limit_of_fails hlimit hfails] at h
      cases h
      exact ⟨read, seen, hfails, rfl⟩
  · rintro ⟨read, seen, hfails, rfl⟩
    exact Grammar.limit_of_fails hlimit hfails

/-- A limit whose offset is a placeholder, and one that is refused behind a placeholder. -/
theorem limit_all_or_nothing_placeholders :
    (∃ c, Cursor.ofText .mySql .mySql "LIMIT 5 OFFSET ?" = .ok c ∧
      c.current.kind = .keyword .LIMIT ∧ c.Closed ∧
      Grammar.limit (ParseState.start c) = .ok () (((ParseState.start c).facing 1
        [Token.final 16]).limited (some (.parameter 0, 15)) (.literal 5, 6))) ∧
    ∃ c, Cursor.ofText .mySql .mySql "LIMIT ?, 'x'" = .ok c ∧
      c.current.kind = .keyword .LIMIT ∧ c.Closed ∧
      Grammar.limit (ParseState.start c) = .error (.unexpectedToken (.literal .chars) "x" 9)
        ((ParseState.start c).facing 1 [⟨.literal .chars, "x", 12⟩, Token.final 12]) := by
  have htokens (text : String) (ts : List Token)
      (h : (Parser.runOn? (κ := SelectClauses) Parser.cursor .mySql .mySql text).map
        (fun r => r.1.tokens) = some ts) :
      ∃ c, Cursor.ofText .mySql .mySql text = .ok c ∧ c.Closed ∧ c.tokens = ts := by
    obtain ⟨c, _, _, hc, _, hts⟩ := Parser.exists_of_runOn? h
    exact ⟨c, hc, (Cursor.ofText_eq_ok hc).2.1, hts⟩
  constructor
  · obtain ⟨c, hc, hclosed, hts⟩ := htokens "LIMIT 5 OFFSET ?"
      [⟨.keyword .LIMIT, "LIMIT", 5⟩, ⟨.literal .int, "5", 7⟩,
        ⟨.keyword .OFFSET, "OFFSET", 14⟩, ⟨.symbol .question, "?", 16⟩, Token.final 16]
      (by decide +kernel)
    obtain ⟨hcurrent, hahead⟩ := List.cons.inj hts
    have hkind : c.current.kind = .keyword .LIMIT := by rw [hcurrent]
    have hform : LimitForm 0 [⟨.literal .int, "5", 7⟩, ⟨.keyword .OFFSET, "OFFSET", 14⟩,
        ⟨.symbol .question, "?", 16⟩] (Token.final 16) (some (.parameter 0, 15)) (.literal 5, 6) :=
      .offset (by decide) rfl (by decide)
    refine ⟨c, hc, hkind, hclosed, ((limit_all_or_nothing hclosed hkind).1 _).2
      ⟨_, _, [], _, _, ?_, hform, rfl⟩⟩
    exact hahead
  · obtain ⟨c, hc, hclosed, hts⟩ := htokens "LIMIT ?, 'x'"
      [⟨.keyword .LIMIT, "LIMIT", 5⟩, ⟨.symbol .question, "?", 7⟩,
        ⟨.symbol .comma, ",", 8⟩, ⟨.literal .chars, "x", 12⟩, Token.final 12]
      (by decide +kernel)
    obtain ⟨hcurrent, hahead⟩ := List.cons.inj hts
    have hkind : c.current.kind = .keyword .LIMIT := by rw [hcurrent]
    have hfails : LimitFails c (.unexpectedToken (.literal .chars) "x" 9)
        [⟨.symbol .question, "?", 7⟩, ⟨.symbol .comma, ",", 8⟩]
        [⟨.literal .chars, "x", 12⟩, Token.final 12] :=
      .unexpected (.second (by decide) (by decide)) (by decide) hahead
    exact ⟨c, hc, hkind, hclosed, ((limit_all_or_nothing hclosed hkind).2 _ _).2
      ⟨_, _, hfails, rfl⟩⟩

end SqlRouting
