import SqlRouting.Proofs.Facing

/-!
# Groups in parentheses

A group is skipped from the parenthesis that opens it to the first one that balances it, by a
counter of the groups that are open inside. What counts are tokens: parentheses and question marks
in strings, comments and quoted names are none. As long as no token closes the group itself
(`StaysOpen`), the counter is the difference of the parentheses that open and close
(`skipToClosing_staysOpen`). So skipping succeeds exactly if some token balances the first
parenthesis, and ends at the first one that does (`group_skipped`).
-/

namespace SqlRouting

open Text (byteLength)

/-! ## Counting parentheses -/

/-- How often the symbol is among the tokens. -/
def Symbol.countIn (x : Symbol) (ts : List Token) : Nat :=
  ts.countP (·.kind = .symbol x)

@[simp] theorem Symbol.countIn_nil (x : Symbol) : x.countIn [] = 0 := rfl

@[simp] theorem Symbol.countIn_cons (x : Symbol) (t : Token) (ts : List Token) :
    x.countIn (t :: ts) = x.countIn ts + if t.kind = .symbol x then 1 else 0 := by
  simp [countIn, List.countP_cons]

/-- The right parenthesis `close` balances a left one which the tokens `inner` part it from: from
    the one to the other as many parentheses open a group as close one. -/
structure Balances (inner : List Token) (close : Token) : Prop where
  closes : close.kind = .symbol .rightParen
  countIn_eq : Symbol.leftParen.countIn inner = Symbol.rightParen.countIn inner

instance (inner : List Token) (close : Token) : Decidable (Balances inner close) :=
  decidable_of_iff (close.kind = .symbol .rightParen ∧
      Symbol.leftParen.countIn inner = Symbol.rightParen.countIn inner)
    ⟨fun ⟨h, h'⟩ => ⟨h, h'⟩, fun h => ⟨h.closes, h.countIn_eq⟩⟩

/-- None of the tokens balances a left parenthesis before them. -/
def Unbalanced (ts : List Token) : Prop :=
  ∀ before t after, ts = before ++ t :: after → ¬Balances before t

theorem unbalanced_iff {ts : List Token} :
    Unbalanced ts ↔ ∀ i, (h : i < ts.length) → ¬Balances (ts.take i) ts[i] := by
  constructor
  · intro h i hi
    exact h _ _ (ts.drop (i + 1)) (by simp)
  · rintro h before t after rfl
    simpa using h before.length (by simp)

instance : DecidablePred Unbalanced :=
  fun _ => decidable_of_iff _ unbalanced_iff.symm

/-- With `depth` groups open before them, the tokens do not close a further one. -/
def StaysOpen (depth : Nat) (ts : List Token) : Prop :=
  ∀ before t after, ts = before ++ t :: after → t.kind = .symbol .rightParen →
    depth + Symbol.leftParen.countIn before ≠ Symbol.rightParen.countIn before

/-- If none of the tokens balances the parenthesis before them, its group stays open. -/
theorem Unbalanced.staysOpen {ts : List Token} (h : Unbalanced ts) : StaysOpen 0 ts := by
  intro before t after hts hclose heq
  exact h before t after hts ⟨hclose, by omega⟩

/-- A token that is no parenthesis leaves open what is open. -/
theorem Token.depthBehind_of_ne {t : Token} (hleft : t.kind ≠ .symbol .leftParen)
    (hright : t.kind ≠ .symbol .rightParen) (depth : Nat) : t.depthBehind depth = depth := by
  rw [depthBehind]
  split
  · contradiction
  · contradiction
  · rfl

/-- Behind a token one group more is open if it opens one, and one less if it closes one. -/
theorem Token.depthBehind_add {depth : Nat} {t : Token}
    (h : t.kind = .symbol .rightParen → 0 < depth) :
    t.depthBehind depth + (if t.kind = .symbol .rightParen then 1 else 0) =
      depth + if t.kind = .symbol .leftParen then 1 else 0 := by
  by_cases hleft : t.kind = .symbol .leftParen
  · simp [depthBehind, hleft]
  by_cases hright : t.kind = .symbol .rightParen
  · simpa [depthBehind, hright] using Nat.sub_add_cancel (h hright)
  · rw [depthBehind_of_ne hleft hright]
    simp [hleft, hright]

namespace StaysOpen

variable {depth : Nat} {t : Token} {ts : List Token}

theorem depth_pos (h : StaysOpen depth (t :: ts)) (ht : t.kind = .symbol .rightParen) :
    0 < depth := by
  have hne := h [] t ts rfl ht
  simp only [Symbol.countIn_nil, Nat.add_zero] at hne
  omega

theorem tail (h : StaysOpen depth (t :: ts)) : StaysOpen (t.depthBehind depth) ts := by
  intro before u after hts hu
  have hne := h (t :: before) u after (by rw [hts, List.cons_append]) hu
  have hdepth := Token.depthBehind_add h.depth_pos
  rw [Symbol.countIn_cons, Symbol.countIn_cons] at hne
  omega

/-- The groups that are open behind the tokens are those before them and those that they open, but
    for those that they close. -/
theorem foldl_depthBehind (h : StaysOpen depth ts) :
    ts.foldl Token.depthBehind depth + Symbol.rightParen.countIn ts =
      depth + Symbol.leftParen.countIn ts := by
  induction ts generalizing depth with
  | nil => rfl
  | cons t ts ih =>
    have hrest := ih h.tail
    have hdepth := Token.depthBehind_add h.depth_pos
    rw [List.foldl_cons, Symbol.countIn_cons, Symbol.countIn_cons]
    omega

end StaysOpen

/-- If any token balances the parenthesis before them, there is a first one that does. -/
theorem Balances.exists_first {inner : List Token} {close : Token} (h : Balances inner close)
    (behind : List Token) : ∃ inner' close' behind',
      inner ++ close :: behind = inner' ++ close' :: behind' ∧ Balances inner' close' ∧
      Unbalanced inner' := by
  induction hn : inner.length using Nat.strongRecOn generalizing inner close behind with
  | _ n ih =>
    by_cases hfirst : Unbalanced inner
    · exact ⟨inner, close, behind, rfl, h, hfirst⟩
    · unfold Unbalanced at hfirst
      push Not at hfirst
      obtain ⟨before, t, after, rfl, ht⟩ := hfirst
      rw [List.append_assoc, List.cons_append]
      refine ih before.length ?_ ht _ rfl
      rw [← hn, List.length_append, List.length_cons]
      omega

/-! ## Tokens up to the end of the text -/

namespace Cursor

variable {text : List Char} {c : Cursor} {ts us : List Token}

/-- Only the last of the tokens ahead may be the end of the text. -/
theorem Closed.kind_ne_endOfText (hc : c.Closed) (hahead : c.ahead = ts ++ us) (hne : us ≠ []) :
    ∀ t ∈ ts, t.kind ≠ .endOfText := by
  intro t ht hkind
  obtain ⟨before, after, rfl⟩ := List.append_of_mem ht
  have hsuffix : t :: (after ++ us) <:+ c.tokens :=
    ⟨c.current :: before, by simp [tokens, hahead]⟩
  have hnil := ((hc _ _ hsuffix).1 hkind).1
  exact hne (List.append_eq_nil_iff.1 hnil).2

/-- Where all tokens ahead can be read, the last one is the end of the text. -/
theorem Stands.exists_ahead (hc : c.Stands text) (hkind : c.current.kind ≠ .endOfText)
    (hfailure : c.failure = none) :
    ∃ ts, c.ahead = ts ++ [Token.final (byteLength text)] := by
  rcases List.eq_nil_or_concat' c.ahead with hnil | ⟨ts, last, hahead⟩
  · exact absurd ((hc.closed _ _ List.suffix_rfl).2 ⟨hnil, hfailure⟩) hkind
  · have hsuffix : [last] <:+ c.tokens := ⟨c.current :: ts, by simp [tokens, hahead]⟩
    have hend := (hc.closed _ _ hsuffix).2 ⟨rfl, hfailure⟩
    rw [hahead, (hc.tokens_at last (hsuffix.subset (List.mem_singleton_self _))).eq_final hend]
    exact ⟨ts, rfl⟩

end Cursor

/-! ## Skipping groups -/

namespace Parser

variable {κ : Type} {s : ParseState κ} {n m depth : Nat} {ts us : List Token}

/-- Tokens that do not close the group are passed, and its placeholders are counted. -/
theorem skipToClosing_staysOpen (hne : us ≠ []) (hend : ∀ t ∈ ts, t.kind ≠ .endOfText)
    (hopen : StaysOpen depth ts) :
    skipToClosing (m + ts.length) depth (s.facing n (ts ++ us)) =
      skipToClosing m (ts.foldl Token.depthBehind depth) (s.facing (n + questions ts) us) := by
  induction ts generalizing depth n with
  | nil => rfl
  | cons t ts ih =>
    have hrest (n : Nat) := ih (n := n) (fun u hu => hend u (List.mem_cons_of_mem _ hu)) hopen.tail
    rw [List.length_cons, ← Nat.add_assoc, List.cons_append, List.foldl_cons, questions_cons,
      ← Nat.add_assoc, ← hrest]
    by_cases hleft : t.kind = .symbol .leftParen
    · rw [skipToClosing_facing_left (by simp [hne]) hleft]
      simp [Token.depthBehind, hleft]
    by_cases hright : t.kind = .symbol .rightParen
    · obtain ⟨depth, rfl⟩ := Nat.exists_eq_add_one.2 (hopen.depth_pos hright)
      rw [skipToClosing_facing_right (by simp [hne]) hright]
      simp [Token.depthBehind, hright]
    · rw [skipToClosing_facing_cons (by simp [hne])
        (by simpa [hleft, hright] using hend t (List.mem_cons_self ..))]
      rw [Token.depthBehind_of_ne hleft hright]

/-- A group is refused where the search for the parenthesis that closes it fails. -/
theorem skipParentheses_of_error {l : Token} {e : ParseError} {s' : ParseState κ} (hne : ts ≠ [])
    (hl : l.kind = .symbol .leftParen)
    (hskip : skipToClosing (ts.length + 1) 0 (s.facing n ts) = .error e s') :
    skipParentheses (s.facing n (l :: ts)) = .error e s' := by
  have hopen : (s.facing n (l :: ts)).cursor.isSymbol .leftParen = true := by simp [hl]
  rw [skipParentheses, cursor_bind, if_pos hopen, bind_of_eq_ok (advance_facing hne),
    ParseState.movesLeft_facing, bind_of_eq_error hskip]

/-- The end of the text closes no group. -/
theorem skipToClosing_facing_end :
    skipToClosing (m + 1) depth (s.facing n []) =
      .error (.unexpectedToken .endOfText "" (byteLength s.cursor.text)) (s.facing n []) := by
  simp only [skipToClosing, current_bind, ParseState.kind_facing, headKind_nil]
  rw [unexpected, cursor_bind, Cursor.unexpected]
  simp [ParseState.facing, Cursor.facing]
  rfl

section

variable {text : List Char} (hs : s.cursor.Stands text)
  (hopen : s.cursor.current.kind = .symbol .leftParen)

include hs hopen

/-- A group is skipped to the first parenthesis that balances the one that opens it. -/
theorem skipParentheses_first {inner behind : List Token} {close : Token}
    (hahead : s.cursor.ahead = inner ++ close :: behind) (hbehind : behind ≠ [])
    (hclose : Balances inner close) (hfirst : Unbalanced inner) :
    ∃ written, Text.slice? text s.cursor.current.start close.stop = some written ∧
      skipParentheses s = .ok (String.ofList written) (s.facing (questions inner) behind) := by
  have hstays := hfirst.staysOpen
  have hend := hs.closed.kind_ne_endOfText hahead (List.cons_ne_nil _ _)
  have hdepth : inner.foldl Token.depthBehind 0 = 0 := by
    have hcount := hstays.foldl_depthBehind
    have heq := hclose.countIn_eq
    omega
  have hmoves : (inner ++ close :: behind).length + 1 = behind.length + 2 + inner.length := by
    simp
    omega
  have hskip : skipToClosing ((inner ++ close :: behind).length + 1) 0
      (s.facing 0 (inner ++ close :: behind)) =
      .ok () (s.facing (questions inner) (close :: behind)) := by
    rw [hmoves, skipToClosing_staysOpen (List.cons_ne_nil _ _) hend hstays, hdepth,
      skipToClosing_facing_closed hclose.closes, Nat.zero_add]
  have htokens : s.cursor.tokens = s.cursor.current :: (inner ++ close :: behind) :=
    congrArg _ hahead
  have hrun := skipParentheses_of_skipToClosing hs (htokens ▸ List.suffix_rfl) hbehind hopen hskip
  rwa [ParseState.facing_self htokens] at hrun

/-- A group that no parenthesis balances is refused at the end of the text. -/
theorem skipParentheses_unbalanced (hfailure : s.cursor.failure = none)
    (hnone : Unbalanced s.cursor.ahead) :
    skipParentheses s = .error (.unexpectedToken .endOfText "" (byteLength text))
      (s.facing (questions s.cursor.ahead) []) := by
  obtain ⟨ts, hahead⟩ := hs.exists_ahead (by simp [hopen]) hfailure
  have hend := hs.closed.kind_ne_endOfText hahead (List.cons_ne_nil _ _)
  have hstays : StaysOpen 0 ts := Unbalanced.staysOpen fun before t after hts =>
    hnone before t (after ++ [Token.final (byteLength text)]) (by simp [hahead, hts])
  have htokens : s.cursor.tokens =
      s.cursor.current :: (ts ++ [Token.final (byteLength text)]) :=
    congrArg _ hahead
  have hfinal : s.facing (questions ts) [Token.final (byteLength text)] =
      s.facing (questions ts) [] := by
    rw [← hs.text_eq]
    rfl
  have hskip : skipToClosing ((ts ++ [Token.final (byteLength text)]).length + 1) 0
      (s.facing 0 (ts ++ [Token.final (byteLength text)])) =
      .error (.unexpectedToken .endOfText "" (byteLength text)) (s.facing (questions ts) []) := by
    have hmoves : (ts ++ [Token.final (byteLength text)]).length + 1 = 2 + ts.length := by
      simp
      omega
    rw [hmoves, skipToClosing_staysOpen (List.cons_ne_nil _ _) hend hstays, Nat.zero_add, hfinal,
      skipToClosing_facing_end, hs.text_eq]
  have hrun := skipParentheses_of_error (by simp) hopen hskip
  rw [ParseState.facing_self htokens] at hrun
  rw [hrun, hahead, questions_append, questions_cons]
  rfl

end

end Parser

/-- *A group is skipped exactly if it is closed.* Wherever a left parenthesis stands behind which
    all tokens can be read, skipping its group succeeds exactly if one of them balances it. Then the
    text from it to the first one that does is given, the question marks between the two are counted
    and nothing else is changed, and the cursor is on the token behind. Otherwise the end of the text
    is refused. -/
theorem group_skipped {κ : Type} {text : List Char} {s : ParseState κ}
    (hs : s.cursor.Stands text) (hopen : s.cursor.current.kind = .symbol .leftParen)
    (hfailure : s.cursor.failure = none) :
    ((∃ written s', Parser.skipParentheses s = .ok written s') ↔
      ∃ inner close behind, s.cursor.ahead = inner ++ close :: behind ∧ Balances inner close) ∧
    (∀ inner close behind, s.cursor.ahead = inner ++ close :: behind → Balances inner close →
      Unbalanced inner →
      ∃ before written after next more, text = before ++ written ++ after ∧
        byteLength before = s.cursor.current.start ∧
        byteLength (before ++ written) = close.stop ∧ behind = next :: more ∧
        Parser.skipParentheses s = .ok (String.ofList written)
          { s with
            cursor := { s.cursor with current := next, ahead := more }
            body := { s.body with parameters := s.body.parameters + questions inner } }) ∧
    (Unbalanced s.cursor.ahead →
      Parser.skipParentheses s = .error (.unexpectedToken .endOfText "" (byteLength text))
        (s.facing (questions s.cursor.ahead) [])) := by
  have hfound {inner behind : List Token} {close : Token}
      (hahead : s.cursor.ahead = inner ++ close :: behind) (hclose : Balances inner close)
      (hfirst : Unbalanced inner) :
      ∃ next more written, behind = next :: more ∧
        Text.slice? text s.cursor.current.start close.stop = some written ∧
        Parser.skipParentheses s = .ok (String.ofList written)
          (s.facing (questions inner) (next :: more)) := by
    obtain ⟨ts, hts⟩ := hs.exists_ahead (by simp [hopen]) hfailure
    -- A parenthesis is not the end of the text, so something is behind it.
    have hbehind : behind ≠ [] := by
      rintro rfl
      obtain ⟨_, hlast⟩ := List.append_inj' (hts.symm.trans hahead) rfl
      have hkind := hclose.closes
      rw [← List.singleton_inj.1 hlast] at hkind
      cases hkind
    obtain ⟨next, more, rfl⟩ := List.exists_cons_of_ne_nil hbehind
    obtain ⟨written, hwritten, hrun⟩ :=
      Parser.skipParentheses_first hs hopen hahead (List.cons_ne_nil _ _) hclose hfirst
    exact ⟨next, more, written, rfl, hwritten, hrun⟩
  have hunbalanced := Parser.skipParentheses_unbalanced hs hopen hfailure
  refine ⟨⟨?_, ?_⟩, ?_, hunbalanced⟩
  · rintro ⟨written, s', hrun⟩
    by_contra hnone
    push Not at hnone
    rw [hunbalanced hnone] at hrun
    cases hrun
  · rintro ⟨inner, close, behind, hahead, hclose⟩
    obtain ⟨inner, close, behind, heq, hclose, hfirst⟩ := hclose.exists_first behind
    obtain ⟨_, _, _, _, _, hrun⟩ := hfound (hahead.trans heq) hclose hfirst
    exact ⟨_, _, hrun⟩
  · intro inner close behind hahead hclose hfirst
    obtain ⟨next, more, written, hbehind, hwritten, hrun⟩ := hfound hahead hclose hfirst
    obtain ⟨before, after, htext, hstart, hstop⟩ := Text.slice?_eq_some_iff.1 hwritten
    exact ⟨before, written, after, next, more, htext, hstart,
      (Text.byteLength_append ..).trans hstop, hbehind, hrun⟩

/-- A group with another one in it, where a parenthesis in a string balances none, and a group that
    is not closed. -/
theorem group_skipped_nested :
    (∃ c s', Cursor.ofText .mySql .mySql "(')', (?)) x" = .ok c ∧
      c.current.kind = .symbol .leftParen ∧ c.failure = none ∧
      Parser.skipParentheses (ParseState.start (κ := DeleteClauses) c) = .ok "(')', (?))" s' ∧
      s'.body.parameters = 1 ∧
      s'.cursor.tokens = [⟨.literal .identifier, "x", 12⟩, Token.final 12]) ∧
    ∃ c s', Cursor.ofText .mySql .mySql "(a, (?)" = .ok c ∧
      c.current.kind = .symbol .leftParen ∧ c.failure = none ∧
      Parser.skipParentheses (ParseState.start (κ := DeleteClauses) c) =
        .error (.unexpectedToken .endOfText "" 7) s' := by
  constructor
  · have hc : Cursor.ofText .mySql .mySql "(')', (?)) x" = .ok
        ⟨"(')', (?)) x".toList, ⟨.symbol .leftParen, "(", 1⟩,
          [⟨.literal .chars, ")", 4⟩, ⟨.symbol .comma, ",", 5⟩, ⟨.symbol .leftParen, "(", 7⟩,
            ⟨.symbol .question, "?", 8⟩, ⟨.symbol .rightParen, ")", 9⟩,
            ⟨.symbol .rightParen, ")", 10⟩, ⟨.literal .identifier, "x", 12⟩, Token.final 12],
          none, .mySql, .mySql⟩ := by
      decide +kernel
    obtain ⟨before, written, after, next, more, htext, hstart, hstop, hbehind, hrun⟩ :=
      (group_skipped (s := ParseState.start (κ := DeleteClauses) _)
        (Cursor.stands_of_ofText hc) rfl rfl).2.1
        [⟨.literal .chars, ")", 4⟩, ⟨.symbol .comma, ",", 5⟩, ⟨.symbol .leftParen, "(", 7⟩,
          ⟨.symbol .question, "?", 8⟩, ⟨.symbol .rightParen, ")", 9⟩]
        ⟨.symbol .rightParen, ")", 10⟩ [⟨.literal .identifier, "x", 12⟩, Token.final 12]
        rfl (by decide) (by decide)
    have hslice : Text.slice? "(')', (?)) x".toList 0 10 = some "(')', (?))".toList := by
      decide +kernel
    have hwritten := Text.slice?_eq_some_iff.2 ⟨before, after, htext, hstart,
      (Text.byteLength_append ..).symm.trans hstop⟩
    obtain rfl := Option.some.inj (hslice.symm.trans hwritten)
    obtain ⟨rfl, rfl⟩ := List.cons.inj hbehind
    exact ⟨_, _, hc, rfl, rfl, hrun, rfl, rfl⟩
  · have hc : Cursor.ofText .mySql .mySql "(a, (?)" = .ok
        ⟨"(a, (?)".toList, ⟨.symbol .leftParen, "(", 1⟩,
          [⟨.literal .identifier, "a", 2⟩, ⟨.symbol .comma, ",", 3⟩, ⟨.symbol .leftParen, "(", 5⟩,
            ⟨.symbol .question, "?", 6⟩, ⟨.symbol .rightParen, ")", 7⟩, Token.final 7],
          none, .mySql, .mySql⟩ := by
      decide +kernel
    exact ⟨_, _, hc, rfl, rfl, (group_skipped (s := ParseState.start (κ := DeleteClauses) _)
      (Cursor.stands_of_ofText hc) rfl rfl).2.2 (by decide)⟩

end SqlRouting
