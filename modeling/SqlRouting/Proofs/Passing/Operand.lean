import SqlRouting.Proofs.Passing

/-!
# Owners in operands and comparisons

The owner of a column is marked if its table is known where the column is read and the column is an
operand by itself. If it is joined to more, the whole is kept as text, and its owner is not marked
(`Place.Settled`). In an operand a `SELECT` may stand anywhere, and its parentheses are skipped; so
the clauses account for their tokens as far as their operands are admitted (`Watch.Admits`).
-/

namespace SqlRouting

/-! ## Owners -/

namespace Place

variable {stream : List Token}

/-- The table `name` is mentioned at the place: its name is marked there, and does not own
    anything. -/
structure Mentions (p : Place stream) (r : Routing) (name : String) : Prop where
  marked : p.token.mark ∈ r.marks
  named : Text.sameLetters (Text.unquoted p.token.literal) name = true
  alone : ∀ t, p.after.head? = some t → t.kind ≠ .symbol .dot

/-- The owner `t` before the dot is marked, or the dot is part of a larger expression, or the table
    `t` is not mentioned before the dot. -/
def Settled (p : Place stream) (r : Routing) (t : Token) : Prop :=
  t.mark ∈ r.marks ∨ p.IsJoined ∨
    ∀ q : Place stream, q.Mentions r (Text.unquoted t.literal) → p.before.length < q.before.length

/-- If the tokens are in order, those before a place have smaller positions. -/
theorem start_lt {p q : Place stream} (hsorted : stream.Pairwise (·.start < ·.start))
    (h : q.before.length < p.before.length) : q.token.start < p.token.start := by
  have heq : (q.before ++ q.token :: q.after)[q.before.length]? =
      (p.before ++ p.token :: p.after)[q.before.length]? :=
    congrArg (·[q.before.length]?) (q.stream_eq.symm.trans p.stream_eq)
  rw [List.getElem?_append_left h, List.getElem?_append_right (Nat.le_refl _), Nat.sub_self,
    List.getElem?_cons_zero] at heq
  rw [p.stream_eq, List.pairwise_append] at hsorted
  exact hsorted.2.2 _ (List.mem_of_getElem? heq.symm) _ (List.mem_cons_self ..)

/-- If the tokens are in order, a place is determined by the position of its token. -/
theorem length_eq_of_start_eq {p q : Place stream}
    (hsorted : stream.Pairwise (·.start < ·.start)) (h : p.token.start = q.token.start) :
    p.before.length = q.before.length := by
  rcases Nat.lt_trichotomy p.before.length q.before.length with hlt | heq | hlt
  · exact absurd h (Nat.ne_of_lt (start_lt hsorted hlt))
  · exact heq
  · exact absurd h.symm (Nat.ne_of_lt (start_lt hsorted hlt))

theorem exists_of_mem_after {p : Place stream} {m : Token} (h : m ∈ p.after) :
    ∃ q : Place stream, q.token = m ∧ p.before.length < q.before.length := by
  obtain ⟨before, after, hafter⟩ := List.append_of_mem h
  refine ⟨⟨p.before ++ p.token :: before, m, after, p.stream_eq.trans ?_⟩, rfl, by simp⟩
  rw [hafter, List.append_assoc]
  rfl

/-- An owner is directly followed by its dot. -/
theorem OwnedBy.exists_place {p : Place stream} {t : Token} (h : p.OwnedBy t) :
    ∃ q : Place stream, q.token = t ∧ q.after.head? = some p.token := by
  obtain ⟨before, hbefore⟩ := List.getLast?_eq_some_iff.1 h.last
  refine ⟨⟨before, t, p.token :: p.after, p.stream_eq.trans ?_⟩, rfl, rfl⟩
  rw [hbefore, List.append_assoc]
  rfl

/-- Marks behind the dot, or of owners, change nothing. -/
theorem Settled.grow {p : Place stream} {r r' : Routing} {named : List Token} {t : Token}
    (hsorted : stream.Pairwise (·.start < ·.start)) (hgrowth : Growth named r r')
    (hnamed : ∀ m ∈ named, m ∈ p.after ∨ ∃ o : Place stream, o.OwnedBy m)
    (h : p.Settled r t) : p.Settled r' t := by
  refine h.imp (fun h => (hgrowth.mem_marks rfl).2 (.inr h)) (Or.imp_right fun h q hq => ?_)
  rcases (hgrowth.mem_marks rfl).1 hq.marked with hmark | hmark
  · obtain ⟨m, hm, heq⟩ := List.mem_map.1 hmark
    have hstart : m.start = q.token.start := congrArg Mark.start heq
    rcases hnamed m hm with hm | ⟨o, ho⟩
    · obtain ⟨q', rfl, hlt⟩ := exists_of_mem_after hm
      rwa [← length_eq_of_start_eq hsorted hstart]
    · -- What is marked as an owner is no mention.
      obtain ⟨q', rfl, hdot⟩ := ho.exists_place
      have hsame := ext_length (length_eq_of_start_eq hsorted hstart)
      exact absurd ho.dot (hq.alone _ (by rw [← hsame.2.2, hdot]))
  · exact h q ⟨hmark, hq.named, hq.alone⟩

/-- If a table is not known, it has not been mentioned. -/
theorem Settled.of_not_contains {p : Place stream} {r : Routing} {t : Token} (hr : r.Agrees)
    (h : r.tables.contains (Text.unquoted t.literal) = false) : p.Settled r t := by
  refine .inr (.inr fun q hq => ?_)
  obtain ⟨u, hu, hnamed⟩ := List.any_eq_true.1 (hr _ _ hq.marked)
  have hcontains : r.tables.contains (Text.unquoted t.literal) = true := by
    refine List.any_eq_true.2 ⟨u, hu, ?_⟩
    rw [Table.isNamed, Text.sameLetters_congr hnamed]
    exact hq.named
  exact absurd hcontains (by simp [h])

end Place

/-- The watch is one of the clauses of a statement. -/
structure Watch.OfClauses {κ : Type} {stream : List Token} (W : Watch κ stream) : Prop where
  loud : ¬W.silent
  settled : ∀ s p t, W.settled s p t ↔ p.Settled s.body.toRouting t

theorem Watch.OfClauses.within {κ : Type} {stream : List Token} {W : Watch κ stream}
    (hW : W.OfClauses) (base : List Token) : (W.within base).OfClauses :=
  ⟨hW.loud, hW.settled⟩

/-- Whatever the operand under the cursor passes may be passed, and its parentheses are skipped. -/
def Watch.Admits {κ : Type} {stream : List Token} (W : Watch κ stream) (s : ParseState κ) : Prop :=
  ∀ ⦃e s'⦄, Grammar.operand s = .ok e s' → ∀ p : Place stream, p.IsPassed s s' →
    W.lenient p ∧ (p.IsInside s.cursor.tokens → W.grouped p)

/-- The operands are admitted that are due from the state on. -/
def Watch.AdmitsDue {κ : Type} {stream : List Token} (W : Watch κ stream)
    (due : OperandPlace → ParseState κ → ParseState κ → Prop) (s : ParseState κ) : Prop :=
  ∀ ⦃place s'⦄, due place s s' → W.Admits s'

section

variable {κ : Type} {stream : List Token} {W : Watch κ stream} {s s₁ s' : ParseState κ}

/-- If the token under the cursor is a dot behind a name, there is more before the name. -/
def BehindJoined (stream : List Token) (s : ParseState κ) : Prop :=
  ∀ p : Place stream, p.At s → ∀ t, p.OwnedBy t → p.IsJoined

theorem BehindJoined.of_kind (h : s.cursor.current.kind ≠ .symbol .dot) :
    BehindJoined stream s := by
  intro p hp t ht
  exact absurd ((congrArg Token.kind (List.cons.inj hp).1).symm.trans ht.dot) h

/-- Behind a joint and one token more a further dot is joined. -/
theorem Behind.joined (h : Behind stream jointKinds s) (hs : s.On stream)
    (hnext : s.cursor.next = .ok s'.cursor) : BehindJoined stream s' := by
  intro p hp t ht
  by_cases hend : s.cursor.current.kind = .endOfText
  · -- At the end of the text the cursor is on no dot.
    rcases Cursor.next_eq_ok hs.closed hnext with ⟨_, hcursor⟩ | ⟨hne, _⟩
    · refine BehindJoined.of_kind (s := s') ?_ p hp t ht
      rw [hcursor, hend]
      simp
    · exact absurd hend hne
  · obtain ⟨q, hq, hbefore⟩ := hp.pred hs hnext hend
    obtain ⟨u, hlast, hu⟩ := h q hq
    obtain ⟨before, hqbefore⟩ := List.getLast?_eq_some_iff.1 hlast
    exact .inl ⟨before, u, s.cursor.current, by simp [hbefore, hqbefore], hu⟩

theorem jointKinds_subset (d : Dialect) : jointKinds ⊆ d.callingKinds :=
  callingKinds_symbol d (.dot :: .tilde :: Symbol.operators) (by decide)

end

namespace Grammar

open SqlRouting.Parser

variable {κ : Type} {stream : List Token} {W : Watch κ stream}
  {s s₁ s₂ s' : ParseState κ} {P : ParseState κ → Prop}

/-! ## Operands -/

theorem joint_kind {c : Cursor} (h : (c.isOperator || c.isSymbol .dot) = true) :
    c.current.kind ∈ jointKinds := by
  obtain ⟨x, hx, hkind⟩ := isJoint_symbol h
  rw [hkind]
  refine List.mem_map_of_mem ?_
  rcases List.mem_cons.1 hx with rfl | hx
  · exact List.mem_cons_self ..
  · exact List.mem_cons_of_mem _ (List.mem_cons_of_mem _ hx)

/-- Behind a joint every round of joining goes on behind a token. -/
theorem skipJoint_shrinks (hs : s.cursor.Closed) (h : skipJoint s = .ok true s') :
    s'.cursor.Closed ∧ s'.cursor.ahead.length < s.cursor.ahead.length := by
  simp only [skipJoint, isJoint_bind, cursor_bind, ite_eq_ok, bind_eq_ok, refuseEnd_eq_ok,
    pure_eq_ok] at h
  rcases h with ⟨hjoint, _, s₁, hadvance, _, s₂, hsigns, _, _, ⟨_, rfl⟩, _, s₃, hcount, h⟩ |
    ⟨_, hfalse, _⟩
  · obtain ⟨x, _, hkind⟩ := isJoint_symbol hjoint
    have hsigns : Run (Scope.all κ) s₁.cursor.tokens s₁ s₂ :=
      loop_moves (skipIf_moves (by decide)) hsigns
    refine shrinks_of_advance hadvance hs (by simp [hkind]) (hsigns.trans ?_)
    rcases h with ⟨_, _, s₄, hadvance', _, s₅, hparens, _, rfl⟩ | ⟨hopen, _, s₄, hparens, _, rfl⟩
    · exact (countPlaceholder_run hcount hadvance').trans (skipParentheses_moves hparens)
    · obtain rfl := countPlaceholder_leftParen hcount (by simpa using hopen)
      exact skipParentheses_moves hparens
  · cases hfalse

/-- What has been joined goes on with no dot. -/
theorem skipJoined_done {u : Unit} (h : skipJoined s = .ok u s') (hs : s.cursor.Closed) :
    s'.cursor.current.kind ≠ .symbol .dot := by
  obtain ⟨s₁, _, h⟩ := loop_done skipJoint_shrinks hs h
  simp only [skipJoint, isJoint_bind, cursor_bind, ite_eq_ok, bind_eq_ok, pure_eq_ok,
    Bool.true_eq_false, false_and, and_false, exists_false, or_self, false_or] at h
  obtain ⟨hjoint, _, rfl⟩ := h
  intro hdot
  simp [Cursor.isSymbol, hdot] at hjoint

theorem skipParentheses_joined (hW : W.Skips) :
    Accounts W (BehindJoined stream) skipParentheses fun _ => BehindJoined stream :=
  (skipParentheses_accounts hW).imp (fun _ h => h) fun _ _ h =>
    h.elim id fun h p hp t ht => absurd ht (h p hp t)

/-- Every round of joining keeps a further dot joined. -/
theorem skipJoint_accounts (hW : W.Open) (hjoined : ∀ s p t, p.IsJoined → W.settled s p t) :
    Accounts W (BehindJoined stream) skipJoint fun _ => BehindJoined stream := by
  intro s hbehind found s' h hs
  simp only [skipJoint, isJoint_bind, cursor_bind, ite_eq_ok, bind_eq_ok, refuseEnd_eq_ok,
    pure_eq_ok] at h
  rcases h with ⟨hjoint, _, s₁, hadvance, _, s₂, hsigns, _, _, ⟨_, rfl⟩, _, s₃, hcount, h⟩ |
    ⟨_, _, rfl⟩
  · obtain ⟨x, _, hkind⟩ := isJoint_symbol hjoint
    obtain ⟨hnext, hgrowth⟩ := growth_of_advance hadvance
    -- If the joint is a dot, then it is joined to what stands before it.
    have hpasses : Passes W [] s s₁ := by
      refine .next hs.on hnext hgrowth fun p hp _ => .inr ⟨fun _ => hW.lenient p, fun t ht => ?_⟩
      exact hjoined _ _ _ (hbehind p hp t ht)
    have hbehind₁ : Behind stream jointKinds s₁ :=
      .of_next hs.on hnext (joint_kind hjoint) (by decide)
    -- Behind signs, too, a token stands behind a joint.
    have hloop : Accounts W (Behind stream jointKinds)
        (loop (skipIf [Symbol.minus, Symbol.plus, Symbol.tilde])) fun _ =>
          Behind stream jointKinds :=
      loop_accounts ((skipIf_accounts (.of_not_mem (by decide))).imp (fun _ h => h)
        fun found s h => by
          cases found with
          | false => exact h
          | true => exact Behind.mono h (by decide))
    obtain ⟨⟨named, hnamed, hpasses'⟩, hbehind₂⟩ := hloop hbehind₁ hsigns (hpasses.stays hs)
    have hpasses₂ := hpasses.trans hpasses'
    have hnamed₂ : W.silent → [] ++ named = [] := hnamed
    -- What is joined is a token, perhaps with a group behind it, or a group.
    rcases h with ⟨_, _, s₄, hadvance', _, s₅, hskip, _, rfl⟩ | ⟨hopen, _, s₄, hskip, _, rfl⟩
    · obtain ⟨hnext', hgrowth'⟩ := growth_of_countPlaceholder hcount hadvance'
      have hpasses₄ := hpasses₂.trans (.next_of_passable hpasses₂.on
        (hW.passable (hbehind₂.unowned (jointKinds_subset W.dialect))) hnext' hgrowth')
      obtain ⟨⟨named', hnamed', hpasses₅⟩, hbehind₅⟩ := skipParentheses_joined hW.skips
        (hbehind₂.joined hpasses₂.on hnext') hskip (hpasses₄.stays hs)
      exact ⟨⟨_, fun hq => by simp [hnamed hq, hnamed' hq], hpasses₄.trans hpasses₅⟩, hbehind₅⟩
    · obtain rfl := countPlaceholder_leftParen hcount (by simpa using hopen)
      have hopen : s₂.cursor.current.kind = .symbol .leftParen := by
        simpa [Cursor.isSymbol] using hopen
      obtain ⟨⟨named', hnamed', hpasses₅⟩, hbehind₅⟩ := skipParentheses_joined hW.skips
        (.of_kind (by simp [hopen])) hskip (hpasses₂.stays hs)
      exact ⟨⟨_, fun hq => by simp [hnamed hq, hnamed' hq], hpasses₂.trans hpasses₅⟩, hbehind₅⟩
  · exact ⟨⟨[], fun _ => rfl, .refl hs.on⟩, hbehind⟩

theorem skipJoined_accounts (hW : W.Open) (hjoined : ∀ s p t, p.IsJoined → W.settled s p t) :
    Accounts W (BehindJoined stream) skipJoined fun _ s =>
      s.cursor.current.kind ≠ .symbol .dot := by
  intro s hbehind u s' h hs
  exact ⟨(loop_accounts (skipJoint_accounts hW hjoined) hbehind h hs).1,
    skipJoined_done h hs.on.closed⟩

/-- There is more to an operand exactly if a joint or a parenthesis follows it. -/
theorem skipComposite_eq_ok {found : Bool} :
    skipComposite s = .ok found s' ↔
      (s.cursor.isOperator || s.cursor.isSymbol .dot || s.cursor.isSymbol .leftParen) = found ∧
        if found then ∃ text s₁, skipParentheses s = .ok text s₁ ∧ skipJoined s₁ = .ok () s'
        else s = s' := by
  simp only [skipComposite, isJoint_bind, cursor_bind, ite_eq_ok, bind_eq_ok, pure_eq_ok]
  cases found with
  | true =>
    simp only [and_false, or_false, if_true, Bool.false_eq_true, false_and]
    constructor
    · rintro ⟨h, text, s₁, hparens, _, s₂, hjoined, _, rfl⟩
      exact ⟨h, text, s₁, hparens, hjoined⟩
    · rintro ⟨h, text, s₁, hparens, hjoined⟩
      exact ⟨h, text, s₁, hparens, (), s', hjoined, trivial, rfl⟩
  | false => simp

theorem skipComposite_accounts (hW : W.Open) (hjoined : ∀ s p t, p.IsJoined → W.settled s p t) :
    Accounts W (BehindJoined stream) skipComposite fun _ s =>
      s.cursor.current.kind ≠ .symbol .dot := by
  intro s hbehind found s' h hs
  obtain ⟨hfound, h⟩ := skipComposite_eq_ok.1 h
  cases found with
  | false =>
    obtain rfl : s = s' := h
    refine ⟨⟨[], fun _ => rfl, .refl hs.on⟩, fun hdot => ?_⟩
    simp [Cursor.isSymbol, hdot] at hfound
  | true =>
    obtain ⟨text, s₁, hparens, hskip⟩ := h
    exact ((skipParentheses_joined hW.skips).bind fun _ => skipJoined_accounts hW hjoined) hbehind
      (bind_eq_ok.2 ⟨_, _, hparens, hskip⟩) hs

/-- A name that is read as the owner of a name without more is marked, or its table has not been
    mentioned. -/
theorem markOwner_settled {p : Place stream} {owner : Token} {u : Unit}
    (h : markOwner owner s = .ok u s') (hs : s.body.Agrees)
    (hname : owner.kind = LiteralClass.identifier) : p.Settled s'.body.toRouting owner := by
  simp only [markOwner, routing_bind, ite_eq_ok, addMark_eq_ok, pure_eq_ok] at h
  rcases h with ⟨_, rfl⟩ | ⟨hunknown, _, rfl⟩
  · exact .inl ((Mark.perm_insert owner.mark s.body.marks).mem_iff.2 (List.mem_cons_self ..))
  · refine .of_not_contains hs ?_
    simpa [hname] using hunknown

/-- Marking an owner marks it, or it changes nothing. -/
theorem markOwner_growth {owner : Token} {u : Unit} (h : markOwner owner s = .ok u s') :
    s = s' ∨ s'.cursor = s.cursor ∧ Growth [owner] s.body.toRouting s'.body.toRouting := by
  simp only [markOwner, routing_bind, ite_eq_ok, addMark_eq_ok, pure_eq_ok] at h
  rcases h with ⟨hknown, rfl⟩ | ⟨_, _, rfl⟩
  · rw [Bool.and_eq_true, decide_eq_true_eq] at hknown
    exact .inr ⟨rfl, .insert rfl rfl hknown.1 hknown.2⟩
  · exact .inl rfl

theorem atom_accounts {e : Expression} {u : Unit} (h : atom s.cursor.current s = .ok e s₁)
    (hadvance : advance s₁ = .ok u s') :
    s.cursor.next = .ok s'.cursor ∧ Growth [] s.body.toRouting s'.body.toRouting :=
  growth_of_countPlaceholder (u := ())
    (countPlaceholder_eq_ok.2 (by simpa [Cursor.isSymbol] using atom_eq_ok h)) hadvance

/-- The dot at the place is joined to more, or it is what stands between the name `owner` and the
    tokens `after`. -/
def IsDotOf (owner : Token) (after : List Token) (p : Place stream) (t : Token) : Prop :=
  p.IsJoined ∨ t = owner ∧ t.kind = LiteralClass.identifier ∧ p.after = after

/-- A token, a dot behind it and the name behind the dot are passed. If the token is a name, it is
    the owner, of which `X` has to hold. -/
theorem owner_passes {X : Place stream → Token → Prop} {name : Token} (hW : W.Open)
    (hs : s.On stream) (hunowned : Unowned stream s) (hnext : s.cursor.next = .ok s₁.cursor)
    (hgrowth : Growth [] s.body.toRouting s₁.body.toRouting)
    (hdot : skipSymbol .dot s₁ = .ok true s₂) (hname : takeName s₂ = .ok name s')
    (hX : ∀ p : Place stream, p.OwnedBy s.cursor.current → p.after = s₂.cursor.tokens →
      X p s.cursor.current) :
    Passes (W.during X) [] s s' ∧ s.cursor.tokens = s.cursor.current :: s₁.cursor.tokens ∧
      s'.cursor.tokens <:+ s₁.cursor.tokens ∧ s₂.On stream ∧ Behind stream jointKinds s₂ := by
  obtain ⟨hkind, hadvance⟩ := skipIf_eq_ok.1 hdot
  have hkind : s₁.cursor.current.kind = .symbol .dot := by simpa [Cursor.isAny] using hkind
  obtain ⟨hnext₁, hgrowth₁⟩ := growth_of_advance hadvance
  obtain ⟨hnext₂, hgrowth₂⟩ := growth_of_takeName hname
  -- At the end of the text the cursor would have stayed, but it has come to a dot.
  have hend : s.cursor.current.kind ≠ .endOfText := by
    intro hend
    rcases Cursor.next_eq_ok hs.closed hnext with ⟨_, hcursor⟩ | ⟨hne, _⟩
    · simp [hcursor, hend] at hkind
    · exact hne hend
  have hopen := hW.during X
  have hfirst : Passes (W.during X) [] s s₁ :=
    .next_of_passable hs (hopen.passable hunowned) hnext hgrowth
  have hsecond : Passes (W.during X) [] s₁ s₂ := by
    refine .next hfirst.on hnext₁ hgrowth₁ fun p hp hafter =>
      .inr ⟨fun _ => hopen.lenient p, fun t ht => ?_⟩
    obtain ⟨q, _, hbefore⟩ := hp.pred hs hnext hend
    have hlast := ht.last
    rw [hbefore, List.getLast?_concat, Option.some.injEq] at hlast
    subst hlast
    exact hX p ht hafter
  have hbehind : Behind stream jointKinds s₂ :=
    .of_next hfirst.on hnext₁ (by simp [hkind, jointKinds]) (by decide)
  have hthird : Passes (W.during X) [] s₂ s' :=
    .next_of_passable hsecond.on (hopen.passable (hbehind.unowned (jointKinds_subset W.dialect)))
      hnext₂ hgrowth₂
  exact ⟨(hfirst.trans hsecond).trans hthird, Cursor.tokens_of_next hs.closed hnext hend,
    (hsecond.trans hthird).suffix, hsecond.on, hbehind⟩

/-- A name behind which there is more is part of a larger expression. -/
theorem IsDotOf.joined {owner t : Token} {p : Place stream} (hs : s.On stream)
    (h : IsDotOf owner s.cursor.tokens p t) (hnext : s.cursor.next = .ok s'.cursor)
    (hmore : (s'.cursor.isOperator || s'.cursor.isSymbol .dot ||
      s'.cursor.isSymbol .leftParen) = true) : p.IsJoined := by
  rcases h with h | ⟨_, _, hafter⟩
  · exact h
  have hkind : s'.cursor.current.kind ∈ .symbol .leftParen :: jointKinds := by
    rw [Bool.or_eq_true] at hmore
    rcases hmore with hjoint | hopen
    · exact List.mem_cons_of_mem _ (joint_kind hjoint)
    · exact List.mem_cons.2 (.inl (of_decide_eq_true hopen))
  rcases Cursor.next_eq_ok hs.closed hnext with ⟨hend, hcursor⟩ | ⟨_, htokens, _⟩
  · rw [hcursor, hend] at hkind
    exact absurd hkind (by decide)
  · exact .inr ⟨_, _, _, hafter.trans htokens, hkind⟩

theorem unsignedOperand_accounts (hW : W.OfClauses) (hopen : W.Open) :
    Accounts W (Unowned stream) unsignedOperand fun _ s =>
      s.cursor.current.kind ≠ .symbol .dot := by
  have hjoined (s : ParseState κ) (p : Place stream) (t : Token) (hp : p.IsJoined) :
      W.settled s p t := (hW.settled s p t).2 (.inr (.inl hp))
  intro s hunowned e s' h hs
  simp only [unsignedOperand, current_bind, cursor_bind, ite_eq_ok, bind_eq_ok, pure_eq_ok] at h
  rcases h with ⟨hparen, _, s₁, hparens, _, s₂, hskip, _, s₃, htext, _, rfl⟩ |
    ⟨_, value, s₁, hatom, _, s₂, hadvance, dotted, s₃, hdot, h⟩
  · have hparen : s.cursor.current.kind = .symbol .leftParen := of_decide_eq_true hparen
    have hgroup : Accounts W (BehindJoined stream) (skipParentheses >>= fun _ => skipJoined >>=
        fun _ => textSince s.cursor.current.start) fun _ s =>
          s.cursor.current.kind ≠ .symbol .dot :=
      (skipParentheses_joined hopen.skips).bind fun _ =>
        (skipJoined_accounts hopen hjoined).bind fun _ => textSince_accounts _
    exact hgroup (.of_kind (by simp [hparen]))
      (bind_eq_ok.2 ⟨_, _, hparens, bind_eq_ok.2 ⟨_, _, hskip, htext⟩⟩) hs
  have hnext := atom_accounts hatom hadvance
  rcases h with ⟨rfl, name, s₄, hname, composite, s₅, hcomposite, h⟩ |
    ⟨hundotted, composite, s₄, hcomposite, h⟩
  · obtain ⟨hpasses, htokens, hsuffix, hon₃, hbehind⟩ :=
      owner_passes (X := IsDotOf s.cursor.current s₃.cursor.tokens) hopen hs.on hunowned hnext.1
        hnext.2 hdot hname fun p hp hafter => .inr ⟨rfl, hp.name, hafter⟩
    obtain ⟨hnext₄, _⟩ := growth_of_takeName hname
    obtain ⟨⟨named, hnamed, hpasses'⟩, hdone⟩ := skipComposite_accounts
      (hopen.during (IsDotOf s.cursor.current s₃.cursor.tokens)) (fun _ _ _ h => .inl h)
      (hbehind.joined hon₃ hnext₄) hcomposite (hpasses.stays hs.during)
    obtain rfl := hnamed trivial
    have hlength := (hpasses'.suffix.trans hsuffix).length_le
    have hpasses := hpasses.trans hpasses'
    obtain ⟨hmore, hcomposite⟩ := skipComposite_eq_ok.1 hcomposite
    rcases h with ⟨rfl, _, s₆, htext, _, rfl⟩ | ⟨_, _, s₆, hmark, _, rfl⟩
    · obtain rfl := eq_of_textSince htext
      refine ⟨⟨_, fun _ => rfl, hpasses.imp_settled fun _ p t h => ?_⟩, hdone⟩
      exact hjoined _ _ _ (h.joined hon₃ hnext₄ hmore)
    -- Only now, behind the name, is it known that the owner is by itself.
    have hsettled (hagrees : s.body.Agrees) (p : Place stream) (t : Token)
        (h : IsDotOf s.cursor.current s₃.cursor.tokens p t) : W.settled s₆ p t := by
      rcases h with h | ⟨rfl, htname, _⟩
      · exact hjoined _ _ _ h
      · exact (hW.settled ..).2 (markOwner_settled hmark (hpasses.growth.agrees hagrees) htname)
    rcases markOwner_growth hmark with rfl | ⟨hcursor, hgrowth⟩
    · exact ⟨⟨_, fun _ => rfl, hpasses.imp_settled hsettled⟩, hdone⟩
    · rw [← hcursor] at hdone
      refine ⟨⟨_, fun hq => absurd hq hW.loud, hpasses.mark hsettled rfl ?_ hcursor hgrowth⟩, hdone⟩
      intro heq
      rw [heq, htokens, List.length_cons] at hlength
      omega
  · -- Without a dot behind the first token no owner is passed.
    obtain ⟨hundot, heq⟩ := skipIf_eq_ok.1 hdot
    rw [Bool.not_eq_true] at hundotted
    subst hundotted
    obtain rfl : s₂ = s₃ := heq
    have hfirst : Passes W [] s s₂ :=
      .next_of_passable hs.on (hopen.passable hunowned) hnext.1 hnext.2
    obtain ⟨⟨named, hnamed, hpasses⟩, hdone⟩ := skipComposite_accounts hopen hjoined
      (.of_kind (by simpa [Cursor.isAny] using hundot)) hcomposite (hfirst.stays hs)
    have hpasses := hfirst.trans hpasses
    rcases h with ⟨_, _, s₅, htext, _, rfl⟩ | ⟨_, _, rfl⟩
    · obtain rfl := eq_of_textSince htext
      exact ⟨⟨_, hnamed, hpasses⟩, hdone⟩
    · exact ⟨⟨_, hnamed, hpasses⟩, hdone⟩

/-- Behind a sign stands the next sign, or what the signs belong to. -/
theorem signs_accounts (hW : W.Open) (n : Nat) :
    Accounts W (Unowned stream) (signs n) fun _ => Unowned stream := by
  induction n with
  | zero => exact .pure fun _ h => h
  | succ n ih =>
    intro s hunowned found s' h hs
    simp only [signs, cursor_bind, ite_eq_ok, bind_eq_ok, refuseEnd_eq_ok, pure_eq_ok] at h
    rcases h with ⟨hsign, _, s₁, hadvance, _, _, ⟨_, rfl⟩, _, s₂, hmore, _, rfl⟩ | ⟨_, _, rfl⟩
    · obtain ⟨hnext, hgrowth⟩ := growth_of_advance hadvance
      have hkind : s.cursor.current.kind ∈ [Symbol.minus, .plus].map TokenKind.symbol := by
        simpa [Cursor.isSymbol] using hsign
      have hpasses : Passes W [] s s₁ :=
        .next_of_passable hs.on (hW.passable hunowned) hnext hgrowth
      have hunowned₁ : Unowned stream s₁ :=
        .of_next hs.on hnext (callingKinds_symbol W.dialect [.minus, .plus] (by decide) hkind)
      obtain ⟨⟨named, hnamed, hpasses'⟩, hunowned'⟩ := ih hunowned₁ hmore (hpasses.stays hs)
      exact ⟨⟨_, hnamed, hpasses.trans hpasses'⟩, hunowned'⟩
    · exact ⟨⟨[], fun _ => rfl, .refl hs.on⟩, hunowned⟩

theorem operand_accounts (hW : W.OfClauses) (hopen : W.Open) :
    Accounts W (Unowned stream) operand fun _ s => s.cursor.current.kind ≠ .symbol .dot :=
  current_accounts fun _ => cursor_accounts fun _ =>
    ((signs_accounts hopen _).imp (fun _ h => h.1.1) fun _ _ h => h).bind fun _ =>
      (unsignedOperand_accounts hW hopen).bind fun value => .ite (.pure fun _ h => h) <| by
        cases value with
        | number n => exact .pure fun _ h => h
        | _ => exact (textSince_accounts _).bind fun _ => .pure fun _ h => h

/-- An operand that is admitted accounts for its tokens, and behind it the cursor is on no dot. -/
theorem operand_accountsAt (hW : W.OfClauses) (hunowned : Unowned stream s) (hs : W.Admits s) :
    AccountsAt W s operand fun _ s => s.cursor.current.kind ≠ .symbol .dot := by
  intro e s' h hover
  obtain ⟨⟨named, hnamed, hpasses⟩, hdone⟩ :=
    operand_accounts (hW.within _) (W.within_open _) hunowned h (hover.within List.suffix_rfl)
  refine ⟨⟨named, hnamed, hpasses.imp (fun p hp => ?_) (fun p hp _ => ?_) fun _ _ _ => id⟩, hdone⟩
  · exact (hs h p hp).2
  · exact (hs h p hp).1

/-! ## Aliases -/

theorem takeAlias_accounts : Accounts W (Passable W) takeAlias Anyhow :=
  current_accounts fun _ => (advance_accounts.imp (fun _ h => h.1) fun _ _ h => h).bind fun _ =>
    .pure fun _ h => h

/-- Behind `AS` any token is taken for an alias. -/
theorem passable_of_as {d : Dialect} (h : Behind stream [.keyword .AS] s) : Passable W s where
  unowned := h.unowned (callingKinds_keyword d [.AS] (by simp [itemKeywords]))
  lenient := by
    intro p hp _
    obtain ⟨t, hlast, hkind⟩ := h p hp
    exact W.aliases p t hlast (List.mem_singleton.1 hkind)

/-- Behind `AS` an alias is any token. Without it an alias is a token of some kind. -/
theorem aliasOr_accounts {keywords : List Keyword}
    (h : ArePlain W (keywords.map TokenKind.keyword)) :
    Accounts W Anywhere (aliasOr keywords) Anyhow := by
  refine fun s _ => skipKeyword_then (arePlain_keywords (by decide)) (fun s₁ _ hbehind => ?_)
    fun _ => ?_
  · rw [AccountsAt.current_bind]
    split
    · exact .pure trivial
    · exact .pure trivial
    · exact (takeAlias_accounts (passable_of_as (d := W.dialect) hbehind)).bind
        fun _ _ _ _ => .pure trivial
  · rw [AccountsAt.cursor_bind, AccountsAt.cursor_bind]
    split
    case isTrue hkind =>
      refine (takeAlias_accounts ?_).bind_anywhere fun _ => .pure fun _ h => h
      have hplain : ArePlain W
          (LiteralClass.identifier :: LiteralClass.chars :: keywords.map TokenKind.keyword) :=
        ⟨by simp, by simp, fun hmem => h.lenient (by simpa using hmem)⟩
      refine hplain.passable ?_
      rw [Bool.or_eq_true] at hkind
      rcases hkind with hname | hkeyword
      · exact List.mem_append_left _ (of_decide_eq_true hname)
      · exact List.mem_append_right [_, _] (Cursor.kind_mem_of_isKeyword hkeyword)
    case isFalse => exact .pure trivial

theorem selectItemAlias_accounts : Accounts W Anywhere selectItemAlias Anyhow :=
  dialect_accounts (aliasOr_accounts (arePlain_hook _ .selectItemAlias (by decide)))

theorem tableAlias_accounts : Accounts W Anywhere tableAlias Anyhow :=
  dialect_accounts (aliasOr_accounts (arePlain_hook [] .tableAlias List.not_mem_nil))

/-! ## Comparisons -/

theorem recordCondition_accounts (left : Expression) (comparison : Comparison)
    (values : List Expression) :
    Accounts W Anywhere (recordCondition left comparison values) Anyhow := by
  refine .ite (routing_accounts fun r => ?_) (.pure fun _ h => h)
  cases r.tables.column? left with
  | some column => exact modifyRouting_accounts fun r => .of_tables_eq rfl (.refl _)
  | none => exact .pure fun _ h => h

/-- The further comparisons of the dialect call for an operand, and so does `LIKE`. -/
theorem comparisons_calling (d : Dialect) :
    (Keyword.LIKE :: d.comparisons).map TokenKind.keyword ⊆ d.callingKinds := by
  intro k hk
  rcases List.mem_cons.1 hk with rfl | hk
  · simp [Dialect.callingKinds, looseComparisons]
  · exact callingKinds_keyword d d.comparisons (fun _ h => by simp [callingKeywords, h]) hk

section

variable (hW : W.OfClauses)
include hW

theorem operand_anyhow (hunowned : Unowned stream s) (hs : W.Admits s) :
    AccountsAt W s operand Anyhow :=
  (operand_accountsAt hW hunowned hs).anyhow

theorem inValues_accountsAt (hs : W.AdmitsDue InDue s) : AccountsAt W s inValues Anyhow := by
  have hopened : Accounts W Anywhere (accept Symbol.leftParen) fun _ => Unowned stream :=
    accept_unowned (.of_not_mem (by decide))
      (callingKinds_symbol W.dialect [.leftParen] (by decide) (by simp))
  refine (hopened trivial).bind fun _ s₁ hopen hunowned => ?_
  rw [AccountsAt.cursor_bind]
  split
  case isTrue => exact throw_bind_accounts (P := Anywhere) _ _ trivial
  case isFalse hselect =>
    have hvalues : AccountsAt W s₁ (commaSeparated operand) Anyhow :=
      commaSeparated_accountsAt (fun s₂ hbefore hunowned =>
        operand_anyhow hW hunowned (hs (.listed hopen (by simpa using hselect) hbefore))) hunowned
    exact hvalues.bind fun _ _ _ _ => (accept_anyhow (by decide)).bind_anywhere fun _ =>
      .pure fun _ h => h

theorem betweenBounds_accountsAt (hunowned : Unowned stream s) (hs : W.AdmitsDue BoundDue s) :
    AccountsAt W s betweenBounds Anyhow := by
  have hand : Accounts W Anywhere (accept Keyword.AND) fun _ => Unowned stream :=
    accept_unowned (.of_not_mem (by decide))
      (callingKinds_keyword W.dialect [.AND] (by simp [callingKeywords]) (by simp))
  exact (operand_anyhow hW hunowned (hs (.low s))).bind fun _ _ hlow _ =>
    (hand trivial).bind fun _ _ hhigh hunowned =>
      (operand_anyhow hW hunowned (hs (.high hlow hhigh))).bind_anywhere fun _ => .pure fun _ h => h

theorem negatedComparison_accountsAt (hs : W.AdmitsDue NegatedDue s) :
    AccountsAt W s negatedComparison Anyhow := by
  refine .of_over fun hover => ?_
  rw [negatedComparison, AccountsAt.dialect_bind]
  refine skipKeyword_then (arePlain_keywords (by decide)) (fun s₁ hfound _ => ?_) fun hnotIn => ?_
  · exact (inValues_accountsAt hW fun _ _ hdue => hs (.isIn hfound hdue)).bind
      fun _ _ _ _ => .pure trivial
  refine skipKeyword_then (arePlain_keywords (by decide)) (fun s₁ hfound hbehind => ?_)
    fun hnotBetween => ?_
  · have hunowned := hbehind.unowned
      (callingKinds_keyword W.dialect [.BETWEEN] (by simp [callingKeywords]))
    exact (betweenBounds_accountsAt hW hunowned fun _ _ hdue => hs (.between hfound hdue)).bind
      fun _ _ _ _ => .pure trivial
  have hplain : ArePlain W ((.LIKE :: s.cursor.dialect.comparisons).map .keyword) :=
    hover.dialect ▸ arePlain_hook [.LIKE] .comparisons (by decide)
  refine skipKeyword_then hplain (fun s₁ hfound hbehind => ?_)
    fun _ => unexpected_accounts (P := Anywhere) trivial
  have hother : s.cursor.isKeyword [.IN, .BETWEEN] = false :=
    Cursor.isKeyword_cons_eq_false.2 ⟨hnotIn, hnotBetween⟩
  exact (operand_anyhow hW (hbehind.unowned (comparisons_calling _))
    (hs (.loose hother hfound))).bind
    fun _ _ _ _ => .pure trivial

theorem predicate_accountsAt (left : Expression) (hs : W.AdmitsDue PredicateDue s) :
    AccountsAt W s (predicate left) Anyhow := by
  refine .of_over fun hover => ?_
  have hrecord (values : List Expression) (comparison : Comparison) {s : ParseState κ} :
      AccountsAt W s (recordCondition left comparison values) Anyhow :=
    recordCondition_accounts left comparison values trivial
  rw [predicate, AccountsAt.dialect_bind]
  refine skipIf_then (.of_not_mem (by decide)) (fun s₁ hfound hbehind => ?_) fun _ => ?_
  · have hunowned := hbehind.unowned (callingKinds_symbol W.dialect [.equal] (by decide))
    exact (operand_anyhow hW hunowned (hs (.equal hfound))).bind fun _ _ _ _ => hrecord ..
  refine skipKeyword_then (arePlain_keywords (by decide)) (fun s₁ hfound _ => ?_) fun hnotIn => ?_
  · exact (inValues_accountsAt hW fun _ _ hdue => hs (.isIn hfound hdue)).bind
      fun _ _ _ _ => hrecord ..
  refine skipKeyword_then (arePlain_keywords (by decide)) (fun s₁ hfound hbehind => ?_)
    fun hnotBetween => ?_
  · have hunowned := hbehind.unowned
      (callingKinds_keyword W.dialect [.BETWEEN] (by simp [callingKeywords]))
    exact (betweenBounds_accountsAt hW hunowned fun _ _ hdue => hs (.between hfound hdue)).bind
      fun _ _ _ _ => hrecord ..
  refine skipKeyword_then (arePlain_keywords (by decide)) (fun s₁ hfound _ => ?_) fun hnotNot => ?_
  · exact negatedComparison_accountsAt hW fun _ _ hdue => hs (.negated hfound hdue)
  refine skipKeyword_then (arePlain_keywords (by decide)) (fun s₁ hfound hbehind => ?_)
    fun hnotIs => ?_
  · have hnot : Accounts W (Unowned stream) (skipKeyword [.NOT]) fun _ => Unowned stream := by
      rw [skipKeyword_eq_skipIf]
      refine (skipIf_accounts (arePlain_keywords (by decide))).imp (fun _ h => h) ?_
      rintro (_ | _) s h
      · exact h
      · exact Behind.unowned h (callingKinds_keyword W.dialect [.NOT] (by simp [callingKeywords]))
    have hunowned := hbehind.unowned
      (callingKinds_keyword W.dialect [.IS] (by simp [callingKeywords]))
    exact (hnot hunowned).bind fun _ s₂ hnegated hunowned =>
      (operand_anyhow hW hunowned (hs (.is hfound hnegated))).bind_anywhere
        fun _ => .pure fun _ h => h
  have hother : s.cursor.isKeyword [.IN, .BETWEEN, .NOT, .IS] = false :=
    Cursor.isKeyword_cons_eq_false.2 ⟨hnotIn, Cursor.isKeyword_cons_eq_false.2
      ⟨hnotBetween, Cursor.isKeyword_cons_eq_false.2 ⟨hnotNot, hnotIs⟩⟩⟩
  have hloose : ArePlain W (looseComparisons ++ s.cursor.dialect.comparisons.map .keyword) :=
    ⟨by simp [looseComparisons], by simp [looseComparisons], fun hmem => W.hooks .comparisons
      (by simpa [looseComparisons, Dialect.hook, hover.dialect] using hmem)⟩
  have hcalling : looseComparisons ++ s.cursor.dialect.comparisons.map .keyword ⊆
      s.cursor.dialect.callingKinds := by
    refine List.append_subset.2 ⟨?_, fun k hk => comparisons_calling _ (List.mem_cons_of_mem _ hk)⟩
    exact List.subset_append_of_subset_left _ (List.subset_append_right _ _)
  refine skipIf_then hloose (fun s₁ hfound hbehind => ?_) fun _ => .pure trivial
  exact (operand_anyhow hW (hbehind.unowned hcalling) (hs (.loose hother hfound))).bind
    fun _ _ _ _ => .pure trivial

theorem comparison_accountsAt (hunowned : Unowned stream s) (hs : W.AdmitsDue ComparisonDue s) :
    AccountsAt W s comparison Anyhow := by
  have hplain : ArePlain W [.symbol .leftParen] := .of_not_mem (by decide)
  refine (refuseEnd_accounts hunowned).bind fun _ s₁ hrefuse hunowned => ?_
  obtain ⟨hend, rfl⟩ := refuseEnd_eq_ok.1 hrefuse
  refine (skipIf_accountsAt hplain).bind fun opened s₁ hopen hbehind => ?_
  -- A parenthesis before the left side is passed, and behind it an operand is due all the same.
  have hdue : Unowned stream s₁ ∧ W.Admits s₁ := by
    cases opened with
    | false =>
      obtain ⟨rfl, hkind⟩ := hbehind
      exact ⟨hunowned, hs (.left (by simpa [Cursor.isSymbol] using hkind))⟩
    | true =>
      exact ⟨Behind.unowned hbehind (callingKinds_symbol W.dialect [.leftParen] (by decide)),
        hs (.inner hopen)⟩
  refine (operand_anyhow hW hdue.1 hdue.2).bind fun left s₂ hoperand _ => ?_
  have hleft : comparisonLeft s = .ok left s₂ :=
    (bind_of_eq_ok hrefuse).trans ((bind_of_eq_ok hopen).trans hoperand)
  refine (predicate_accountsAt hW left fun _ _ hdue => hs (.predicate hleft hdue)).bind
    fun _ _ _ _ => ?_
  exact (skipIf_anywhere (.of_not_mem (by decide)) trivial).bind_anywhere fun _ =>
    .pure fun _ h => h

omit hW in
/-- Behind a further `AND` nothing is owned by a name. -/
theorem skipAnd_unowned :
    Accounts W Anywhere (skipKeyword [.AND]) fun found s => found = true → Unowned stream s := by
  rw [skipKeyword_eq_skipIf]
  refine (skipIf_accounts (arePlain_keywords (by decide))).imp (fun _ h => h) ?_
  rintro found s h rfl
  exact Behind.unowned h (callingKinds_keyword W.dialect [.AND] (by simp [callingKeywords]))

theorem whereClause_accountsAt (hs : W.AdmitsDue WhereDue s) :
    AccountsAt W s whereClause Anyhow := by
  refine (tableAlias_accounts trivial).bind fun asName s₁ halias _ => ?_
  refine skipKeyword_then (arePlain_keywords (by decide)) (fun s₂ hwhere hbehind => ?_)
    fun _ => .pure trivial
  have hunowned := hbehind.unowned
    (callingKinds_keyword W.dialect [.WHERE] (by simp [callingKeywords]))
  have hlist : AccountsAt W s₂ (separatedBy (skipKeyword [.AND]) comparison) Anyhow :=
    separatedBy_accountsAt (fun s₃ hbefore hunowned => comparison_accountsAt hW hunowned
      fun _ _ hdue => hs (.intro halias hwhere hbefore hdue)) skipAnd_unowned hunowned
  have hcomparisons : AccountsAt W s₂ comparisons Anyhow :=
    hlist.bind_anywhere fun _ => .pure fun _ h => h
  exact hcomparisons.bind fun _ _ _ _ => refuse_accounts _ trivial

end

end Grammar

end SqlRouting
