import SqlRouting.Proofs.Moves.Operand
import SqlRouting.Proofs.Outside

/-!
# Where an `OR` may be read

Operands are read without a look at what they are, so an `OR` may be read as one. But nowhere else
in a comparison is an `OR` outside of parentheses read: behind a token that calls for no operand
only tokens of other kinds are taken. `Reads` says this of a parser: if the token before what it
reads calls for an operand, say, then so may the last token read. As such statements compose, it is
shown for each parser in turn.
-/

namespace SqlRouting

/-- The keywords behind which an operand is due in a comparison, `LIKE` apart. -/
def callingKeywords (d : Dialect) : List Keyword :=
  [.WHERE, .AND, .BETWEEN, .IS, .NOT] ++ d.comparisons

/-- The symbols behind which an operand or a part of one is due, the comparison operators that
    leave no condition apart. -/
def callingSymbols : List Symbol :=
  [.equal, .dot, .comma, .leftParen, .tilde] ++ Symbol.operators

/-- Behind the token an operand is due. -/
def Token.CallsForOperand (d : Dialect) (t : Token) : Prop :=
  t.kind ∈ (callingKeywords d).map TokenKind.keyword ++ Grammar.looseComparisons ++
    callingSymbols.map TokenKind.symbol

theorem callsForOperand_of_keyword (d : Dialect) {t : Token} (keywords : List Keyword)
    (hcalling : keywords ⊆ callingKeywords d) (h : t.kind ∈ keywords.map TokenKind.keyword) :
    t.CallsForOperand d :=
  List.mem_append_left _ (List.mem_append_left _ (List.map_subset _ hcalling h))

theorem callsForOperand_of_loose {d : Dialect} {t : Token}
    (h : t.kind ∈ Grammar.looseComparisons) : t.CallsForOperand d :=
  List.mem_append_left _ (List.mem_append_right _ h)

theorem callsForOperand_of_symbol (d : Dialect) {t : Token} (symbols : List Symbol)
    (hcalling : symbols ⊆ callingSymbols) (h : t.kind ∈ symbols.map TokenKind.symbol) :
    t.CallsForOperand d :=
  List.mem_append_right _ (List.map_subset _ hcalling h)

/-- Every `OR` among the tokens that stands outside of parentheses stands where an operand is
    due. Before the first token stands `prev`, and `depth` groups are open. -/
def OrsAreOperands (d : Dialect) : Token → Nat → List Token → Prop
  | _, _, [] => True
  | prev, depth, t :: ts =>
    (t.kind = .keyword .OR → depth = 0 → prev.CallsForOperand d) ∧
      OrsAreOperands d t (t.depthBehind depth) ts

theorem OrsAreOperands.append {d : Dialect} {prev : Token} {depth : Nat} {ts us : List Token}
    (h : OrsAreOperands d prev depth ts)
    (h' : OrsAreOperands d (ts.getLastD prev) (depthBehind depth ts) us) :
    OrsAreOperands d prev depth (ts ++ us) := by
  induction ts generalizing prev depth with
  | nil => exact h'
  | cons t ts ih =>
    rw [List.getLastD_cons] at h'
    exact ⟨h.1, ih h.2 h'⟩

theorem getLastD_append (ts us : List Token) (prev : Token) :
    (ts ++ us).getLastD prev = us.getLastD (ts.getLastD prev) := by
  induction ts generalizing prev with
  | nil => rfl
  | cons t ts ih => simp only [List.cons_append, List.getLastD_cons, ih]

/-- Between two states a part of the tokens is read in which every `OR` outside of parentheses is
    an operand. If `P` holds of the token before it, `Q` does of its last one. -/
def ReadsTo {κ : Type} (d : Dialect) (P Q : Token → Prop) (s s' : ParseState κ) : Prop :=
  s.cursor.Closed → s.cursor.dialect = d → s'.cursor.Closed ∧ s'.cursor.dialect = d ∧
    ∃ part, s.cursor.tokens = part ++ s'.cursor.tokens ∧ ∀ ⦃prev⦄, P prev →
      (∀ depth, OrsAreOperands d prev depth part) ∧ Q (part.getLastD prev)

namespace ReadsTo

open SqlRouting.Parser

variable {κ : Type} {d : Dialect} {P P' Q Q' R : Token → Prop} {s s₁ s' : ParseState κ}

theorem refl (h : ∀ t, P t → Q t) : ReadsTo d P Q s s :=
  fun hs hd => ⟨hs, hd, [], rfl, fun prev hprev => ⟨fun _ => trivial, h prev hprev⟩⟩

theorem trans (h : ReadsTo d P Q s s₁) (h' : ReadsTo d Q R s₁ s') : ReadsTo d P R s s' := by
  intro hs hd
  obtain ⟨hs₁, hd₁, part, htokens, hpart⟩ := h hs hd
  obtain ⟨hs', hd', part', htokens', hpart'⟩ := h' hs₁ hd₁
  refine ⟨hs', hd', part ++ part', by rw [htokens, htokens', List.append_assoc], ?_⟩
  intro prev hprev
  obtain ⟨hors, hlast⟩ := hpart hprev
  obtain ⟨hors', hlast'⟩ := hpart' hlast
  exact ⟨fun depth => (hors depth).append (hors' _), by rwa [getLastD_append]⟩

/-- Less may be asked of the token before the part and said of its last one. -/
theorem imp (h : ReadsTo d P Q s s') (hP : ∀ t, P' t → P t) (hQ : ∀ t, Q t → Q' t) :
    ReadsTo d P' Q' s s' := by
  intro hs hd
  obtain ⟨hs', hd', part, htokens, hpart⟩ := h hs hd
  refine ⟨hs', hd', part, htokens, fun prev hprev => ?_⟩
  obtain ⟨hors, hlast⟩ := hpart (hP prev hprev)
  exact ⟨hors, hQ _ hlast⟩

/-- Whatever leaves the cursor where it is reads nothing. -/
theorem of_cursor_eq (h : s'.cursor = s.cursor) : ReadsTo d P P s s' :=
  fun hs hd => ⟨h ▸ hs, h ▸ hd, [], by rw [h]; rfl, fun _ hprev => ⟨fun _ => trivial, hprev⟩⟩

/-- A token that is no `OR` is passed wherever it stands. -/
theorem pass (hnext : s.cursor.next = .ok s'.cursor) (hend : s.cursor.current.kind ≠ .endOfText)
    (hor : s.cursor.current.kind ≠ .keyword .OR) :
    ReadsTo d P (·.kind = s.cursor.current.kind) s s' := by
  intro hs hd
  exact ⟨hs.next hnext, (Cursor.dialect_of_next hs hnext).trans hd, [s.cursor.current],
    Cursor.tokens_of_next hs hnext hend, fun prev _ =>
      ⟨fun depth => ⟨fun hk => absurd hk hor, trivial⟩, rfl⟩⟩

/-- Where an operand is due any token is passed. -/
theorem passOperand (hnext : s.cursor.next = .ok s'.cursor) :
    ReadsTo d (·.CallsForOperand d) (fun _ => True) s s' := by
  intro hs hd
  rcases Cursor.next_eq_ok hs hnext with ⟨_, hc⟩ | ⟨_, htokens, hc⟩
  · exact ((of_cursor_eq hc).imp (fun _ h => h) fun _ _ => trivial) hs hd
  · exact ⟨hs.next hnext, by rw [hc, hd], [s.cursor.current], htokens,
      fun prev hprev => ⟨fun depth => ⟨fun _ _ => hprev, trivial⟩, trivial⟩⟩

end ReadsTo

/-- Every success of the parser reads such a part. -/
def Reads {κ α : Type} (d : Dialect) (P : Token → Prop) (p : Parser κ α) (Q : α → Token → Prop) :
    Prop :=
  ∀ ⦃s a s'⦄, p s = .ok a s' → ReadsTo d P (Q a) s s'

namespace Reads

open SqlRouting.Parser

variable {κ α β : Type} {d : Dialect} {P : Token → Prop} {Q : α → Token → Prop}

theorem bind {p : Parser κ α} {f : α → Parser κ β} {R : β → Token → Prop} (hp : Reads d P p Q)
    (hf : ∀ a, Reads d (Q a) (f a) R) : Reads d P (p >>= f) R := by
  intro s b s' h
  obtain ⟨a, s₁, h₁, h⟩ := bind_eq_ok.1 h
  exact (hp h₁).trans (hf a h)

theorem pure {a : α} (h : ∀ t, P t → Q a t) : Reads (κ := κ) d P (Pure.pure a) Q := by
  intro s b s' hp
  obtain ⟨rfl, rfl⟩ := pure_eq_ok.1 hp
  exact .refl h

theorem ite {c : Prop} [Decidable c] {p q : Parser κ α} (hp : c → Reads d P p Q)
    (hq : ¬c → Reads d P q Q) : Reads d P (if c then p else q) Q := by
  split
  case isTrue hc => exact hp hc
  case isFalse hc => exact hq hc

/-- A parser that never succeeds reads whatever one likes. -/
theorem of_not_ok {p : Parser κ α} (h : ∀ {s a s'}, p s = .ok a s' → False) : Reads d P p Q :=
  fun _ _ _ hp => (h hp).elim

/-- A parser that leaves the cursor where it is reads nothing. -/
theorem of_cursor_eq {p : Parser κ α} (h : ∀ {s a s'}, p s = .ok a s' → s'.cursor = s.cursor) :
    Reads d P p fun _ => P :=
  fun _ _ _ hp => .of_cursor_eq (h hp)

/-- A parser that only looks reads nothing. -/
theorem of_eq {p : Parser κ α} (h : ∀ {s a s'}, p s = .ok a s' → s = s') :
    Reads d P p fun _ => P :=
  of_cursor_eq fun hp => congrArg ParseState.cursor (h hp).symm

end Reads

namespace Parser

open Grammar

variable {κ α β : Type} {d : Dialect} {P : Token → Prop}

theorem dialect_reads {f : Dialect → Parser κ β} {R : β → Token → Prop} (h : Reads d P (f d) R) :
    Reads d P (dialect >>= f) R := by
  intro s b s' hp hs hd
  rw [dialect_bind, hd] at hp
  exact h hp hs hd

/-! ## Passing tokens -/

theorem advance_reads :
    Reads (κ := κ) d (·.CallsForOperand d) advance fun _ _ => True := by
  intro s u s' h
  obtain ⟨c, hnext, rfl⟩ := advance_eq_ok.1 h
  exact .passOperand hnext

/-- Behind a symbol that is passed an operand may be due. -/
theorem advance_symbol_reads {s s' : ParseState κ} {u : Unit} {x : Symbol}
    (h : advance s = .ok u s') (hkind : s.cursor.current.kind = .symbol x)
    (hx : x ∈ callingSymbols) : ReadsTo d P (·.CallsForOperand d) s s' := by
  obtain ⟨c, hnext, rfl⟩ := advance_eq_ok.1 h
  refine .imp (.pass hnext (by simp [hkind]) (by simp [hkind])) (fun _ h => h) fun t ht => ?_
  exact callsForOperand_of_symbol d [x] (by simpa using hx) (by simp [ht, hkind])

theorem skipIf_reads {kinds : List TokenKind} {Q : Bool → Token → Prop}
    (hor : .keyword .OR ∉ kinds) (hend : .endOfText ∉ kinds)
    (htrue : ∀ t, t.kind ∈ kinds → Q true t) (hfalse : ∀ t, P t → Q false t) :
    Reads (κ := κ) d P (skipIf kinds) Q := by
  intro s found s' h
  obtain ⟨hfound, h⟩ := skipIf_eq_ok.1 h
  cases found with
  | false => exact (show s = s' from h) ▸ .refl hfalse
  | true =>
    have hmem : s.cursor.current.kind ∈ kinds := of_decide_eq_true hfound
    obtain ⟨c, hnext, rfl⟩ := advance_eq_ok.1 h
    refine .imp (.pass hnext ?_ ?_) (fun _ h => h) fun t ht => htrue t ?_
    · exact fun hk => hend (hk ▸ hmem)
    · exact fun hk => hor (hk ▸ hmem)
    · rw [ht]
      exact hmem

theorem skipKeyword_reads {keywords : List Keyword} {Q : Bool → Token → Prop}
    (hor : .OR ∉ keywords) (htrue : ∀ t, t.kind ∈ keywords.map TokenKind.keyword → Q true t)
    (hfalse : ∀ t, P t → Q false t) : Reads (κ := κ) d P (skipKeyword keywords) Q := by
  rw [skipKeyword_eq_skipIf]
  exact skipIf_reads (by simpa using hor) (by simp) htrue hfalse

/-- If tokens are skipped, then `p` reads on behind them. -/
theorem skipIf_then_reads {kinds : List TokenKind} {Q : Token → Prop} {R : β → Token → Prop}
    {p q : Parser κ β} (hor : .keyword .OR ∉ kinds) (hend : .endOfText ∉ kinds)
    (hQ : ∀ t, t.kind ∈ kinds → Q t) (hp : Reads d Q p R) (hq : Reads d P q R) :
    Reads d P (skipIf kinds >>= fun found => if found then p else q) R := by
  refine (skipIf_reads (Q := fun found => cond found Q P) hor hend hQ fun _ ht => ht).bind
    fun found => ?_
  cases found with
  | false => exact hq
  | true => exact hp

theorem skipKeyword_then_reads {keywords : List Keyword} {Q : Token → Prop}
    {R : β → Token → Prop} {p q : Parser κ β} (hor : .OR ∉ keywords)
    (hQ : ∀ t, t.kind ∈ keywords.map TokenKind.keyword → Q t) (hp : Reads d Q p R)
    (hq : Reads d P q R) :
    Reads d P (skipKeyword keywords >>= fun found => if found then p else q) R := by
  rw [skipKeyword_eq_skipIf]
  exact skipIf_then_reads (by simpa using hor) (by simp) hQ hp hq

theorem accept_reads {kind : TokenKind} {Q : Token → Prop} (hor : kind ≠ .keyword .OR)
    (hend : kind ≠ .endOfText) (hQ : ∀ t, t.kind = kind → Q t) :
    Reads (κ := κ) d P (accept kind) fun _ => Q := by
  intro s u s' h
  obtain ⟨rfl, hadvance⟩ := accept_eq_ok.1 h
  obtain ⟨c, hnext, rfl⟩ := advance_eq_ok.1 hadvance
  exact .imp (.pass hnext hend hor) (fun _ h => h) hQ

theorem takeName_reads : Reads (κ := κ) d (·.CallsForOperand d) takeName fun _ _ => True := by
  intro s t s' h
  obtain ⟨_, c, hnext, h⟩ := takeName_eq_ok.1 h
  refine .passOperand (hnext.trans ?_)
  rw [← h]
  split
  · rfl
  · rfl

/-! ## Repetition -/

theorem loop_reads {step : Parser κ Bool} (h : Reads d P step fun _ => P) :
    Reads d P (loop step) fun _ => P := by
  intro s u s' hloop
  exact loop_rel (fun _ => .refl fun _ h => h) (fun h₁ h₂ => h₁.trans h₂) (fun hp => h hp) hloop

/-- Behind a separator stands what an item needs before it. -/
theorem separatedBy_reads {item : Parser κ α} {separator : Parser κ Bool}
    (hi : Reads d P item fun _ _ => True)
    (hs : Reads d (fun _ => True) separator fun found t => found = true → P t) :
    Reads d P (separatedBy separator item) fun _ _ => True := by
  intro s as s' h
  rw [separatedBy, cursor_bind] at h
  generalize s.cursor.movesLeft = n at h
  induction n generalizing s as with
  | zero => exact (pure_eq_ok.1 h).2 ▸ .refl fun _ _ => trivial
  | succ n ih =>
    simp only [collect, ite_eq_ok, bind_eq_ok, pure_eq_ok] at h
    obtain ⟨a, s₁, hitem, more, s₂, hsep, h⟩ := h
    have hread := (hi hitem).trans (hs hsep)
    rcases h with ⟨rfl, as', s₃, hmore, _, rfl⟩ | ⟨_, _, rfl⟩
    · exact (hread.imp (fun _ h => h) fun _ h => h rfl).trans (ih hmore)
    · exact hread.imp (fun _ h => h) fun _ _ => trivial

/-! ## Groups -/

/-- Inside of a group every token has an open group before it. -/
theorem skipToClosing_reads {n depth : Nat} {s s' : ParseState κ} {u : Unit}
    (h : skipToClosing n depth s = .ok u s') (hs : s.cursor.Closed) (hd : s.cursor.dialect = d) :
    s'.cursor.Closed ∧ s'.cursor.dialect = d ∧ s'.cursor.current.kind = .symbol .rightParen ∧
      ∃ part, s.cursor.tokens = part ++ s'.cursor.tokens ∧
        ∀ prev outer, OrsAreOperands d prev (outer + depth + 1) part := by
  induction n generalizing depth s with
  | zero => exact (unexpected_eq_ok.1 h).elim
  | succ n ih =>
    rcases skipToClosing_eq_ok h with ⟨hclosed, _, rfl⟩ |
      ⟨hinside, m, s₁, s₂, hn, hcount, hadvance, h⟩
    · exact ⟨hs, hd, hclosed, [], rfl, fun _ _ => trivial⟩
    obtain rfl := Nat.succ.inj hn
    have hcursor := cursor_of_countPlaceholder hcount
    obtain ⟨c, hnext, rfl⟩ := advance_eq_ok.1 hadvance
    rw [hcursor] at hnext
    obtain ⟨hs', hd', hclosed, part, hpart, hors⟩ := ih h (hs.next hnext) (by
      rw [Cursor.dialect_of_next hs hnext, hd])
    refine ⟨hs', hd', hclosed, ?_⟩
    -- At the end of the text the cursor stays, and so does the depth.
    rcases Cursor.next_eq_ok hs hnext with ⟨hend, rfl⟩ | ⟨_, htokens, _⟩
    · refine ⟨part, hpart, fun prev outer => ?_⟩
      simpa [Token.depthBehind, hend] using hors prev outer
    · have hpart : c.tokens = part ++ s'.cursor.tokens := hpart
      refine ⟨s.cursor.current :: part, by rw [htokens, hpart]; rfl, fun prev outer => ?_⟩
      refine ⟨by simp, ?_⟩
      rw [Token.depthBehind_add_succ hinside]
      exact hors _ outer

theorem skipParentheses_reads : Reads (κ := κ) d P skipParentheses fun _ _ => True := by
  intro s text s' h hs hd
  simp only [skipParentheses, cursor_bind, current_bind, ite_eq_ok, bind_eq_ok, pure_eq_ok,
    slice_eq_ok] at h
  rcases h with ⟨hopen, _, s₁, hadvance, _, s₂, hskip, _, _, ⟨_, rfl⟩, _, s₃, hadvance', _, rfl⟩ |
    ⟨_, _, rfl⟩
  · have hkind : s.cursor.current.kind = .symbol .leftParen := of_decide_eq_true hopen
    obtain ⟨c, hnext, rfl⟩ := advance_eq_ok.1 hadvance
    obtain ⟨c', hnext', rfl⟩ := advance_eq_ok.1 hadvance'
    obtain ⟨hs₂, hd₂, hclosed, part, hpart, hors⟩ := skipToClosing_reads hskip (hs.next hnext)
      ((Cursor.dialect_of_next hs hnext).trans hd)
    -- The part consists of the two parentheses and what is between them.
    have htokens := Cursor.tokens_of_next hs hnext (by simp [hkind])
    have htokens' := Cursor.tokens_of_next hs₂ hnext' (by simp [hclosed])
    refine ⟨hs₂.next hnext', (Cursor.dialect_of_next hs₂ hnext').trans hd₂,
      s.cursor.current :: part ++ [s₂.cursor.current], ?_, fun prev _ => ⟨fun depth => ?_, trivial⟩⟩
    · have hpart : c.tokens = part ++ s₂.cursor.tokens := hpart
      rw [htokens, hpart, htokens', List.append_assoc]
      rfl
    · have hopened : s.cursor.current.depthBehind depth = depth + 0 + 1 := by
        simp [Token.depthBehind, hkind]
      refine ⟨by simp [hkind], ?_⟩
      rw [hopened]
      exact (hors ..).append ⟨by simp [hclosed], trivial⟩
  · exact ReadsTo.refl (fun _ _ => trivial) hs hd

end Parser

/-! ## Operands -/

namespace Grammar

open SqlRouting.Parser

variable {κ : Type} {d : Dialect} {P : Token → Prop}

theorem skipJoint_reads : Reads (κ := κ) d P skipJoint fun _ _ => True := by
  intro s found s' h
  simp only [skipJoint, isJoint_bind, cursor_bind, ite_eq_ok, bind_eq_ok, refuseEnd_eq_ok,
    pure_eq_ok] at h
  rcases h with ⟨hjoint, _, s₁, hadvance, _, s₂, hsigns, _, _, ⟨_, rfl⟩, _, s₃, hcount, h⟩ |
    ⟨_, _, rfl⟩
  · have hjoint : ReadsTo d P (·.CallsForOperand d) s s₁ := by
      obtain ⟨x, hx, hkind⟩ := isJoint_symbol hjoint
      have hjoints : Symbol.dot :: Symbol.operators ⊆ callingSymbols := by decide
      exact advance_symbol_reads hadvance hkind (hjoints hx)
    have hsigns : ReadsTo d (·.CallsForOperand d) (·.CallsForOperand d) s₁ s₂ :=
      loop_reads (skipIf_reads (by decide) (by decide)
        (fun _ => callsForOperand_of_symbol d [.minus, .plus, .tilde] (by decide))
        fun _ ht => ht) hsigns
    have hcount : ReadsTo d (·.CallsForOperand d) (·.CallsForOperand d) s₂ s₃ :=
      .of_cursor_eq (cursor_of_countPlaceholder hcount)
    have hread := (hjoint.trans hsigns).trans hcount
    rcases h with ⟨_, _, s₄, hadvance', _, s₅, hparens, _, rfl⟩ | ⟨_, _, s₄, hparens, _, rfl⟩
    · exact (hread.trans (advance_reads hadvance')).trans (skipParentheses_reads hparens)
    · exact hread.trans (skipParentheses_reads hparens)
  · exact .refl fun _ _ => trivial

theorem skipJoined_reads : Reads (κ := κ) d (fun _ => True) skipJoined fun _ _ => True :=
  loop_reads skipJoint_reads

theorem skipComposite_reads : Reads (κ := κ) d (fun _ => True) skipComposite fun _ _ => True := by
  intro s found s' h
  simp only [skipComposite, isJoint_bind, cursor_bind, ite_eq_ok, bind_eq_ok, pure_eq_ok] at h
  rcases h with ⟨_, _, s₁, hparens, _, s₂, hjoined, _, rfl⟩ | ⟨_, _, rfl⟩
  · exact (skipParentheses_reads hparens).trans (skipJoined_reads hjoined)
  · exact .refl fun _ h => h

theorem textSince_reads (start : Nat) : Reads (κ := κ) d P (textSince start) fun _ => P :=
  (Reads.of_eq fun h => (pure_eq_ok.1 h).2).bind fun _ =>
    (Reads.of_eq fun h => (slice_eq_ok.1 h).2).bind fun _ => .pure fun _ h => h

theorem atom_reads (t : Token) : Reads (κ := κ) d P (atom t) fun _ => P :=
  .of_cursor_eq fun h => by
    rw [← atom_eq_ok h]
    split <;> rfl

theorem markOwner_reads (owner : Token) : Reads (κ := κ) d P (markOwner owner) fun _ => P :=
  .of_cursor_eq fun h => by
    simp only [markOwner, routing_bind, ite_eq_ok, addMark_eq_ok, pure_eq_ok] at h
    rcases h with ⟨_, rfl⟩ | ⟨_, _, rfl⟩ <;> rfl

theorem unsignedOperand_reads :
    Reads (κ := κ) d (·.CallsForOperand d) unsignedOperand fun _ _ => True := by
  intro s e s' h
  simp only [unsignedOperand, current_bind, cursor_bind, ite_eq_ok, bind_eq_ok, pure_eq_ok] at h
  rcases h with ⟨_, _, s₁, hparens, _, s₂, hjoined, _, s₃, htext, _, rfl⟩ |
    ⟨_, value, s₁, hatom, _, s₂, hadvance, dotted, s₃, hdot, h⟩
  · exact ((skipParentheses_reads hparens).trans (skipJoined_reads hjoined)).trans
      (textSince_reads _ htext)
  -- The first token is taken for an operand whatever it is: here an `OR` may get by.
  have hfirst : ReadsTo d (·.CallsForOperand d) (fun _ => True) s s₂ :=
    (atom_reads _ hatom).trans (advance_reads hadvance)
  have hdot : ReadsTo d (fun _ => True) (fun t => dotted = true → t.CallsForOperand d) s₂ s₃ :=
    skipIf_reads (Q := fun found t => found = true → t.CallsForOperand d) (by decide) (by decide)
      (fun _ ht _ => callsForOperand_of_symbol d [.dot] (by decide) ht)
      (fun _ _ h => by cases h) hdot
  rcases h with ⟨rfl, name, s₄, hname, composite, s₅, hcomposite, h⟩ |
    ⟨_, composite, s₄, hcomposite, h⟩
  · have hread := ((hfirst.trans (hdot.imp (fun _ h => h) fun _ h => h rfl)).trans
      (takeName_reads hname)).trans (skipComposite_reads hcomposite)
    rcases h with ⟨_, _, s₆, htext, _, rfl⟩ | ⟨_, _, s₆, hmark, _, rfl⟩
    · exact hread.trans (textSince_reads _ htext)
    · exact hread.trans (markOwner_reads _ hmark)
  · have hread := (hfirst.trans (hdot.imp (fun _ h => h) fun _ _ => trivial)).trans
      (skipComposite_reads hcomposite)
    rcases h with ⟨_, _, s₅, htext, _, rfl⟩ | ⟨_, _, rfl⟩
    · exact hread.trans (textSince_reads _ htext)
    · exact hread

theorem signs_reads (n : Nat) :
    Reads (κ := κ) d (·.CallsForOperand d) (signs n) fun _ => (·.CallsForOperand d) := by
  induction n with
  | zero => exact .pure fun _ h => h
  | succ n ih =>
    intro s found s' h
    simp only [signs, cursor_bind, ite_eq_ok, bind_eq_ok, refuseEnd_eq_ok, pure_eq_ok] at h
    rcases h with ⟨hsign, _, s₁, hadvance, _, _, ⟨_, rfl⟩, _, s₂, hmore, _, rfl⟩ | ⟨_, _, rfl⟩
    · refine ReadsTo.trans ?_ (ih hmore)
      rw [Bool.or_eq_true] at hsign
      rcases hsign with hkind | hkind
      · exact advance_symbol_reads hadvance (of_decide_eq_true hkind) (by decide)
      · exact advance_symbol_reads hadvance (of_decide_eq_true hkind) (by decide)
    · exact .refl fun _ h => h

theorem operand_reads : Reads (κ := κ) d (·.CallsForOperand d) operand fun _ _ => True :=
  (Reads.of_eq fun h => (pure_eq_ok.1 h).2).bind fun _ =>
    (Reads.of_eq fun h => (pure_eq_ok.1 h).2).bind fun _ => (signs_reads _).bind fun _ =>
      unsignedOperand_reads.bind fun value => .ite (fun _ => .pure fun _ h => h) fun _ => by
        cases value with
        | number n => exact .pure fun _ h => h
        | _ => exact (textSince_reads _).bind fun _ => .pure fun _ h => h

end Grammar

end SqlRouting
