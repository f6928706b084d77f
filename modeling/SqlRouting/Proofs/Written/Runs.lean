import SqlRouting.Proofs.Parser
import SqlRouting.Proofs.Written.Layout
import SqlRouting.Parse

/-!
# Parsers on written texts

A parser that stands before written pieces (`Written.standing`) sees only the kind of the next one.
Every parser that others are made of has an equation for what it does there, so that a run over
pieces that are known is computed by rewriting.
-/

namespace SqlRouting

open Text (byteLength)

namespace Piece

/-- What the token of the piece keeps of its spelling. -/
def literal : Piece → String
  | keyword k => k.text
  | name w => w.text
  | integer n => n.repr
  | text q => q.content
  | symbol s => s.text

/-- The number of placeholders in the piece. -/
def questions (p : Piece) : Nat :=
  if p = symbol .question then 1 else 0

theorem kind_keyword (k : Keyword) : (keyword k).kind = .keyword k := by rw [kind]

theorem kind_name (w : Word) : (name w).kind = .literal .identifier := by rw [kind]

theorem kind_integer (n : Nat) : (integer n).kind = .literal .int := by rw [kind]

theorem kind_symbol (s : Symbol) : (symbol s).kind = .symbol s := by rw [kind]

theorem kind_eq_symbol {p : Piece} {s : Symbol} : p.kind = .symbol s ↔ p = symbol s := by
  cases p <;> simp [kind]

theorem kind_ne_endOfText (p : Piece) : p.kind ≠ .endOfText := by
  cases p <;> simp [kind]

theorem literal_lexeme (p : Piece) : p.lexeme.literal = p.literal := by
  cases p <;> simp [lexeme, Lexeme.literal, kind, spelling, literal, Quoted.spelling,
    Nat.repr_eq_ofList_toDigits]

/-- A string is written with two quotes around its literal. -/
theorem byteLength_literal (p : Piece) :
    byteLength p.literal.toList + p.kind.quotes = byteLength p.spelling := by
  cases p with
  | text q =>
    have hquote : q.quote.utf8Size = 1 := by rcases q.isQuote with h | h <;> rw [h] <;> decide
    simp [literal, kind, TokenKind.quotes, spelling, Quoted.spelling, hquote]
    omega
  | _ => rfl

/-- The token of a piece starts where the piece is written. -/
theorem start_toToken (p : Piece) (pos : Nat) : (p.lexeme.toToken pos).start = pos := by
  rw [Token.start, Lexeme.toToken, literal_lexeme]
  change pos + byteLength p.spelling - (byteLength p.literal.toList + p.kind.quotes) = pos
  rw [byteLength_literal, Nat.add_sub_cancel]

end Piece

/-- The body with `n` more placeholders counted. -/
def Body.counted {κ : Type} (n : Nat) (b : Body κ) : Body κ :=
  { b with parameters := b.parameters + n }

namespace Body

variable {κ : Type}

@[simp] theorem counted_zero (b : Body κ) : b.counted 0 = b := rfl

@[simp] theorem parameters_counted (n : Nat) (b : Body κ) :
    (b.counted n).parameters = b.parameters + n := rfl

@[simp] theorem tables_counted (n : Nat) (b : Body κ) : (b.counted n).tables = b.tables := rfl

@[simp] theorem conditions_counted (n : Nat) (b : Body κ) :
    (b.counted n).conditions = b.conditions := rfl

@[simp] theorem marks_counted (n : Nat) (b : Body κ) : (b.counted n).marks = b.marks := rfl

@[simp] theorem clauses_counted (n : Nat) (b : Body κ) : (b.counted n).clauses = b.clauses := rfl

@[simp] theorem counted_counted (m n : Nat) (b : Body κ) :
    (b.counted m).counted n = b.counted (m + n) := by
  simp [counted, Nat.add_assoc]

end Body

namespace Written

variable {κ α β : Type} {before : List Char} {w : Written} {ws : List Written} {body : Body κ}

/-- The state before the pieces `ws`, behind the text `before`. -/
def standing (before : List Char) (ws : List Written) (body : Body κ) : ParseState κ where
  cursor := cursor before ws
  body

/-- The kind of the next token. -/
def nextKind : List Written → TokenKind
  | [] => .endOfText
  | w :: _ => w.piece.kind

/-- The position of the next token. -/
def position (before : List Char) (ws : List Written) : Nat :=
  byteLength (before ++ lead ws)

@[simp] theorem position_cons : position before (w :: ws) = byteLength (before ++ w.blank) := rfl

@[simp] theorem nextKind_cons : nextKind (w :: ws) = w.piece.kind := by rw [nextKind]

@[simp] theorem nextKind_nil : nextKind [] = .endOfText := by rw [nextKind]

/-! ## Looking -/

@[simp] theorem current_kind : (standing before ws body).cursor.current.kind = nextKind ws := by
  cases ws <;> rfl

@[simp] theorem current_start :
    (standing before ws body).cursor.current.start = position before ws := by
  cases ws with
  | nil =>
    rw [position, lead, List.append_nil]
    exact Token.start_final _
  | cons w ws =>
    rw [position, lead, Text.byteLength_append]
    exact w.piece.start_toToken _

@[simp] theorem current_stop :
    (standing before (w :: ws) body).cursor.current.stop = byteLength (before ++ w.text) := by
  simp [standing, cursor, first, token, Lexeme.toToken, Piece.lexeme, start, text, Nat.add_assoc]

@[simp] theorem current_literal :
    (standing before (w :: ws) body).cursor.current.literal = w.piece.literal :=
  w.piece.literal_lexeme

@[simp] theorem cursor_text : (standing before ws body).cursor.text = before ++ layout ws := rfl

@[simp] theorem cursor_dialect : (standing before ws body).cursor.dialect = .mySql := rfl

@[simp] theorem cursor_database : (standing before ws body).cursor.database = .mySql := rfl

@[simp] theorem standing_body : (standing before ws body).body = body := rfl

@[simp] theorem length_ahead : (standing before ws body).cursor.ahead.length = ws.length :=
  length_later _ _

@[simp] theorem movesLeft_standing :
    (standing before ws body).cursor.movesLeft = ws.length + 1 := by
  simp [Cursor.movesLeft]

@[simp] theorem isSymbol_standing {s : Symbol} :
    (standing before ws body).cursor.isSymbol s = decide (nextKind ws = .symbol s) := by
  simp [Cursor.isSymbol]

@[simp] theorem isAny_standing {kinds : List TokenKind} :
    (standing before ws body).cursor.isAny kinds = decide (nextKind ws ∈ kinds) := by
  simp [Cursor.isAny]

@[simp] theorem isEnd_standing :
    (standing before ws body).cursor.isEnd = decide (nextKind ws = .endOfText) := by
  simp [Cursor.isEnd]

@[simp] theorem isName_standing :
    (standing before ws body).cursor.isName = decide (nextKind ws = LiteralClass.identifier) := by
  simp [Cursor.isName]

@[simp] theorem isKeyword_standing {keywords : List Keyword} :
    (standing before ws body).cursor.isKeyword keywords =
      decide (nextKind ws ∈ keywords.map TokenKind.keyword) := by
  rw [Cursor.isKeyword, current_kind]
  cases nextKind ws <;> simp

@[simp] theorem isOperator_standing :
    (standing before ws body).cursor.isOperator =
      decide (nextKind ws ∈ Symbol.operators.map TokenKind.symbol) := by
  simp [Cursor.isOperator, Symbol.operators, Bool.decide_or]

/-! ## Running -/

open SqlRouting.Parser

variable {s : ParseState κ}

/-- A sequence of two parsers runs the second where the first has ended. -/
theorem run_bind {p : Parser κ α} {f : α → Parser κ β} :
    (p >>= f) s = match p s with
      | .ok a s => f a s
      | .error e s => .error e s := by
  simp only [bind, EStateM.bind]
  cases p s <;> rfl

theorem run_pure {a : α} : (pure a : Parser κ α) s = .ok a s := rfl

theorem run_throw {e : ParseError} : (throw e : Parser κ α) s = .error e s := rfl

theorem run_cursor : Parser.cursor s = .ok s.cursor s := rfl

theorem run_current : Parser.current s = .ok s.cursor.current s := rfl

theorem run_dialect : Parser.dialect s = .ok s.cursor.dialect s := rfl

theorem run_routing : Parser.routing s = .ok s.body.toRouting s := rfl

theorem run_clauses : Parser.clauses s = .ok s.body.clauses s := rfl

theorem run_modifyRouting {f : Routing → Routing} :
    modifyRouting f (standing before ws body) =
      .ok () (standing before ws { body with toRouting := f body.toRouting }) := rfl

theorem run_modifyClauses {f : κ → κ} :
    modifyClauses f (standing before ws body) =
      .ok () (standing before ws { body with clauses := f body.clauses }) := rfl

theorem run_advance :
    advance (standing before (w :: ws) body) = .ok () (standing (before ++ w.text) ws body) := by
  rw [advance, get_bind]
  simp only [standing, next_cursor]
  rfl

theorem run_skipIf {kinds : List TokenKind} (h : w.piece.kind ∈ kinds) :
    skipIf kinds (standing before (w :: ws) body) =
      .ok true (standing (before ++ w.text) ws body) := by
  simp only [skipIf, run_bind, run_cursor, isAny_standing, nextKind_cons, h, decide_true, if_true,
    run_advance, run_pure]

theorem run_skipIf_none {kinds : List TokenKind} (h : nextKind ws ∉ kinds) :
    skipIf kinds (standing before ws body) = .ok false (standing before ws body) := by
  simp [skipIf, run_bind, run_cursor, h, run_pure]

theorem run_skipSymbol {symbol : Symbol} (h : w.piece.kind = .symbol symbol) :
    skipSymbol symbol (standing before (w :: ws) body) =
      .ok true (standing (before ++ w.text) ws body) :=
  run_skipIf (by simp [h])

theorem run_skipSymbol_none {symbol : Symbol} (h : nextKind ws ≠ .symbol symbol) :
    skipSymbol symbol (standing before ws body) = .ok false (standing before ws body) :=
  run_skipIf_none (by simp [h])

theorem run_skipKeyword {keywords : List Keyword} (h : w.piece.kind ∈ keywords.map .keyword) :
    skipKeyword keywords (standing before (w :: ws) body) =
      .ok true (standing (before ++ w.text) ws body) := by
  rw [skipKeyword_eq_skipIf, run_skipIf h]

theorem run_skipKeyword_none {keywords : List Keyword}
    (h : nextKind ws ∉ keywords.map TokenKind.keyword) :
    skipKeyword keywords (standing before ws body) = .ok false (standing before ws body) := by
  rw [skipKeyword_eq_skipIf, run_skipIf_none h]

theorem run_accept {kind : TokenKind} (h : w.piece.kind = kind) :
    accept kind (standing before (w :: ws) body) =
      .ok () (standing (before ++ w.text) ws body) := by
  simp [accept, run_bind, run_current, h, run_advance]

/-- At the end of the text no token is accepted. -/
theorem run_accept_end (before : List Char) (body : Body κ) {kind : TokenKind}
    (h : kind ≠ .endOfText) :
    accept kind (standing before [] body) =
      .error (.unmatchedToken kind .endOfText "") (standing before [] body) := by
  have hkind : (standing before [] body).cursor.current.kind = .endOfText := current_kind
  have hliteral : (standing before [] body).cursor.current.literal = "" := rfl
  simp only [accept, run_bind, run_current, hkind, hliteral, h.symm, if_false, run_throw]

theorem run_refuse {keywords : List Keyword} (h : nextKind ws ∉ keywords.map TokenKind.keyword) :
    refuse keywords (standing before ws body) = .ok () (standing before ws body) := by
  simp [refuse, run_bind, run_cursor, h, run_pure]

theorem run_refuseEnd (h : nextKind ws ≠ .endOfText) :
    refuseEnd (standing before ws body) = .ok () (standing before ws body) := by
  simp [refuseEnd, run_bind, run_cursor, h, run_pure]

theorem run_addMark {m : Mark} :
    addMark m (standing before ws body) =
      .ok () (standing before ws { body with marks := m.insert body.marks }) := rfl

theorem run_addTable {t : Table} :
    addTable t (standing before ws body) =
      .ok () (standing before ws { body with tables := body.tables.add t }) := rfl

theorem run_addCondition {c : Condition} :
    addCondition c (standing before ws body) =
      .ok () (standing before ws { body with conditions := body.conditions.add c }) := rfl

theorem run_takePlaceholder :
    takePlaceholder (standing before ws body) =
      .ok body.parameters (standing before ws (body.counted 1)) := rfl

theorem run_countPlaceholder :
    countPlaceholder (standing before (w :: ws) body) =
      .ok () (standing before (w :: ws) (body.counted w.piece.questions)) := by
  simp only [countPlaceholder, run_bind, run_cursor, isSymbol_standing, nextKind_cons,
    Piece.kind_eq_symbol]
  by_cases h : w.piece = .symbol .question
  · simp only [h, decide_true, if_true, run_bind, run_takePlaceholder, run_pure, Piece.questions]
  · simp only [h, decide_false, Bool.false_eq_true, if_false, run_pure, Piece.questions,
      Body.counted_zero]

/-! ## Texts of pieces -/

theorem run_placeholdersSince {n : Nat} :
    placeholdersSince body.parameters (standing before ws (body.counted n)) =
      .ok n (standing before ws (body.counted n)) := by
  simp [placeholdersSince, run_bind, run_routing, run_pure]

theorem run_slice (body : Body κ) {start part rest : List Char}
    (h : before ++ layout ws = start ++ part ++ rest) :
    slice (byteLength start) (byteLength (start ++ part)) (standing before ws body) =
      .ok (String.ofList part) (standing before ws body) := by
  have hslice : Text.slice? (before ++ layout ws) (byteLength start) (byteLength (start ++ part)) =
      some part :=
    Text.slice?_eq_some_iff.2 ⟨start, rest, h, rfl, by simp⟩
  simp only [slice, run_bind, run_cursor, cursor_text, hslice, run_pure]

/-- The text of the pieces before the cursor, cut at its two ends. -/
theorem run_slice_pieces (before : List Char) (us ws : List Written) (body : Body κ) :
    slice (position before us) (byteLength (before ++ layout us))
        (standing (before ++ layout us) ws body) =
      .ok (String.ofList (layout (flush us))) (standing (before ++ layout us) ws body) := by
  have hlead : before ++ layout us = before ++ lead us ++ layout (flush us) := by
    rw [layout_eq_lead us, List.append_assoc]
  have hslice := run_slice body (congrArg (· ++ layout ws) hlead)
  rwa [← hlead] at hslice

/-- The text of the pieces before the cursor. -/
theorem run_textSince (before : List Char) (us ws : List Written) (body : Body κ) :
    textSince (position before us) (standing (before ++ layout us) ws body) =
      .ok (String.ofList (layout (flush us))) (standing (before ++ layout us) ws body) := by
  have hstop : max (position (before ++ layout us) ws) (position before us) =
      byteLength (before ++ lead us ++ (layout (flush us) ++ lead ws)) := by
    simp only [position, layout_eq_lead us, Text.byteLength_append]
    omega
  have htext : before ++ layout us ++ layout ws =
      before ++ lead us ++ (layout (flush us) ++ lead ws) ++ layout (flush ws) := by
    rw [layout_eq_lead us, layout_eq_lead ws]
    simp
  have htrim : Text.trimEnd (layout (flush us) ++ lead ws) = layout (flush us) :=
    Text.trimEnd_append (not_isBlank_getLast _) fun _ => isBlank_of_mem_lead
  simp only [textSince, run_bind, run_current, current_start, hstop]
  rw [position, run_slice _ htext]
  simp only [String.toList_ofList, htrim, run_pure]

/-! ## Groups -/

/-- The number of placeholders among the pieces. -/
def questions (ws : List Written) : Nat :=
  (ws.map (·.piece.questions)).sum

@[simp] theorem questions_nil : questions [] = 0 := rfl

@[simp] theorem questions_cons : questions (w :: ws) = w.piece.questions + questions ws := rfl

@[simp] theorem questions_append (us vs : List Written) :
    questions (us ++ vs) = questions us + questions vs := by
  simp [questions]

@[simp] theorem questions_flush {us : List Written} : questions (flush us) = questions us := by
  cases us <;> rfl

/-- A separator that is no placeholder adds none. -/
theorem questions_intercalate {σ : Written} {parts : List (List Written)}
    (hσ : σ.piece.questions = 0) :
    questions ([σ].intercalate parts) = (parts.map questions).sum := by
  induction parts with
  | nil => rfl
  | cons us parts ih =>
    cases parts with
    | nil => simp
    | cons vs parts => simp_all [List.intercalate_cons_cons]

/-- Every parenthesis among the pieces has its partner. -/
inductive Balanced : List Written → Prop
  | nil : Balanced []
  | cons {w : Written} {ws : List Written}
      (hw : w.piece ≠ .symbol .leftParen ∧ w.piece ≠ .symbol .rightParen) (h : Balanced ws) :
      Balanced (w :: ws)
  | group {l r : Written} {us ws : List Written} (hl : l.piece = .symbol .leftParen)
      (hr : r.piece = .symbol .rightParen) (hu : Balanced us) (h : Balanced ws) :
      Balanced (l :: (us ++ r :: ws))

theorem Balanced.append {us vs : List Written} (hu : Balanced us) (hv : Balanced vs) :
    Balanced (us ++ vs) := by
  induction hu with
  | nil => exact hv
  | cons hw _ ih => exact .cons hw ih
  | group hl hr hu _ _ ih =>
    simpa using Balanced.group hl hr hu ih

/-- Parts without an open parenthesis may be joined by a piece that is none. -/
theorem Balanced.intercalate {σ : Written} {parts : List (List Written)}
    (hσ : σ.piece ≠ .symbol .leftParen ∧ σ.piece ≠ .symbol .rightParen)
    (hparts : ∀ us ∈ parts, Balanced us) : Balanced ([σ].intercalate parts) := by
  induction parts with
  | nil => exact .nil
  | cons us parts ih =>
    have ih := ih fun vs h => hparts vs (by simp [h])
    cases parts with
    | nil => simpa using hparts us (by simp)
    | cons vs parts =>
      rw [List.intercalate_cons_cons, List.append_assoc]
      exact (hparts us (by simp)).append (.cons hσ ih)

/-- Parentheses do not depend on blanks. -/
theorem Balanced.flush {us : List Written} (h : Balanced us) : Balanced (flush us) := by
  cases h with
  | nil => exact .nil
  | cons hw h => exact .cons hw h
  | group hl hr hu h => exact .group hl hr hu h

theorem run_skipToClosing_cons {n depth : Nat}
    (hw : w.piece ≠ .symbol .leftParen ∧ w.piece ≠ .symbol .rightParen) :
    skipToClosing (n + 1) depth (standing before (w :: ws) body) =
      skipToClosing n depth
        (standing (before ++ w.text) ws (body.counted w.piece.questions)) := by
  have hleft : w.piece.kind ≠ .symbol .leftParen := fun h => hw.1 (Piece.kind_eq_symbol.1 h)
  have hright : w.piece.kind ≠ .symbol .rightParen := fun h => hw.2 (Piece.kind_eq_symbol.1 h)
  have hend : w.piece.kind ≠ .endOfText := w.piece.kind_ne_endOfText
  simp only [skipToClosing, run_bind, run_current, current_kind, nextKind_cons]
  generalize w.piece.kind = kind at hleft hright hend
  split
  case h_1 => exact absurd rfl hend
  case h_2 => exact absurd rfl hright
  case h_3 => exact absurd rfl hright
  case h_4 => exact absurd rfl hleft
  case h_5 => simp only [run_bind, run_countPlaceholder, run_advance]

theorem run_skipToClosing_left {n depth : Nat} (hw : w.piece = .symbol .leftParen) :
    skipToClosing (n + 1) depth (standing before (w :: ws) body) =
      skipToClosing n (depth + 1) (standing (before ++ w.text) ws body) := by
  simp only [skipToClosing, run_bind, run_current, current_kind, nextKind_cons, hw, Piece.kind,
    run_advance]

theorem run_skipToClosing_right {n depth : Nat} (hw : w.piece = .symbol .rightParen) :
    skipToClosing (n + 1) (depth + 1) (standing before (w :: ws) body) =
      skipToClosing n depth (standing (before ++ w.text) ws body) := by
  simp only [skipToClosing, run_bind, run_current, current_kind, nextKind_cons, hw, Piece.kind,
    run_advance]

/-- Behind pieces whose parentheses are closed, as many groups are open as before. -/
theorem run_skipToClosing {us : List Written} {n depth : Nat} (h : Balanced us) :
    skipToClosing (n + us.length) depth (standing before (us ++ ws) body) =
      skipToClosing n depth (standing (before ++ layout us) ws (body.counted (questions us))) := by
  induction h generalizing before ws body n depth with
  | nil => simp
  | @cons w us hw _ ih =>
    rw [List.length_cons, ← Nat.add_assoc, List.cons_append, run_skipToClosing_cons hw, ih]
    simp
  | @group l r us vs hl hr _ _ ihu ihv =>
    have hlen : n + (l :: (us ++ r :: vs)).length = n + vs.length + 1 + us.length + 1 := by
      simp
      omega
    have happend : l :: (us ++ r :: vs) ++ ws = l :: (us ++ r :: (vs ++ ws)) := by simp
    rw [hlen, happend, run_skipToClosing_left hl, ihu, run_skipToClosing_right hr, ihv]
    simp [Piece.questions, hl, hr]

/-- A group is skipped as a whole, and its placeholders are counted. -/
theorem run_skipParentheses (before : List Char) (ws : List Written) (body : Body κ)
    {l r : Written} {us : List Written} (hl : l.piece = .symbol .leftParen)
    (hr : r.piece = .symbol .rightParen) (hu : Balanced us) :
    skipParentheses (standing before (l :: (us ++ r :: ws)) body) =
      .ok (String.ofList (layout (flush (l :: (us ++ [r])))))
        (standing (before ++ layout (l :: (us ++ [r]))) ws (body.counted (questions us))) := by
  have htext : before ++ l.text ++ layout us ++ layout (r :: ws) =
      before ++ l.blank ++ layout (flush (l :: (us ++ [r]))) ++ layout ws := by
    simp [flush, Piece.tight, text, blank]
  have hmoves : (l :: (us ++ r :: ws)).length + 1 = (ws.length + 2) + 1 + us.length := by
    simp
    omega
  have hstop : byteLength (before ++ l.text ++ layout us ++ r.text) =
      byteLength (before ++ l.blank ++ layout (flush (l :: (us ++ [r])))) := by
    simp [flush, Piece.tight, text, blank]
  have hslice := run_slice (body.counted (questions us)) htext
  simp only [skipParentheses, run_bind, run_cursor, isSymbol_standing, nextKind_cons, hl,
    Piece.kind, decide_true, if_true, run_advance, movesLeft_standing, hmoves]
  rw [run_skipToClosing hu]
  simp only [skipToClosing, run_bind, run_current, current_kind, nextKind_cons, hr, Piece.kind,
    run_pure, current_start, current_stop, hstop, position, lead]
  rw [hslice]
  simp [run_advance]

theorem run_skipParentheses_none (h : nextKind ws ≠ .symbol .leftParen) :
    skipParentheses (standing before ws body) = .ok "" (standing before ws body) := by
  simp only [skipParentheses, run_bind, run_cursor, isSymbol_standing, h, decide_false,
    Bool.false_eq_true, if_false, run_pure]

/-! ## Repetition -/

theorem run_loop_none {step : Parser κ Bool} {s s' : ParseState κ} (h : step s = .ok false s') :
    loop step s = .ok () s' := by
  simp only [loop, run_bind, run_cursor, Cursor.movesLeft, iterate, h, Bool.false_eq_true, if_false,
    run_pure]

/-- A loop passes the pieces that its step takes. -/
theorem run_loop_skipIf (before : List Char) (body : Body κ) {kinds : List TokenKind}
    {us : List Written} (hus : ∀ w ∈ us, w.piece.kind ∈ kinds) (hws : nextKind ws ∉ kinds) :
    loop (skipIf kinds) (standing before (us ++ ws) body) =
      .ok () (standing (before ++ layout us) ws body) := by
  have hiterate : ∀ n, us.length < n → iterate (skipIf kinds) n (standing before (us ++ ws) body) =
      .ok () (standing (before ++ layout us) ws body) := by
    intro n hn
    induction us generalizing before n with
    | nil =>
      obtain ⟨n, rfl⟩ := Nat.exists_eq_succ_of_ne_zero (by omega : n ≠ 0)
      simp only [iterate, run_bind, List.nil_append, run_skipIf_none hws, Bool.false_eq_true,
        if_false, run_pure, layout_nil, List.append_nil]
    | cons w us ih =>
      obtain ⟨n, rfl⟩ := Nat.exists_eq_succ_of_ne_zero (by omega : n ≠ 0)
      simp only [iterate, run_bind, List.cons_append, run_skipIf (hus w (by simp)), if_true]
      rw [ih _ (fun v hv => hus v (by simp [hv])) n (by simpa using hn)]
      simp
  simp only [loop, run_bind, run_cursor, movesLeft_standing]
  exact hiterate _ (by simp only [List.length_append]; omega)

/-- One or more items with separators between them. Every separator is behind a token. -/
inductive Collects (separator : Parser κ Bool) (item : Parser κ α) :
    ParseState κ → List α → ParseState κ → Prop
  | last {s s₁ s₂ : ParseState κ} {a : α} (hitem : item s = .ok a s₁)
      (hsep : separator s₁ = .ok false s₂) : Collects separator item s [a] s₂
  | more {s s₁ s₂ s₃ : ParseState κ} {a : α} {as : List α} (hitem : item s = .ok a s₁)
      (hsep : separator s₁ = .ok true s₂)
      (hlt : s₂.cursor.ahead.length < s.cursor.ahead.length)
      (hmore : Collects separator item s₂ as s₃) : Collects separator item s (a :: as) s₃

theorem Collects.separatedBy {separator : Parser κ Bool} {item : Parser κ α} {s s' : ParseState κ}
    {as : List α} (h : Collects separator item s as s') :
    separatedBy separator item s = .ok as s' := by
  have hcollect : ∀ n, s.cursor.ahead.length < n → collect item separator n s = .ok as s' := by
    induction h with
    | last hitem hsep =>
      intro n hn
      obtain ⟨n, rfl⟩ := Nat.exists_eq_succ_of_ne_zero (by omega : n ≠ 0)
      simp only [collect, run_bind, hitem, hsep, Bool.false_eq_true, if_false, run_pure]
    | more hitem hsep hlt _ ih =>
      intro n hn
      obtain ⟨n, rfl⟩ := Nat.exists_eq_succ_of_ne_zero (by omega : n ≠ 0)
      simp only [collect, run_bind, hitem, hsep, if_true, ih n (by omega), run_pure]
  simp only [Parser.separatedBy, run_bind, run_cursor]
  exact hcollect _ (Nat.lt_succ_self _)

/-- Items with separators between them, one of which is refused. -/
inductive Refuses (separator : Parser κ Bool) (item : Parser κ α) (e : ParseError) :
    ParseState κ → Prop
  | item {s s₁ : ParseState κ} (hitem : item s = .error e s₁) : Refuses separator item e s
  | more {s s₁ s₂ : ParseState κ} {a : α} (hitem : item s = .ok a s₁)
      (hsep : separator s₁ = .ok true s₂)
      (hlt : s₂.cursor.ahead.length < s.cursor.ahead.length)
      (hmore : Refuses separator item e s₂) : Refuses separator item e s

theorem Refuses.separatedBy {separator : Parser κ Bool} {item : Parser κ α} {e : ParseError}
    {s : ParseState κ} (h : Refuses separator item e s) :
    ∃ s', separatedBy separator item s = .error e s' := by
  have hcollect : ∀ n, s.cursor.ahead.length < n →
      ∃ s', collect item separator n s = .error e s' := by
    induction h with
    | @item s s₁ hitem =>
      intro n hn
      obtain ⟨n, rfl⟩ := Nat.exists_eq_succ_of_ne_zero (by omega : n ≠ 0)
      exact ⟨s₁, by simp only [collect, run_bind, hitem]⟩
    | more hitem hsep hlt _ ih =>
      intro n hn
      obtain ⟨n, rfl⟩ := Nat.exists_eq_succ_of_ne_zero (by omega : n ≠ 0)
      obtain ⟨s', hs'⟩ := ih n (by omega)
      exact ⟨s', by simp only [collect, run_bind, hitem, hsep, if_true, hs']⟩
  simp only [Parser.separatedBy, run_bind, run_cursor]
  exact hcollect _ (Nat.lt_succ_self _)

/-- Parts with a separator between them are read one by one, each in the state that those before it
    leave. What a list of parts makes of a body is `result`. -/
theorem run_separatedBy {ι : Type} {xs : List ι} (before : List Char) (ws : List Written)
    (body : Body κ) (kinds : List TokenKind) (item : Parser κ Unit) (σ : Written)
    (shape : ι → List Written) (result : List Char → List ι → Body κ → Body κ)
    (Inv : Body κ → Prop) (hne : xs ≠ []) (hσ : σ.piece.kind ∈ kinds) (hws : nextKind ws ∉ kinds)
    (hresult : ∀ before x y ys b, result before (x :: y :: ys) b =
      result (before ++ layout (shape x) ++ σ.text) (y :: ys) (result before [x] b))
    (hitem : ∀ x ∈ xs, ∀ before vs b, Inv b →
      nextKind vs = σ.piece.kind ∨ nextKind vs = nextKind ws →
        item (standing before (shape x ++ vs) b) =
            .ok () (standing (before ++ layout (shape x)) vs (result before [x] b)) ∧
          Inv (result before [x] b))
    (hbody : Inv body) :
    separatedBy (skipIf kinds) item
        (standing before ([σ].intercalate (xs.map shape) ++ ws) body) =
      .ok (xs.map fun _ => ())
        (standing (before ++ layout ([σ].intercalate (xs.map shape))) ws
          (result before xs body)) := by
  refine Collects.separatedBy ?_
  induction xs generalizing before body with
  | nil => exact absurd rfl hne
  | cons x xs ih =>
    cases xs with
    | nil =>
      have hx := (hitem x (by simp) before ws body hbody (.inr rfl)).1
      simpa using Collects.last hx (run_skipIf_none hws)
    | cons y ys =>
      rw [List.map_cons, List.map_cons, List.intercalate_cons_cons, ← List.map_cons]
      obtain ⟨hx, hinv⟩ := hitem x (by simp) before
        (σ :: ([σ].intercalate ((y :: ys).map shape) ++ ws)) body hbody (.inl rfl)
      have ih := ih (before ++ layout (shape x) ++ σ.text) _ (by simp)
        (fun z hz => hitem z (by simp [hz])) hinv
      rw [hresult]
      generalize [σ].intercalate ((y :: ys).map shape) = rest at hx ih ⊢
      have hmore := Collects.more hx (run_skipIf hσ) (by simp; omega) ih
      simpa using hmore

/-- A single item is read if no separator follows. -/
theorem run_separatedBy_one {kinds : List TokenKind} {item : Parser κ α} {s : ParseState κ} {a : α}
    (hitem : item s = .ok a (standing before ws body)) (hws : nextKind ws ∉ kinds) :
    separatedBy (skipIf kinds) item s = .ok [a] (standing before ws body) :=
  (Collects.last hitem (run_skipIf_none hws)).separatedBy

/-- Where none of the keywords is next, none is skipped. -/
theorem run_skipAll_none {keywords : List Keyword}
    (h : nextKind ws ∉ keywords.map TokenKind.keyword) :
    skipAll keywords (standing before ws body) = .ok () (standing before ws body) := by
  refine run_loop_none ?_
  simp only [run_bind, run_cursor, isKeyword_standing, h, decide_false, Bool.false_eq_true,
    if_false, run_pure]

/-- Where one of the kinds is next, nothing is skipped. -/
theorem run_skipUntil_none {kinds : List TokenKind} (h : nextKind ws ∈ kinds) :
    skipUntil kinds (standing before ws body) = .ok () (standing before ws body) := by
  refine run_loop_none ?_
  simp only [run_bind, run_cursor, isEnd_standing, isAny_standing, h, decide_true, Bool.or_true,
    if_true, run_pure]

/-! ## Whole texts -/

/-- At the end of the text nothing is left to skip. -/
theorem run_skipRest_none :
    skipRest (standing before [] body) = .ok () (standing before [] body) := by
  simp only [skipRest, run_bind, run_cursor, isEnd_standing, nextKind_nil, decide_true,
    Bool.not_true, Bool.false_eq_true, if_false, run_pure]

/-- A text is parsed by the parser that its first piece asks for. -/
theorem parse_eq [Inhabited κ] (parser : Parser κ Unit) (statement : Body κ → Statement)
    {text : String} {us : List Written} (h : Prints us text)
    (hparser : Statement.ofCursor (cursor [] (flush us)) =
      Statement.ofParser parser statement (cursor [] (flush us))) :
    Statement.parse .mySql .mySql text =
      match parser (standing [] (flush us) Body.empty) with
      | .ok _ s => .ok (statement s.body)
      | .error e _ => .error e := by
  have htext := ofText_layout h.layout_flush.symm (legible_flush.2 (h.apart.legible [] rfl))
  simp only [Statement.parse, Statement.parseTraced, htext, hparser, Statement.ofParser]
  change (match parser (standing [] (flush us) Body.empty) with
    | .ok _ s => (Except.ok (statement s.body), s.events)
    | .error e s => (.error e, s.events)).1 = _
  cases parser (standing [] (flush us) Body.empty) <;> rfl

end Written

end SqlRouting
