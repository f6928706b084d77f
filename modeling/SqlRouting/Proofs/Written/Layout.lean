import SqlRouting.Cursor
import SqlRouting.Proofs.Written.Piece

/-!
# Written texts

A text is written piece by piece, each with a blank before it or not. It can be read back, and its
tokens are its pieces, if every piece ends before what is written behind it (`Legible`). Parts of a
text that start with a break and are legible before one (`Apart`) can be put together in any order,
so that no text has to be checked as a whole.
-/

namespace SqlRouting

open Text (byteLength)

/-- Only the blanks behind the last character of another kind are cut off. -/
theorem Text.trimEnd_append {cs blanks : List Char} (hcs : cs.getLast?.all (!isBlank ·) = true)
    (hblanks : ∀ c ∈ blanks, isBlank c = true) : trimEnd (cs ++ blanks) = cs := by
  rw [trimEnd, List.reverse_append, List.dropWhile_append_of_pos (by simpa using hblanks)]
  rw [List.getLast?_eq_head?_reverse] at hcs
  cases hrev : cs.reverse with
  | nil => simpa using hrev.symm
  | cons c rest =>
    rw [hrev] at hcs
    rw [List.dropWhile_cons_of_neg (by simpa using hcs), ← hrev, List.reverse_reverse]

@[simp] theorem Text.utf8Size_space : ' '.utf8Size = 1 := rfl

@[simp] theorem Text.utf8Size_comma : ','.utf8Size = 1 := rfl

/-- A piece in a text, behind a blank or not. -/
structure Written where
  spaced : Bool
  piece : Piece
  deriving DecidableEq

namespace Piece

/-- The piece behind a blank. -/
abbrev spaced (p : Piece) : Written := ⟨true, p⟩

/-- The piece without a blank before it. -/
abbrev tight (p : Piece) : Written := ⟨false, p⟩

end Piece

namespace Written

/-- The blank before the piece, if there is one. -/
def blank (w : Written) : List Char :=
  if w.spaced then [' '] else []

/-- The piece as it is written, with its blank. -/
def text (w : Written) : List Char :=
  w.blank ++ w.piece.spelling

/-- The position of the piece in a text that has the length `pos` so far. -/
def start (pos : Nat) (w : Written) : Nat :=
  pos + byteLength w.blank

/-- The token that the piece is read as. -/
def token (pos : Nat) (w : Written) : Token :=
  w.piece.lexeme.toToken (w.start pos)

/-- The text of pieces. -/
def layout (ws : List Written) : List Char :=
  ws.flatMap text

/-- The pieces without the blank before the first. -/
def flush : List Written → List Written
  | [] => []
  | w :: ws => w.piece.tight :: ws

/-- The blank before the first of the pieces, if there is one. -/
def lead : List Written → List Char
  | [] => []
  | w :: _ => w.blank

/-- The tokens of a text that ends with these pieces. -/
def tokens : Nat → List Written → List Token
  | pos, [] => [Token.final pos]
  | pos, w :: ws => w.token pos :: tokens (pos + byteLength w.text) ws

/-- Every piece ends before what is written behind it, the last one before `rest`. -/
def Legible : List Written → List Char → Prop
  | [], _ => True
  | w :: ws, rest => w.piece.endsBefore (layout ws ++ rest) = true ∧ Legible ws rest

section Text

variable {w σ : Written} {us vs : List Written} {rest : List Char}

@[simp] theorem text_spaced (p : Piece) : p.spaced.text = ' ' :: p.spelling := rfl

@[simp] theorem text_tight (p : Piece) : p.tight.text = p.spelling := rfl

@[simp] theorem flush_cons (w : Written) (ws : List Written) :
    flush (w :: ws) = w.piece.tight :: ws := rfl

@[simp] theorem layout_nil : layout [] = [] := rfl

@[simp] theorem layout_cons (w : Written) (ws : List Written) :
    layout (w :: ws) = w.text ++ layout ws := by
  simp [layout]

@[simp] theorem layout_append (us vs : List Written) :
    layout (us ++ vs) = layout us ++ layout vs := by
  simp [layout]

theorem layout_eq_lead (us : List Written) : layout us = lead us ++ layout (flush us) := by
  cases us <;> simp [lead, flush, Piece.tight, text, blank]

/-- Only the first part starts without its blank. -/
theorem flush_intercalate {parts : List (List Written)} (h : us ≠ []) :
    flush ([σ].intercalate (us :: parts)) = [σ].intercalate (flush us :: parts) := by
  obtain ⟨w, us, rfl⟩ := List.exists_cons_of_ne_nil h
  cases parts <;> simp [List.intercalate_cons_cons]

/-- A text ends with no blank. -/
theorem not_isBlank_getLast (us : List Written) :
    (layout us).getLast?.all (!Text.isBlank ·) = true := by
  rcases List.eq_nil_or_concat us with rfl | ⟨us, w, rfl⟩
  · rfl
  · obtain ⟨c, hc⟩ := Option.isSome_iff_exists.1
      (List.getLast?_isSome.2 w.piece.spelling_ne_nil)
    have hlast := w.piece.not_isBlank_getLast
    simpa [text, List.getLast?_append, hc] using hlast

theorem isBlank_of_mem_lead {c : Char} (h : c ∈ lead us) : Text.isBlank c = true := by
  cases us with
  | nil => simp [lead] at h
  | cons w us =>
    obtain rfl : c = ' ' := by
      simp only [lead, blank] at h
      split at h <;> simp_all
    decide

theorem length_le_layout (ws : List Written) : ws.length ≤ (layout ws).length := by
  induction ws with
  | nil => simp
  | cons w ws ih =>
    have := List.length_pos_iff.2 w.piece.spelling_ne_nil
    simp [text]
    omega

/-! ## Parts of a text -/

theorem legible_append :
    Legible (us ++ vs) rest ↔ Legible us (layout vs ++ rest) ∧ Legible vs rest := by
  induction us with
  | nil => simp [Legible]
  | cons w us ih => simp [Legible, ih, and_assoc]

theorem legible_flush : Legible (flush us) rest ↔ Legible us rest := by
  cases us <;> simp [flush, Legible, Piece.tight]

/-- The part starts with a break, and is legible before one. -/
structure Apart (us : List Written) : Prop where
  opens : ∀ rest, Text.breaks rest = true → Text.breaks (layout us ++ rest) = true
  legible : ∀ rest, Text.breaks rest = true → Legible us rest

namespace Apart

theorem nil : Apart [] where
  opens _ h := h
  legible _ _ := trivial

theorem append (hu : Apart us) (hv : Apart vs) : Apart (us ++ vs) where
  opens rest h := by
    rw [layout_append, List.append_assoc]
    exact hu.opens _ (hv.opens rest h)
  legible rest h := legible_append.2 ⟨hu.legible _ (hv.opens rest h), hv.legible rest h⟩

theorem cons (hw : Apart [w]) (hu : Apart us) : Apart (w :: us) :=
  hw.append hu

/-- A piece behind a blank stands apart. -/
theorem spaced {p : Piece} (hp : p ≠ .keyword .ORDER ∧ p ≠ .keyword .GROUP) :
    Apart [p.spaced] where
  opens rest _ := rfl
  legible rest h := by
    refine ⟨?_, trivial⟩
    cases p with
    | keyword k =>
      have hk : k ≠ .ORDER ∧ k ≠ .GROUP := by simpa using hp
      simp [Piece.endsBefore, h, hk]
    | name w => simp [Piece.endsBefore, h]
    | integer n => exact h
    | text q => exact h
    | symbol s => simp [Piece.endsBefore, h]

/-- A comma stands apart. -/
theorem comma : Apart [(Piece.symbol .comma).tight] where
  opens _ _ := rfl
  legible _ _ := ⟨rfl, trivial⟩

/-- A part in parentheses stands apart. It need not start with a break. -/
theorem parentheses {l r : Written} (hl : l.piece = .symbol .leftParen)
    (hr : r.piece = .symbol .rightParen)
    (hu : ∀ rest, Text.breaks rest = true → Legible us rest) : Apart (l :: (us ++ [r])) := by
  have hopens {w : Written} (hw : w.piece = .symbol .leftParen ∨ w.piece = .symbol .rightParen)
      (rest : List Char) : Text.breaks (w.text ++ rest) = true := by
    obtain ⟨spaced, piece⟩ := w
    rcases hw with rfl | rfl <;> cases spaced <;> rfl
  constructor
  · intro rest _
    rw [layout_cons, List.append_assoc]
    exact hopens (.inl hl) _
  · intro rest _
    refine ⟨by rw [hl]; rfl, legible_append.2 ⟨hu _ ?_, by rw [hr]; rfl, trivial⟩⟩
    simpa using hopens (.inr hr) rest

end Apart

/-! ## Spelled parts -/

/-- The part stands apart, and behind the blank that it starts with it spells the text. -/
structure Prints (us : List Written) (text : String) : Prop where
  apart : Apart us
  lead_eq : lead us = [' ']
  layout_flush : layout (flush us) = text.toList

namespace Prints

variable {s t : String}

theorem layout_eq (h : Prints us s) : layout us = ' ' :: s.toList := by
  rw [layout_eq_lead, h.lead_eq, h.layout_flush, List.singleton_append]

theorem ne_nil (h : Prints us s) : us ≠ [] := by
  rintro rfl
  exact absurd h.lead_eq (by simp [lead])

theorem of_eq (h : Prints us s) (hst : s.toList = t.toList) : Prints us t :=
  String.toList_injective hst ▸ h

/-- A single piece. -/
theorem spaced {p : Piece} (hp : p ≠ .keyword .ORDER ∧ p ≠ .keyword .GROUP)
    (hs : p.spelling = s.toList) : Prints [p.spaced] s where
  apart := .spaced hp
  lead_eq := rfl
  layout_flush := by simp [flush, text, blank, hs]

theorem keyword (k : Keyword) (hk : k ≠ .ORDER ∧ k ≠ .GROUP) :
    Prints [(Piece.keyword k).spaced] k.text :=
  .spaced (by simpa using hk) rfl

theorem symbol (s : Symbol) : Prints [(Piece.symbol s).spaced] s.text :=
  .spaced (by simp) rfl

theorem name (w : Word) : Prints [(Piece.name w).spaced] w.text :=
  .spaced (by simp) rfl

/-- Two parts, one behind the other. -/
theorem append (hu : Prints us s) (hv : Prints vs t) : Prints (us ++ vs) (s ++ " " ++ t) where
  apart := hu.apart.append hv.apart
  lead_eq := by
    obtain ⟨w, us, rfl⟩ := List.exists_cons_of_ne_nil hu.ne_nil
    exact hu.lead_eq
  layout_flush := by
    obtain ⟨w, us, rfl⟩ := List.exists_cons_of_ne_nil hu.ne_nil
    have hflush : flush (w :: us ++ vs) = flush (w :: us) ++ vs := rfl
    rw [hflush, layout_append, hu.layout_flush, hv.layout_eq]
    simp

theorem cons {p : Piece} (hu : Prints [p.spaced] s) (hv : Prints vs t) :
    Prints (p.spaced :: vs) (s ++ " " ++ t) :=
  hu.append hv

/-- A name and its owner. -/
theorem property (owner name : Word) :
    Prints [(Piece.name owner).spaced, (Piece.symbol .dot).tight, (Piece.name name).tight]
      (owner.text ++ "." ++ name.text) where
  apart := by
    refine ⟨fun rest _ => rfl, fun rest h => ⟨?_, ?_, ?_, trivial⟩⟩
    · simp [Piece.endsBefore, Piece.spelling, Symbol.text]
    · -- A dot before a digit would be a number, but no word starts with a digit.
      have hdigit : (name.text.toList ++ rest).head?.all (!·.isDigit) = true := by
        have hopens := name.opens
        cases hname : name.text.toList with
        | nil => simp [hname] at hopens
        | cons c cs =>
          rw [hname] at hopens
          simpa using Lexeme.not_isDigit_of_startsWord hopens
      simp only [Piece.endsBefore, layout_cons, layout_nil, text_tight, Piece.spelling,
        List.append_nil, hdigit, decide_true, Bool.and_self, Bool.or_true]
    · simp [Piece.endsBefore, h]
  lead_eq := rfl
  layout_flush := by simp [Piece.spelling, Symbol.text]

/-- A part in parentheses. -/
theorem group (hu : Prints us s) :
    Prints ((Piece.symbol .leftParen).spaced :: (flush us ++ [(Piece.symbol .rightParen).tight]))
      ("(" ++ s ++ ")") where
  apart := .parentheses rfl rfl fun rest h => legible_flush.2 (hu.apart.legible rest h)
  lead_eq := rfl
  layout_flush := by simp [Piece.spelling, Symbol.text, hu.layout_flush]

/-- A call, its name directly before the parenthesis. -/
theorem call (f : Word) (hu : Prints us s) :
    Prints ((Piece.name f).spaced :: (Piece.symbol .leftParen).tight ::
      (flush us ++ [(Piece.symbol .rightParen).tight])) (f.text ++ "(" ++ s ++ ")") where
  apart := .cons (.spaced (by simp))
    (.parentheses rfl rfl fun rest h => legible_flush.2 (hu.apart.legible rest h))
  lead_eq := rfl
  layout_flush := by simp [Piece.spelling, Symbol.text, hu.layout_flush]

/-- Two parts with a piece between them, which stands directly behind the first. -/
theorem separated {sep : String} (hσ : Apart [σ]) (hsep : sep.toList = σ.text ++ [' '])
    (hu : Prints us s) (hv : Prints vs t) : Prints (us ++ σ :: vs) (s ++ sep ++ t) where
  apart := hu.apart.append (hσ.append hv.apart)
  lead_eq := by
    obtain ⟨w, us, rfl⟩ := List.exists_cons_of_ne_nil hu.ne_nil
    exact hu.lead_eq
  layout_flush := by
    obtain ⟨w, us, rfl⟩ := List.exists_cons_of_ne_nil hu.ne_nil
    have hflush : flush (w :: us ++ σ :: vs) = flush (w :: us) ++ σ :: vs := rfl
    rw [hflush, layout_append, hu.layout_flush, layout_cons, hv.layout_eq]
    simp [hsep]

/-- Parts with a piece between them. -/
theorem intercalate {α : Type} {shape : α → List Written} {written : α → String} {sep : String}
    {xs : List α} (hσ : Apart [σ]) (hsep : sep.toList = σ.text ++ [' ']) (hne : xs ≠ [])
    (hx : ∀ x ∈ xs, Prints (shape x) (written x)) :
    Prints ([σ].intercalate (xs.map shape)) (sep.intercalate (xs.map written)) := by
  induction xs with
  | nil => exact absurd rfl hne
  | cons x xs ih =>
    have hhead := hx x (by simp)
    cases xs with
    | nil => simpa using hhead
    | cons y xs =>
      have htail := ih (by simp) fun z hz => hx z (by simp [hz])
      rw [List.map_cons, List.map_cons, List.intercalate_cons_cons, ← List.map_cons,
        List.append_assoc]
      exact (hhead.separated hσ hsep htail).of_eq (by simp [String.toList_intercalate])

end Prints

end Text

/-! ## The tokens of a text -/

/-- The token at the position `pos`: that of the first piece. -/
def first (pos : Nat) : List Written → Token
  | [] => Token.final pos
  | w :: _ => w.token pos

/-- The tokens behind the first. -/
def later (pos : Nat) : List Written → List Token
  | [] => []
  | w :: ws => tokens (pos + byteLength w.text) ws

theorem tokens_eq (pos : Nat) (ws : List Written) :
    tokens pos ws = first pos ws :: later pos ws := by
  cases ws <;> rfl

theorem length_tokens (pos : Nat) (ws : List Written) : (tokens pos ws).length = ws.length + 1 := by
  induction ws generalizing pos with
  | nil => rfl
  | cons w ws ih => simp [tokens, ih]

theorem length_later (pos : Nat) (ws : List Written) : (later pos ws).length = ws.length := by
  have := length_tokens pos ws
  rw [tokens_eq] at this
  simpa using this

variable {ws : List Written}

/-- A gap is the blank before a piece. -/
theorem skip_blank {w : Written} {pos : Nat} {rest : List Char}
    (h : w.piece.endsBefore rest = true) :
    Gap.skip .mySql .blank pos (w.text ++ rest) = .ok (w.start pos, w.piece.spelling ++ rest) := by
  obtain ⟨spaced, piece⟩ := w
  cases spaced with
  | false => simpa [text, blank, start] using Piece.skip_eq_ok h
  | true =>
    have hskip : Gap.skip .mySql .blank pos (' ' :: (piece.spelling ++ rest)) =
        Gap.skip .mySql .blank (pos + 1) (piece.spelling ++ rest) := rfl
    exact hskip.trans (Piece.skip_eq_ok h)

/-- A legible text is read as its pieces. -/
theorem read_layout {n pos : Nat} (h : Legible ws []) (hn : ws.length < n) :
    TokenStream.read .mySql (Dictionary.ofDialect .mySql) n pos (layout ws) =
      ⟨tokens pos ws, none⟩ := by
  induction ws generalizing n pos with
  | nil =>
    obtain ⟨n, rfl⟩ := Nat.exists_eq_succ_of_ne_zero (by omega : n ≠ 0)
    rfl
  | cons w ws ih =>
    obtain ⟨n, rfl⟩ := Nat.exists_eq_succ_of_ne_zero (by omega : n ≠ 0)
    obtain ⟨hw, hws⟩ := h
    rw [List.append_nil] at hw
    obtain ⟨c, cs, hcs⟩ := List.exists_cons_of_ne_nil w.piece.spelling_ne_nil
    rw [layout_cons, TokenStream.read, skip_blank hw, hcs, List.cons_append]
    have hread {start : Nat} := @Piece.read_eq_ok _ start _ _ _ hw (by rw [hcs, List.cons_append])
    simp only [hread]
    have hdrop : (c :: (cs ++ layout ws)).drop w.piece.lexeme.spelling.length = layout ws := by
      simp [Piece.lexeme, hcs]
    have hstop : (w.piece.lexeme.toToken (w.start pos)).stop = pos + byteLength w.text := by
      simp [Lexeme.toToken, Piece.lexeme, start, text, Nat.add_assoc]
    rw [hdrop, hstop, ih hws (by simpa using hn)]
    rfl

/-- The cursor on the first of the pieces `ws`, behind the text `before`. -/
def cursor (before : List Char) (ws : List Written) : Cursor where
  text := before ++ layout ws
  current := first (byteLength before) ws
  ahead := later (byteLength before) ws
  failure := none
  database := .mySql
  dialect := .mySql

/-- The cursor of a text stands on its first piece. -/
theorem ofText_layout {text : String} (htext : text.toList = layout ws) (h : Legible ws []) :
    Cursor.ofText .mySql .mySql text = .ok (cursor [] ws) := by
  have hread : TokenStream.ofText .mySql (layout ws) = ⟨tokens 0 ws, none⟩ :=
    read_layout h (Nat.lt_succ_of_le (length_le_layout ws))
  simp [Cursor.ofText, htext, hread, tokens_eq, cursor]

/-- The cursor moves from a piece to the next. -/
theorem next_cursor {before : List Char} {w : Written} :
    (cursor before (w :: ws)).next = .ok (cursor (before ++ w.text) ws) := by
  cases ws <;> simp [cursor, Cursor.next, first, later, tokens]

end Written

end SqlRouting
