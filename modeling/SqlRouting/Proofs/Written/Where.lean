import SqlRouting.Grammar.Where
import SqlRouting.Proofs.Written.Operand
import SqlRouting.Proofs.Written.Tables

/-!
# Written conditions

A predicate is a column with a test behind it. Tests for equality, for one of several values and for
a range are recorded as conditions on the column, the others are only passed; in both cases the
placeholders are counted (`Written.run_predicate`, `Written.run_whereClause`). Of several conditions
on a column the last is kept, in the place of the first (`Conditions.toList_ofList`).
-/

namespace SqlRouting

open Text (byteLength)

/-! ## What is kept of conditions -/

namespace Conditions

/-- The last condition on a column in a list. -/
def last? (cs : List Condition) (column : Column) : Option Condition :=
  cs.reverse.find? (·.column = column)

/-- For each column, in the order of first appearance, the last condition on it. -/
def kept (cs : List Condition) : List Condition :=
  (cs.map Condition.column).eraseDups.filterMap (last? cs)

variable {cs : List Condition} {c : Condition} {column : Column}

theorem last?_append : last? (cs ++ [c]) column =
    if c.column = column then some c else last? cs column := by
  by_cases h : c.column = column <;> simp [last?, h]

theorem ofList_append : ofList (cs ++ [c]) = (ofList cs).add c := by
  simp [ofList]

/-- The condition on a column is the last one added. -/
theorem get?_ofList (cs : List Condition) (column : Column) :
    (ofList cs).get? column = last? cs column := by
  induction cs using List.reverseRecOn with
  | nil => rfl
  | append_singleton cs c ih =>
    rw [ofList_append, last?_append]
    split
    case isTrue h => rw [← h, get?_add_self]
    case isFalse h => rw [get?_add_of_ne (Ne.symm h), ih]

theorem column_last? (h : last? cs column = some c) : c.column = column := by
  simpa using List.find?_some h

theorem isSome_last? : (last? cs column).isSome = true ↔ column ∈ cs.map Condition.column := by
  simp [last?]

/-- A condition takes the place of an earlier one on its column. -/
theorem toList_ofList (cs : List Condition) : (ofList cs).toList = kept cs := by
  induction cs using List.reverseRecOn with
  | nil => rfl
  | append_singleton cs c ih =>
    rw [ofList_append, add, get?_ofList, kept, List.map_append, List.eraseDups_append,
      List.filterMap_append]
    by_cases hc : c.column ∈ cs.map Condition.column
    · -- The column is known: only its condition changes.
      have hmap : ∀ column ∈ (cs.map Condition.column).eraseDups,
          last? (cs ++ [c]) column = (last? cs column).map (replace c) := by
        intro column hcolumn
        obtain ⟨old, hold⟩ := Option.isSome_iff_exists.1
          (isSome_last?.2 (List.mem_eraseDups.1 hcolumn))
        rw [last?_append, hold, Option.map_some, replace, column_last? hold]
        simp only [eq_comm, apply_ite some]
      rw [if_pos (isSome_last?.2 hc), ih, kept, List.map_filterMap, List.filterMap_congr hmap]
      have hnone : [c.column].removeAll (cs.map Condition.column) = [] := by
        simpa [List.removeAll] using hc
      simp [hnone]
    · have hsame : ∀ column ∈ (cs.map Condition.column).eraseDups,
          last? (cs ++ [c]) column = last? cs column := by
        intro column hcolumn
        rw [last?_append, if_neg]
        rintro rfl
        exact hc (List.mem_eraseDups.1 hcolumn)
      rw [if_neg (by rwa [isSome_last?]), ih, kept, List.filterMap_congr hsame]
      have hnew : [c.column].removeAll (cs.map Condition.column) = [c.column] := by
        simpa [List.removeAll] using hc
      simp [hnew, last?_append, List.eraseDups_cons]

end Conditions

/-! ## Tests -/

/-- What a column is compared with, and how. -/
inductive Test where
  | equal (v : Value)
  | isIn (first : Value) (more : List Value)
  | between (low high : Value)
  | greater (v : Value)
  | unequal (v : Value)
  | like (v : Value)
  | notIn (first : Value) (more : List Value)
  | isNull
  deriving DecidableEq

namespace Test

/-- The test as it is written. -/
def written : Test → String
  | equal v => "= " ++ v.written
  | isIn v vs => "IN (" ++ ", ".intercalate ((v :: vs).map Value.written) ++ ")"
  | between low high => "BETWEEN " ++ low.written ++ " AND " ++ high.written
  | greater v => "> " ++ v.written
  | unequal v => "<> " ++ v.written
  | like v => "LIKE " ++ v.written
  | notIn v vs => "NOT IN (" ++ ", ".intercalate ((v :: vs).map Value.written) ++ ")"
  | isNull => "IS NULL"

/-- The values of the test in the order in which they are written. -/
def values : Test → List Value
  | equal v | greater v | unequal v | like v => [v]
  | isIn v vs | notIn v vs => v :: vs
  | between low high => [low, high]
  | isNull => []

/-- The number of placeholders in the test. -/
def questions (t : Test) : Nat :=
  Value.count t.values

/-- How the test narrows down the rows, if it does. -/
def comparison? : Test → Option Comparison
  | equal _ => some .equal
  | isIn _ _ => some .isIn
  | between _ _ => some .between
  | greater _ | unequal _ | like _ | notIn _ _ | isNull => none

/-- The condition that the test is, `index` placeholders having come before. -/
def condition? (index : Nat) (column : Column) (t : Test) : Option Condition :=
  t.comparison?.map fun comparison => ⟨column, comparison, Value.expressions index t.values⟩

/-- The conditions that tests are, one after the other. -/
def conditions : Nat → List (Column × Test) → List Condition
  | _, [] => []
  | index, (column, t) :: more =>
    (t.condition? index column).toList ++ conditions (index + t.questions) more

/-- The number of placeholders in tests. -/
def count (tests : List (Column × Test)) : Nat :=
  (tests.map fun p => p.2.questions).sum

/-- The values in parentheses. -/
def group (vs : List Value) : List Written :=
  (Piece.symbol .leftParen).spaced ::
    (Written.flush (Value.list vs) ++ [(Piece.symbol .rightParen).tight])

/-- The pieces of the test. -/
def pieces : Test → List Written
  | equal v => [(Piece.symbol .equal).spaced, v.piece.spaced]
  | isIn v vs => (Piece.keyword .IN).spaced :: group (v :: vs)
  | between low high =>
    [(Piece.keyword .BETWEEN).spaced, low.piece.spaced, (Piece.keyword .AND).spaced,
      high.piece.spaced]
  | greater v => [(Piece.symbol .greater).spaced, v.piece.spaced]
  | unequal v => [(Piece.symbol .lessGreater).spaced, v.piece.spaced]
  | like v => [(Piece.keyword .LIKE).spaced, v.piece.spaced]
  | notIn v vs => (Piece.keyword .NOT).spaced :: (Piece.keyword .IN).spaced :: group (v :: vs)
  | isNull => [(Piece.keyword .IS).spaced, (Piece.keyword .NULL).spaced]

theorem group_prints {vs : List Value} (hne : vs ≠ []) :
    Written.Prints (group vs) ("(" ++ ", ".intercalate (vs.map Value.written) ++ ")") :=
  .group (Value.list_prints hne)

theorem pieces_prints (t : Test) : Written.Prints t.pieces t.written := by
  cases t with
  | equal v =>
    exact ((Written.Prints.symbol .equal).cons v.prints).of_eq (by simp [Symbol.text, written])
  | greater v =>
    exact ((Written.Prints.symbol .greater).cons v.prints).of_eq (by simp [Symbol.text, written])
  | unequal v =>
    exact ((Written.Prints.symbol .lessGreater).cons v.prints).of_eq
      (by simp [Symbol.text, written])
  | like v =>
    exact ((Written.Prints.keyword .LIKE (by decide)).cons v.prints).of_eq
      (by simp [Keyword.text, written])
  | isNull =>
    exact ((Written.Prints.keyword .IS (by decide)).cons (.keyword .NULL (by decide))).of_eq
      (by simp [Keyword.text, written])
  | between low high =>
    exact ((Written.Prints.keyword .BETWEEN (by decide)).cons (low.prints.cons
      ((Written.Prints.keyword .AND (by decide)).cons high.prints))).of_eq
      (by simp [Keyword.text, written])
  | isIn v vs =>
    exact ((Written.Prints.keyword .IN (by decide)).cons (group_prints (by simp))).of_eq
      (by simp [Keyword.text, written])
  | notIn v vs =>
    exact ((Written.Prints.keyword .NOT (by decide)).cons ((Written.Prints.keyword .IN
      (by decide)).cons (group_prints (by simp)))).of_eq (by simp [Keyword.text, written])

end Test

/-- The body with the tests recorded. -/
def Body.narrowed {κ : Type} (tests : List (Column × Test)) (b : Body κ) : Body κ :=
  { b with
    conditions := (Test.conditions b.parameters tests).foldl Conditions.add b.conditions
    parameters := b.parameters + Test.count tests }

namespace Body

variable {κ : Type} {b : Body κ} {column : Column} {t : Test} {tests : List (Column × Test)}

theorem narrowed_cons : b.narrowed ((column, t) :: tests) =
    (b.narrowed [(column, t)]).narrowed tests := by
  simp [narrowed, Test.conditions, Test.count, Nat.add_assoc, List.foldl_append]

/-- A condition is recorded. -/
theorem narrowed_recorded {comparison : Comparison} (h : t.comparison? = some comparison) :
    b.narrowed [(column, t)] = { b with
      conditions := b.conditions.add
        ⟨column, comparison, Value.expressions b.parameters t.values⟩
      parameters := b.parameters + t.questions } := by
  simp [narrowed, Test.conditions, Test.condition?, Test.count, h]

/-- Of another test only the placeholders are counted. -/
theorem narrowed_passed (h : t.comparison? = none) :
    b.narrowed [(column, t)] = b.counted t.questions := by
  simp [narrowed, Test.conditions, Test.condition?, Test.count, h, counted]

/-- Where there are no conditions yet, the last one on every column is kept. -/
theorem narrowed_eq (h : b.conditions = {}) :
    b.narrowed tests = { b with
      conditions := ⟨Conditions.kept (Test.conditions b.parameters tests)⟩
      parameters := b.parameters + Test.count tests } := by
  rw [narrowed, h, ← Conditions.toList_ofList]
  rfl

end Body

namespace Written

open SqlRouting.Parser SqlRouting.Grammar

variable {κ : Type} {before : List Char} {ws : List Written} {body : Body κ}

theorem run_recordCondition {left : Expression} {column : Column} {comparison : Comparison}
    {index : Nat} {vs : List Value} (hcolumn : body.tables.column? left = some column) :
    recordCondition left comparison (Value.expressions index vs) (standing before ws body) =
      .ok () (standing before ws { body with
        conditions := body.conditions.add ⟨column, comparison, Value.expressions index vs⟩ }) := by
  simp only [recordCondition, Value.isValue_expressions, if_true, run_bind, run_routing,
    standing_body, hcolumn, run_addCondition]

/-- The values behind `IN` are read one by one. -/
theorem run_inValues {vs : List Value} (hne : vs ≠ []) :
    inValues (standing before (Test.group vs ++ ws) body) =
      .ok (Value.expressions body.parameters vs)
        (standing (before ++ layout (Test.group vs)) ws (body.counted (Value.count vs))) := by
  have hselect : nextKind (flush (Value.list vs) ++ (Piece.symbol .rightParen).tight :: ws) ∉
      [Keyword.SELECT].map TokenKind.keyword := by
    obtain ⟨v, vs, rfl⟩ := List.exists_cons_of_ne_nil hne
    rw [Value.nextKind_list]
    cases v <;> simp [Value.piece, Piece.kind]
  have hend : (nextKind ((Piece.symbol .rightParen).tight :: ws)).endsOperand = true := rfl
  have hcomma : nextKind ((Piece.symbol .rightParen).tight :: ws) ≠ .symbol .comma := by
    simp [Piece.kind]
  rw [Test.group, List.cons_append, List.append_assoc, List.singleton_append]
  simp only [inValues, run_bind, run_accept, Piece.kind_symbol, run_cursor, isKeyword_standing,
    hselect, decide_false, Bool.false_eq_true, if_false,
    run_values hne hend hcomma]
  simp [run_pure]

/-- A value is read as an operand. -/
theorem run_value (before : List Char) (body : Body κ) {v : Value}
    (hws : (nextKind ws).endsOperand = true) :
    operand (standing before (v.piece.spaced :: ws) body) =
      .ok (v.expression body.parameters)
        (standing (before ++ v.piece.spaced.text) ws (body.counted v.questions)) := by
  simpa [v.questions_piece] using
    (readsAs_value (w := v.piece.spaced) rfl).run before body hws

/-- The bounds behind `BETWEEN` are read one after the other. -/
theorem run_betweenBounds {low high : Value} (hws : (nextKind ws).endsOperand = true) :
    betweenBounds (standing before
        (low.piece.spaced :: (Piece.keyword .AND).spaced :: high.piece.spaced :: ws) body) =
      .ok (Value.expressions body.parameters [low, high])
        (standing
          (before ++ layout [low.piece.spaced, (Piece.keyword .AND).spaced, high.piece.spaced]) ws
          (body.counted (Value.count [low, high]))) := by
  have hand : (nextKind ((Piece.keyword .AND).spaced :: high.piece.spaced :: ws)).endsOperand =
      true := rfl
  simp only [betweenBounds, run_bind, run_value _ _ hand, run_accept, Piece.kind_keyword,
    run_value _ _ hws, run_pure]
  simp [Value.expressions, Value.count]

/-- A comparison that is only passed. -/
theorem run_predicate_loose {left : Expression} {w : Written} {v : Value}
    (hw : w.piece.kind ∈ [TokenKind.symbol .greater, .symbol .lessGreater, .keyword .LIKE])
    (hws : (nextKind ws).endsOperand = true) :
    predicate left (standing before (w :: v.piece.spaced :: ws) body) =
      .ok () (standing (before ++ layout [w, v.piece.spaced]) ws (body.counted v.questions)) := by
  simp only [List.mem_cons, List.not_mem_nil, or_false] at hw
  have hsymbol : nextKind (w :: v.piece.spaced :: ws) ≠ .symbol .equal := by
    rcases hw with h | h | h <;> simp [h]
  have hkeyword {k : Keyword} (hk : k ≠ .LIKE) :
      nextKind (w :: v.piece.spaced :: ws) ∉ [k].map TokenKind.keyword := by
    rcases hw with h | h | h <;> simp [h, hk.symm]
  have hloose {more : List TokenKind} : w.piece.kind ∈ looseComparisons ++ more := by
    rcases hw with h | h | h <;> simp [h, looseComparisons]
  simp only [predicate, run_bind, run_dialect, run_skipSymbol_none hsymbol, Bool.false_eq_true,
    if_false, run_skipKeyword_none (hkeyword (k := .IN) (by decide)),
    run_skipKeyword_none (hkeyword (k := .BETWEEN) (by decide)),
    run_skipKeyword_none (hkeyword (k := .NOT) (by decide)),
    run_skipKeyword_none (hkeyword (k := .IS) (by decide)), run_skipIf hloose, if_true,
    run_value _ _ hws, run_pure]
  simp

/-- A predicate is read to its end and recorded if it is a condition. -/
theorem run_predicate {left : Expression} {column : Column} (t : Test)
    (hcolumn : body.tables.column? left = some column) (hws : (nextKind ws).endsOperand = true) :
    predicate left (standing before (t.pieces ++ ws) body) =
      .ok () (standing (before ++ layout t.pieces) ws (body.narrowed [(column, t)])) := by
  have hrecord {n : Nat} {before : List Char} {comparison : Comparison} {vs : List Value} :
      recordCondition left comparison (Value.expressions body.parameters vs)
          (standing before ws (body.counted n)) =
        .ok () (standing before ws { body with
          parameters := body.parameters + n
          conditions := body.conditions.add
            ⟨column, comparison, Value.expressions body.parameters vs⟩ }) :=
    run_recordCondition hcolumn
  cases t with
  | equal v =>
    have hvalues : [v.expression body.parameters] = Value.expressions body.parameters [v] := rfl
    simp only [predicate, run_bind, run_dialect, Test.pieces, List.cons_append, List.nil_append,
      run_skipSymbol, Piece.kind_symbol, if_true, run_value _ _ hws, hvalues, hrecord,
      Body.narrowed_recorded (t := .equal v) rfl]
    simp [Test.values, Test.questions, Value.count]
  | isIn v vs =>
    simp +decide only [predicate, run_bind, run_dialect, Test.pieces, List.cons_append,
      run_skipSymbol_none, nextKind_cons, Piece.kind_keyword, if_false, run_skipKeyword, if_true,
      run_inValues (List.cons_ne_nil v vs), hrecord,
      Body.narrowed_recorded (t := .isIn v vs) rfl]
    simp [Test.values, Test.questions]
  | between low high =>
    simp +decide only [predicate, run_bind, run_dialect, Test.pieces, List.cons_append,
      List.nil_append, run_skipSymbol_none, nextKind_cons, Piece.kind_keyword, if_false,
      run_skipKeyword_none, run_skipKeyword, if_true, run_betweenBounds hws, hrecord,
      Body.narrowed_recorded (t := .between low high) rfl]
    simp [Test.values, Test.questions]
  | greater v =>
    rw [Body.narrowed_passed rfl]
    exact run_predicate_loose (w := (Piece.symbol .greater).spaced) (by simp [Piece.kind]) hws
  | unequal v =>
    rw [Body.narrowed_passed rfl]
    exact run_predicate_loose (w := (Piece.symbol .lessGreater).spaced) (by simp [Piece.kind]) hws
  | like v =>
    rw [Body.narrowed_passed rfl]
    exact run_predicate_loose (w := (Piece.keyword .LIKE).spaced) (by simp [Piece.kind]) hws
  | notIn v vs =>
    simp +decide only [predicate, negatedComparison, run_bind, run_dialect, Test.pieces,
      List.cons_append, run_skipSymbol_none, nextKind_cons, Piece.kind_keyword, if_false,
      run_skipKeyword_none, run_skipKeyword, if_true, run_inValues (List.cons_ne_nil v vs),
      run_pure, Body.narrowed_passed (t := .notIn v vs) rfl]
    simp [Test.values, Test.questions]
  | isNull =>
    have hnull (before : List Char) :=
      (readsAs_lone (w := (Piece.keyword .NULL).spaced) rfl).run before body hws
    simp only [List.singleton_append] at hnull
    simp +decide only [predicate, run_bind, run_dialect, Test.pieces, List.cons_append,
      List.nil_append, run_skipSymbol_none, nextKind_cons, Piece.kind_keyword, if_false,
      run_skipKeyword_none, run_skipKeyword, if_true, hnull, run_pure,
      Body.narrowed_passed (t := .isNull) rfl]
    simp [Test.values, Test.questions, Piece.questions, Value.count]

/-! ## Comparisons -/

/-- The pieces are read as the name of a column in a statement on these tables. -/
structure Names (tables : Tables) (us : List Written) (column : Column) : Prop where
  opens : nextKind us = .literal .identifier
  run {κ : Type} (before : List Char) {ws : List Written} {body : Body κ}
    (hbody : body.tables = tables) (hws : (nextKind ws).endsOperand = true) :
    ∃ left, operand (standing before (us ++ ws) body) =
        .ok left (standing (before ++ layout us) ws body) ∧
      tables.column? left = some column

/-- In a statement on one table a name is that of a column. -/
theorem names_word {tables : Tables} (htables : tables.size = 1) (c : Word) :
    Names tables [(Piece.name c).spaced] ⟨c.text, tables.firstName?⟩ where
  opens := Piece.kind_name c
  run _ _ _ _ hws :=
    ⟨.identifier c.text, (readsAs_lone (w := (Piece.name c).spaced) rfl).run _ _ hws,
      by rw [Tables.column?, if_pos htables]⟩

/-- A name behind an alias is that of a column of the table that has the alias. -/
theorem names_property {tables : Tables} {table : Table} {a : Word}
    (htable : tables.find? a.text = some table) (ha : tables.contains a.text = false) (c : Word) :
    Names tables [(Piece.name a).spaced, (Piece.symbol .dot).tight, (Piece.name c).tight]
      ⟨c.text, some table.name⟩ where
  opens := Piece.kind_name a
  run _ _ _ hbody hws :=
    ⟨.property a.text c.text,
      run_operand_property (a := (Piece.name a).spaced) (d := (Piece.symbol .dot).tight)
        (c := (Piece.name c).tight) rfl rfl rfl (hbody ▸ ha) hws,
      by rw [Tables.column?, htable, Option.map_some]⟩

end Written

/-- A comparison as it is written: the name of a column, the column, and the test. -/
structure Compared where
  left : List Written
  column : Column
  test : Test

namespace Compared

/-- The pieces of the comparison. -/
def pieces (p : Compared) : List Written :=
  p.left ++ p.test.pieces

/-- Comparisons with `AND` between them. -/
def list (ps : List Compared) : List Written :=
  [(Piece.keyword .AND).spaced].intercalate (ps.map pieces)

/-- The columns with their tests. -/
def tests (ps : List Compared) : List (Column × Test) :=
  ps.map fun p => (p.column, p.test)

end Compared

/-- Tokens that may follow the comparisons of a `WHERE`. -/
def TokenKind.behindWhere : List TokenKind :=
  [.endOfText, .keyword .LIMIT]

namespace Written

open SqlRouting.Parser SqlRouting.Grammar

variable {κ : Type} {before : List Char} {ws : List Written} {body : Body κ}

/-- A test starts with an operator or a keyword, so that the column before it is complete. -/
theorem endsOperand_test (t : Test) (ws : List Written) :
    (nextKind (t.pieces ++ ws)).endsOperand = true := by
  cases t <;> rfl

/-- A comparison is read to its end. -/
theorem run_comparison {p : Compared} (hname : Names body.tables p.left p.column)
    (hws : (nextKind ws).endsOperand = true) (hparen : nextKind ws ≠ .symbol .rightParen) :
    comparison (standing before (p.pieces ++ ws) body) =
      .ok () (standing (before ++ layout p.pieces) ws
        (body.narrowed [(p.column, p.test)])) := by
  obtain ⟨left, column, test⟩ := p
  obtain ⟨w, us, rfl⟩ : ∃ w us, left = w :: us := by
    cases left with
    | nil => exact absurd hname.opens (by simp)
    | cons w us => exact ⟨w, us, rfl⟩
  have hopens : nextKind (w :: us ++ (test.pieces ++ ws)) = .literal .identifier := hname.opens
  obtain ⟨left, hleft, hcolumn⟩ := hname.run before rfl (endsOperand_test test ws)
  simp +decide only [comparison, Compared.pieces, List.append_assoc, run_bind, run_refuseEnd,
    run_skipSymbol_none, hopens, hleft, run_predicate test hcolumn hws,
    run_skipSymbol_none hparen, run_pure]
  simp

/-- Comparisons are read one by one. -/
theorem run_comparisons {ps : List Compared} (hne : ps ≠ [])
    (hnames : ∀ p ∈ ps, Names body.tables p.left p.column)
    (hws : nextKind ws ∈ TokenKind.behindWhere) :
    comparisons (standing before (Compared.list ps ++ ws) body) =
      .ok () (standing (before ++ layout (Compared.list ps)) ws
        (body.narrowed (Compared.tests ps))) := by
  have hend : ∀ kind ∈ .keyword .AND :: TokenKind.behindWhere,
      kind.endsOperand = true ∧ kind ≠ .symbol .rightParen := by decide
  have hand : ∀ kind ∈ TokenKind.behindWhere, kind ∉ [TokenKind.keyword .AND] := by decide
  have hread := run_separatedBy before ws body [.keyword .AND] comparison
    (Piece.keyword .AND).spaced Compared.pieces (fun _ ps b => b.narrowed (Compared.tests ps))
    (fun b => b.tables = body.tables) hne (by simp [Piece.kind]) (hand _ hws)
    (fun _ _ _ _ _ => Body.narrowed_cons) ?_ rfl
  · have hkeyword : skipKeyword (κ := κ) [.AND] = skipIf [.keyword .AND] :=
      skipKeyword_eq_skipIf _
    simp only [comparisons, run_bind, hkeyword, Compared.list, hread, run_pure]
  · intro p hp before vs b hb hvs
    have hvs := hend (nextKind vs) (by
      rcases hvs with h | h
      · simp [h, Piece.kind]
      · exact h ▸ List.mem_cons_of_mem _ hws)
    exact ⟨run_comparison (hb ▸ hnames p hp) hvs.1 hvs.2, hb⟩

/-- A `WHERE` is read to its end, and its conditions are recorded. -/
theorem run_whereClause (before : List Char) (body : Body κ) {ps : List Compared} (hne : ps ≠ [])
    (hnames : ∀ p ∈ ps, Names body.tables p.left p.column)
    (hws : nextKind ws ∈ TokenKind.behindWhere) :
    whereClause (standing before ((Piece.keyword .WHERE).spaced :: (Compared.list ps ++ ws)) body) =
      .ok () (standing (before ++ layout ((Piece.keyword .WHERE).spaced :: Compared.list ps)) ws
        (body.narrowed (Compared.tests ps))) := by
  have hor : ∀ kind ∈ TokenKind.behindWhere, kind ∉ [Keyword.OR].map .keyword := by decide
  have hwhere : nextKind ((Piece.keyword .WHERE).spaced :: (Compared.list ps ++ ws)) ∈
      TokenKind.behindTable := by simp [Piece.kind, TokenKind.behindTable]
  have halias := run_tableAlias_none before body hwhere
  simp +decide only [whereClause, run_bind, halias, run_skipKeyword, Piece.kind_keyword, if_true,
    run_comparisons hne hnames hws, run_refuse (hor _ hws)]
  simp

end Written

end SqlRouting
