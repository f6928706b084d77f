import SqlRouting.Proofs.Written.Where

/-!
# Written updates

An `UPDATE` of one table sets columns to operands of any depth, in which every token stands behind a
blank. It is parsed back: every assignment comes out with the value of its operand, or with its text
where it has none (`Operand.expression`), and the conditions with their values
(`parse_table_update`).
-/

namespace SqlRouting

open Text (byteLength)

/-! ## Operands -/

/-- A sign before an operand. -/
inductive Sign where
  | plus
  | minus
  deriving DecidableEq

/-- The sign as a symbol. -/
def Sign.symbol : Sign → Symbol
  | plus => .plus
  | minus => .minus

/-- An arithmetic operator. -/
inductive Arithmetic where
  | add
  | subtract
  | multiply
  | divide
  | modulo
  deriving DecidableEq

/-- The operator as a symbol. -/
def Arithmetic.symbol : Arithmetic → Symbol
  | add => .plus
  | subtract => .minus
  | multiply => .star
  | divide => .slash
  | modulo => .percent

mutual

/-- An operand without signs and operators. -/
inductive Primary where
  | value (v : Value)
  | name (w : Word)
  | call (f : Word) (arguments : Operands)
  | group (content : Operands)

/-- An operand: signs and primary operands with operators between them. -/
inductive Operand where
  | primary (p : Primary)
  | signed (s : Sign) (o : Operand)
  | joined (p : Primary) (op : Arithmetic) (o : Operand)

/-- Operands with commas between them. -/
inductive Operands where
  | one (o : Operand)
  | more (o : Operand) (os : Operands)

end

mutual

/-- The operand as it is written. -/
def Primary.written : Primary → String
  | .value v => v.written
  | .name w => w.text
  | .call f os => f.text ++ " " ++ ("( " ++ os.written ++ " )")
  | .group os => "( " ++ os.written ++ " )"

/-- The operand as it is written. -/
def Operand.written : Operand → String
  | .primary p => p.written
  | .signed s o => s.symbol.text ++ " " ++ o.written
  | .joined p op o => p.written ++ " " ++ (op.symbol.text ++ " " ++ o.written)

/-- The operands as they are written. -/
def Operands.written : Operands → String
  | .one o => o.written
  | .more o os => o.written ++ " " ++ (", " ++ os.written)

end

mutual

/-- The number of placeholders in the operand. -/
def Primary.questions : Primary → Nat
  | .value v => v.questions
  | .name _ => 0
  | .call _ os => os.questions
  | .group os => os.questions

/-- The number of placeholders in the operand. -/
def Operand.questions : Operand → Nat
  | .primary p => p.questions
  | .signed _ o => o.questions
  | .joined p _ o => p.questions + o.questions

/-- The number of placeholders in the operands. -/
def Operands.questions : Operands → Nat
  | .one o => o.questions
  | .more o os => o.questions + os.questions

end

/-- The whole number that the operand is, perhaps behind signs. -/
def Operand.integer? : Operand → Option Int
  | .primary (.value (.integer n _)) => some n
  | .signed .plus o => o.integer?
  | .signed .minus o => o.integer?.map fun n => -n
  | _ => none

/-- What the operand says, `index` placeholders having come before: a value or a name on its own is
    kept as what it is, a whole number behind signs as a number, and all else as it is written. -/
def Operand.expression (index : Nat) : Operand → Expression
  | .primary (.value v) => v.expression index
  | .primary (.name w) => .identifier w.text
  | o =>
    match o.integer? with
    | some n => .number (.integer n)
    | none => .other o.written

/-! ## The pieces of operands -/

mutual

/-- The pieces of the operand. -/
def Primary.pieces : Primary → List Written
  | .value v => [v.piece.spaced]
  | .name w => [(Piece.name w).spaced]
  | .call f os => (Piece.name f).spaced :: (Piece.symbol .leftParen).spaced ::
      (os.pieces ++ [(Piece.symbol .rightParen).spaced])
  | .group os =>
    (Piece.symbol .leftParen).spaced :: (os.pieces ++ [(Piece.symbol .rightParen).spaced])

/-- The pieces of the operand. -/
def Operand.pieces : Operand → List Written
  | .primary p => p.pieces
  | .signed s o => (Piece.symbol s.symbol).spaced :: o.pieces
  | .joined p op o => p.pieces ++ (Piece.symbol op.symbol).spaced :: o.pieces

/-- The pieces of the operands. -/
def Operands.pieces : Operands → List Written
  | .one o => o.pieces
  | .more o os => o.pieces ++ (Piece.symbol .comma).spaced :: os.pieces

end

mutual

theorem Primary.prints : ∀ p : Primary, Written.Prints p.pieces p.written
  | .value v => by rw [Primary.pieces, Primary.written]; exact v.prints
  | .name w => by rw [Primary.pieces, Primary.written]; exact .name w
  | .call f os => by
    rw [Primary.pieces, Primary.written]
    exact ((Written.Prints.name f).cons ((Written.Prints.symbol .leftParen).cons
      (os.prints.append (.symbol .rightParen)))).of_eq (by simp [Symbol.text])
  | .group os => by
    rw [Primary.pieces, Primary.written]
    exact ((Written.Prints.symbol .leftParen).cons
      (os.prints.append (.symbol .rightParen))).of_eq (by simp [Symbol.text])

theorem Operand.prints : ∀ o : Operand, Written.Prints o.pieces o.written
  | .primary p => by rw [Operand.pieces, Operand.written]; exact p.prints
  | .signed s o => by
    rw [Operand.pieces, Operand.written]
    exact (Written.Prints.symbol s.symbol).cons o.prints
  | .joined p op o => by
    rw [Operand.pieces, Operand.written]
    exact p.prints.append ((Written.Prints.symbol op.symbol).cons o.prints)

theorem Operands.prints : ∀ os : Operands, Written.Prints os.pieces os.written
  | .one o => by rw [Operands.pieces, Operands.written]; exact o.prints
  | .more o os => by
    rw [Operands.pieces, Operands.written]
    exact (o.prints.append ((Written.Prints.symbol .comma).cons os.prints)).of_eq
      (by simp [Symbol.text])

end

mutual

theorem Primary.questions_pieces : ∀ p : Primary, Written.questions p.pieces = p.questions
  | .value v => by simp [Primary.pieces, Primary.questions, v.questions_piece]
  | .name w => by simp [Primary.pieces, Primary.questions, Piece.questions]
  | .call f os => by
    simp [Primary.pieces, Primary.questions, Piece.questions, os.questions_pieces]
  | .group os => by
    simp [Primary.pieces, Primary.questions, Piece.questions, os.questions_pieces]

theorem Operand.questions_pieces : ∀ o : Operand, Written.questions o.pieces = o.questions
  | .primary p => by rw [Operand.pieces, Operand.questions, p.questions_pieces]
  | .signed s o => by
    cases s <;> simp [Operand.pieces, Operand.questions, Piece.questions, Sign.symbol,
      o.questions_pieces]
  | .joined p op o => by
    cases op <;> simp [Operand.pieces, Operand.questions, Piece.questions, Arithmetic.symbol,
      p.questions_pieces, o.questions_pieces]

theorem Operands.questions_pieces : ∀ os : Operands, Written.questions os.pieces = os.questions
  | .one o => by rw [Operands.pieces, Operands.questions, o.questions_pieces]
  | .more o os => by
    simp [Operands.pieces, Operands.questions, Piece.questions, o.questions_pieces,
      os.questions_pieces]

end

mutual

theorem Primary.balanced : ∀ p : Primary, Written.Balanced p.pieces
  | .value v => by rw [Primary.pieces]; exact v.balanced
  | .name w => by
    rw [Primary.pieces]
    exact .cons (by simp) .nil
  | .call f os => by
    rw [Primary.pieces]
    exact .cons (by simp) (.group rfl rfl os.balanced .nil)
  | .group os => by
    rw [Primary.pieces]
    exact .group rfl rfl os.balanced .nil

theorem Operand.balanced : ∀ o : Operand, Written.Balanced o.pieces
  | .primary p => by rw [Operand.pieces]; exact p.balanced
  | .signed s o => by
    rw [Operand.pieces]
    exact .cons (by cases s <;> simp [Sign.symbol]) o.balanced
  | .joined p op o => by
    rw [Operand.pieces]
    exact p.balanced.append (.cons (by cases op <;> simp [Arithmetic.symbol]) o.balanced)

theorem Operands.balanced : ∀ os : Operands, Written.Balanced os.pieces
  | .one o => by rw [Operands.pieces]; exact o.balanced
  | .more o os => by
    rw [Operands.pieces]
    exact o.balanced.append (.cons (by simp) os.balanced)

end

/-! ## Reading operands -/

namespace Operand

/-- The pieces of the signs before the operand. -/
def signs : Operand → List Written
  | signed s o => (Piece.symbol s.symbol).spaced :: o.signs
  | primary _ | joined _ _ _ => []

/-- The first operand behind the signs. -/
def head : Operand → Primary
  | primary p | joined p _ _ => p
  | signed _ o => o.head

/-- The pieces of what operators join to the first operand. -/
def tail : Operand → List Written
  | primary _ => []
  | signed _ o => o.tail
  | joined _ op o => (Piece.symbol op.symbol).spaced :: o.pieces

theorem pieces_eq : ∀ o : Operand, o.pieces = o.signs ++ (o.head.pieces ++ o.tail)
  | primary p => by simp [pieces, signs, head, tail]
  | signed s o => by simp [pieces, signs, head, tail, o.pieces_eq]
  | joined p op o => by simp [pieces, signs, head, tail]

theorem isSign_signs : ∀ o : Operand, ∀ w ∈ o.signs, w.piece.isSign = true
  | primary _ => by simp [signs]
  | signed s o => by
    have hs : (Piece.symbol s.symbol).isSign = true := by cases s <;> rfl
    simpa [signs, hs] using o.isSign_signs
  | joined _ _ _ => by simp [signs]

end Operand

theorem Primary.isPrimary (p : Primary) : Written.IsPrimary p.pieces := by
  cases p with
  | value v => exact .lone v.isLone_piece
  | name w => exact .lone rfl
  | call f os => exact .call rfl rfl rfl os.balanced
  | group os => exact .group rfl rfl os.balanced

namespace Operand

theorem isJoined_tail : ∀ o : Operand, Written.IsJoined o.tail
  | primary _ => .nil
  | signed _ o => o.isJoined_tail
  | joined _ op o => by
    have hop : op.symbol ∈ Symbol.operators := by cases op <;> decide
    rw [tail, o.pieces_eq]
    exact .cons rfl hop o.isSign_signs o.head.isPrimary o.isJoined_tail

/-- The number of minus signs before the operand. -/
def minuses (o : Operand) : Nat :=
  o.signs.countP (·.piece = .symbol .minus)

/-- What the operand says without its signs, `index` placeholders having come before. -/
def unsigned (index : Nat) (o : Operand) : Expression :=
  Written.unsignedExpression index o.head.pieces o.tail

variable {index : Nat}

/-- More than one piece is kept as it is written. -/
theorem unsignedExpression_eq_other {primary joined : List Written} {text : String}
    (h : ∀ w, primary ++ joined ≠ [w]) (htext : Written.Prints (primary ++ joined) text) :
    Written.unsignedExpression index primary joined = .other text := by
  have hother : Written.unsignedExpression index primary joined =
      .other (String.ofList (Written.layout (Written.flush (primary ++ joined)))) := by
    unfold Written.unsignedExpression
    split
    · exact absurd rfl (h _)
    · rfl
  rw [hother, htext.layout_flush, String.ofList_toList]

theorem unsigned_primary (p : Primary) :
    (primary p).unsigned index = (primary p).expression index := by
  have hprints := p.prints
  cases p with
  | value v =>
    simp [unsigned, head, tail, Primary.pieces, Written.unsignedExpression, v.expression_piece,
      expression]
  | name w =>
    simp [unsigned, head, tail, Primary.pieces, Written.unsignedExpression, Piece.expression,
      expression]
  | call f os =>
    exact unsignedExpression_eq_other (by simp [head, tail, Primary.pieces])
      (by simpa [head, tail, written] using hprints)
  | group os =>
    exact unsignedExpression_eq_other (by simp [head, tail, Primary.pieces])
      (by simpa [head, tail, written] using hprints)

theorem unsigned_joined (p : Primary) (op : Arithmetic) (o : Operand) :
    (joined p op o).unsigned index = (joined p op o).expression index := by
  refine unsignedExpression_eq_other (fun w hw => ?_) ?_
  · have hlength := congrArg List.length hw
    have hpos := List.length_pos_iff.2 o.prints.ne_nil
    simp [tail] at hlength
    omega
  · simpa [head, tail, pieces] using (joined p op o).prints

/-- The number that the operand is, is the one without its signs or the one opposite to it. -/
theorem unsigned_of_integer (index : Nat) : ∀ {o : Operand} {m : Int}, o.integer? = some m →
    ∃ n, o.unsigned index = .number (.integer n) ∧ m = if o.minuses % 2 = 1 then -n else n
  | primary (.value (.integer n le)), m, h => by
    obtain rfl : (n : Int) = m := by simpa [integer?] using h
    exact ⟨n, unsigned_primary _, by simp [minuses, signs]⟩
  | signed .plus o, m, h => by
    obtain ⟨n, hn, hm⟩ := unsigned_of_integer index (o := o) (by simpa [integer?] using h)
    have hminuses : (signed .plus o).minuses = o.minuses := by
      simp [minuses, signs, Sign.symbol]
    exact ⟨n, hn, by rw [hminuses, hm]⟩
  | signed .minus o, m, h => by
    obtain ⟨k, hk, rfl⟩ := Option.map_eq_some_iff.1 (by simpa [integer?] using h)
    obtain ⟨n, hn, hm⟩ := unsigned_of_integer index hk
    have hminuses : (signed .minus o).minuses = o.minuses + 1 := by
      simp [minuses, signs, Sign.symbol]
    refine ⟨n, hn, ?_⟩
    rw [hminuses, hm]
    split <;> split <;> omega

/-- An operand that is no whole number is none without its signs either. -/
theorem unsigned_of_not_integer (index : Nat) : ∀ {o : Operand}, o.integer? = none →
    ∀ n, o.unsigned index ≠ .number n
  | primary p, h, n => by
    rw [unsigned_primary]
    cases p with
    | value v => cases v <;> simp [expression, Value.expression, integer?] at h ⊢
    | _ => simp [expression, integer?]
  | signed .plus o, h, n => unsigned_of_not_integer index (o := o) (by simpa [integer?] using h) n
  | signed .minus o, h, n => unsigned_of_not_integer index (o := o) (by simpa [integer?] using h) n
  | joined p op o, h, n => by
    rw [unsigned_joined]
    simp [expression, integer?]

/-- The operand is read as what it says. -/
theorem operandExpression_eq (index : Nat) (o : Operand) :
    Written.operandExpression index o.signs o.head.pieces o.tail = o.expression index := by
  cases o with
  | primary p => exact unsigned_primary p
  | joined p op o => exact unsigned_joined p op o
  | signed s o =>
    have hexpression : (signed s o).expression index =
        match (signed s o).integer? with
        | some n => .number (.integer n)
        | none => .other (signed s o).written := rfl
    have htext : String.ofList (Written.layout (Written.flush ((signed s o).signs ++
        ((signed s o).head.pieces ++ (signed s o).tail)))) = (signed s o).written := by
      rw [← pieces_eq, (signed s o).prints.layout_flush, String.ofList_toList]
    rw [hexpression, Written.operandExpression, if_neg (by simp [signs]), htext]
    cases h : (signed s o).integer? with
    | some m =>
      obtain ⟨n, hn, hm⟩ := unsigned_of_integer index h
      rw [unsigned] at hn
      rw [minuses] at hm
      rw [hn, hm]
      simp only
      split <;> rfl
    | none =>
      have hother := unsigned_of_not_integer index h
      split
      case h_1 n hn => exact absurd hn (hother n)
      case h_2 => rfl

/-- An operand is read to its end. -/
theorem readsAs (o : Operand) : Written.ReadsAs o.pieces (o.expression ·) where
  run before _ body hws := by
    have hquestions : Written.questions (o.head.pieces ++ o.tail) = Written.questions o.pieces := by
      rw [o.pieces_eq, Written.questions_append o.signs, Written.questions_signs o.isSign_signs,
        Nat.zero_add]
    have hread :=
      Written.run_operand before body o.isSign_signs o.head.isPrimary o.isJoined_tail hws
    rw [operandExpression_eq, hquestions, ← o.pieces_eq] at hread
    rw [o.pieces_eq, List.append_assoc, List.append_assoc, hread, o.pieces_eq]

end Operand

/-! ## Assignments -/

/-- An assignment of an operand to a column. -/
structure Assigned where
  column : Word
  value : Operand

namespace Assigned

/-- The assignment as it is written. -/
def written (a : Assigned) : String :=
  a.column.text ++ " = " ++ a.value.written

/-- The assignments that are recorded for a table, `index` placeholders having come before. -/
def entries (table : String) : Nat → List Assigned → List (Column × Expression)
  | _, [] => []
  | index, a :: more =>
    (⟨a.column.text, some table⟩, a.value.expression index) ::
      entries table (index + a.value.questions) more

/-- The number of placeholders in assignments. -/
def count (as : List Assigned) : Nat :=
  (as.map fun a => a.value.questions).sum

/-- The pieces of the assignment. -/
def pieces (a : Assigned) : List Written :=
  (Piece.name a.column).spaced :: (Piece.symbol .equal).spaced :: a.value.pieces

theorem pieces_prints (a : Assigned) : Written.Prints a.pieces a.written :=
  ((Written.Prints.name a.column).cons ((Written.Prints.symbol .equal).cons a.value.prints)).of_eq
    (by simp [written, Symbol.text])

/-- Assignments with commas between them. -/
def list (as : List Assigned) : List Written :=
  [(Piece.symbol .comma).tight].intercalate (as.map pieces)

theorem list_prints {as : List Assigned} (hne : as ≠ []) :
    Written.Prints (list as) (", ".intercalate (as.map written)) :=
  .intercalate .comma rfl hne fun a _ => a.pieces_prints

end Assigned

/-- The body with assignments to columns of a table recorded. -/
def Body.assigning (table : String) (as : List Assigned) (b : Body UpdateClauses) :
    Body UpdateClauses :=
  { b with
    parameters := b.parameters + Assigned.count as
    clauses := { assignments := b.clauses.assignments ++ Assigned.entries table b.parameters as } }

theorem Body.assigning_cons {table : String} {a : Assigned} {as : List Assigned}
    {b : Body UpdateClauses} :
    b.assigning table (a :: as) = (b.assigning table [a]).assigning table as := by
  simp [assigning, Assigned.count, Assigned.entries, Nat.add_assoc]

namespace Written

open SqlRouting.Parser SqlRouting.Grammar

variable {before : List Char} {ws : List Written} {body : Body UpdateClauses} {table : Table}

/-- An assignment is read to its end and recorded. -/
theorem run_assignment {a : Assigned} (htables : body.tables = ⟨[table]⟩)
    (hws : (nextKind ws).endsOperand = true) :
    assignment (standing before (a.pieces ++ ws) body) =
      .ok () (standing (before ++ layout a.pieces) ws (body.assigning table.name [a])) := by
  have htarget : operand (standing before ((Piece.name a.column).spaced ::
      (Piece.symbol .equal).spaced :: (a.value.pieces ++ ws)) body) =
        .ok (.identifier a.column.text) (standing (before ++ (Piece.name a.column).spaced.text)
          ((Piece.symbol .equal).spaced :: (a.value.pieces ++ ws)) body) := by
    have hequal : (nextKind ((Piece.symbol .equal).spaced :: (a.value.pieces ++ ws))).endsOperand =
        true := rfl
    simpa [Piece.questions, Piece.expression] using
      (readsAs_lone (w := (Piece.name a.column).spaced) rfl).run before body hequal
  have hend : nextKind (a.value.pieces ++ ws) ≠ .endOfText := by
    obtain ⟨w, us, hus⟩ := List.exists_cons_of_ne_nil a.value.prints.ne_nil
    rw [hus]
    exact w.piece.kind_ne_endOfText
  have hcolumn : (⟨[table]⟩ : Tables).column? (.identifier a.column.text) =
      some ⟨a.column.text, some table.name⟩ := rfl
  simp +decide only [assignment, Assigned.pieces, List.cons_append, run_bind, run_refuseEnd,
    nextKind_cons, Piece.kind_name, htarget, run_skipIf, Piece.kind_symbol]
  simp only [run_refuseEnd hend, a.value.readsAs.run _ _ hws, run_routing, standing_body,
    Body.tables_counted, htables, hcolumn, run_modifyClauses]
  simp [Body.assigning, Body.counted, Assigned.count, Assigned.entries, a.value.questions_pieces]

/-- Assignments are read one by one. -/
theorem run_assignments (before : List Char) {as : List Assigned} (hne : as ≠ [])
    (htables : body.tables = ⟨[table]⟩) (hws : nextKind ws = .keyword .WHERE) :
    assignments (standing before ((Piece.keyword .SET).spaced :: (Assigned.list as ++ ws)) body) =
      .ok () (standing (before ++ layout ((Piece.keyword .SET).spaced :: Assigned.list as)) ws
        (body.assigning table.name as)) := by
  have hitem : ∀ a ∈ as, ∀ before vs (b : Body UpdateClauses), b.tables = ⟨[table]⟩ →
      nextKind vs = (Piece.symbol .comma).tight.piece.kind ∨ nextKind vs = nextKind ws →
        assignment (standing before (a.pieces ++ vs) b) =
            .ok () (standing (before ++ layout a.pieces) vs (b.assigning table.name [a])) ∧
          (b.assigning table.name [a]).tables = ⟨[table]⟩ := by
    intro a _ before vs b hb hvs
    refine ⟨run_assignment hb ?_, hb⟩
    rcases hvs with h | h
    · rw [h]
      rfl
    · rw [h, hws]
      rfl
  have hread (before : List Char) := run_separatedBy before ws body [Symbol.comma] assignment
    (Piece.symbol .comma).tight Assigned.pieces (fun _ as b => b.assigning table.name as)
    (fun b => b.tables = ⟨[table]⟩) hne (by simp [Piece.kind]) (by simp [hws])
    (fun _ _ _ _ _ => Body.assigning_cons) hitem htables
  simp only [assignments, run_bind, run_accept, Piece.kind_keyword, commaSeparated, skipSymbol,
    Assigned.list, hread, run_pure]
  simp

end Written

/-! ## Updates -/

/-- An update of one table by conditions on its columns. -/
structure TableUpdate where
  table : Word
  assigned : List Assigned
  predicates : List (Word × Test)
  assigned_ne_nil : assigned ≠ [] := by simp
  predicates_ne_nil : predicates ≠ [] := by simp

namespace TableUpdate

variable (u : TableUpdate)

/-- The update as it is written. -/
def written : String :=
  "UPDATE " ++ u.table.text ++ " SET " ++ ", ".intercalate (u.assigned.map Assigned.written) ++
    " WHERE " ++ " AND ".intercalate (u.predicates.map fun p => p.1.text ++ " " ++ p.2.written)

/-- The columns with their tests. -/
def tests : List (Column × Test) :=
  u.predicates.map fun p => (⟨p.1.text, some u.table.text⟩, p.2)

/-- What is parsed. -/
def body : Body UpdateClauses where
  tables := ⟨[⟨u.table.text, none⟩]⟩
  conditions := ⟨Conditions.kept (Test.conditions (Assigned.count u.assigned) u.tests)⟩
  marks := [.table 7 u.table.text]
  parameters := Assigned.count u.assigned + Test.count u.tests
  clauses := { assignments := Assigned.entries u.table.text 0 u.assigned }

/-- The only mention of a table. -/
def mention : Mention :=
  ⟨u.table, none⟩

/-- The predicates as comparisons. -/
def comparisons : List Compared :=
  u.predicates.map fun p =>
    ⟨[(Piece.name p.1).spaced], ⟨p.1.text, some u.table.text⟩, p.2⟩

/-- The pieces of the update. -/
def pieces : List Written :=
  (Piece.keyword .UPDATE).spaced :: (Mention.list [u.mention] ++ (Piece.keyword .SET).spaced ::
    (Assigned.list u.assigned ++ (Piece.keyword .WHERE).spaced :: Compared.list u.comparisons))

theorem pieces_prints : Written.Prints u.pieces u.written := by
  have htable := Mention.list_prints (List.cons_ne_nil u.mention [])
  have hpredicates : Written.Prints (Compared.list u.comparisons)
      (" AND ".intercalate (u.predicates.map fun p => p.1.text ++ " " ++ p.2.written)) := by
    rw [Compared.list, comparisons, List.map_map]
    exact .intercalate (.spaced (by simp)) rfl u.predicates_ne_nil fun p _ =>
      (Written.Prints.name p.1).cons p.2.pieces_prints
  refine ((Written.Prints.keyword .UPDATE (by decide)).cons (htable.append
    ((Written.Prints.keyword .SET (by decide)).cons ((Assigned.list_prints
      u.assigned_ne_nil).append ((Written.Prints.keyword .WHERE (by decide)).cons
        hpredicates))))).of_eq ?_
  simp [written, Keyword.text, String.toList_intercalate, mention, Mention.written]

open Written SqlRouting.Parser SqlRouting.Grammar

/-- What is known once the table has been read. -/
def tableBody : Body UpdateClauses :=
  { (Body.empty : Body UpdateClauses) with
    tables := ⟨[⟨u.table.text, none⟩]⟩
    marks := [.table 7 u.table.text] }

theorem narrowed_tests :
    (u.tableBody.assigning u.table.text u.assigned).narrowed u.tests = u.body := by
  rw [Body.narrowed_eq rfl]
  simp [Body.assigning, tableBody, body, Body.empty]
  rfl

/-- The table and the assignments are read up to the predicates. -/
theorem run_updateHead {ws : List Written} :
    updateHead (standing [] ((Piece.keyword .UPDATE).tight :: (Mention.list [u.mention] ++
        (Piece.keyword .SET).spaced :: (Assigned.list u.assigned ++
          (Piece.keyword .WHERE).spaced :: ws))) Body.empty) =
      .ok () (standing ("UPDATE".toList ++ layout (Mention.list [u.mention]) ++
          layout ((Piece.keyword .SET).spaced :: Assigned.list u.assigned))
        ((Piece.keyword .WHERE).spaced :: ws) (u.tableBody.assigning u.table.text u.assigned)) := by
  have htable : (Body.empty : Body UpdateClauses).mentioning 7 [u.mention] = u.tableBody := rfl
  have hlist : ∀ ws, nextKind (Mention.list [u.mention] ++ ws) = .literal .identifier := fun _ =>
    Piece.kind_name u.table
  have hset : ∀ ws, nextKind ((Piece.keyword .SET).spaced :: ws) ∈ TokenKind.behindTable ∧
      nextKind ((Piece.keyword .SET).spaced :: ws) ≠ .symbol .comma := by
    simp [Piece.kind, TokenKind.behindTable]
  have hsingle : true = true →
      ((Body.empty : Body UpdateClauses).mentioning 7 [u.mention]).tables.size ≤ 1 :=
    fun _ => Nat.le_refl 1
  have hread := run_tableReferences "UPDATE".toList Body.empty (List.cons_ne_nil u.mention [])
    (hset (Assigned.list u.assigned ++ (Piece.keyword .WHERE).spaced :: ws)).1 (hset _).2 hsingle
  have hpos : byteLength "UPDATE".toList + 1 = 7 := rfl
  rw [hpos, htable] at hread
  have htables : u.tableBody.tables = ⟨[⟨u.table.text, none⟩]⟩ := rfl
  have hwhere : nextKind ((Piece.keyword .WHERE).spaced :: ws) = .keyword .WHERE :=
    Piece.kind_keyword _
  have hassign (before : List Char) :=
    run_assignments before u.assigned_ne_nil htables hwhere
  have hbefore : [] ++ (Piece.keyword .UPDATE).tight.text = "UPDATE".toList := rfl
  simp +decide only [updateHead, run_bind, run_accept, Piece.kind_keyword, run_dialect,
    cursor_dialect, run_skipAll_none, hlist, hbefore, hread, hassign, run_skipUntil_none,
    nextKind_cons]

/-- The predicates are read up to the end. -/
theorem run_whereClause :
    whereClause (standing ("UPDATE".toList ++ layout (Mention.list [u.mention]) ++
        layout ((Piece.keyword .SET).spaced :: Assigned.list u.assigned))
      ((Piece.keyword .WHERE).spaced :: Compared.list u.comparisons)
        (u.tableBody.assigning u.table.text u.assigned)) =
      .ok () (standing u.written.toList [] u.body) := by
  have hnames : ∀ c ∈ u.comparisons, Names ⟨[⟨u.table.text, none⟩]⟩ c.left c.column := by
    intro c hc
    obtain ⟨p, -, rfl⟩ := List.mem_map.1 hc
    exact names_word rfl p.1
  have htests : Compared.tests u.comparisons = u.tests := by
    simp [Compared.tests, comparisons, tests]
  have htext : "UPDATE".toList ++ layout (Mention.list [u.mention]) ++
      layout ((Piece.keyword .SET).spaced :: Assigned.list u.assigned) ++
        layout ((Piece.keyword .WHERE).spaced :: Compared.list u.comparisons) =
          u.written.toList := by
    simp [← u.pieces_prints.layout_flush, pieces, Piece.spelling, Keyword.text]
  have hne : u.comparisons ≠ [] := by simpa [comparisons] using u.predicates_ne_nil
  have hend : nextKind [] ∈ TokenKind.behindWhere := by simp [TokenKind.behindWhere]
  have hread := Written.run_whereClause ("UPDATE".toList ++ layout (Mention.list [u.mention]) ++
      layout ((Piece.keyword .SET).spaced :: Assigned.list u.assigned))
    (u.tableBody.assigning u.table.text u.assigned) hne hnames hend
  rwa [List.append_nil, htext, htests, narrowed_tests] at hread

/-- The whole text is read. -/
theorem run_update :
    update (standing [] (flush u.pieces) Body.empty) =
      .ok () (standing u.written.toList [] u.body) := by
  simp only [update, pieces, flush_cons, run_bind, run_updateHead, run_whereClause,
    run_skipRest_none]

end TableUpdate

/-- An update of one table is parsed to what is written in it. -/
theorem parse_table_update (u : TableUpdate) :
    Statement.parse .mySql .mySql u.written = .ok (.update u.body) := by
  rw [Written.parse_eq Grammar.update .update u.pieces_prints rfl, u.run_update]
  rfl

/-- An update that sets a number behind a sign, an operand of several parts and a placeholder. -/
def TableUpdate.signed : TableUpdate where
  table := { text := "r" }
  assigned := [
    ⟨{ text := "x" }, .signed .minus (.primary (.value (.integer 5 (by decide))))⟩,
    ⟨{ text := "y" }, .joined
      (.call { text := "f" } (.more (.primary (.value .placeholder))
        (.one (.primary (.group (.one (.joined (.name { text := "x" }) .add
          (.primary (.value .placeholder)))))))))
      .multiply (.signed .minus (.primary (.name { text := "y" })))⟩,
    ⟨{ text := "z" }, .primary (.value .placeholder)⟩]
  predicates := [
    ({ text := "k" }, .isIn .placeholder [.integer 3 (by decide)]),
    ({ text := "z" }, .greater .placeholder)]

theorem parse_table_update_signed :
    Statement.parse .mySql .mySql
        "UPDATE r SET x = - 5, y = f ( ? , ( x + ? ) ) * - y, z = ? WHERE k IN (?, 3) AND z > ?" =
      .ok (.update {
        tables := ⟨[⟨"r", none⟩]⟩
        conditions := ⟨[⟨⟨"k", some "r"⟩, .isIn, [.placeholder 3, .number (.integer 3)]⟩]⟩
        marks := [.table 7 "r"]
        parameters := 5
        clauses := {
          assignments := [
            (⟨"x", some "r"⟩, .number (.integer (-5))),
            (⟨"y", some "r"⟩, .other "f ( ? , ( x + ? ) ) * - y"),
            (⟨"z", some "r"⟩, .placeholder 2)] } }) := by
  have hwritten : TableUpdate.signed.written =
      "UPDATE r SET x = - 5, y = f ( ? , ( x + ? ) ) * - y, z = ? WHERE k IN (?, 3) AND z > ?" := by
    decide +kernel
  rw [← hwritten, parse_table_update]
  decide +kernel

end SqlRouting
