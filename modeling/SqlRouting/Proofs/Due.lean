import SqlRouting.Proofs.Clauses

/-!
# Where operands are due

An operand is due in many places of a statement (`OperandPlace`). Each clause comes to its places in
a way of its own: it runs up to them, through the items and rounds before them. So the states in
which an operand is due are given clause by clause (`WhereDue` and so on), for what is said about
all operands of a statement.
-/

namespace SqlRouting

open SqlRouting.Parser

open Relation (ReflTransGen)

/-- A place in a statement where an operand is due. -/
inductive OperandPlace where
  /-- An operand of a select item. -/
  | item
  /-- The left side of a comparison, without a parenthesis or behind one. -/
  | left | inner
  /-- The right side of a comparison. -/
  | right
  /-- A value behind `IN`. -/
  | listed
  /-- The bounds behind `BETWEEN`. -/
  | low | high
  /-- The sides of an equation behind `ON`. -/
  | joinLeft | joinRight
  /-- The keys of `GROUP BY` and `ORDER BY`. -/
  | groupKey | sortKey
  /-- The column that an update assigns to, and its value. -/
  | target | assigned
  /-- A value in a row behind `VALUES`. -/
  | rowValue
  /-- The column that an insert assigns to, and its value. -/
  | column | inserted
  /-- The column that is assigned to behind `ON DUPLICATE KEY UPDATE`, its value, and the column in
      `VALUES(column)`. -/
  | duplicateColumn | duplicateValue | duplicateReference
  deriving DecidableEq, Repr

namespace Parser

variable {κ α : Type}

/-! ## Repetition -/

/-- Rounds of a loop. -/
def Rounds (step : Parser κ Bool) : ParseState κ → ParseState κ → Prop :=
  ReflTransGen fun s s' => step s = .ok true s'

/-- Items of a list, each with the separator behind it. -/
def Items (separator : Parser κ Bool) (item : Parser κ α) : ParseState κ → ParseState κ → Prop :=
  Rounds (do let _ ← item; separator)

end Parser

namespace Grammar

variable {κ : Type}

/-! ## Comparisons -/

/-- The left side of a comparison. -/
def comparisonLeft : Parser κ Expression := do
  refuseEnd
  let _ ← skipSymbol .leftParen
  operand

/-- Behind `IN` an operand is due in the state `s'`. -/
inductive InDue : OperandPlace → ParseState κ → ParseState κ → Prop
  | listed {s s₁ s' : ParseState κ} (hopen : accept Symbol.leftParen s = .ok () s₁)
    (hselect : s₁.cursor.isKeyword [.SELECT] = false)
    (hbefore : Items (skipSymbol .comma) operand s₁ s') : InDue .listed s s'

/-- Behind `BETWEEN` an operand is due in the state `s'`. -/
inductive BoundDue : OperandPlace → ParseState κ → ParseState κ → Prop
  | low (s : ParseState κ) : BoundDue .low s s
  | high {s s₁ s' : ParseState κ} {e : Expression} (hlow : operand s = .ok e s₁)
    (hand : accept Keyword.AND s₁ = .ok () s') : BoundDue .high s s'

/-- Behind `NOT` an operand is due in the state `s'`. -/
inductive NegatedDue : OperandPlace → ParseState κ → ParseState κ → Prop
  | isIn {place : OperandPlace} {s s₁ s' : ParseState κ}
    (hfound : skipKeyword [.IN] s = .ok true s₁) (hdue : InDue place s₁ s') : NegatedDue place s s'
  | between {place : OperandPlace} {s s₁ s' : ParseState κ}
    (hfound : skipKeyword [.BETWEEN] s = .ok true s₁) (hdue : BoundDue place s₁ s') :
    NegatedDue place s s'
  | loose {s s' : ParseState κ} (hother : s.cursor.isKeyword [.IN, .BETWEEN] = false)
    (hfound : skipKeyword (.LIKE :: s.cursor.dialect.comparisons) s = .ok true s') :
    NegatedDue .right s s'

/-- Behind the left side of a comparison an operand is due in the state `s'`. -/
inductive PredicateDue : OperandPlace → ParseState κ → ParseState κ → Prop
  | equal {s s' : ParseState κ} (hfound : skipSymbol .equal s = .ok true s') :
    PredicateDue .right s s'
  | isIn {place : OperandPlace} {s s₁ s' : ParseState κ}
    (hfound : skipKeyword [.IN] s = .ok true s₁) (hdue : InDue place s₁ s') :
    PredicateDue place s s'
  | between {place : OperandPlace} {s s₁ s' : ParseState κ}
    (hfound : skipKeyword [.BETWEEN] s = .ok true s₁) (hdue : BoundDue place s₁ s') :
    PredicateDue place s s'
  | negated {place : OperandPlace} {s s₁ s' : ParseState κ}
    (hfound : skipKeyword [.NOT] s = .ok true s₁) (hdue : NegatedDue place s₁ s') :
    PredicateDue place s s'
  | is {s s₁ s' : ParseState κ} {negated : Bool} (hfound : skipKeyword [.IS] s = .ok true s₁)
    (hnot : skipKeyword [.NOT] s₁ = .ok negated s') : PredicateDue .right s s'
  | loose {s s' : ParseState κ} (hother : s.cursor.isKeyword [.IN, .BETWEEN, .NOT, .IS] = false)
    (hfound : skipIf (looseComparisons ++ s.cursor.dialect.comparisons.map .keyword) s =
      .ok true s') : PredicateDue .right s s'

/-- In a comparison an operand is due in the state `s'`. -/
inductive ComparisonDue : OperandPlace → ParseState κ → ParseState κ → Prop
  | left {s : ParseState κ} (hopen : s.cursor.isSymbol .leftParen = false) : ComparisonDue .left s s
  | inner {s s' : ParseState κ} (hopen : skipSymbol .leftParen s = .ok true s') :
    ComparisonDue .inner s s'
  | predicate {place : OperandPlace} {s s₁ s' : ParseState κ} {e : Expression}
    (hleft : comparisonLeft s = .ok e s₁) (hdue : PredicateDue place s₁ s') :
    ComparisonDue place s s'

/-- From a table alias and a `WHERE` on an operand is due in the state `s'`. -/
inductive WhereDue (place : OperandPlace) : ParseState κ → ParseState κ → Prop
  | intro {s s₁ s₂ s₃ s' : ParseState κ} {asName : Option String}
    (halias : tableAlias s = .ok asName s₁) (hfound : skipKeyword [.WHERE] s₁ = .ok true s₂)
    (hbefore : Items (skipKeyword [.AND]) comparison s₂ s₃) (hdue : ComparisonDue place s₃ s') :
    WhereDue place s s'

/-! ## Tables -/

/-- An equation in the condition of a join. -/
def joinEquation : Parser κ Unit := do
  let _ ← operand
  accept Symbol.equal
  let _ ← operand

/-- A table with its alias and its hints. -/
def hintedTable : Parser κ Unit := do
  tableFactor
  tableHints

/-- In the condition of a join an operand is due in the state `s'`. -/
inductive JoinConditionDue : OperandPlace → ParseState κ → ParseState κ → Prop
  | left {s s₁ s' : ParseState κ} (hfound : skipKeyword [.ON] s = .ok true s₁)
    (hbefore : Items (skipKeyword [.AND]) joinEquation s₁ s') : JoinConditionDue .joinLeft s s'
  | right {s s₁ s₂ s₃ s' : ParseState κ} {e : Expression}
    (hfound : skipKeyword [.ON] s = .ok true s₁)
    (hbefore : Items (skipKeyword [.AND]) joinEquation s₁ s₂) (hleft : operand s₂ = .ok e s₃)
    (hequal : accept Symbol.equal s₃ = .ok () s') : JoinConditionDue .joinRight s s'

/-- In table references an operand is due in the state `s'`. -/
inductive TablesDue (place : OperandPlace) : ParseState κ → ParseState κ → Prop
  | intro {s s₁ s₂ s₃ s₄ s₅ s' : ParseState κ}
    (hbefore : Items (skipSymbol .comma) tableReference s s₁) (hfirst : hintedTable s₁ = .ok () s₂)
    (hjoined : Rounds joinedTable s₂ s₃) (hjoin : joinType s₃ = .ok true s₄)
    (htable : hintedTable s₄ = .ok () s₅) (hdue : JoinConditionDue place s₅ s') :
    TablesDue place s s'

/-! ## Groups and order -/

/-- From a `GROUP BY` on an operand is due in the state `s'`. -/
inductive GroupDue : OperandPlace → ParseState SelectClauses → ParseState SelectClauses → Prop
  | key {s s₁ s₂ s' : ParseState SelectClauses} (hfound : skipKeyword [.GROUP] s = .ok true s₁)
    (hby : accept Keyword.BY s₁ = .ok () s₂) (hbefore : Items (skipSymbol .comma) groupItem s₂ s') :
    GroupDue .groupKey s s'

/-- From an `ORDER BY` on an operand is due in the state `s'`. -/
inductive OrderDue : OperandPlace → ParseState SelectClauses → ParseState SelectClauses → Prop
  | key {s s₁ s₂ s' : ParseState SelectClauses} (hfound : skipKeyword [.ORDER] s = .ok true s₁)
    (hby : accept Keyword.BY s₁ = .ok () s₂) (hbefore : Items (skipSymbol .comma) orderItem s₂ s') :
    OrderDue .sortKey s s'

/-! ## Assignments of an update -/

/-- The target of an assignment, up to where its value is due. -/
def assignmentTarget : Parser UpdateClauses Expression := do
  refuseEnd
  let target ← operand
  let _ ← skipIf [Symbol.equal, Symbol.colonEqual]
  return target

/-- In the assignments of an update an operand is due in the state `s'`. -/
inductive AssignmentDue :
    OperandPlace → ParseState UpdateClauses → ParseState UpdateClauses → Prop
  | target {s s₁ s' : ParseState UpdateClauses} (hset : accept Keyword.SET s = .ok () s₁)
    (hbefore : Items (skipSymbol .comma) assignment s₁ s') : AssignmentDue .target s s'
  | assigned {s s₁ s₂ s' : ParseState UpdateClauses} {target : Expression}
    (hset : accept Keyword.SET s = .ok () s₁)
    (hbefore : Items (skipSymbol .comma) assignment s₁ s₂)
    (htarget : assignmentTarget s₂ = .ok target s') : AssignmentDue .assigned s s'

/-! ## Rows -/

/-- In a row of values an operand is due in the state `s'`. -/
inductive RowDue : OperandPlace → ParseState InsertClauses → ParseState InsertClauses → Prop
  | value {s s₁ s' : ParseState InsertClauses} (hopen : accept Symbol.leftParen s = .ok () s₁)
    (hbefore : Items (skipSymbol .comma) operand s₁ s') : RowDue .rowValue s s'

/-- From `VALUES` on an operand is due in the state `s'`. -/
inductive ValuesDue (place : OperandPlace) :
    ParseState InsertClauses → ParseState InsertClauses → Prop
  | intro {s s₁ s₂ s' : ParseState InsertClauses} {k : Keyword}
    (hkind : s.cursor.current.kind = .keyword k)
    (hk : k ∈ .VALUES :: s.cursor.dialect.valuesSynonyms)
    (hmark : (do advance; markRows) s = .ok () s₁)
    (hbefore : Items (skipSymbol .comma) (insertRow k) s₁ s₂) (hdue : RowDue place s₂ s') :
    ValuesDue place s s'

/-- The column of an assignment, up to where its value is due. -/
def insertedColumn (table : Option String) : Parser InsertClauses Column := do
  if !(← cursor).isName then unexpected
  let column ← columnOfTable table (← operand)
  accept Symbol.equal
  return column

/-- In an assignment of an insert an operand is due in the state `s'`. -/
inductive InsertedDue (table : Option String) :
    OperandPlace → ParseState InsertClauses → ParseState InsertClauses → Prop
  | column {s : ParseState InsertClauses} (hname : (s.cursor.isName || s.cursor.isEnd) = true) :
    InsertedDue table .column s s
  | value {s s' : ParseState InsertClauses} {column : Column}
    (hcolumn : insertedColumn table s = .ok column s') : InsertedDue table .inserted s s'

/-- From the `SET` of an insert on an operand is due in the state `s'`. -/
inductive SetDue (place : OperandPlace) :
    ParseState InsertClauses → ParseState InsertClauses → Prop
  | intro {s s₁ s₂ s₃ s' : ParseState InsertClauses}
    (hfound : skipKeyword s.cursor.dialect.insertSet s = .ok true s₁)
    (hmark : markRows s₁ = .ok () s₂)
    (hbefore : Items (skipSymbol .comma) (insertAssignment s₂.body.tables.firstName?) s₂ s₃)
    (hdue : InsertedDue s₂.body.tables.firstName? place s₃ s') : SetDue place s s'

/-- The column that is assigned to behind `ON DUPLICATE KEY UPDATE`, up to where its value is
    due. -/
def duplicateColumn (table : Option String) : Parser InsertClauses Unit := do
  let column ← columnOfTable table (← operand)
  modifyClauses fun i => { i with duplicateKeyColumns := i.duplicateKeyColumns ++ [column] }
  accept Symbol.equal

/-- In an assignment behind `ON DUPLICATE KEY UPDATE` an operand is due in the state `s'`. -/
inductive DuplicateDue (table : Option String) :
    OperandPlace → ParseState InsertClauses → ParseState InsertClauses → Prop
  | column (s : ParseState InsertClauses) : DuplicateDue table .duplicateColumn s s
  | value {s s' : ParseState InsertClauses} (hcolumn : duplicateColumn table s = .ok () s')
    (hvalues : s'.cursor.isKeyword [.VALUES] = false) : DuplicateDue table .duplicateValue s s'
  | reference {s s₁ s₂ s' : ParseState InsertClauses}
    (hcolumn : duplicateColumn table s = .ok () s₁)
    (hvalues : skipKeyword [.VALUES] s₁ = .ok true s₂)
    (hopen : accept Symbol.leftParen s₂ = .ok () s') : DuplicateDue table .duplicateReference s s'

/-- From `ON DUPLICATE KEY UPDATE` on an operand is due in the state `s'`. -/
inductive DuplicateKeyDue (place : OperandPlace) :
    ParseState InsertClauses → ParseState InsertClauses → Prop
  | intro {s s₁ s₂ s₃ s' : ParseState InsertClauses}
    (hfound : skipKeyword s.cursor.dialect.duplicateKeyUpdate s = .ok true s₁)
    (hwords : (do accept Keyword.DUPLICATE; accept Keyword.KEY; accept Keyword.UPDATE) s₁ =
      .ok () s₂)
    (hbefore : Items (skipSymbol .comma) (duplicateKeyAssignment s₂.body.tables.firstName?) s₂ s₃)
    (hdue : DuplicateDue s₂.body.tables.firstName? place s₃ s') : DuplicateKeyDue place s s'

/-! ## Statements -/

/-- In a select an operand is due in the state `s'`. -/
inductive SelectDue (place : OperandPlace) :
    ParseState SelectClauses → ParseState SelectClauses → Prop
  | tables {s s₁ s₂ s' : ParseState SelectClauses} {owners : List Token}
    (hhead : selectHead s = .ok owners s₁)
    (hfrom : (do refuse [.INTO]; skipKeyword [.FROM]) s₁ = .ok true s₂)
    (hdue : TablesDue place s₂ s') : SelectDue place s s'
  | whereClause {s s₁ s₂ s' : ParseState SelectClauses} {owners : List Token}
    (hhead : selectHead s = .ok owners s₁)
    (hfrom : (do fromClause; markTables owners) s₁ = .ok () s₂)
    (hdue : WhereDue place s₂ s') : SelectDue place s s'
  | groupBy {s s₁ s₂ s' : ParseState SelectClauses} {owners : List Token}
    (hhead : selectHead s = .ok owners s₁) (hwhere : selectUpTo owners .groups s₁ = .ok () s₂)
    (hdue : GroupDue place s₂ s') : SelectDue place s s'
  | orderBy {s s₁ s₂ s' : ParseState SelectClauses} {owners : List Token}
    (hhead : selectHead s = .ok owners s₁) (hhaving : selectUpTo owners .order s₁ = .ok () s₂)
    (hdue : OrderDue place s₂ s') : SelectDue place s s'

/-- An insert up to its rows. -/
def insertTarget : Parser InsertClauses Unit := do
  accept Keyword.INSERT
  insertInto
  insertColumns
  let c ← cursor
  if c.isKeyword [.SELECT] || c.isSymbol .leftParen then throw (.unsupported .insertFromSelect)

/-- In an insert an operand is due in the state `s'`. -/
inductive InsertDue (place : OperandPlace) :
    ParseState InsertClauses → ParseState InsertClauses → Prop
  | values {s s₁ s' : ParseState InsertClauses} (hhead : insertTarget s = .ok () s₁)
    (hdue : ValuesDue place s₁ s') : InsertDue place s s'
  | set {s s₁ s₂ s' : ParseState InsertClauses} (hhead : insertTarget s = .ok () s₁)
    (hvalues : insertValues s₁ = .ok () s₂) (hdue : SetDue place s₂ s') : InsertDue place s s'
  | duplicate {s s₁ s₂ s' : ParseState InsertClauses} (hhead : insertTarget s = .ok () s₁)
    (hrows : (do insertValues; insertSet) s₁ = .ok () s₂) (hdue : DuplicateKeyDue place s₂ s') :
    InsertDue place s s'

/-- The table of an update. -/
def updateTable : Parser UpdateClauses Unit := do
  accept Keyword.UPDATE
  skipAll (← dialect).skippedBehindUpdate
  tableReferences true

/-- In an update an operand is due in the state `s'`. -/
inductive UpdateDue (place : OperandPlace) :
    ParseState UpdateClauses → ParseState UpdateClauses → Prop
  | tables {s s₁ s₂ s' : ParseState UpdateClauses} (hhead : accept Keyword.UPDATE s = .ok () s₁)
    (hoptions : skipAll s₁.cursor.dialect.skippedBehindUpdate s₁ = .ok () s₂)
    (hdue : TablesDue place s₂ s') : UpdateDue place s s'
  | assignments {s s₁ s' : ParseState UpdateClauses} (hhead : updateTable s = .ok () s₁)
    (hdue : AssignmentDue place s₁ s') : UpdateDue place s s'
  | whereClause {s s₁ s' : ParseState UpdateClauses} (hhead : updateHead s = .ok () s₁)
    (hdue : WhereDue place s₁ s') : UpdateDue place s s'

/-- The table of a deletion. -/
def deleteTable : Parser DeleteClauses Unit := do
  accept Keyword.DELETE
  skipAll (← dialect).skippedBehindDelete
  let _ ← skipKeyword [.FROM]
  tableReferences true

/-- In a deletion an operand is due in the state `s'`. -/
inductive DeleteDue (place : OperandPlace) :
    ParseState DeleteClauses → ParseState DeleteClauses → Prop
  | tables {s s₁ s₂ s₃ s' : ParseState DeleteClauses} {found : Bool}
    (hhead : accept Keyword.DELETE s = .ok () s₁)
    (hoptions : skipAll s₁.cursor.dialect.skippedBehindDelete s₁ = .ok () s₂)
    (hfrom : skipKeyword [.FROM] s₂ = .ok found s₃) (hdue : TablesDue place s₃ s') :
    DeleteDue place s s'
  | whereClause {s s₁ s' : ParseState DeleteClauses} (hhead : deleteHead s = .ok () s₁)
    (hdue : WhereDue place s₁ s') : DeleteDue place s s'

end Grammar

/-- Where the tokens `ts` of the text start an operand is due at this place, and it is read up to
    where the tokens `us` start. -/
inductive Statement.Reads (database : Database) (d : Dialect) (text : String) :
    OperandPlace → List Token → List Token → Prop
  | select {c : Cursor} {s s' : ParseState SelectClauses} {place : OperandPlace} {e : Expression}
    (hc : Cursor.ofText database d text = .ok c) (hkind : c.current.kind = .keyword .SELECT)
    (hdue : Grammar.SelectDue place (ParseState.start c) s) (hrun : Grammar.operand s = .ok e s') :
    Reads database d text place s.cursor.tokens s'.cursor.tokens
  | insert {c : Cursor} {s s' : ParseState InsertClauses} {place : OperandPlace} {e : Expression}
    (hc : Cursor.ofText database d text = .ok c) (hkind : c.current.kind = .keyword .INSERT)
    (hdue : Grammar.InsertDue place (ParseState.start c) s) (hrun : Grammar.operand s = .ok e s') :
    Reads database d text place s.cursor.tokens s'.cursor.tokens
  | update {c : Cursor} {s s' : ParseState UpdateClauses} {place : OperandPlace} {e : Expression}
    (hc : Cursor.ofText database d text = .ok c) (hkind : c.current.kind = .keyword .UPDATE)
    (hdue : Grammar.UpdateDue place (ParseState.start c) s) (hrun : Grammar.operand s = .ok e s') :
    Reads database d text place s.cursor.tokens s'.cursor.tokens
  | delete {c : Cursor} {s s' : ParseState DeleteClauses} {place : OperandPlace} {e : Expression}
    (hc : Cursor.ofText database d text = .ok c) (hkind : c.current.kind = .keyword .DELETE)
    (hdue : Grammar.DeleteDue place (ParseState.start c) s) (hrun : Grammar.operand s = .ok e s') :
    Reads database d text place s.cursor.tokens s'.cursor.tokens

end SqlRouting
