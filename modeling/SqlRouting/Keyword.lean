/-!
# Keywords

The words with a meaning in the grammar of at least one dialect. Whether a word of a text is read
as a keyword is up to the dialect: every dialect knows the standard keywords, and may know more
(`Dictionary`). A keyword is named here by its spelling in upper case, which is also how
it is shown in messages.
-/

namespace SqlRouting

/-- A word with a meaning in the grammar of some dialect. -/
inductive Keyword where
  | SELECT | INSERT | UPDATE | DELETE | CREATE | ALTER | DROP | TRUNCATE | TABLE | FROM | WHERE
  | AND | OR | NOT | IN | BETWEEN | LIKE | IS | NULL | AS | ON | USING | JOIN | INNER | OUTER | LEFT
  | RIGHT | FULL | CROSS | NATURAL | GROUP | ORDER | BY | ASC | DESC | HAVING | LIMIT | OFFSET
  | UNION | INTERSECT | EXCEPT | MINUS | INTO | VALUES | SET | KEY | INDEX | FOR | USE | WITH
  | DISTINCT | ALL | COUNT | SUM | AVG | MAX | MIN | PROCEDURE | LENGTH | SHOW | LOW_PRIORITY
  | HIGH_PRIORITY | DELAYED | IGNORE | QUICK | STRAIGHT_JOIN | SQL_SMALL_RESULT | SQL_BIG_RESULT
  | SQL_BUFFER_RESULT | SQL_CACHE | SQL_NO_CACHE | SQL_CALC_FOUND_ROWS | DISTINCTROW | PARTITION
  | FORCE | VALUE | DUPLICATE | ROLLUP | REGEXP | DESCRIBE
  deriving DecidableEq, Repr

namespace Keyword

/-- The keyword as it is written, in upper case. -/
def text : Keyword → String
  | .SELECT => "SELECT"
  | .INSERT => "INSERT"
  | .UPDATE => "UPDATE"
  | .DELETE => "DELETE"
  | .CREATE => "CREATE"
  | .ALTER => "ALTER"
  | .DROP => "DROP"
  | .TRUNCATE => "TRUNCATE"
  | .TABLE => "TABLE"
  | .FROM => "FROM"
  | .WHERE => "WHERE"
  | .AND => "AND"
  | .OR => "OR"
  | .NOT => "NOT"
  | .IN => "IN"
  | .BETWEEN => "BETWEEN"
  | .LIKE => "LIKE"
  | .IS => "IS"
  | .NULL => "NULL"
  | .AS => "AS"
  | .ON => "ON"
  | .USING => "USING"
  | .JOIN => "JOIN"
  | .INNER => "INNER"
  | .OUTER => "OUTER"
  | .LEFT => "LEFT"
  | .RIGHT => "RIGHT"
  | .FULL => "FULL"
  | .CROSS => "CROSS"
  | .NATURAL => "NATURAL"
  | .GROUP => "GROUP"
  | .ORDER => "ORDER"
  | .BY => "BY"
  | .ASC => "ASC"
  | .DESC => "DESC"
  | .HAVING => "HAVING"
  | .LIMIT => "LIMIT"
  | .OFFSET => "OFFSET"
  | .UNION => "UNION"
  | .INTERSECT => "INTERSECT"
  | .EXCEPT => "EXCEPT"
  | .MINUS => "MINUS"
  | .INTO => "INTO"
  | .VALUES => "VALUES"
  | .SET => "SET"
  | .KEY => "KEY"
  | .INDEX => "INDEX"
  | .FOR => "FOR"
  | .USE => "USE"
  | .WITH => "WITH"
  | .DISTINCT => "DISTINCT"
  | .ALL => "ALL"
  | .COUNT => "COUNT"
  | .SUM => "SUM"
  | .AVG => "AVG"
  | .MAX => "MAX"
  | .MIN => "MIN"
  | .PROCEDURE => "PROCEDURE"
  | .LENGTH => "LENGTH"
  | .SHOW => "SHOW"
  | .LOW_PRIORITY => "LOW_PRIORITY"
  | .HIGH_PRIORITY => "HIGH_PRIORITY"
  | .DELAYED => "DELAYED"
  | .IGNORE => "IGNORE"
  | .QUICK => "QUICK"
  | .STRAIGHT_JOIN => "STRAIGHT_JOIN"
  | .SQL_SMALL_RESULT => "SQL_SMALL_RESULT"
  | .SQL_BIG_RESULT => "SQL_BIG_RESULT"
  | .SQL_BUFFER_RESULT => "SQL_BUFFER_RESULT"
  | .SQL_CACHE => "SQL_CACHE"
  | .SQL_NO_CACHE => "SQL_NO_CACHE"
  | .SQL_CALC_FOUND_ROWS => "SQL_CALC_FOUND_ROWS"
  | .DISTINCTROW => "DISTINCTROW"
  | .PARTITION => "PARTITION"
  | .FORCE => "FORCE"
  | .VALUE => "VALUE"
  | .DUPLICATE => "DUPLICATE"
  | .ROLLUP => "ROLLUP"
  | .REGEXP => "REGEXP"
  | .DESCRIBE => "DESCRIBE"

/-- The keywords of every dialect. -/
def standard : List Keyword :=
  [
    .SELECT, .INSERT, .UPDATE, .DELETE, .CREATE, .ALTER, .DROP, .TRUNCATE, .TABLE, .FROM, .WHERE,
    .AND, .OR, .NOT, .IN, .BETWEEN, .LIKE, .IS, .NULL, .AS, .ON, .USING, .JOIN, .INNER, .OUTER,
    .LEFT, .RIGHT, .FULL, .CROSS, .NATURAL, .GROUP, .ORDER, .BY, .ASC, .DESC, .HAVING, .LIMIT,
    .OFFSET, .UNION, .INTERSECT, .EXCEPT, .MINUS, .INTO, .VALUES, .SET, .KEY, .INDEX, .FOR, .USE,
    .WITH, .DISTINCT, .ALL, .COUNT, .SUM, .AVG, .MAX, .MIN, .PROCEDURE, .LENGTH, .SHOW
  ]

/-- The keywords that only some dialects know. -/
def special : List Keyword :=
  [
    .LOW_PRIORITY, .HIGH_PRIORITY, .DELAYED, .IGNORE, .QUICK, .STRAIGHT_JOIN, .SQL_SMALL_RESULT,
    .SQL_BIG_RESULT, .SQL_BUFFER_RESULT, .SQL_CACHE, .SQL_NO_CACHE, .SQL_CALC_FOUND_ROWS,
    .DISTINCTROW, .PARTITION, .FORCE, .VALUE, .DUPLICATE, .ROLLUP, .REGEXP, .DESCRIBE
  ]

/-- All keywords. -/
def all : List Keyword :=
  standard ++ special

theorem mem_all (k : Keyword) : k ∈ all := by
  cases k <;> decide

/-- The keyword written as `word` in upper case. -/
def ofText? (word : String) : Option Keyword :=
  all.find? fun k => k.text = word

theorem ofText?_text (k : Keyword) : ofText? k.text = some k := by
  cases k <;> decide

/-- Different keywords are written differently. -/
theorem text_injective {j k : Keyword} (h : j.text = k.text) : j = k := by
  simpa [ofText?_text] using congrArg ofText? h

end Keyword

end SqlRouting
