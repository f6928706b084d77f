/-!
# Symbols

Punctuation and operators. A text is always read with the longest symbol that fits: `all` lists the
symbols longest first, so the first that fits is the longest.
-/

namespace SqlRouting

/-- A punctuation mark or an operator. -/
inductive Symbol where
  | lessEqualGreater | doubleColon | colonEqual | lessEqual | greaterEqual | lessGreater
  | bangEqual | bangGreater | bangLess | doubleAmp | doubleBar | doubleLess | doubleGreater
  | leftParen | rightParen | leftBrace | rightBrace | leftBracket | rightBracket | semicolon
  | comma | dot | plus | minus | star | slash | question | equal | greater | less | bang | tilde
  | caret | percent | colon | amp | bar
  deriving DecidableEq, Repr

namespace Symbol

/-- The symbol as it is written. -/
def text : Symbol → String
  | lessEqualGreater => "<=>"
  | doubleColon => "::"
  | colonEqual => ":="
  | lessEqual => "<="
  | greaterEqual => ">="
  | lessGreater => "<>"
  | bangEqual => "!="
  | bangGreater => "!>"
  | bangLess => "!<"
  | doubleAmp => "&&"
  | doubleBar => "||"
  | doubleLess => "<<"
  | doubleGreater => ">>"
  | leftParen => "("
  | rightParen => ")"
  | leftBrace => "\x7b"
  | rightBrace => "\x7d"
  | leftBracket => "["
  | rightBracket => "]"
  | semicolon => ";"
  | comma => ","
  | dot => "."
  | plus => "+"
  | minus => "-"
  | star => "*"
  | slash => "/"
  | question => "?"
  | equal => "="
  | greater => ">"
  | less => "<"
  | bang => "!"
  | tilde => "~"
  | caret => "^"
  | percent => "%"
  | colon => ":"
  | amp => "&"
  | bar => "|"

/-- The name of the symbol in messages. -/
def name : Symbol → String
  | lessEqualGreater => "LT_EQ_GT"
  | doubleColon => "DOUBLE_COLON"
  | colonEqual => "COLON_EQ"
  | lessEqual => "LT_EQ"
  | greaterEqual => "GT_EQ"
  | lessGreater => "LT_GT"
  | bangEqual => "BANG_EQ"
  | bangGreater => "BANG_GT"
  | bangLess => "BANG_LT"
  | doubleAmp => "DOUBLE_AMP"
  | doubleBar => "DOUBLE_BAR"
  | doubleLess => "DOUBLE_LT"
  | doubleGreater => "DOUBLE_GT"
  | leftParen => "LEFT_PAREN"
  | rightParen => "RIGHT_PAREN"
  | leftBrace => "LEFT_BRACE"
  | rightBrace => "RIGHT_BRACE"
  | leftBracket => "LEFT_BRACKET"
  | rightBracket => "RIGHT_BRACKET"
  | semicolon => "SEMI"
  | comma => "COMMA"
  | dot => "DOT"
  | plus => "PLUS"
  | minus => "SUB"
  | star => "STAR"
  | slash => "SLASH"
  | question => "QUESTION"
  | equal => "EQ"
  | greater => "GT"
  | less => "LT"
  | bang => "BANG"
  | tilde => "TILDE"
  | caret => "CARET"
  | percent => "PERCENT"
  | colon => "COLON"
  | amp => "AMP"
  | bar => "BAR"

/-- All symbols, the longest first. -/
def all : List Symbol :=
  [lessEqualGreater, doubleColon, colonEqual, lessEqual, greaterEqual, lessGreater, bangEqual,
    bangGreater, bangLess, doubleAmp, doubleBar, doubleLess, doubleGreater, leftParen, rightParen,
    leftBrace, rightBrace, leftBracket, rightBracket, semicolon, comma, dot, plus, minus, star,
    slash, question, equal, greater, less, bang, tilde, caret, percent, colon, amp, bar]

theorem mem_all (s : Symbol) : s ∈ all := by
  cases s <;> decide

/-- No symbol comes before a longer one. -/
theorem all_longest_first : all.Pairwise fun s t => t.text.length ≤ s.text.length := by
  decide

/-- The symbol a text starts with, the longest that fits. -/
def starting? (cs : List Char) : Option Symbol :=
  all.find? fun s => s.text.toList.isPrefixOf cs

/-- The symbol with a given name. -/
def ofName? (name : String) : Option Symbol :=
  all.find? fun s => s.name = name

/-- The arithmetic, bitwise and logical operators, which may continue an
    operand. -/
def operators : List Symbol :=
  [plus, minus, star, slash, percent, amp, bar, doubleAmp, doubleBar, caret]

end Symbol

end SqlRouting
