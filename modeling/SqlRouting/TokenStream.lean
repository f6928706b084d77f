import SqlRouting.Lexeme

/-!
# Token streams

A text is a sequence of tokens with gaps of blanks and comments between them. Its token stream ends
with the token at the end of the text, or before the first place where no token can be read; then it
carries the error.
-/

namespace SqlRouting

/-- Where a gap between tokens stands: between blanks, in a comment that ends with
    the line, or in a comment opened at a position by `/*`. -/
inductive Gap where
  | blank
  | line
  | block (start : Nat)
  deriving DecidableEq, Repr

/-- The text behind the gap it starts with, and its position. -/
def Gap.skip (d : Dialect) : Gap → Nat → List Char → Except LexicalError (Nat × List Char)
  | .block start, _, [] => .error (.unterminatedComment start)
  | .block _, pos, '*' :: '/' :: cs => Gap.skip d .blank (pos + 2) cs
  | .block start, pos, c :: cs => Gap.skip d (.block start) (pos + c.utf8Size) cs
  | .line, pos, [] => .ok (pos, [])
  | .line, pos, c :: cs =>
    Gap.skip d (if c = '\n' then .blank else .line) (pos + c.utf8Size) cs
  | .blank, pos, [] => .ok (pos, [])
  | .blank, pos, '-' :: '-' :: cs => Gap.skip d .line (pos + 2) cs
  | .blank, pos, '/' :: '*' :: cs => Gap.skip d (.block pos) (pos + 2) cs
  | .blank, pos, c :: cs =>
    if Text.isAsciiBlank c then Gap.skip d .blank (pos + 1) cs
    else if c = '#' && d.hashComments then Gap.skip d .line (pos + 1) cs
    else .ok (pos, c :: cs)

/-- The tokens of a text, and why no more can be read if they do not end with the
    token at its end. -/
structure TokenStream where
  tokens : List Token
  failure : Option LexicalError := none
  deriving DecidableEq, Repr

namespace TokenStream

/-- At most `n` tokens of the text `cs`, which stands at the position `pos`. -/
def read (d : Dialect) (dict : Dictionary) : Nat → Nat → List Char → TokenStream
  | 0, _, _ => ⟨[], none⟩
  | n + 1, pos, cs =>
    match Gap.skip d .blank pos cs with
    | .error e => ⟨[], some e⟩
    | .ok (pos, []) => ⟨[Token.final pos], none⟩
    | .ok (pos, c :: cs) =>
      match Lexeme.read d dict pos c cs with
      | .error e => ⟨[], some e⟩
      | .ok l =>
        let token := l.toToken pos
        let rest := read d dict n token.stop ((c :: cs).drop l.spelling.length)
        ⟨token :: rest.tokens, rest.failure⟩

/-- The token stream of a text. A text has at most one token for each character
    and the one at its end. -/
def ofText (d : Dialect) (cs : List Char) : TokenStream :=
  read d (Dictionary.ofDialect d) (cs.length + 1) 0 cs

end TokenStream

end SqlRouting
