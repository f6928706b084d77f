import SqlRouting.Parse
import SqlRouting.Proofs.Scanner
import SqlRouting.Proofs.Written.Piece

/-!
# Quotations

Any text can be written between quotes: each quote in it is doubled, and where backslashes escape
each backslash as well (`Text.QuotedAs`). Whatever it is, the quotation goes up to its closing quote
and no further, and the text behind is read from there on (`string_read_back`). A name in quotes is
a single token in the same way; but the name that is made of the token lacks every character that
quotes names, those inside of it too (`name_read_back`), so that different names may be taken for
one (`names_merged`).
-/

namespace SqlRouting

open Text (byteLength bytes)

/-! ## Texts between quotes -/

namespace Text

/-- The text is written as `inside` between quotes: each quote in it is doubled. If
    backslashes escape, a quote may stand behind one instead, and each backslash of
    the text is doubled. -/
inductive QuotedAs (quote : Char) (escapes : Bool) : (text inside : List Char) → Prop
  | nil : QuotedAs quote escapes [] []
  | doubled {text inside : List Char} (h : QuotedAs quote escapes text inside) :
    QuotedAs quote escapes (quote :: text) (quote :: quote :: inside)
  | escaped {text inside : List Char} (hescapes : escapes = true)
    (h : QuotedAs quote escapes text inside) :
    QuotedAs quote escapes (quote :: text) ('\\' :: quote :: inside)
  | backslash {text inside : List Char} (hescapes : escapes = true)
    (h : QuotedAs quote escapes text inside) :
    QuotedAs quote escapes ('\\' :: text) ('\\' :: '\\' :: inside)
  | plain {c : Char} {text inside : List Char} (hquote : c ≠ quote)
    (hbackslash : c = '\\' → escapes = false) (h : QuotedAs quote escapes text inside) :
    QuotedAs quote escapes (c :: text) (c :: inside)

/-- The text with every quote in it doubled. -/
def doubled (quote : Char) (text : List Char) : List Char :=
  text.flatMap fun c => if c = quote then [c, c] else [c]

/-- A name in quotes. -/
def quotedName (quote : Char) (name : List Char) : List Char :=
  quote :: doubled quote name ++ [quote]

variable {quote : Char} {escapes : Bool} {text inside rest : List Char}

/-- Where backslashes do not escape it is enough to double the quotes. -/
theorem quotedAs_doubled (quote : Char) (text : List Char) :
    QuotedAs quote false text (doubled quote text) := by
  induction text with
  | nil => exact .nil
  | cons c text ih =>
    by_cases hc : c = quote
    · subst hc
      simpa [doubled] using ih.doubled
    · simpa [doubled, hc] using ih.plain hc fun _ => rfl

/-- Every text can be written between quotes. -/
theorem exists_quotedAs (quote : Char) (escapes : Bool) (text : List Char) :
    ∃ inside, QuotedAs quote escapes text inside := by
  induction text with
  | nil => exact ⟨[], .nil⟩
  | cons c text ih =>
    obtain ⟨inside, h⟩ := ih
    by_cases hquote : c = quote
    · subst hquote
      exact ⟨_, h.doubled⟩
    by_cases hescapes : c = '\\' ∧ escapes = true
    · obtain ⟨rfl, hescapes⟩ := hescapes
      exact ⟨_, h.backslash hescapes⟩
    · exact ⟨_, h.plain hquote fun hc => by simpa [hc] using hescapes⟩

/-- What is written between quotes ends at the next quote that stands alone. -/
theorem QuotedAs.upToQuote? (h : QuotedAs quote escapes text inside) (hquote : quote ≠ '\\')
    (hrest : rest.head? ≠ some quote) :
    Lexeme.upToQuote? quote escapes (inside ++ quote :: rest) = some (inside ++ [quote]) := by
  have hescape : ¬(quote = '\\' && escapes) = true := by simp [hquote]
  induction h with
  | nil => exact Lexeme.upToQuote?_quote hescape hrest
  | doubled _ ih => simp [Lexeme.upToQuote?, hquote, ih]
  | escaped hescapes _ ih | backslash hescapes _ ih =>
    subst hescapes
    simp [Lexeme.upToQuote?, ih]
  | @plain c _ _ hc hbackslash _ ih =>
    have hplain : ¬(c = '\\' && escapes) = true := by simpa using hbackslash
    rw [List.cons_append, Lexeme.upToQuote?_cons_of_ne hc hplain, ih]
    rfl

/-- The quotes around a name and inside of it are taken away, and so are all other characters that
    may quote names. -/
theorem unquoted_quotedName (hquote : isNameQuote quote = true) (name : List Char) :
    unquoted (String.ofList (quotedName quote name)) =
      String.ofList (name.filter fun c => !isNameQuote c) := by
  have hdoubled : (doubled quote name).filter (fun c => !isNameQuote c) =
      name.filter fun c => !isNameQuote c := by
    induction name with
    | nil => rfl
    | cons c name ih =>
      rw [doubled, List.flatMap_cons, List.filter_append, ← doubled, ih, List.filter_cons]
      split_ifs with hc <;> simp_all
  simp [unquoted, quotedName, hquote, hdoubled]

end Text

/-! ## Quotations in a text -/

/-- Three characters quote strings or names. -/
theorem Lexeme.eq_of_quoted? {d : Dialect} {quote : Char} {cls : LiteralClass}
    (h : quoted? d quote = some cls) : quote = '\'' ∨ quote = '"' ∨ quote = '\x60' := by
  rw [quoted?] at h
  split_ifs at h with h₁ h₂ _ h₃
  · exact .inl h₁
  · exact .inr (.inl h₂)
  · exact .inr (.inl h₂)
  · rw [Bool.and_eq_true, decide_eq_true_eq] at h₃
    exact .inr (.inr h₃.1)

/-- In an empty text there is only its end. -/
theorem TokenStream.read_nil (d : Dialect) (dict : Dictionary) (n pos : Nat) :
    read d dict (n + 1) pos [] = ⟨[.final pos], none⟩ := by
  rw [read, Gap.skip]

namespace Scanner

variable {s : Scanner} {quote : Char} {cls : LiteralClass} {before text inside rest : List Char}

/-- A quotation is read up to its closing quote. -/
theorem read_quotation (hquoted : Lexeme.quoted? s.dialect quote = some cls)
    (hinside : Text.QuotedAs quote (cls = .chars && s.dialect.backslashEscapes) text inside)
    (hrest : rest.head? ≠ some quote) (start : Nat) :
    Lexeme.read s.dialect s.dictionary start quote (inside ++ quote :: rest) =
      .ok ⟨.literal cls, quote :: inside ++ [quote]⟩ := by
  have hquote : quote ≠ '\\' := by
    rintro rfl
    simp [Lexeme.quoted?] at hquoted
  simp [Lexeme.read, Lexeme.rules, Lexeme.quotation, hquoted, hinside.upToQuote? hquote hrest]

/-- A scanner at a quotation goes on behind its closing quote. -/
theorem next_quotation (hquoted : Lexeme.quoted? s.dialect quote = some cls)
    (hinside : Text.QuotedAs quote (cls = .chars && s.dialect.backslashEscapes) text inside)
    (hrest : rest.head? ≠ some quote)
    (htext : s.text = before ++ (quote :: inside ++ [quote]) ++ rest) :
    s.next (byteLength before) =
      .ok (Lexeme.toToken ⟨.literal cls, quote :: inside ++ [quote]⟩ (byteLength before)) := by
  have htext' : s.text = before ++ quote :: (inside ++ quote :: rest) := by simpa using htext
  have hsolid : Text.isSolid quote = true := by
    rcases Lexeme.eq_of_quoted? hquoted with rfl | rfl | rfl <;> decide
  have hlt : byteLength before < s.length := by
    have := quote.utf8Size_pos
    rw [length_eq, htext', Text.byteLength_append, Text.byteLength_cons]
    omega
  rw [next, bytesFrom_eq htext', skipGap_bytes, Gap.skip_of_isSolid hsolid]
  simp only [Except.map, if_pos hlt]
  rw [tokenAt_eq htext', read_quotation hquoted hinside hrest]
  rfl

/-- The tokens from a quotation on are its token and those of the text behind it. -/
theorem tokensFrom_quotation (hquoted : Lexeme.quoted? s.dialect quote = some cls)
    (hinside : Text.QuotedAs quote (cls = .chars && s.dialect.backslashEscapes) text inside)
    (hrest : rest.head? ≠ some quote)
    (htext : s.text = before ++ (quote :: inside ++ [quote]) ++ rest) (n : Nat) :
    let token := Lexeme.toToken ⟨.literal cls, quote :: inside ++ [quote]⟩ (byteLength before)
    let more := TokenStream.read s.dialect s.dictionary n token.stop rest
    s.tokensFrom (n + 1) (byteLength before) =
      (token :: more.tokens, more.failure.map .lexical) := by
  intro token more
  have hstop : token.stop = byteLength (before ++ (quote :: inside ++ [quote])) :=
    (Text.byteLength_append ..).symm
  have hmore : s.tokensFrom n token.stop = (more.tokens, more.failure.map .lexical) := by
    rw [hstop, tokensFrom_eq htext, ← hstop]
  have hkind : token.kind ≠ .endOfText := nofun
  rw [tokensFrom, next_quotation hquoted hinside hrest htext]
  simp only [token, if_neg hkind, hmore]

/-- A text that is one quotation is a single token. -/
theorem tokens_quotation {d : Dialect} (hquoted : Lexeme.quoted? d quote = some cls)
    (hinside : Text.QuotedAs quote (cls = .chars && d.backslashEscapes) text inside) :
    (ofText d (quote :: inside ++ [quote])).tokens =
      ([Lexeme.toToken ⟨.literal cls, quote :: inside ++ [quote]⟩ 0,
        .final (byteLength (quote :: inside ++ [quote]))], none) := by
  have htext : (ofText d (quote :: inside ++ [quote])).text =
      [] ++ (quote :: inside ++ [quote]) ++ [] := by simp [ofText]
  have hrun := tokensFrom_quotation hquoted hinside (by simp) htext
    ((inside ++ [quote]).length + 1)
  simpa [tokens, ofText, TokenStream.read_nil, Lexeme.toToken] using hrun

end Scanner

/-- *A string ends where it should.* Every text can be written between the quotes of a string, with
    the quotes in it doubled or behind backslashes that escape; and however that is done, the next
    token of a scanner is the string, its literal is what stands between the quotes, and the tokens
    from there on are those of the text behind the closing quote. -/
theorem string_read_back {s : Scanner} {quote : Char}
    (hquote : quote = '\'' ∨ quote = '"' ∧ s.dialect.doubleQuotedStrings = true)
    (text : List Char) :
    (∃ inside, Text.QuotedAs quote s.dialect.backslashEscapes text inside) ∧
      ∀ inside, Text.QuotedAs quote s.dialect.backslashEscapes text inside →
        ∀ before rest : List Char, rest.head? ≠ some quote →
          s.text = before ++ (quote :: inside ++ [quote]) ++ rest →
          let stop := byteLength before + byteLength (quote :: inside ++ [quote])
          let token : Token := ⟨.literal .chars, String.ofList inside, stop⟩
          s.next (byteLength before) = .ok token ∧ s.bytesFrom stop = bytes rest ∧
            ∀ n, s.tokensFrom (n + 1) (byteLength before) =
              let more := TokenStream.read s.dialect s.dictionary n stop rest
              (token :: more.tokens, more.failure.map .lexical) := by
  refine ⟨Text.exists_quotedAs _ _ _, fun inside hinside before rest hrest htext => ?_⟩
  intro stop token
  have hquoted : Lexeme.quoted? s.dialect quote = some .chars := by
    rcases hquote with rfl | ⟨rfl, hstrings⟩
    · rfl
    · simp [Lexeme.quoted?, hstrings]
  have hinside' : Text.QuotedAs quote (LiteralClass.chars = .chars && s.dialect.backslashEscapes)
      text inside := by simpa using hinside
  have htoken : Lexeme.toToken ⟨.literal .chars, quote :: inside ++ [quote]⟩ (byteLength before) =
      token := by simp [Lexeme.toToken, Lexeme.literal, token, stop]
  refine ⟨?_, ?_, fun n => ?_⟩
  · rw [Scanner.next_quotation hquoted hinside' hrest htext, htoken]
  · rw [← Scanner.bytesFrom_eq htext, Text.byteLength_append]
  · rw [Scanner.tokensFrom_quotation hquoted hinside' hrest htext, htoken]

/-- A string with quotes written in both ways and a backslash at its end, before another string. -/
theorem string_read_back_escaped :
    let s := Scanner.ofText .mySql "SELECT 'é\\'''\\\\'\"x\"".toList
    Text.QuotedAs '\'' s.dialect.backslashEscapes "é''\\".toList "é\\'''\\\\".toList ∧
      s.next 7 = .ok ⟨.literal .chars, "é\\'''\\\\", 17⟩ ∧
      s.tokensFrom 3 7 = ([⟨.literal .chars, "é\\'''\\\\", 17⟩, ⟨.literal .chars, "x", 20⟩,
        .final 20], none) := by
  intro s
  have hinside : Text.QuotedAs '\'' s.dialect.backslashEscapes "é''\\".toList
      "é\\'''\\\\".toList :=
    .plain (by decide) (fun h => absurd h (by decide))
      (.escaped rfl (.doubled (.backslash rfl .nil)))
  obtain ⟨hnext, -, hmore⟩ := (string_read_back (s := s) (.inl rfl) "é''\\".toList).2 _ hinside
    "SELECT ".toList "\"x\"".toList (by decide) rfl
  refine ⟨hinside, hnext, (hmore 2).trans ?_⟩
  decide +kernel

/-- *A name in quotes is a single token, but not always the name again.* The name that is made of
    the token is the one in the quotes without its backticks, double quotes and brackets: it is the
    same name if it has none of these, and two names become one exactly if they differ in these
    only. -/
theorem name_read_back {d : Dialect} {quote : Char}
    (hquote : quote = '\x60' ∧ d.backtickNames = true ∨
      quote = '"' ∧ d.doubleQuotedStrings = false) (name : List Char) :
    let text := Text.quotedName quote name
    (Scanner.ofText d text).tokens =
        ([⟨.literal .identifier, String.ofList text, byteLength text⟩, .final (byteLength text)],
          none) ∧
      Text.unquoted (String.ofList text) =
        String.ofList (name.filter fun c => !Text.isNameQuote c) ∧
      (Text.unquoted (String.ofList text) = String.ofList name ↔
        ∀ c ∈ name, Text.isNameQuote c = false) ∧
      ∀ other, Text.unquoted (String.ofList (Text.quotedName quote other)) =
          Text.unquoted (String.ofList text) ↔
        other.filter (fun c => !Text.isNameQuote c) =
          name.filter fun c => !Text.isNameQuote c := by
  intro text
  have hquoted : Lexeme.quoted? d quote = some .identifier := by
    rcases hquote with ⟨rfl, hnames⟩ | ⟨rfl, hstrings⟩
    · simp [Lexeme.quoted?, hnames]
    · simp [Lexeme.quoted?, hstrings]
  have hname : Text.isNameQuote quote = true := by
    rcases hquote with ⟨rfl, _⟩ | ⟨rfl, _⟩ <;> decide
  have hinside : Text.QuotedAs quote
      (LiteralClass.identifier = .chars && d.backslashEscapes) name (Text.doubled quote name) := by
    simpa using Text.quotedAs_doubled quote name
  have hunquoted := Text.unquoted_quotedName hname name
  refine ⟨?_, hunquoted, ?_, fun other => ?_⟩
  · refine (Scanner.tokens_quotation hquoted hinside).trans ?_
    simp [Lexeme.toToken, Lexeme.literal, text, Text.quotedName]
  · rw [hunquoted, String.ofList_inj, List.filter_eq_self]
    simp
  · rw [hunquoted, Text.unquoted_quotedName hname other, String.ofList_inj]

/-- A name in double quotes, with one of them in it. -/
theorem name_read_back_doubled :
    Dialect.standard.doubleQuotedStrings = false ∧
      (Scanner.ofText .standard "\"a\"\"b c\"".toList).tokens =
        ([⟨.literal .identifier, "\"a\"\"b c\"", 8⟩, .final 8], none) ∧
      Text.unquoted "\"a\"\"b c\"" = "ab c" := by
  have htext : Text.quotedName '"' "a\"b c".toList = "\"a\"\"b c\"".toList := by decide
  have hlength : byteLength "\"a\"\"b c\"".toList = 8 := by decide
  obtain ⟨htokens, hname, -⟩ := name_read_back (d := .standard) (.inr ⟨rfl, rfl⟩) "a\"b c".toList
  rw [htext, String.ofList_toList, hlength] at htokens
  rw [htext, String.ofList_toList] at hname
  exact ⟨rfl, htokens, hname⟩

/-- A name with a backtick in it is not the name that is made of its token, and a table of that
    name is taken for another one. -/
theorem names_merged :
    (∃ (d : Dialect) (name : List Char), name ≠ [] ∧ d.backtickNames = true ∧
      Text.unquoted (String.ofList (Text.quotedName '\x60' name)) ≠ String.ofList name) ∧
    (Statement.parse .mySql .mySql "SELECT * FROM `a``b`, ab").map (fun s => s.routing.tables) =
      .ok ⟨[⟨"ab", none⟩]⟩ :=
  ⟨⟨.mySql, "a\x60b".toList, by decide, rfl, by decide +kernel⟩, by decide +kernel⟩

end SqlRouting
