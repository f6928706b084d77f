import SqlRouting.Proofs.Excerpts

/-!
# Words in copies

A word ends where the text does not go on with one, and what it means is looked up in a dictionary.
So it is read alike wherever it is copied to: before a dot, before a parenthesis or at the end
(`Copies.word`). A name that is written without quotes is a word, and its copies are names
(`TokenStream.isBare`); but what is left of a quoted name without its quotes may be no word, or a
keyword.
-/

namespace SqlRouting

/-! ## Words -/

namespace Lexeme

variable {d : Dialect} {dict : Dictionary} {pos : Nat} {c : Char} {cs word rest : List Char}
  {l : Lexeme}

/-- The text is a word. -/
structure IsWord (word : List Char) : Prop where
  opens : word.head?.any startsWord = true
  continues : ∀ c ∈ word, continuesWord c = true

/-- A word before the text ends there: it neither goes on nor opens a hexadecimal string. -/
def endsWord (rest : List Char) : Bool :=
  rest.head?.all fun c => !continuesWord c && c ≠ '\''

theorem IsWord.exists_cons (h : IsWord word) : ∃ c cs, word = c :: cs ∧ startsWord c = true := by
  obtain ⟨hopens, _⟩ := h
  cases word with
  | nil => cases hopens
  | cons c cs => exact ⟨c, cs, rfl, hopens⟩

theorem IsWord.readBefore (h : IsWord word) (hrest : endsWord rest = true) :
    ReadBefore .mySql dict rest ⟨wordKind dict word rest, word⟩ := by
  obtain ⟨c, cs, rfl, _⟩ := h.exists_cons
  refine ⟨by simp, fun pos => ?_, fun _ {_ _} hcs => read_word h.opens h.continues hrest hcs⟩
  exact Gap.skip_of_isSolid (Text.isSolid_of_continuesWord (h.continues c (by simp)))

theorem readBefore_dot (hrest : rest.head?.all (!·.isDigit) = true) :
    ReadBefore .mySql dict rest ⟨Symbol.dot, ['.']⟩ :=
  ⟨by simp, fun pos => Gap.skip_of_isSolid (by decide),
    fun _ {_ _} hcs => read_symbol (s := .dot) hcs (.inr (.inr ⟨rfl, hrest⟩))⟩

theorem wordKind_congr (h : isFollowedByBy rest = false) :
    wordKind dict word rest = wordKind dict word [] := by
  rw [wordKind, wordKind, h]
  rfl

/-- A word that is a name before some text is one before the end, too. -/
theorem wordKind_nil (h : wordKind dict word rest = LiteralClass.identifier) :
    wordKind dict word [] = LiteralClass.identifier := by
  have hnil : isFollowedByBy [] = false := rfl
  rw [wordKind] at h ⊢
  cases hfind : dict.find? (String.ofList word) with
  | none => rfl
  | some k =>
    simp only [hfind] at h ⊢
    split at h
    case isTrue hk =>
      rw [Bool.and_eq_true] at hk
      simp [hk.1, hnil]
    case isFalse => cases h

/-- A name is a word, or it has a quote in it. -/
theorem isWord_of_read (hread : read d dict pos c cs = .ok l)
    (hkind : l.kind = LiteralClass.identifier) : l.spelling.any Text.isNameQuote = true ∨
      IsWord l.spelling ∧ wordKind dict l.spelling [] = LiteralClass.identifier := by
  obtain ⟨rule, hrule, h⟩ := exists_rule hread
  clear hread
  simp only [rules, List.mem_cons, List.not_mem_nil, or_false] at hrule
  rcases hrule with rfl | rfl | rfl | rfl | rfl | rfl | rfl
  case inl =>
    obtain ⟨cls, hc, h⟩ := Option.map_eq_some_iff.1 h
    split at h <;> cases h
    obtain rfl : cls = .identifier := by simpa using hkind
    left
    rw [quoted?] at hc
    split_ifs at hc <;> simp_all [Text.isNameQuote]
  case inr.inr.inr.inr.inl =>
    simp only [number, Option.ite_none_right_eq_some] at h
    obtain ⟨_, h⟩ := h
    cases h
    dsimp only at hkind
    split at hkind <;> cases hkind
  case inr.inr.inr.inr.inr.inl =>
    simp only [word, Option.ite_none_right_eq_some, Option.some.injEq, Except.ok.injEq] at h
    obtain ⟨hstarts, rfl⟩ := h
    refine .inr ⟨⟨by simpa using hstarts, ?_⟩, wordKind_nil hkind⟩
    exact List.forall_mem_cons.2
      ⟨continuesWord_of_startsWord hstarts, fun x hx => List.mem_takeWhile_imp hx⟩
  case inr.inr.inr.inr.inr.inr =>
    obtain ⟨x, _, h⟩ := Option.map_eq_some_iff.1 h
    cases h
    cases hkind
  -- Each of the others reads literals of another class.
  all_goals
    simp only [hexNumber, hexString, variableName] at h
    repeat' split at h
    all_goals cases h
    all_goals cases hkind

theorem IsWord.not_mem (h : IsWord word) (hc : continuesWord c = false) : c ∉ word := by
  intro hmem
  rw [h.continues c hmem] at hc
  cases hc

/-- A name with a number behind it is a word. -/
theorem IsWord.append_number {stem : String} (h : IsWord stem.toList) (n : Nat) :
    IsWord (stem ++ toString n).toList := by
  obtain ⟨c, cs, hcs, hstarts⟩ := h.exists_cons
  have hdigits : ∀ c ∈ (toString n).toList, continuesWord c = true := by
    intro c hc
    rw [Nat.toString_eq_repr] at hc
    simp [continuesWord, Char.isAlphanum, Piece.isDigit_of_mem_repr c hc]
  rw [String.toList_append]
  exact ⟨by simp [hcs, hstarts], List.forall_mem_append.2 ⟨h.continues, hdigits⟩⟩

end Lexeme

/-! ## Copies of words -/

namespace TokenStream.Copies

open Lexeme (IsWord wordKind)

variable {d : Dialect} {dict : Dictionary} {text name : List Char} {kinds : List TokenKind}

theorem nil : Copies d dict [] [] :=
  ⟨[], [], rfl, .nil, fun _ _ pos => ⟨[], .nil pos, rfl⟩⟩

/-- A lexeme before a copy is copied with it. -/
theorem cons {kind : TokenKind} {spelling : List Char} (h : Copies d dict text kinds)
    (hl : ∀ tail, Closes tail → Lexeme.ReadBefore d dict (text ++ tail) ⟨kind, spelling⟩) :
    Copies d dict (spelling ++ text) (kind :: kinds) := by
  obtain ⟨part, gap, rfl, hgap, hcopy⟩ := h
  refine ⟨spelling ++ part, gap, by simp, hgap, fun tail htail pos => ?_⟩
  obtain ⟨ts, hts, rfl⟩ := hcopy tail htail (pos + Text.byteLength [] + Text.byteLength spelling)
  have hl := hl tail htail
  rw [List.append_assoc] at hl
  exact ⟨_, .cons .nil hl hts, rfl⟩

/-- A word before a copy at which it ends is copied with it. -/
theorem word (h : Copies .mySql dict text kinds) (hname : IsWord name)
    (hend : ∀ tail, Closes tail → Lexeme.endsWord (text ++ tail) = true ∧
      Lexeme.isFollowedByBy (text ++ tail) = false) :
    Copies .mySql dict (name ++ text) (wordKind dict name [] :: kinds) := by
  refine h.cons fun tail htail => ?_
  obtain ⟨hend, hby⟩ := hend tail htail
  rw [← Lexeme.wordKind_congr hby]
  exact hname.readBefore hend

/-- A word ends at the end of the copy. -/
theorem closes_word (tail : List Char) (h : Closes tail) :
    Lexeme.endsWord ([] ++ tail) = true ∧ Lexeme.isFollowedByBy ([] ++ tail) = false := by
  refine ⟨?_, h.notBy⟩
  cases h.cut [] with
  | nil => rfl
  | space => rfl

/-- A word ends before a dot. -/
theorem dot_word (text tail : List Char) : Lexeme.endsWord ('.' :: text ++ tail) = true ∧
    Lexeme.isFollowedByBy ('.' :: text ++ tail) = false :=
  ⟨rfl, Lexeme.isFollowedByBy_of_opensOther (by decide) _⟩

theorem dot (h : Copies .mySql dict text kinds)
    (hend : ∀ tail, Closes tail → (text ++ tail).head?.all (!·.isDigit) = true) :
    Copies .mySql dict ('.' :: text) (.symbol .dot :: kinds) :=
  show Copies .mySql dict (['.'] ++ text) _ from
    h.cons fun tail htail => Lexeme.readBefore_dot (hend tail htail)

end TokenStream.Copies

/-! ## Names without quotes -/

open Lexeme (wordKind)

/-- The name, without its quotes, is a word of the kind that the token has. -/
structure Token.IsBare (dict : Dictionary) (t : Token) : Prop where
  word : Lexeme.IsWord (Text.unquoted t.literal).toList
  kind_eq : wordKind dict (Text.unquoted t.literal).toList [] = t.kind

/-- A name that is written without quotes is bare. -/
theorem TokenStream.isBare {d : Dialect} {dict : Dictionary} {n pos : Nat} {cs : List Char}
    {t : Token} (ht : t ∈ (read d dict n pos cs).tokens)
    (hkind : t.kind = LiteralClass.identifier)
    (hquote : t.literal.toList.any Text.isNameQuote = false) : t.IsBare dict := by
  fun_induction read d dict n pos cs with
  | case1 | case2 | case4 => cases ht
  | case3 =>
    obtain rfl := List.mem_singleton.1 ht
    cases hkind
  | case5 n pos cs pos' c cs' hgap l hl token rest ih =>
    rcases List.mem_cons.1 ht with rfl | ht
    · have hk : l.kind = LiteralClass.identifier := hkind
      have hliteral : token.literal.toList = l.spelling := Lexeme.literal_toList (by simp [hk])
      rw [hliteral] at hquote
      obtain ⟨hword, hself⟩ := (Lexeme.isWord_of_read hl hk).resolve_left (by simp [hquote])
      have hunquoted : (Text.unquoted token.literal).toList = l.spelling := by
        rw [Text.unquoted, String.toList_ofList, hliteral]
        simpa [List.filter_eq_self] using hquote
      exact ⟨hunquoted ▸ hword, by rw [hunquoted, hself, hkind]⟩
    · exact ih ht

end SqlRouting
