import SqlRouting.Proofs.Coupled.Statement
import SqlRouting.Proofs.Folded

/-!
# The case of keywords

Keywords are known in upper and in lower case, but their letters do not disappear with that: a
keyword may end up in an alias, in the name behind a dot, in the text of a select item, and there it
is compared with others. None of this is seen by routing. Two texts that differ only in the case of
letters of keywords are both accepted or both refused, with the same tables, marks, parameters and
limit, and with the same conditions unless a keyword is taken for the name of a column
(`parse_of_variesInCase`).
-/

namespace SqlRouting

/-- The token is a keyword, and the position is one of a character of it. -/
def Token.IsKeywordAt (pos : Nat) (t : Token) : Prop :=
  t.kind.keyword?.isSome ∧ t.start ≤ pos ∧ pos < t.stop

instance (pos : Nat) (t : Token) : Decidable (t.IsKeywordAt pos) :=
  inferInstanceAs (Decidable (_ ∧ _))

/-- The two texts at a position are the same, save for the case of letters inside of those of the
    tokens that are keywords. -/
def VariesInCase (tokens : List Token) : Nat → List Char → List Char → Prop
  | _, [], [] => True
  | pos, c :: cs, c' :: cs' =>
    (c = c' ∨ c.toLower = c'.toLower ∧ ∃ t ∈ tokens, t.IsKeywordAt pos) ∧
      VariesInCase tokens (pos + c.utf8Size) cs cs'
  | _, [], _ :: _ => False
  | _, _ :: _, [] => False

namespace VariesInCase

/-- Whether two texts vary in the case of keywords only can be computed. -/
def decide (tokens : List Token) : (pos : Nat) → (cs cs' : List Char) →
    Decidable (VariesInCase tokens pos cs cs')
  | _, [], [] => .isTrue trivial
  | pos, c :: cs, _ :: cs' =>
    have := decide tokens (pos + c.utf8Size) cs cs'
    inferInstanceAs (Decidable (_ ∧ _))
  | _, [], _ :: _ => .isFalse id
  | _, _ :: _, [] => .isFalse id

instance (tokens : List Token) (pos : Nat) (cs cs' : List Char) :
    Decidable (VariesInCase tokens pos cs cs') :=
  decide tokens pos cs cs'

variable {tokens : List Token} {t : Token} {pos : Nat} {cs cs' : List Char}

theorem map_toLower_eq (h : VariesInCase tokens pos cs cs') :
    cs.map Char.toLower = cs'.map Char.toLower := by
  fun_induction VariesInCase tokens pos cs cs' with
  | case1 => rfl
  | case2 pos c cs c' cs' ih =>
    have hc : c.toLower = c'.toLower := h.1.elim (congrArg _) And.left
    rw [List.map_cons, List.map_cons, hc, ih h.2]
  | case3 => exact h.elim
  | case4 => exact h.elim

theorem drop (h : VariesInCase tokens pos cs cs') (n : Nat) :
    VariesInCase tokens (pos + Text.byteLength (cs.take n)) (cs.drop n) (cs'.drop n) := by
  fun_induction VariesInCase tokens pos cs cs' generalizing n with
  | case1 => simp [VariesInCase]
  | case2 pos c cs c' cs' ih =>
    cases n with
    | zero => exact h
    | succ n => simpa [Nat.add_assoc] using ih h.2 n
  | case3 => exact h.elim
  | case4 => exact h.elim

/-- Before the first keyword nothing varies. -/
theorem take_eq (h : VariesInCase tokens pos cs cs') (n : Nat)
    (hbefore : ∀ t ∈ tokens, t.kind.keyword?.isSome →
      pos + Text.byteLength (cs.take n) ≤ t.start ∨ t.stop ≤ pos) : cs.take n = cs'.take n := by
  fun_induction VariesInCase tokens pos cs cs' generalizing n with
  | case1 => rfl
  | case2 pos c cs c' cs' ih =>
    cases n with
    | zero => rfl
    | succ n =>
      simp only [List.take_succ_cons, Text.byteLength_cons] at hbefore ⊢
      have hsize := c.utf8Size_pos
      have hc : c = c' := h.1.elim id fun ⟨_, t, ht, hkeyword, hstart, hstop⟩ => by
        have := hbefore t ht hkeyword
        omega
      rw [hc, ih h.2 n fun t ht hkeyword => by
        have := hbefore t ht hkeyword
        omega]
  | case3 => exact h.elim
  | case4 => exact h.elim

/-- Nothing varies where there are no keywords. -/
theorem eq_of_nil (h : VariesInCase [] pos cs cs') : cs = cs' := by
  have hlength : cs.length = cs'.length := by simpa using congrArg List.length h.map_toLower_eq
  have htake := h.take_eq cs.length (by simp)
  rwa [List.take_length, hlength, List.take_length] at htake

/-- Tokens that have been passed do not matter. -/
theorem behind (h : VariesInCase (t :: tokens) pos cs cs') (hstop : t.stop ≤ pos) :
    VariesInCase tokens pos cs cs' := by
  fun_induction VariesInCase tokens pos cs cs' with
  | case1 => trivial
  | case2 pos c cs c' cs' ih =>
    refine ⟨h.1.imp_right (And.imp_right ?_), ih h.2 (by omega)⟩
    rintro ⟨u, hu, hkeyword⟩
    rcases List.mem_cons.1 hu with rfl | hu
    · exact absurd hkeyword.2.2 (by omega)
    · exact ⟨u, hu, hkeyword⟩
  | case3 => exact h
  | case4 => exact h

end VariesInCase

/-- Two runs in one dialect on texts that differ in the case of letters. -/
def Pairing.ofCase (d : Dialect) (names : Prop) : Pairing where
  fold := Char.toLower
  toLower_fold := Text.toLower_toLower
  utf8Size_fold := Text.utf8Size_toLower
  isNameQuote_fold := Text.apply_toLower (by decide)
  isBlank_fold := Text.isBlank_toLower
  names
  occurs _ := True
  left := d
  right := d
  parts _ _ := False
  oneSided := False
  hooks _ _ _ := ⟨id, .inl⟩
  refused _ _ _ := id
  nulls := rfl

namespace TokenStream

variable {d : Dialect} {dict : Dictionary} {n : Nat} {text before cs cs' : List Char} {names : Prop}

theorem byteLength_map_toLower (cs : List Char) :
    Text.byteLength (cs.map Char.toLower) = Text.byteLength cs :=
  Text.byteLength_map_fold (P := Pairing.ofCase .standard True) cs

/-- Lexemes that are the same in lower case make alike tokens, which are the same if they are
    spelled the same. -/
theorem toToken_alike {l l' : Lexeme} (h : l.lowered = l'.lowered) (pos : Nat)
    (hsame : l.kind.keyword? = none → l.spelling = l'.spelling) :
    (l.toToken pos).Alike (Pairing.ofCase d names) (l'.toToken pos) := by
  obtain ⟨kind, spelling⟩ := l
  obtain ⟨kind', spelling'⟩ := l'
  obtain ⟨rfl, hspelling⟩ : kind = kind' ∧
      spelling.map Char.toLower = spelling'.map Char.toLower := Lexeme.mk.inj h
  have hliteral : Text.Alike (Pairing.ofCase d names) (Lexeme.literal ⟨kind, spelling⟩)
      (Lexeme.literal ⟨kind, spelling'⟩) := by
    rw [Lexeme.literal, Lexeme.literal]
    split_ifs
    · refine .ofList ?_
      change ((spelling.drop 1).dropLast).map Char.toLower =
        ((spelling'.drop 1).dropLast).map Char.toLower
      rw [List.map_dropLast, List.map_dropLast, List.map_drop, List.map_drop, hspelling]
    · exact .ofList hspelling
  refine ⟨rfl, hliteral, fun hkind => ?_, ?_, fun _ _ => trivial⟩
  · obtain rfl : spelling = spelling' := hsame hkind
    rfl
  · change pos + Text.byteLength spelling = pos + Text.byteLength spelling'
    rw [← byteLength_map_toLower, hspelling, byteLength_map_toLower]

/-- The gaps that texts which vary in the case of keywords start with end at the same place. -/
theorem skip_variesInCase {tokens : List Token} {pos : Nat} (h : VariesInCase tokens pos cs cs') :
    (∃ e, Gap.skip d .blank pos cs = .error e ∧ Gap.skip d .blank pos cs' = .error e) ∨
      ∃ gap rest rest', cs = gap ++ rest ∧
        Gap.skip d .blank pos cs = .ok (pos + Text.byteLength gap, rest) ∧
        Gap.skip d .blank pos cs' = .ok (pos + Text.byteLength gap, rest') ∧
        VariesInCase tokens (pos + Text.byteLength gap) rest rest' := by
  have hlower := Gap.skip_lowered d .blank pos cs
  have hlength : cs.length = cs'.length := by simpa using congrArg List.length h.map_toLower_eq
  rw [h.map_toLower_eq, Gap.skip_lowered] at hlower
  cases hskip : Gap.skip d .blank pos cs with
  | error e =>
    refine .inl ⟨e, rfl, ?_⟩
    cases hskip' : Gap.skip d .blank pos cs' with
    | error e' =>
      rw [hskip, hskip'] at hlower
      exact hlower
    | ok => simp [hskip, hskip', Except.map] at hlower
  | ok behind =>
    cases hskip' : Gap.skip d .blank pos cs' with
    | error e' => simp [hskip, hskip', Except.map] at hlower
    | ok behind' =>
      obtain ⟨stop, rest⟩ := behind
      obtain ⟨stop', rest'⟩ := behind'
      obtain ⟨gap, rfl, rfl⟩ := Gap.skip_eq_ok hskip
      obtain ⟨gap', rfl, rfl⟩ := Gap.skip_eq_ok hskip'
      obtain ⟨hstop, hrest⟩ : pos + Text.byteLength gap' = pos + Text.byteLength gap ∧
          rest'.map Char.toLower = rest.map Char.toLower := by
        simpa [hskip, hskip', Except.map] using hlower
      -- The gaps have the same number of characters, since the texts and the rests have.
      have hgap : gap'.length = gap.length := by
        have := congrArg List.length hrest
        simp only [List.length_map, List.length_append] at this hlength
        omega
      refine .inr ⟨gap, rest, rest', rfl, rfl, by rw [hstop], ?_⟩
      simpa [← hgap] using h.drop gap.length

/-- Texts with the same letters start with lexemes that are the same in lower case. -/
theorem exists_read_of_map_eq {pos : Nat} {c c' : Char}
    (h : (c :: cs).map Char.toLower = (c' :: cs').map Char.toLower) {l : Lexeme}
    (hl : Lexeme.read d dict pos c cs = .ok l) :
    ∃ l', Lexeme.read d dict pos c' cs' = .ok l' ∧ l.lowered = l'.lowered := by
  rw [List.map_cons, List.map_cons, List.cons.injEq] at h
  have hread : (Lexeme.read d dict pos c.toLower (cs.map Char.toLower)).toOption.map
      Lexeme.lowered = (Lexeme.read d dict pos c cs).toOption.map Lexeme.lowered :=
    Lexeme.read_lowered c cs
  rw [h.1, h.2, Lexeme.read_lowered, hl] at hread
  cases hl' : Lexeme.read d dict pos c' cs' with
  | error e => simp [hl', Except.toOption] at hread
  | ok l' => exact ⟨l', rfl, by simpa [hl', Except.toOption] using hread.symm⟩

variable (d names) in
/-- Behind lexemes that are the same in lower case the texts vary in the case of keywords as before,
    and so do the lexemes themselves: if they are no keyword, they are the same. -/
theorem lexeme_variesInCase {tokens : List Token} {pos : Nat} {l l' : Lexeme} (hl : l.Opens cs)
    (hl' : l'.Opens cs') (hlower : l.lowered = l'.lowered)
    (hbehind : ∀ t ∈ tokens, pos + Text.byteLength l.spelling ≤ t.start)
    (h : VariesInCase (l.toToken pos :: tokens) pos cs cs') :
    (l.toToken pos).Alike (Pairing.ofCase d names) (l'.toToken pos) ∧
      VariesInCase tokens (l.toToken pos).stop (cs.drop l.spelling.length)
        (cs'.drop l'.spelling.length) := by
  have htake := List.prefix_iff_eq_take.1 hl.spelled
  have htake' := List.prefix_iff_eq_take.1 hl'.spelled
  have hlength : l'.spelling.length = l.spelling.length := by
    simpa using congrArg List.length (Lexeme.mk.inj hlower).2.symm
  rw [hlength] at htake' ⊢
  refine ⟨toToken_alike hlower pos fun hkind => ?_, ?_⟩
  · rw [htake, htake', h.take_eq l.spelling.length]
    rintro t ht hkeyword
    rcases List.mem_cons.1 ht with rfl | ht
    · simp [Lexeme.toToken, hkind] at hkeyword
    · exact .inl (htake ▸ hbehind t ht)
  · have hdrop := h.drop l.spelling.length
    rw [← htake] at hdrop
    exact hdrop.behind (Nat.le_refl _)

variable (names) in
/-- Texts that vary in the case of their keywords are cut into alike tokens. -/
theorem read_variesInCase (htext : text = before ++ cs)
    (h : VariesInCase (read d dict n (Text.byteLength before) cs).tokens (Text.byteLength before)
      cs cs') :
    List.Forall₂ (Token.Alike (Pairing.ofCase d names))
        (read d dict n (Text.byteLength before) cs).tokens
        (read d dict n (Text.byteLength before) cs').tokens ∧
      (read d dict n (Text.byteLength before) cs).failure =
        (read d dict n (Text.byteLength before) cs').failure := by
  induction n generalizing before cs cs' with
  | zero => exact ⟨.nil, rfl⟩
  | succ n ih =>
    obtain ⟨e, he, he'⟩ | ⟨gap, rest, rest', rfl, hskip, hskip', hrest⟩ :=
      skip_variesInCase (d := d) h
    · simp only [read, he, he']
      exact ⟨.nil, trivial⟩
    rcases rest with _ | ⟨c, rest⟩ <;> rcases rest' with _ | ⟨c', rest'⟩
    · simp only [read, hskip, hskip']
      exact ⟨.cons ⟨rfl, .refl _, fun _ => rfl, rfl, fun _ _ => trivial⟩ .nil, trivial⟩
    · exact hrest.elim
    · exact hrest.elim
    simp only [read, hskip] at hrest
    simp only [read, hskip, hskip']
    cases hl : Lexeme.read d dict (Text.byteLength before + Text.byteLength gap) c rest with
    | error e =>
      -- There are no tokens any more, so the rests are the same and fail in the same way.
      simp only [hl] at hrest
      obtain ⟨rfl, rfl⟩ := List.cons.inj hrest.eq_of_nil
      simp only [hl]
      exact ⟨.nil, trivial⟩
    | ok l =>
      simp only [hl] at hrest
      obtain ⟨l', hl', hlower⟩ := exists_read_of_map_eq hrest.map_toLower_eq hl
      have hopens := Lexeme.read_opens hl
      obtain ⟨more, hmore⟩ : l.spelling <+: c :: rest := hopens.spelled
      have hpos : Text.byteLength (before ++ gap ++ l.spelling) =
          (l.toToken (Text.byteLength before + Text.byteLength gap)).stop := by
        simp [Lexeme.toToken, Nat.add_assoc]
      have htext' : text = before ++ gap ++ l.spelling ++ (c :: rest).drop l.spelling.length := by
        simp [htext, ← hmore]
      have hsorted : ∀ t ∈ (read d dict n (Text.byteLength (before ++ gap ++ l.spelling))
          ((c :: rest).drop l.spelling.length)).tokens, t.At text ∧ _ ≤ t.start :=
        (read_sorted htext').1
      rw [hpos] at hsorted
      obtain ⟨htoken, hmore⟩ := lexeme_variesInCase d names hopens
        (Lexeme.read_opens hl') hlower (fun t ht => (hsorted t ht).2) hrest
      rw [← hpos] at hmore
      obtain ⟨htokens, hfailure⟩ := ih htext' hmore
      rw [hpos] at htokens hfailure
      simp only [hl', ← htoken.stop]
      exact ⟨.cons htoken htokens, hfailure⟩

variable (names) in
theorem ofText_variesInCase (h : VariesInCase (ofText d cs).tokens 0 cs cs') :
    List.Forall₂ (Token.Alike (Pairing.ofCase d names)) (ofText d cs).tokens
        (ofText d cs').tokens ∧
      (ofText d cs).failure = (ofText d cs').failure := by
  have hlength : cs.length = cs'.length := by simpa using congrArg List.length h.map_toLower_eq
  have hread := read_variesInCase names (List.nil_append cs).symm h
  rwa [ofText, ofText, ← hlength]

end TokenStream

/-! ## Routing -/

/-- The mark with the texts of select items in lower case. -/
def Mark.lowered : Mark → Mark
  | items start texts => items start (texts.map Text.lower)
  | table start spelling => table start spelling
  | orderBy start => orderBy start
  | insertValues start name => insertValues start name
  | offset start value => offset start value
  | rowCount start value => rowCount start value

/-- The error with literals in lower case. -/
def ParseError.lowered : ParseError → ParseError
  | unexpectedToken kind literal position => unexpectedToken kind (Text.lower literal) position
  | unmatchedToken expected actual literal => unmatchedToken expected actual (Text.lower literal)
  | lexical cause => lexical cause
  | unsupportedToken kind => unsupportedToken kind
  | unsupported cause => unsupported cause
  | fault cause => fault cause

theorem Mark.Alike.lowered_eq {P : Pairing} {m m' : Mark} (h : m.Alike P m') :
    m.lowered = m'.lowered := by
  cases h with
  | refl => rfl
  | items start htexts =>
    rw [lowered, lowered, map_eq_of_forall₂ htexts fun _ _ ht => Text.Alike.lower_eq ht]

theorem ParseError.Alike.lowered_eq {P : Pairing} {e e' : ParseError} (h : e.Alike P e') :
    e.lowered = e'.lowered := by
  cases h with
  | refl => rfl
  | unexpectedToken kind position h => rw [lowered, lowered, h.lower_eq]
  | unmatchedToken expected actual h => rw [lowered, lowered, h.lower_eq]

namespace Statement

/-- The two statements are routed in the same way, whatever their conditions: of the texts of select
    items only the case may differ. -/
structure SameRouting (s s' : Statement) : Prop where
  keyword : s.keyword = s'.keyword
  tables : s.routing.tables.names = s'.routing.tables.names
  parameters : s.routing.parameters = s'.routing.parameters
  limit : s.limit? = s'.limit?
  marks : s.routing.marks.map Mark.lowered = s'.routing.marks.map Mark.lowered

theorem Alike.sameRouting {P : Pairing} {s s' : Statement} (h : s.Alike P s') :
    s.SameRouting s' where
  keyword := h.keyword_eq
  tables := h.routing.tables.names_eq
  parameters := h.routing.parameters
  limit := h.limit?_eq
  marks := map_eq_of_forall₂ h.routing.marks fun _ _ hm => hm.lowered_eq

/-- The case of keywords does not matter to routing: texts that differ in nothing else are accepted
    as statements that are routed in the same way, with the same conditions unless a keyword stands
    behind a dot, or they are refused with the same error, the case of a literal aside. -/
theorem parse_of_variesInCase (database : Database) (d : Dialect) {text text' : String}
    (h : VariesInCase (TokenStream.ofText d text.toList).tokens 0 text.toList text'.toList) :
    (∃ s s', parse database d text = .ok s ∧ parse database d text' = .ok s' ∧ s.SameRouting s' ∧
      ((TokenStream.ofText d text.toList).tokens.IsChain Token.AdmitsBehind →
        s.routing.conditions = s'.routing.conditions)) ∨
    ∃ e e', parse database d text = .error e ∧ parse database d text' = .error e' ∧
      e.lowered = e'.lowered := by
  let P := Pairing.ofCase d
    ((TokenStream.ofText d text.toList).tokens.IsChain Token.AdmitsBehind)
  have hstream := TokenStream.ofText_variesInCase P.names h
  have htext : Text.Alike P text text' := h.map_toLower_eq
  have houtcome := parse_alike (P := P) database htext hstream.1 hstream.2 .inr
  change OutcomeAlike P (parse database d text) (parse database d text') at houtcome
  generalize parse database d text = r at houtcome ⊢
  generalize parse database d text' = r' at houtcome ⊢
  cases houtcome with
  | ok hs => exact .inl ⟨_, _, rfl, rfl, hs.sameRouting, fun hdots => hs.routing.conditions hdots⟩
  | error he => exact .inr ⟨_, _, rfl, rfl, he.lowered_eq⟩

/-- A select whose keywords, one of them an alias, are written in small letters or capitals. -/
theorem parse_select_in_capitals :
    VariesInCase (TokenStream.ofText .mySql "select avg(n) count from t where t.id = 7".toList).tokens
        0 "select avg(n) count from t where t.id = 7".toList
        "SELECT AVG(n) COUNT FROM t WHERE t.id = 7".toList ∧
      ∃ s s', parse .mySql .mySql "select avg(n) count from t where t.id = 7" = .ok s ∧
        parse .mySql .mySql "SELECT AVG(n) COUNT FROM t WHERE t.id = 7" = .ok s' ∧
        s.SameRouting s' ∧ s.routing.conditions = s'.routing.conditions := by
  have hvaries : VariesInCase
      (TokenStream.ofText .mySql "select avg(n) count from t where t.id = 7".toList).tokens
      0 "select avg(n) count from t where t.id = 7".toList
      "SELECT AVG(n) COUNT FROM t WHERE t.id = 7".toList := by decide +kernel
  refine ⟨hvaries, ?_⟩
  rcases parse_of_variesInCase .mySql .mySql hvaries with ⟨s, s', h, h', hs, hsame⟩ | ⟨e, _, he, _⟩
  · exact ⟨s, s', h, h', hs, hsame (by decide +kernel)⟩
  · have hok : (parse .mySql .mySql
        "select avg(n) count from t where t.id = 7").toOption.isSome = true := by
      decide +kernel
    rw [he] at hok
    cases hok

end Statement

end SqlRouting
