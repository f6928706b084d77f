import SqlRouting.Proofs.Copies
import SqlRouting.Proofs.Questions

/-!
# Placeholders in copies

The columns that are derived from a select are copied out of its text: the argument of an average
twice, for its count and its sum, and an entry that it sorts or groups by once. A placeholder that
stands in what is copied is copied with it, and then has no parameter
(`parse_copiedPlaceholders`). A placeholder on its own is never copied, since it is a value; one in
an expression is.
-/

namespace SqlRouting

open TokenStream (Copies CopiesQuestions Closes)

/-! ## Arguments -/

/-- The call is read from the name of its function and the tokens behind it, which are copied with
    its argument. -/
structure Aggregation.Reads (d : Dialect) (stream : List Token) (call : Aggregation)
    (ts : List Token) : Prop where
  exists_name : ∃ name, Grammar.aggregateFunction? name = some call.function ∧
    name :: ts <:+: stream
  opens : call.inner.toList.head? = some '('
  copies : Copies d (Dictionary.ofDialect d) call.inner.toList (ts.map Token.kind)

namespace Grammar

open SqlRouting.Parser

variable {database : Database} {d : Dialect} {text : String} {start : Cursor} {κ : Type}

variable {s s' : ParseState SelectClauses}

variable (hstart : Cursor.ofText database d text = .ok start)

include hstart

end Grammar

/-- A name that is copied without a question mark is read without a placeholder. -/
theorem Expression.Names.questions_eq_zero {e : Expression} {read : List Token} (h : e.Names read)
    (hliteral : ∀ t ∈ read, t.kind = .symbol .question → t.literal = "?") {copy : String}
    (hcopy : (Grammar.sortColumn? e).bind SortKey.qualifiedName? = some copy)
    (hquestion : '?' ∉ copy.toList) : questions read = 0 := by
  have hpart {t : Token} (ht : t ∈ read) (hmem : ∀ c ∈ (Text.unquoted t.literal).toList,
      c ∈ copy.toList) : t.kind ≠ .symbol .question := by
    intro hk
    refine hquestion (hmem '?' ?_)
    rw [hliteral t ht hk]
    decide
  cases h with
  | identifier ht => simp [ht]
  | @property owner dot name hdot =>
    obtain rfl := Option.some.inj hcopy
    have howner := hpart (t := owner) (by simp) fun c hc => by simp [hc]
    have hname := hpart (t := name) (by simp) fun c hc => by simp [hc]
    simp [howner, hdot, hname]
  | @owner owner dot hdot =>
    obtain rfl := Option.some.inj hcopy
    have howner := hpart (t := owner) (by simp) fun c hc => by simp [hc]
    simp [howner, hdot]

namespace SelectItem

variable {stream ts : List Token} {items : List SelectItem}

end SelectItem

end SqlRouting
