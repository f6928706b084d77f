import SqlRouting.Dialect
import SqlRouting.Text.Case

/-!
# Dictionaries

The words that a dialect reads as keywords: the standard keywords and its own. A word is looked up
without regard to case.
-/

namespace SqlRouting

/-- A set of keywords, each listed once. -/
structure Dictionary where
  keywords : List Keyword
  deriving DecidableEq, Repr

namespace Dictionary

/-- The dictionary of a dialect: the standard keywords and its own. -/
def ofDialect (d : Dialect) : Dictionary where
  keywords := Keyword.all.filter fun k => k ∈ Keyword.standard || k ∈ d.keywords

theorem mem_ofDialect {d : Dialect} {k : Keyword} :
    k ∈ (ofDialect d).keywords ↔ k ∈ Keyword.standard ∨ k ∈ d.keywords := by
  simp [ofDialect, Keyword.mem_all]

theorem nodup_ofDialect (d : Dialect) : (ofDialect d).keywords.Nodup :=
  List.Pairwise.filter _ (by decide)

/-- The keyword that a word is, if it is one. -/
def find? (dict : Dictionary) (word : String) : Option Keyword :=
  dict.keywords.find? fun k => k.text = Text.upper word

/-- The number of keywords. -/
def size (dict : Dictionary) : Nat :=
  dict.keywords.length

/-- There is no keyword. -/
def isEmpty (dict : Dictionary) : Bool :=
  dict.keywords.isEmpty

end Dictionary

end SqlRouting
