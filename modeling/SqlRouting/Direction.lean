/-!
# Sort directions
-/

namespace SqlRouting

/-- The direction in which the rows, or the nulls among them, are sorted. -/
inductive Direction where
  | ascending
  | descending
  deriving DecidableEq, Repr

end SqlRouting
