/-!
# Comparison without regard to case

Names and keywords are compared without regard to the case of the letters `A` to `Z`. All other
characters, letters of other scripts among them, are equal only to themselves.
-/

namespace SqlRouting.Text

/-- The text with its letters `A` to `Z` in lower case. -/
def lower (s : String) : String :=
  String.ofList (s.toList.map Char.toLower)

/-- The text with its letters `a` to `z` in upper case. -/
def upper (s : String) : String :=
  String.ofList (s.toList.map Char.toUpper)

/-- The two texts differ at most in the case of their ASCII letters. -/
def sameLetters (s t : String) : Bool :=
  lower s == lower t

theorem sameLetters_iff {s t : String} : sameLetters s t = true ↔ lower s = lower t := by
  simp [sameLetters]

@[simp] theorem sameLetters_self (s : String) : sameLetters s s = true := by
  simp [sameLetters]

theorem sameLetters_comm (s t : String) : sameLetters s t = sameLetters t s := by
  simp [sameLetters, BEq.comm]

/-- Texts with the same letters as a third are alike to every other. -/
theorem sameLetters_congr {s t : String} (h : sameLetters s t = true) (u : String) :
    sameLetters s u = sameLetters t u := by
  rw [sameLetters, sameLetters, sameLetters_iff.1 h]

end SqlRouting.Text
