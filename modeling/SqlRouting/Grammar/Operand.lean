import SqlRouting.Number
import SqlRouting.Parser
import SqlRouting.Text.Unquoted

/-!
# Operands

An operand is a literal, a placeholder, a name, or a name with an owner. Signs before a number
belong to it. As soon as there is more to it, a call, a group, an operator with a further operand,
the whole is kept as it is written (`Expression.other`), so that no value is cut out of a larger
expression.
-/

namespace SqlRouting.Grammar

open SqlRouting.Parser

variable {κ : Type}

/-- The expression that a single token is. A placeholder takes its index. -/
def atom (t : Token) : Parser κ Expression := do
  match t.kind with
  | .symbol .question => return .placeholder (← takePlaceholder)
  | .literal .chars => return .text t.literal
  | .literal .int => return ((Number.ofInt? t.literal).map .number).getD (.other t.literal)
  | .literal .hex => return ((Number.ofHex? t.literal).map .number).getD (.other t.literal)
  | .literal .float => return .number (Number.ofFloat t.literal)
  | .literal .identifier => return .identifier (Text.unquoted t.literal)
  | _ => return .other t.literal

/-- The token under the cursor joins what is before it to what is behind it: an
    operator or a dot. -/
def isJoint : Parser κ Bool := do
  let c ← cursor
  return c.isOperator || c.isSymbol .dot

/-- Skips an operator or a dot and what it joins to the operand before it, signs, a
    token or a group or both, and tells whether there was such a joint. -/
def skipJoint : Parser κ Bool := do
  if ← isJoint then
    advance
    loop (skipIf [Symbol.minus, Symbol.plus, Symbol.tilde])
    refuseEnd
    countPlaceholder
    -- A name may be followed by the arguments of a call.
    if !(← cursor).isSymbol .leftParen then advance
    let _ ← skipParentheses
    return true
  else return false

/-- Skips all that operators and dots join to the operand before the cursor. -/
def skipJoined : Parser κ Unit :=
  loop skipJoint

/-- Skips what makes more than a single operand of the one before the cursor, and
    tells whether there was any. -/
def skipComposite : Parser κ Bool := do
  if (← isJoint) || (← cursor).isSymbol .leftParen then
    let _ ← skipParentheses
    skipJoined
    return true
  else return false

/-- Records the owner of a column if it names a table of the statement. -/
def markOwner (owner : Token) : Parser κ Unit := do
  if owner.kind = .literal .identifier &&
      (← routing).tables.contains (Text.unquoted owner.literal) then
    addMark (.table owner.start owner.literal)

/-- An operand without signs. -/
def unsignedOperand : Parser κ Expression := do
  let first ← current
  if (← cursor).isSymbol .leftParen then
    let _ ← skipParentheses
    skipJoined
    return .other (← textSince first.start)
  else
    let value ← atom first
    advance
    if ← skipSymbol .dot then
      let name ← takeName
      if ← skipComposite then return .other (← textSince first.start)
      else
        markOwner first
        return .property (Text.unquoted first.literal) (Text.unquoted name.literal)
    else if ← skipComposite then return .other (← textSince first.start)
    else return value

/-- The signs before an operand. At most `n` tokens are looked at. -/
def signs : Nat → Parser κ (List Symbol)
  | 0 => return []
  | n + 1 => do
    let c ← cursor
    if c.isSymbol .minus || c.isSymbol .plus then
      let sign := if c.isSymbol .minus then Symbol.minus else Symbol.plus
      advance
      refuseEnd
      return sign :: (← signs n)
    else return []

/-- An operand. Only a number keeps its value behind signs. -/
def operand : Parser κ Expression := do
  let start := (← current).start
  let signs ← signs (← cursor).movesLeft
  let value ← unsignedOperand
  if signs.isEmpty then return value
  else
    match value with
    | .number n => return .number (if signs.count .minus % 2 = 1 then n.neg else n)
    | _ => return .other (← textSince start)

end SqlRouting.Grammar
