import SqlRouting.Error

/-!
# Trace events

What can be observed of a parse beside its outcome: the tokens that are passed over without being
understood, and the outcome itself.
-/

namespace SqlRouting

/-- How closely an observer has to look to see an event. -/
inductive TraceLevel where
  | debug
  | trace
  deriving DecidableEq, Repr

/-- Something that happens during a parse. -/
inductive TraceEvent where
  /-- A keyword was skipped because the dialect says so. -/
  | skippedKeyword (literal : String)
  /-- The text behind a complete statement was skipped. -/
  | skippedRest (rest : String)
  /-- A statement was accepted, with so many tables, conditions, marks and
      placeholders. -/
  | parsed (keyword : Keyword) (tables conditions marks parameters : Nat)
  /-- A statement was refused. -/
  | failed (error : ParseError)
  deriving DecidableEq, Repr

namespace TraceEvent

/-- The level at which the event is seen. -/
def level : TraceEvent → TraceLevel
  | skippedKeyword _ | skippedRest _ => .trace
  | parsed .. | failed _ => .debug

/-- The wording of the event. -/
def message : TraceEvent → String
  | skippedKeyword _ => "skipping dialect keyword"
  | skippedRest _ => "skipping tokens after statement"
  | parsed .. => "parsed statement"
  | failed _ => "parse failed"

end TraceEvent

end SqlRouting
