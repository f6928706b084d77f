import SqlRouting.Grammar.Statement

/-!
# Parsing a text

A text is parsed for a database, in a dialect that need not be the database's own. Its first token
decides on the kind of statement; the outcome is a complete statement or an error, and all that is
passed over on the way can be traced.
-/

namespace SqlRouting.Statement

/-- What a parser of a whole statement makes of the text behind a cursor, and the
    events on the way. -/
def ofParser {κ : Type} [Inhabited κ] (parser : Parser κ Unit) (statement : Body κ → Statement)
    (cursor : Cursor) : Except ParseError Statement × List TraceEvent :=
  match parser (ParseState.start cursor) with
  | .ok _ s => (.ok (statement s.body), s.events)
  | .error e s => (.error e, s.events)

/-- The statement behind a cursor, of the kind that its first token tells. -/
def ofCursor (cursor : Cursor) : Except ParseError Statement × List TraceEvent :=
  match cursor.current.kind with
  | .keyword .SELECT => ofParser Grammar.select select cursor
  | .keyword .INSERT => ofParser Grammar.insert insert cursor
  | .keyword .UPDATE => ofParser Grammar.update update cursor
  | .keyword .DELETE => ofParser Grammar.delete delete cursor
  | kind => (.error (.unsupportedToken kind), [])

/-- The event that closes a trace. -/
def closingEvent : Except ParseError Statement → TraceEvent
  | .ok s => .parsed s.keyword s.routing.tables.size s.routing.conditions.size
      s.routing.marks.length s.routing.parameters
  | .error e => .failed e

/-- The statement in a text, and all events on the way to it. -/
def parseTraced (database : Database) (dialect : Dialect) (text : String) :
    Except ParseError Statement × List TraceEvent :=
  let (result, events) :=
    match Cursor.ofText database dialect text with
    | .ok cursor => ofCursor cursor
    | .error e => (.error (.lexical e), [])
  (result, events ++ [closingEvent result])

/-- The statement in a text. -/
def parse (database : Database) (dialect : Dialect) (text : String) :
    Except ParseError Statement :=
  (parseTraced database dialect text).1

end SqlRouting.Statement
