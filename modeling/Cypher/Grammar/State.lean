/-
  Parser states — how far a query has been read, and what was looked for.

  A production that does not match leaves a note of what it had looked for. Only
  the notes at the furthest place matter: there the query went wrong.

  * `Expectation` is something that a production looks for;
  * `Furthest` are the expectations at the furthest place where one failed,
    `Furthest.record` adds one;
  * `State` is the cursor, the furthest failure, the fatal error if there is
    one, and the verbatim parts captured so far;
  * `State.error` is the error to report.
-/
import Cypher.Error.Basic
import Cypher.Token.Cursor
import Cypher.Token.Keyword

namespace Cypher

/-! ## Expectations -/

/-- Something that the grammar accepts at a place. -/
inductive Expectation where
  | symbol (symbol : Symbol)
  | keyword (keyword : Keyword)
  /-- The arrow `<-`, without a blank inside -/
  | leftArrow
  /-- The arrow `->`, without a blank inside -/
  | rightArrow
  | identifier
  | quotedString
  | literal
  | number
  | operator
  /-- The clause that follows a `START` body -/
  | clause
  | endOfInput
  deriving DecidableEq, Repr

/-- The wording of an expectation. -/
def Expectation.describe : Expectation → Text
  | symbol s => s.written.inBackTicks
  | keyword k => k.written.inBackTicks
  | leftArrow => Text.inBackTicks ['<', '-']
  | rightArrow => Text.inBackTicks ['-', '>']
  | identifier => "identifier".toList
  | quotedString => "quoted string".toList
  | literal => "literal".toList
  | number => "number".toList
  | operator => "operator".toList
  | clause =>
    Keyword.match_.written.inBackTicks ++ ", ".toList ++ Keyword.where_.written.inBackTicks ++
      " or ".toList ++ Keyword.return_.written.inBackTicks
  | endOfInput => "end of input".toList

/-! ## The furthest failure -/

/-- The furthest place where an expectation failed, and the expectations that
    failed there, in order and without repetitions. -/
structure Furthest where
  cursor : Cursor
  expected : List Expectation
  deriving DecidableEq, Repr

/-- Records an expectation that failed at `c`: a place further on replaces the
    earlier one, and a place before it is forgotten. -/
def Furthest.record (c : Cursor) (e : Expectation) (f : Furthest) : Furthest :=
  if f.cursor.offset < c.offset then ⟨c, [e]⟩
  else if c.offset = f.cursor.offset ∧ e ∉ f.expected then ⟨f.cursor, f.expected ++ [e]⟩
  else f

/-- The error at the furthest place: what was expected, and what stands there. -/
def Furthest.error (f : Furthest) : SyntaxError :=
  let alternatives := f.expected.map Expectation.describe
  match f.cursor.next? with
  | none => ⟨.unexpected alternatives .endOfInput, ⟨f.cursor.offset, f.cursor.offset⟩⟩
  | some (⟨.token kind, span⟩, _) => ⟨.unexpected alternatives (.token kind.written), span⟩
  | some (⟨.unrecognized text, span⟩, _) => ⟨.unexpected alternatives (.unrecognized text), span⟩

/-! ## States -/

/-- A part of the query that was taken over verbatim. -/
inductive Capture where
  /-- The body of a `START` clause, trimmed -/
  | startBody (body : Text)
  /-- A `CASE … END` expression -/
  | caseExpression (text : Text)
  deriving DecidableEq, Repr

/-- The state of reading a query. `captures` also lists what was captured in
    alternatives given up later. -/
structure State where
  cursor : Cursor
  furthest : Furthest
  fatal : Option SyntaxError
  captures : List Capture
  deriving DecidableEq, Repr

namespace State

/-- The state before anything is read. -/
def start (source : Text) : State :=
  ⟨.start source, ⟨.start source, []⟩, none, []⟩

/-- The state with its cursor elsewhere. -/
def moveTo (c : Cursor) (s : State) : State :=
  { s with cursor := c }

/-- Records an expectation that failed at `c`. -/
def expectAt (c : Cursor) (e : Expectation) (s : State) : State :=
  { s with furthest := s.furthest.record c e }

/-- Records an expectation that failed at the next character that is not blank. -/
def expect (e : Expectation) (s : State) : State :=
  s.expectAt s.cursor.skipBlanks e

/-- Gives up the whole query; the first error stands. -/
def fail (error : SyntaxError) (s : State) : State :=
  { s with fatal := s.fatal.or (some error) }

/-- Notes a verbatim part. -/
def capture (c : Capture) (s : State) : State :=
  { s with captures := s.captures ++ [c] }

/-- The error to report: the fatal one, or else the furthest failure. -/
def error (s : State) : SyntaxError :=
  s.fatal.getD s.furthest.error

end State

end Cypher
