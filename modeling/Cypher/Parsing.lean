/-
  Parsing — from the text of a query to the query.

  * `Query.parse limit source` is the query, or the one error to report;
  * `Query.trace` lists what happened on the way: the verbatim parts that were
    captured, and how it ended;
  * `Query.roundTrip` writes a query canonically and reads it again.
-/
import Cypher.Grammar.Clause
import Cypher.Query.Render

namespace Cypher

namespace Query

/-! ## Results -/

/-- What reading a text ends with. -/
abbrev Result := Except SyntaxError Query

/-- How deep calls and groups may be nested unless said otherwise. -/
def defaultLimit : Nat :=
  128

/-- The result of having read a text: a query counts only if no fatal error has
    occurred. -/
def result : Option Query × State → Result
  | (some query, s) => if s.fatal.isSome then .error s.error else .ok query
  | (none, s) => .error s.error

/-- Reads a query in which calls and groups are nested at most `limit` deep. -/
def parse (limit : Nat) (source : Text) : Result :=
  result ((Production.query limit).run (State.start source))

/-- Two results are the same query, or the same error at the same place. -/
def Result.isSame : Result → Result → Bool
  | .ok query, .ok other => query == other
  | .error error, .error other => error == other
  | _, _ => false

/-! ## Traces -/

/-- Something that happens while a query is read. -/
inductive Event where
  | captured (capture : Capture)
  /-- The query was read: whether it has a `START` clause, and how many `MATCH`
      clauses and `RETURN` items. -/
  | parsed (hasStart : Bool) (clauses returns : Nat)
  | rejected (error : SyntaxError)
  deriving DecidableEq, Repr

/-- How reading ended. -/
def Event.ofResult : Result → Event
  | .ok query => .parsed query.start.isSome query.clauses.length query.returns.length
  | .error error => .rejected error

/-- What happens while a query is read, in order. -/
def trace (limit : Nat) (source : Text) : List Event :=
  let read := (Production.query limit).run (State.start source)
  read.2.captures.map .captured ++ [.ofResult (result read)]

/-! ## Round trips -/

/-- A query, its canonical text, and what reading that text gave. -/
structure RoundTrip where
  query : Query
  text : Text
  again : Result

/-- Writes a query canonically and reads the text again. -/
def roundTrip (limit : Nat) (query : Query) : RoundTrip :=
  ⟨query, query.render, parse limit query.render⟩

/-- Reading the canonical text gave the query back. -/
def RoundTrip.isFaithful (trip : RoundTrip) : Bool :=
  Result.isSame trip.again (.ok trip.query)

/-! ## Laws -/

theorem Result.isSame_iff {a b : Result} : Result.isSame a b = true ↔ a = b := by
  cases a <;> cases b <;> simp [Result.isSame]

/-- A round trip is faithful if the canonical text is read as the query. -/
theorem isFaithful_roundTrip_iff {limit : Nat} {query : Query} :
    (query.roundTrip limit).isFaithful = true ↔ parse limit query.render = .ok query := by
  simp [RoundTrip.isFaithful, roundTrip, Result.isSame_iff]

end Query

end Cypher
