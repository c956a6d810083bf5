/-
  Clauses — the productions for `START`, `MATCH`, `RETURN` and the whole query.

  * `startClause`, `matchClause` and `returnItem` read the parts of a query;
  * `query limit` reads a whole query, up to the end of the text, in which calls
    and groups are nested at most `limit` deep.
-/
import Cypher.Grammar.Expression
import Cypher.Grammar.Path
import Cypher.Query.Basic

namespace Cypher

namespace Production

/-- A start clause: `START body`. -/
def startClause : Production Text := do
  let _ ← keyword .start
  startBody

/-- The two keywords `OPTIONAL MATCH`. -/
def optionalMatch : Production MatchKind := do
  let _ ← keyword .optional
  let _ ← keyword .match_
  return .optional

/-- What opens a match clause: `MATCH` or `OPTIONAL MATCH`. -/
def matchKind : Production MatchKind :=
  (fun _ => MatchKind.required) <$> keyword .match_ <|> attempt optionalMatch

/-- Tells whether `MATCH`, `OPTIONAL MATCH` or `RETURN` comes next. -/
def atClause : Production Bool :=
  lookahead ((fun _ => ()) <$> matchKind <|> (fun _ => ()) <$> keyword .return_)

/-- A condition: `WHERE condition`. It is empty if a clause follows directly, for
    the keyword of the clause is then no operand. -/
def whereClause (limit : Nat) : Production Expression := do
  let _ ← keyword .where_
  if ← atClause then return .empty else expression limit limit

/-- A match clause: `MATCH paths` or `MATCH paths WHERE condition`, likewise with
    `OPTIONAL`. -/
def matchClause (limit : Nat) : Production MatchClause := do
  let kind ← matchKind
  let paths ← paths
  let condition ← optional (whereClause limit)
  return ⟨kind, paths, condition⟩

/-- An alias: `AS alias`. -/
def aliasName : Production Text := do
  let _ ← keyword .as_
  nameOrQuoted

/-- An item: `expression` or `expression AS alias`; both may be missing. -/
def returnItem (limit : Nat) : Production ReturnItem := do
  let expression ← expression limit limit
  let aliasName ← optional aliasName
  return ⟨expression, aliasName⟩

/-- An optional `START` clause, the `MATCH` clauses, and `RETURN` with its
    items, up to the end of the text. -/
def query (limit : Nat) : Production Query := do
  let start ← optional startClause
  let clauses ← many (matchClause limit)
  let _ ← keyword .return_
  let returns ← commaList ReturnItem.isBlank (returnItem limit)
  endOfInput
  return ⟨start, clauses, returns⟩

end Production

end Cypher
