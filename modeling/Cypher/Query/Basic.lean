/-
  Queries — `START`, `MATCH` and `RETURN` parts.

  * `Query` is an optional verbatim `START` body, the `MATCH` clauses with their
    paths and conditions, and the `RETURN` items;
  * `Query.boundNames`, `Query.hasOptionalMatch` and `Query.numbers` are read
    off a query.
-/
import Cypher.Query.Operand
import Cypher.Query.Path

namespace Cypher

/-- Whether a clause is a `MATCH` or an `OPTIONAL MATCH`. -/
inductive MatchKind where
  | required | optional
  deriving DecidableEq, Repr

/-- A clause `MATCH paths` or `MATCH paths WHERE condition`, likewise with
    `OPTIONAL`. The condition after `WHERE` may be empty. -/
structure MatchClause where
  kind : MatchKind
  paths : List Path
  condition : Option Expression
  deriving DecidableEq, Repr

/-- One item of a `RETURN` list: an expression, with an alias or without. -/
structure ReturnItem where
  expression : Expression
  aliasName : Option Text
  deriving DecidableEq, Repr

/-- The item has neither an expression nor an alias. -/
def ReturnItem.isBlank (item : ReturnItem) : Bool :=
  item.expression.isEmpty && item.aliasName.isNone

/-- A whole query; `start` is the text between `START` and the next clause. -/
structure Query where
  start : Option Text
  clauses : List MatchClause
  returns : List ReturnItem
  deriving DecidableEq, Repr

namespace Query

/-- Some clause is an `OPTIONAL MATCH`. -/
def hasOptionalMatch (query : Query) : Bool :=
  query.clauses.any fun clause => clause.kind == .optional

/-- The names of nodes and relationships in the patterns, in order, repetitions
    included. -/
def boundNames (query : Query) : List Text :=
  query.clauses.flatMap fun clause => clause.paths.flatMap Path.boundNames

/-- The number literals of the conditions, then those of the returned items. -/
def numbers (query : Query) : List Text :=
  (query.clauses.flatMap fun clause => (clause.condition.map Expression.numbers).getD []) ++
    query.returns.flatMap fun item => Expression.numbers item.expression

end Query

end Cypher
