/-
  Clause boundaries — where the next clause begins in arbitrary text.

  The body of a `START` clause is any text at all, and ends where a whole word
  opens another clause.

  * `opensClause t`: the text `t` begins with `MATCH`, `WHERE`, `RETURN` or
    `OPTIONAL MATCH`;
  * `splitAtClause? t`: the text cut in two before the first clause in it.
-/
import Cypher.Text.Word
import Cypher.Token.Keyword

namespace Cypher

namespace Text

/-- The text begins with `OPTIONAL`, at least one blank, and `MATCH`. -/
def opensOptionalMatch (t : Text) : Bool :=
  (afterWord? Keyword.optional.written t).any fun rest =>
    endsWord rest && rest.head?.any isBlank && startsWord Keyword.match_.written (dropBlanks rest)

/-- The text begins with `MATCH`, `WHERE`, `RETURN` or `OPTIONAL MATCH`. -/
def opensClause (t : Text) : Bool :=
  startsWord Keyword.match_.written t || startsWord Keyword.where_.written t ||
    startsWord Keyword.return_.written t || opensOptionalMatch t

/-- Cuts the text before the first clause in it. -/
def splitAtClause? (t : Text) : Option (Text × Text) :=
  splitAtStart? opensClause t

end Text

end Cypher
