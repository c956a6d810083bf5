/-
  Keywords — the words that open the parts of a query.

  A keyword is an identifier that the grammar looks for by name, in any mixture
  of capitals and small letters; it is always written in capitals. Nothing
  reserves it: where the grammar asks for a name, a keyword is one.
-/
import Cypher.Token.Basic

namespace Cypher

/-- The words of the grammar. `END` only closes a verbatim `CASE` expression. -/
inductive Keyword where
  | start | match_ | optional | where_ | return_ | as_ | distinct | case_ | end_
  deriving DecidableEq, Repr

/-- The keyword in capitals. -/
def Keyword.written : Keyword → Text
  | start => ['S', 'T', 'A', 'R', 'T']
  | match_ => ['M', 'A', 'T', 'C', 'H']
  | optional => ['O', 'P', 'T', 'I', 'O', 'N', 'A', 'L']
  | where_ => ['W', 'H', 'E', 'R', 'E']
  | return_ => ['R', 'E', 'T', 'U', 'R', 'N']
  | as_ => ['A', 'S']
  | distinct => ['D', 'I', 'S', 'T', 'I', 'N', 'C', 'T']
  | case_ => ['C', 'A', 'S', 'E']
  | end_ => ['E', 'N', 'D']

/-- The token is the keyword, up to the case of its letters. -/
def TokenKind.isKeyword (keyword : Keyword) (kind : TokenKind) : Bool :=
  kind.isWord keyword.written

/-- No two keywords are written alike. -/
theorem Keyword.written_injective {k l : Keyword} (h : k.written = l.written) : k = l := by
  cases k <;> cases l <;> simp_all [written]

end Cypher
