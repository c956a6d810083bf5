/-
  Tokenizing — all the tokens of a text at once.

  * `Lexed` are the tokens of a text in order and, apart from them, an error for
    each stretch of text that no token matches;
  * `tokenize` reads a whole text, `Cursor.lexed` what follows a cursor.
-/
import Cypher.Error.Basic
import Cypher.Token.Cursor

namespace Cypher

/-- The tokens of a text, and the errors for what no token matches. -/
structure Lexed where
  tokens : List Token
  errors : List SyntaxError
  deriving DecidableEq, Repr

/-- The error for an item that is no token. -/
def Item.error? : Item → Option SyntaxError
  | ⟨.token _, _⟩ => none
  | ⟨.unrecognized text, span⟩ => some ⟨.unrecognized text, span⟩

/-- The tokens and errors from a cursor to the end of the text. -/
def Cursor.lexed (c : Cursor) : Lexed :=
  ⟨c.items.filterMap Item.token?, c.items.filterMap Item.error?⟩

/-- The tokens and errors of a text. -/
def tokenize (source : Text) : Lexed :=
  (Cursor.start source).lexed

end Cypher
