/-
  Diagnostics — a syntax error prepared for display beside its query.

  * `SyntaxError.diagnostic` has a code, a hint that lists the accepted
    alternatives, and a label at the place of the error;
  * `SyntaxError.report` is the diagnostic for display with a given query, with
    its label moved inside the query.
-/
import Cypher.Error.Basic

namespace Cypher

/-- A remark at a place of the query. -/
structure Label where
  text : Text
  offset : Nat
  size : Nat
  deriving DecidableEq, Repr

/-- What is displayed of an error. -/
structure Diagnostic where
  code : Text
  help : Option Text
  label : Label
  message : Text
  deriving DecidableEq, Repr

/-- The span moved inside a text of `size` bytes. -/
def Span.clamp (size : Nat) (span : Span) : Span :=
  let start := min span.start size
  ⟨start, max (min span.stop size) start⟩

namespace SyntaxError

/-- The remark at the place of the error. -/
def labelText (error : SyntaxError) : Text :=
  match error.found with
  | .endOfInput => "query ends here".toList
  | found => "unexpected ".toList ++ found.describe

/-- The error prepared for display. -/
def diagnostic (error : SyntaxError) : Diagnostic where
  code := "cypher::syntax".toList
  help :=
    if error.alternatives.isEmpty then none
    else some ("accepted here: ".toList ++ Text.commaJoined error.alternatives)
  label := ⟨error.labelText, error.span.start, error.span.size⟩
  message := error.message

/-- The error with its span inside the query `source`. -/
def within (source : Text) (error : SyntaxError) : SyntaxError :=
  { error with span := error.span.clamp source.byteSize }

/-- The error prepared for display with the query `source`. -/
def report (source : Text) (error : SyntaxError) : Diagnostic :=
  (error.within source).diagnostic

end SyntaxError

/-- A clamped span lies inside the text. -/
theorem Span.clamp_le (size : Nat) (span : Span) :
    (span.clamp size).start ≤ (span.clamp size).stop ∧ (span.clamp size).stop ≤ size := by
  simp only [clamp]; omega

end Cypher
