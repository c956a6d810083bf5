/-
  Numerals — the shape of an unsigned number in a query.

  A numeral is `0` or digits that do not start with `0`, then optionally a dot
  with digits, then optionally an exponent mark with a sign or none and digits.

  * `splitInteger`, `splitFraction` and `splitExponent` each cut one part off
    the front of a text, as long as it can be, and nothing if the part is not
    complete there: `1.` is a numeral and a dot, `1e+` a numeral and the rest;
  * `splitNumeral` cuts the whole numeral off a text that begins with a digit.
-/
import Cypher.Text.Basic

namespace Cypher

namespace Text

/-- Cuts off the integer part: a single `0`, or all leading digits. -/
def splitInteger : Text → Text × Text
  | [] => ([], [])
  | c :: cs =>
    if c = '0' then ([c], cs)
    else ((c :: cs).takeWhile Char.isDigit, (c :: cs).dropWhile Char.isDigit)

/-- Cuts off a dot and the digits after it, if there is at least one. -/
def splitFraction : Text → Text × Text
  | [] => ([], [])
  | c :: cs =>
    if c = '.' && (cs.head?.any Char.isDigit) then
      (c :: cs.takeWhile Char.isDigit, cs.dropWhile Char.isDigit)
    else ([], c :: cs)

/-- Cuts off a sign. -/
def splitSign : Text → Text × Text
  | [] => ([], [])
  | c :: cs => if c = '+' || c = '-' then ([c], cs) else ([], c :: cs)

/-- Cuts off an exponent mark, an optional sign and the digits after them, if
    there is at least one digit. -/
def splitExponent : Text → Text × Text
  | [] => ([], [])
  | c :: cs =>
    if (c = 'e' || c = 'E') && ((splitSign cs).2.head?.any Char.isDigit) then
      (c :: (splitSign cs).1 ++ (splitSign cs).2.takeWhile Char.isDigit,
        (splitSign cs).2.dropWhile Char.isDigit)
    else ([], c :: cs)

/-- Cuts the longest numeral off a text that begins with a digit. -/
def splitNumeral (t : Text) : Text × Text :=
  let (integer, afterInteger) := splitInteger t
  let (fraction, afterFraction) := splitFraction afterInteger
  let (exponent, rest) := splitExponent afterFraction
  (integer ++ fraction ++ exponent, rest)

/-! ## Laws: nothing is lost -/

theorem splitInteger_append (t : Text) : (splitInteger t).1 ++ (splitInteger t).2 = t := by
  cases t with
  | nil => rfl
  | cons c cs =>
    simp only [splitInteger]
    split
    · rfl
    · exact List.takeWhile_append_dropWhile

theorem splitFraction_append (t : Text) : (splitFraction t).1 ++ (splitFraction t).2 = t := by
  cases t with
  | nil => rfl
  | cons c cs =>
    simp only [splitFraction]
    split
    · simp [List.takeWhile_append_dropWhile]
    · rfl

theorem splitSign_append (t : Text) : (splitSign t).1 ++ (splitSign t).2 = t := by
  cases t with
  | nil => rfl
  | cons c cs => simp only [splitSign]; split <;> rfl

theorem splitExponent_append (t : Text) : (splitExponent t).1 ++ (splitExponent t).2 = t := by
  cases t with
  | nil => rfl
  | cons c cs =>
    simp only [splitExponent]
    split
    · simp [List.takeWhile_append_dropWhile, splitSign_append]
    · rfl

theorem splitNumeral_append (t : Text) : (splitNumeral t).1 ++ (splitNumeral t).2 = t := by
  simp only [splitNumeral, List.append_assoc, splitExponent_append, splitFraction_append,
    splitInteger_append]

/-- The numeral at a digit is not empty. -/
theorem splitNumeral_ne_nil {c : Char} (cs : Text) (h : c.isDigit = true) :
    (splitNumeral (c :: cs)).1 ≠ [] := by
  have : (splitInteger (c :: cs)).1 ≠ [] := by
    simp only [splitInteger]
    split
    · simp
    · simp [h]
  simp [splitNumeral, this]

end Text

end Cypher
