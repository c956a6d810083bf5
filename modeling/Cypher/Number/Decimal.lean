/-
  Reading numbers — the grammar of number texts and what they denote.

  A number text is an optional sign followed by `inf`, `infinity` or `nan` in
  any mixture of capitals and small letters, or by decimal digits with an
  optional dot among, before or after them and an optional exponent.

  * `Decimal` is a number `coefficient · 10 ^ exponent`;
  * `NumberReading` is what a whole text denotes, `NumberReading.ofText?` reads
    it and refuses every other text.
-/
import Cypher.Token.Numeral

namespace Cypher

/-- The number `coefficient · 10 ^ exponent`. -/
structure Decimal where
  coefficient : Nat
  exponent : Int
  deriving DecidableEq, Repr

/-- A number without its sign. -/
inductive Magnitude where
  | nan
  | infinity
  | finite (decimal : Decimal)
  deriving DecidableEq, Repr

/-- What a number text denotes. A zero has a sign, too. -/
structure NumberReading where
  negative : Bool
  magnitude : Magnitude
  deriving DecidableEq, Repr

/-- The number that a sequence of decimal digits denotes. -/
def Text.digitsValue (digits : Text) : Nat :=
  digits.foldl (fun value digit => 10 * value + (digit.toNat - '0'.toNat)) 0

/-- Reads a non-empty sequence of digits. -/
def Text.readDigits? (t : Text) : Option Nat :=
  if t.isEmpty || !t.all Char.isDigit then none else some t.digitsValue

/-- Reads the exponent part of a number: nothing, or a mark and an integer. -/
def Text.readExponent? : Text → Option Int
  | [] => some 0
  | mark :: t =>
    if mark = 'e' || mark = 'E' then
      let (sign, digits) := splitSign t
      (readDigits? digits).map fun n => if sign = ['-'] then -(n : Int) else n
    else none

/-- Cuts a leading dot and the digits after it, if any, off a text; gives the
    digits alone and the rest. -/
def Text.splitDecimals : Text → Text × Text
  | [] => ([], [])
  | c :: cs =>
    if c = '.' then (cs.takeWhile Char.isDigit, cs.dropWhile Char.isDigit) else ([], c :: cs)

/-- Reads an unsigned decimal number. There is a digit before or after the dot. -/
def Decimal.ofText? (t : Text) : Option Decimal :=
  let whole := t.takeWhile Char.isDigit
  let (decimals, rest) := Text.splitDecimals (t.dropWhile Char.isDigit)
  if whole.isEmpty && decimals.isEmpty then none
  else rest.readExponent?.map fun exponent =>
    ⟨Text.digitsValue (whole ++ decimals), exponent - decimals.length⟩

/-- Reads an unsigned number. -/
def Magnitude.ofText? (t : Text) : Option Magnitude :=
  if t.eqIgnoringCase "inf".toList || t.eqIgnoringCase "infinity".toList then some .infinity
  else if t.eqIgnoringCase "nan".toList then some .nan
  else (Decimal.ofText? t).map .finite

/-- Reads a number. -/
def NumberReading.ofText? (t : Text) : Option NumberReading :=
  let (sign, unsigned) := Text.splitSign t
  (Magnitude.ofText? unsigned).map fun magnitude => ⟨sign = ['-'], magnitude⟩

end Cypher
