/-
  Binary64 — the 64-bit floating-point value of a number text.

  * `Binary64` is a sign and the other 63 bits, which grow with the value;
  * `Binary64.nearest num den` are the bits of the value nearest to
    `num / den`, a tie going to the even one;
  * `Binary64.ofText` is the value of a number text, and not-a-number for any
    other text.
-/
import Cypher.Number.Decimal

namespace Cypher

/-- A 64-bit floating-point value: the sign, and the exponent and the fraction
    as one number below `2 ^ 63`. -/
structure Binary64 where
  negative : Bool
  magnitude : Nat
  deriving DecidableEq, Repr

namespace Binary64

/-- The magnitude of infinity: all bits of the exponent set, none of the
    fraction. -/
def infinity : Nat :=
  0x7FF * Nat.pow 2 52

/-- The magnitude of a quiet not-a-number. -/
def nan : Nat :=
  infinity + Nat.pow 2 51

/-- The value is not a number. -/
def isNaN (value : Binary64) : Bool :=
  infinity < value.magnitude

/-- All 64 bits. -/
def bits (value : Binary64) : Nat :=
  (if value.negative then Nat.pow 2 63 else 0) + value.magnitude

/-! ## Rounding -/

/-- The integer nearest to `num / den`; of two, the even one. -/
def roundDiv (num den : Nat) : Nat :=
  let quotient := num / den
  let remainder := num % den
  if 2 * remainder < den then quotient
  else if den < 2 * remainder then quotient + 1
  else quotient + quotient % 2

/-- The fraction `num / den / 2 ^ k`. -/
def scaleDown (num den : Nat) (k : Int) : Nat × Nat :=
  if 0 ≤ k then (num, den * Nat.pow 2 k.toNat) else (num * Nat.pow 2 (-k).toNat, den)

/-- The greatest `k` with `2 ^ k ≤ num / den`, for positive `num` and `den`. -/
def floorLog2 (num den : Nat) : Int :=
  let k : Int := num.log2 - den.log2
  let (num', den') := scaleDown num den k
  if den' ≤ num' then k else k - 1

/-- The magnitude of the value nearest to `num / den`, for positive `num` and
    `den`. A value is `q · 2 ^ k` with `q < 2 ^ 53` and `-1074 ≤ k`, and also
    `2 ^ 52 ≤ q` unless `k` is least; its magnitude is then `(k + 1074) · 2 ^ 52 + q`.
    Should rounding make `q` equal to `2 ^ 53`, the sum carries into the next
    exponent, as it should. -/
def nearest (num den : Nat) : Nat :=
  let k : Int := max (floorLog2 num den - 52) (-1074)
  let (num', den') := scaleDown num den k
  min ((k + 1074).toNat * Nat.pow 2 52 + roundDiv num' den') infinity

/-- The magnitude nearest to a decimal number. The number lies between
    `2 ^ (l + 3e)` and `2 ^ (l + 1 + 4e)` for an exponent `e ≥ 0`, where
    `2 ^ l ≤ coefficient < 2 ^ (l + 1)`, and below `2 ^ (l + 1 + 3e)` for `e < 0`:
    far outside the range of the format no power of ten is needed. -/
def ofDecimal (d : Decimal) : Nat :=
  let l : Int := d.coefficient.log2
  if d.coefficient = 0 then 0
  else if 0 ≤ d.exponent then
    if 1100 < l + 3 * d.exponent then infinity
    else nearest (d.coefficient * Nat.pow 10 d.exponent.toNat) 1
  else
    if l + 1 + 3 * d.exponent < -1100 then 0
    else nearest d.coefficient (Nat.pow 10 (-d.exponent).toNat)

/-! ## Values of texts -/

/-- The value nearest to what a number text denotes. -/
def ofReading (reading : NumberReading) : Binary64 :=
  ⟨reading.negative,
    match reading.magnitude with
    | .nan => nan
    | .infinity => infinity
    | .finite decimal => ofDecimal decimal⟩

/-- The value of a number text; not-a-number if the text is none. -/
def ofText (t : Text) : Binary64 :=
  ((NumberReading.ofText? t).map ofReading).getD ⟨false, nan⟩

end Binary64

end Cypher
