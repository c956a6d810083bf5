/-
  Query text — sequences of characters, measured in UTF-8 bytes.

  * `Text` is a list of characters; `Text.byteSize` is its length in UTF-8,
    the unit of every offset and span of the library;
  * `isBlank` are the characters that separate tokens (the Unicode
    White_Space set), `dropBlanks` and `trim` remove them at the ends;
  * `eqIgnoringCase` compares two texts up to the case of ASCII letters.
-/

namespace Cypher

/-- A piece of query text. -/
abbrev Text := List Char

namespace Text

/-! ## Length in bytes -/

/-- The number of bytes of the text in UTF-8. -/
def byteSize : Text → Nat
  | [] => 0
  | c :: cs => c.utf8Size + byteSize cs

@[simp] theorem byteSize_nil : byteSize [] = 0 := rfl

@[simp] theorem byteSize_cons (c : Char) (cs : Text) :
    byteSize (c :: cs) = c.utf8Size + byteSize cs := rfl

@[simp] theorem byteSize_append (s t : Text) : byteSize (s ++ t) = byteSize s + byteSize t := by
  induction s with
  | nil => simp
  | cons c s ih => simp [ih, Nat.add_assoc]

/-- Only the empty text has no bytes. -/
theorem byteSize_eq_zero_iff {t : Text} : byteSize t = 0 ↔ t = [] := by
  cases t with
  | nil => simp
  | cons c cs => have := c.utf8Size_pos; simp; omega

/-! ## Blanks -/

/-- The white space characters of Unicode: tab to carriage return, space,
    next line, and the space, line and paragraph separators. -/
def isBlank (c : Char) : Bool :=
  let n := c.toNat
  (0x09 ≤ n && n ≤ 0x0D) || n == 0x20 || n == 0x85 || n == 0xA0 || n == 0x1680 ||
    (0x2000 ≤ n && n ≤ 0x200A) || n == 0x2028 || n == 0x2029 || n == 0x202F ||
    n == 0x205F || n == 0x3000

/-- The text from its first non-blank character on. -/
def dropBlanks (t : Text) : Text :=
  t.dropWhile isBlank

/-- The text without the blanks at its end. -/
def dropBlanksEnd (t : Text) : Text :=
  (dropBlanks t.reverse).reverse

/-- The text without the blanks at both ends. -/
def trim (t : Text) : Text :=
  dropBlanksEnd (dropBlanks t)

/-- What `dropBlanks` drops, followed by what it keeps, is the text. -/
theorem takeWhile_append_dropBlanks (t : Text) : t.takeWhile isBlank ++ dropBlanks t = t :=
  List.takeWhile_append_dropWhile

theorem length_dropBlanks_le (t : Text) : (dropBlanks t).length ≤ t.length := by
  have := congrArg List.length (takeWhile_append_dropBlanks t)
  simp only [List.length_append] at this
  omega

/-! ## Letter case -/

/-- The text with its ASCII capitals made small. -/
def lower (t : Text) : Text :=
  t.map Char.toLower

/-- Equality up to the case of ASCII letters. -/
def eqIgnoringCase (s t : Text) : Bool :=
  lower s == lower t

/-! ## Writing -/

/-- The text between back-ticks. -/
def inBackTicks (t : Text) : Text :=
  '\x60' :: t ++ ['\x60']

/-- The texts in order, `separator` between any two neighbours. -/
def joined (separator : Text) (texts : List Text) : Text :=
  (texts.intersperse separator).flatten

/-- The texts in order, a comma and a space between any two neighbours. -/
def commaJoined (texts : List Text) : Text :=
  joined [',', ' '] texts

/-- A number in decimal digits. -/
def ofNat (n : Nat) : Text :=
  Nat.toDigits 10 n

end Text

end Cypher
