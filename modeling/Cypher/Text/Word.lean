/-
  Whole words — where a word stands in arbitrary text.

  A word is matched up to the case of ASCII letters, and only where no
  alphanumeric character stands directly before or after it.

  * `startsWord word t`: the text begins with `word`, and the word ends there;
  * `splitAtStart? starts t`: the text cut in two at the first place where a
    word may begin and `starts` holds of what follows;
  * `splitAtWord?` cuts the text before the first occurrence of a word.
-/
import Cypher.Text.Alphanumeric
import Cypher.Text.Basic

namespace Cypher

namespace Text

/-- What follows `word` in a text that begins with it, up to ASCII case. -/
def afterWord? : (word : Text) → (t : Text) → Option Text
  | [], t => some t
  | _ :: _, [] => none
  | w :: ws, c :: cs => if c.toLower = w.toLower then afterWord? ws cs else none

/-- The text does not go on with an alphanumeric character. -/
def endsWord : Text → Bool
  | [] => true
  | c :: _ => !isAlphanumeric c

/-- The text begins with the whole word `word`. -/
def startsWord (word t : Text) : Bool :=
  (afterWord? word t).any endsWord

/-- Cuts the text at the first place where a word may begin and `starts` holds
    of the rest; the end of the text is no such place. `inWord` tells whether
    an alphanumeric character stands directly before the text. -/
def splitAtStartFrom? (starts : Text → Bool) : (inWord : Bool) → Text → Option (Text × Text)
  | _, [] => none
  | inWord, c :: cs =>
    if !inWord && starts (c :: cs) then some ([], c :: cs)
    else (splitAtStartFrom? starts (isAlphanumeric c) cs).map fun (before, rest) =>
      (c :: before, rest)

/-- Cuts the text at the first place where a word may begin, with nothing before
    the text, and `starts` holds of the rest. -/
def splitAtStart? (starts : Text → Bool) (t : Text) : Option (Text × Text) :=
  splitAtStartFrom? starts false t

/-- Cuts the text before the first occurrence of the whole word `word`. -/
def splitAtWord? (word t : Text) : Option (Text × Text) :=
  splitAtStart? (startsWord word) t

/-! ## Laws -/

/-- A word that the text begins with is followed by a tail of the text. -/
theorem afterWord?_eq_some {word t rest : Text} (h : afterWord? word t = some rest) :
    ∃ written : Text, written.length = word.length ∧ lower written = lower word ∧
      t = written ++ rest := by
  induction word generalizing t with
  | nil => exact ⟨[], rfl, rfl, by simpa [afterWord?] using h⟩
  | cons w ws ih =>
    cases t with
    | nil => simp [afterWord?] at h
    | cons c cs =>
      simp only [afterWord?] at h
      split at h
      · rename_i hc
        obtain ⟨written, hlen, hlow, rfl⟩ := ih h
        simp only [lower] at hlow
        exact ⟨c :: written, by simp [hlen], by simp [lower, hc, hlow], rfl⟩
      · simp at h

/-- The two parts of a cut make up the text, and the second satisfies `starts`. -/
theorem splitAtStartFrom?_eq_some {starts : Text → Bool} {inWord : Bool} {t before rest : Text}
    (h : splitAtStartFrom? starts inWord t = some (before, rest)) :
    t = before ++ rest ∧ starts rest = true ∧ rest ≠ [] := by
  induction t generalizing inWord before with
  | nil => simp [splitAtStartFrom?] at h
  | cons c cs ih =>
    simp only [splitAtStartFrom?] at h
    split at h
    · rename_i hc
      simp only [Option.some.injEq, Prod.mk.injEq] at h
      obtain ⟨rfl, rfl⟩ := h
      simp_all
    · simp only [Option.map_eq_some_iff, Prod.mk.injEq, Prod.exists] at h
      obtain ⟨b, r, hb, rfl, rfl⟩ := h
      obtain ⟨rfl, hs, hr⟩ := ih hb
      exact ⟨rfl, hs, hr⟩

end Text

end Cypher
