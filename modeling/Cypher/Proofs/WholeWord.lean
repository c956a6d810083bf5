/-
  Whole words — which words a text holds, and how this depends on what stands
  before and after.

  * `Text.holdsWord word inWord t`: the whole word `word` occurs in `t`, where
    `inWord` tells whether an alphanumeric character stands directly before `t`;
  * `holdsWord_name_append`, `holdsWord_numeral_append`, `holdsWord_inBackTicks_append`:
    the words of a text that begins with a token;
  * `splitAtWord?_append_iff`: a word that ends a text is its first occurrence iff
    it is the first one when the text goes on.
-/
import Cypher.Proofs.Lexing
import Mathlib.Data.List.TakeWhile

namespace Cypher

namespace Text

/-! ## Blanks and words -/

/-- The blanks beyond ASCII are no alphanumeric characters. -/
theorem alphanumericRanges_no_blank :
    ([0x85, 0xA0, 0x1680, 0x2000, 0x2001, 0x2002, 0x2003, 0x2004, 0x2005, 0x2006, 0x2007, 0x2008,
      0x2009, 0x200A, 0x2028, 0x2029, 0x202F, 0x205F, 0x3000].all fun n =>
      !alphanumericRanges.any fun r => decide (r.1 ≤ n) && decide (n ≤ r.2)) = true := by
  decide +kernel

theorem isAlphanumeric_eq_false_of_isBlank {c : Char} (h : isBlank c = true) :
    isAlphanumeric c = false := by
  by_cases hascii : c.toNat < 0x80
  · rw [isAlphanumeric_of_ascii hascii, ← Bool.not_eq_true]
    intro halnum
    rw [isBlank_eq_false_of_isAlphanum halnum] at h
    cases h
  · have hmem : c.toNat ∈ [0x85, 0xA0, 0x1680, 0x2000, 0x2001, 0x2002, 0x2003, 0x2004, 0x2005,
        0x2006, 0x2007, 0x2008, 0x2009, 0x200A, 0x2028, 0x2029, 0x202F, 0x205F, 0x3000] := by
      simp only [isBlank, Bool.or_eq_true, Bool.and_eq_true, decide_eq_true_eq, beq_iff_eq] at h
      simp only [List.mem_cons, List.not_mem_nil, or_false]
      omega
    have hno := List.all_eq_true.1 alphanumericRanges_no_blank _ hmem
    simpa [isAlphanumeric, hascii] using hno

/-! ## Letter case -/

theorem toNat_toLower (c : Char) :
    c.toLower.toNat = if 65 ≤ c.toNat ∧ c.toNat ≤ 90 then c.toNat + 32 else c.toNat := by
  have hval : c.val.toNat = c.toNat := rfl
  split
  · rename_i h
    have hlower : c.toLower = _ := dif_pos h
    rw [hlower]
    change (c.val + 32).toNat = c.toNat + 32
    rw [UInt32.toNat_add, hval]
    simp
    omega
  · rename_i h
    have hlower : c.toLower = c := dif_neg h
    rw [hlower]

/-- A character that is a letter up to case is one. -/
theorem isAlpha_of_toLower_eq {c w : Char} (hw : w.isAlpha = true) (h : c.toLower = w.toLower) :
    c.isAlpha = true := by
  have hnat := congrArg Char.toNat h
  rw [isAlpha_iff_toNat] at hw ⊢
  rw [toNat_toLower, toNat_toLower] at hnat
  split at hnat <;> split at hnat <;> omega

theorem toNat_toUpper (c : Char) :
    c.toUpper.toNat = if 97 ≤ c.toNat ∧ c.toNat ≤ 122 then c.toNat - 32 else c.toNat := by
  have hval : c.val.toNat = c.toNat := rfl
  have hdiff : ('A'.val - 'a'.val).toNat = 4294967264 := rfl
  split
  · rename_i h
    have hupper : c.toUpper = _ := dif_pos h
    rw [hupper]
    change (c.val + ('A'.val - 'a'.val)).toNat = c.toNat - 32
    rw [UInt32.toNat_add, hval, hdiff]
    omega
  · rename_i h
    have hupper : c.toUpper = c := dif_neg h
    rw [hupper]

theorem toUpper_eq_of_toLower_eq {c d : Char} (h : c.toLower = d.toLower) :
    c.toUpper = d.toUpper := by
  have hnat := congrArg Char.toNat h
  rw [toNat_toLower, toNat_toLower] at hnat
  rw [← Char.toNat_inj, toNat_toUpper, toNat_toUpper]
  grind

theorem map_toUpper_eq_of_lower_eq {s t : Text} (h : s.lower = t.lower) :
    s.map Char.toUpper = t.map Char.toUpper := by
  induction s generalizing t with
  | nil => cases t <;> simp_all [lower]
  | cons c cs ih =>
    cases t with
    | nil => simp [lower] at h
    | cons d ds =>
      simp only [lower, List.map_cons, List.cons.injEq] at h ih ⊢
      exact ⟨toUpper_eq_of_toLower_eq h.1, ih h.2⟩

theorem eqIgnoringCase_iff {s t : Text} : s.eqIgnoringCase t = true ↔ s.lower = t.lower := by
  simp [eqIgnoringCase]

/-! ## Words at the start of a text -/

theorem afterWord?_append {word t rest : Text} (u : Text) (h : afterWord? word t = some rest) :
    afterWord? word (t ++ u) = some (rest ++ u) := by
  induction word generalizing t with
  | nil => simp_all [afterWord?]
  | cons w ws ih =>
    cases t with
    | nil => cases h
    | cons c cs =>
      simp only [afterWord?, List.cons_append] at h ⊢
      split at h
      · rename_i hc; rw [if_pos hc]; exact ih h
      · cases h

theorem afterWord?_eq_some_of_lower {word written : Text} (h : written.lower = word.lower) :
    afterWord? word written = some [] := by
  induction word generalizing written with
  | nil => simp_all [lower, afterWord?]
  | cons w ws ih =>
    cases written with
    | nil => simp [lower] at h
    | cons c cs =>
      simp only [lower, List.map_cons, List.cons.injEq] at h
      simp only [afterWord?, h.1, if_true]
      exact ih h.2

theorem endsWord_iff_notNext {t : Text} : endsWord t = true ↔ NotNext isAlphanumeric t := by
  cases t <;> simp [endsWord]

theorem startsWord_iff {word t : Text} :
    startsWord word t = true ↔ ∃ written rest, t = written ++ rest ∧
      written.lower = word.lower ∧ NotNext isAlphanumeric rest := by
  simp only [startsWord, Option.any_eq_true, endsWord_iff_notNext]
  constructor
  · rintro ⟨rest, hrest, hends⟩
    obtain ⟨written, -, hlower, rfl⟩ := afterWord?_eq_some hrest
    exact ⟨written, rest, rfl, hlower, hends⟩
  · rintro ⟨written, rest, rfl, hlower, hends⟩
    exact ⟨rest, by simpa using afterWord?_append rest (afterWord?_eq_some_of_lower hlower), hends⟩

theorem length_eq_of_lower_eq {s t : Text} (h : s.lower = t.lower) : s.length = t.length := by
  simpa [lower] using congrArg List.length h

/-- Letters, and at least one. -/
structure IsWord (word : Text) : Prop where
  letters : word.all Char.isAlpha = true
  ne_nil : word ≠ []

theorem isWord_written (k : Keyword) : IsWord k.written where
  letters := by cases k <;> rfl
  ne_nil := by cases k <;> simp [Keyword.written]

section Words

variable {word : Text} (hword : IsWord word)

include hword

theorem all_isAlpha_of_lower_eq {written : Text} (h : written.lower = word.lower) :
    written.all Char.isAlpha = true := by
  have hletters := hword.letters
  clear hword
  induction word generalizing written with
  | nil => simp_all [lower]
  | cons w ws ih =>
    cases written with
    | nil => rfl
    | cons c cs =>
      simp only [lower, List.map_cons, List.cons.injEq] at h
      simp only [List.all_cons, Bool.and_eq_true] at hletters ⊢
      exact ⟨isAlpha_of_toLower_eq hletters.1 h.1, ih h.2 hletters.2⟩

theorem isName_of_lower_eq {written : Text} (h : written.lower = word.lower) :
    written.isName = true := by
  have hall := all_isAlpha_of_lower_eq hword h
  cases written with
  | nil => exact absurd (List.length_eq_zero_iff.1 (length_eq_of_lower_eq h).symm) hword.ne_nil
  | cons c cs =>
    simp only [List.all_cons, Bool.and_eq_true] at hall
    simp only [isName, hall.1, Bool.true_and, List.all_eq_true]
    exact fun d hd => isAlphanum_of_isAlpha (List.all_eq_true.1 hall.2 d hd)

/-- No word begins with a character that is no ASCII letter or digit. -/
theorem startsWord_of_notNext {t : Text} (ht : NotNext Char.isAlphanum t) :
    startsWord word t = false := by
  rw [← Bool.not_eq_true, startsWord_iff]
  rintro ⟨written, rest, rfl, hlower, -⟩
  have hlen := length_eq_of_lower_eq hlower
  have hall := all_isAlpha_of_lower_eq hword hlower
  cases written with
  | nil => exact hword.ne_nil (List.length_eq_zero_iff.1 hlen.symm)
  | cons c cs =>
    simp only [List.all_cons, Bool.and_eq_true] at hall
    rw [List.cons_append, notNext_cons, isAlphanum_of_isAlpha hall.1] at ht
    cases ht

/-- At a name, a word begins iff it is the name. -/
theorem startsWord_name_append {name t : Text} (hname : name.all isAlphanumeric = true)
    (ht : NotNext isAlphanumeric t) :
    startsWord word (name ++ t) = name.eqIgnoringCase word := by
  rw [Bool.eq_iff_iff, startsWord_iff, eqIgnoringCase_iff]
  constructor
  · rintro ⟨written, rest, h, hlower, hrest⟩
    have hwritten : written.all isAlphanumeric = true := by
      rw [List.all_eq_true]
      intro c hc
      have := List.all_eq_true.1 (all_isAlpha_of_lower_eq hword hlower) c hc
      exact isAlphanumeric_of_isAlphanum (isAlphanum_of_isAlpha this)
    have := congrArg (List.takeWhile isAlphanumeric) h
    rw [takeWhile_append_of_notNext hname ht, takeWhile_append_of_notNext hwritten hrest] at this
    rwa [this]
  · intro h
    exact ⟨name, t, rfl, h, ht⟩

/-- What follows a text does not matter if it does not go on with the last word. -/
theorem startsWord_append {t : Text} (s : Text) (ht : NotNext isAlphanumeric t) :
    startsWord word (s ++ t) = startsWord word s := by
  rw [Bool.eq_iff_iff, startsWord_iff, startsWord_iff]
  constructor
  · rintro ⟨written, rest, h, hlower, hrest⟩
    rcases List.append_eq_append_iff.1 h with ⟨more, rfl, rfl⟩ | ⟨rest', rfl, rfl⟩
    · have hall := all_isAlpha_of_lower_eq hword hlower
      cases more with
      | nil => exact ⟨s, [], by simp, by simpa using hlower, notNext_nil _⟩
      | cons c cs =>
        -- the word would have to reach into `t`
        simp only [List.all_append, List.all_cons, Bool.and_eq_true] at hall
        have hc := isAlphanumeric_of_isAlphanum (isAlphanum_of_isAlpha hall.2.1)
        rw [List.cons_append, notNext_cons, hc] at ht
        cases ht
    · refine ⟨written, rest', rfl, hlower, fun c cs hcs => ?_⟩
      exact hrest c (cs ++ t) (by rw [hcs]; rfl)
  · rintro ⟨written, rest, rfl, hlower, hrest⟩
    refine ⟨written, rest ++ t, by simp, hlower, ?_⟩
    cases rest with
    | nil => exact ht
    | cons c cs => exact notNext_cons.2 (notNext_cons.1 hrest)

end Words

/-! ## Words anywhere in a text -/

/-- The whole word `word` occurs in the text. `inWord` tells whether an
    alphanumeric character stands directly before the text. -/
def holdsWord (word : Text) (inWord : Bool) (t : Text) : Bool :=
  (splitAtStartFrom? (startsWord word) inWord t).isSome

@[simp] theorem holdsWord_nil (word : Text) (inWord : Bool) : holdsWord word inWord [] = false :=
  rfl

theorem holdsWord_cons (word : Text) (inWord : Bool) (c : Char) (cs : Text) :
    holdsWord word inWord (c :: cs) =
      (!inWord && startsWord word (c :: cs) || holdsWord word (isAlphanumeric c) cs) := by
  unfold holdsWord
  rw [splitAtStartFrom?]
  split <;> simp_all

/-- Inside a word, only what follows it counts. -/
theorem holdsWord_true_append {word s : Text} (t : Text) (hs : s.all isAlphanumeric = true) :
    holdsWord word true (s ++ t) = holdsWord word true t := by
  induction s with
  | nil => rfl
  | cons c cs ih =>
    simp only [List.all_cons, Bool.and_eq_true] at hs
    rw [List.cons_append, holdsWord_cons, hs.1, ih hs.2]
    rfl

section Words

variable {word : Text} (hword : IsWord word)

include hword

theorem holdsWord_false_eq (t : Text) :
    holdsWord word false t = (startsWord word t || holdsWord word true t) := by
  cases t with
  | nil => simp [startsWord_of_notNext hword]
  | cons c cs => simp [holdsWord_cons]

theorem holdsWord_eq_of_notNext {t : Text} (ht : NotNext Char.isAlphanum t) (b : Bool) :
    holdsWord word b t = holdsWord word false t := by
  cases b with
  | false => rfl
  | true => rw [holdsWord_false_eq hword, startsWord_of_notNext hword ht, Bool.false_or]

/-- A character that is not alphanumeric separates words. -/
theorem holdsWord_separator {c : Char} (hc : isAlphanumeric c = false) (b : Bool) (t : Text) :
    holdsWord word b (c :: t) = holdsWord word false t := by
  have hnext : NotNext isAlphanumeric (c :: t) := notNext_cons.2 hc
  rw [holdsWord_cons, startsWord_of_notNext hword hnext.isAlphanum, hc]
  simp

theorem holdsWord_separators {s : Text} (hs : ∀ c ∈ s, isAlphanumeric c = false) (t : Text) :
    holdsWord word false (s ++ t) = holdsWord word false t := by
  induction s with
  | nil => rfl
  | cons c cs ih =>
    rw [List.forall_mem_cons] at hs
    rw [List.cons_append, holdsWord_separator hword hs.1, ih hs.2]

theorem holdsWord_dropBlanks (t : Text) :
    holdsWord word false t.dropBlanks = holdsWord word false t := by
  conv_rhs => rw [← takeWhile_append_dropBlanks t]
  refine (holdsWord_separators hword (fun c hc => ?_) _).symm
  exact isAlphanumeric_eq_false_of_isBlank (List.mem_takeWhile_imp hc)

/-- The words of a name and what follows it. -/
theorem holdsWord_name_append {name t : Text} (hname : name.all isAlphanumeric = true)
    (ht : NotNext isAlphanumeric t) :
    holdsWord word false (name ++ t) = (name.eqIgnoringCase word || holdsWord word false t) := by
  rw [holdsWord_false_eq hword, startsWord_name_append hword hname ht,
    holdsWord_true_append t hname, holdsWord_eq_of_notNext hword ht.isAlphanum]

/-- Words on both sides of a separator. -/
theorem holdsWord_append_separator {c : Char} (hc : isAlphanumeric c = false) (b : Bool)
    (s t : Text) : holdsWord word b (s ++ c :: t) =
      (holdsWord word b (s ++ [c]) || holdsWord word false t) := by
  induction s generalizing b with
  | nil => simp [holdsWord_separator hword hc]
  | cons d ds ih =>
    have hstart : startsWord word (d :: ds ++ c :: t) = startsWord word (d :: ds ++ [c]) := by
      rw [startsWord_append hword _ (notNext_cons.2 hc),
        startsWord_append hword _ (notNext_cons.2 hc)]
    simp only [List.cons_append] at hstart ⊢
    rw [holdsWord_cons, holdsWord_cons, hstart, ih, Bool.or_assoc]

theorem holdsWord_inBackTicks_append (b : Bool) (s t : Text) :
    holdsWord word b (s.inBackTicks ++ t) =
      (holdsWord word false (s ++ ['\x60']) || holdsWord word false t) := by
  have htick : isAlphanumeric '\x60' = false := by rw [isAlphanumeric_of_ascii] <;> decide
  have happ : s.inBackTicks ++ t = '\x60' :: (s ++ '\x60' :: t) := by simp [inBackTicks]
  rw [happ, holdsWord_separator hword htick, holdsWord_append_separator hword htick]

end Words

/-! ## Numerals -/

/-- Characters of which a numeral consists. -/
def isNumeralChar (c : Char) : Bool :=
  c.isDigit || c = '.' || c = 'e' || c = 'E' || c = '+' || c = '-'

theorem isNumeralChar_of_isDigit {c : Char} (h : c.isDigit = true) : isNumeralChar c = true := by
  simp [isNumeralChar, h]

theorem all_isNumeralChar_of_isDigits {t : Text} (h : t.all Char.isDigit = true) :
    t.all isNumeralChar = true := by
  rw [List.all_eq_true] at h ⊢
  exact fun c hc => isNumeralChar_of_isDigit (h c hc)

/-- The text ends with a digit. -/
def EndsInDigit (t : Text) : Prop :=
  ∃ init d, t = init ++ [d] ∧ d.isDigit = true

theorem endsInDigit_of_isDigits {t : Text} (hne : t ≠ []) (h : t.all Char.isDigit = true) :
    EndsInDigit t :=
  ⟨t.dropLast, t.getLast hne, (List.dropLast_concat_getLast hne).symm,
    List.all_eq_true.1 h _ (List.getLast_mem hne)⟩

theorem EndsInDigit.append_left {t : Text} (s : Text) (h : EndsInDigit t) :
    EndsInDigit (s ++ t) := by
  obtain ⟨init, d, rfl, hd⟩ := h
  exact ⟨s ++ init, d, by simp, hd⟩

theorem isInteger_digits {i : Text} (h : isInteger i = true) :
    i ≠ [] ∧ i.all Char.isDigit = true := by
  cases i with
  | nil => cases h
  | cons c cs =>
    simp only [isInteger] at h
    split at h
    · rename_i hc; simp_all
    · exact ⟨by simp, by simpa using h⟩

theorem isFraction_digits {f : Text} (h : isFraction f = true) :
    f.all isNumeralChar = true ∧ (f = [] ∨ EndsInDigit f) := by
  cases f with
  | nil => simp
  | cons c cs =>
    simp only [isFraction, isDigits, Bool.and_eq_true, decide_eq_true_eq, Bool.not_eq_true',
      List.isEmpty_eq_false_iff] at h
    obtain ⟨rfl, hne, hall⟩ := h
    refine ⟨?_, Or.inr ((endsInDigit_of_isDigits hne hall).append_left ['.'])⟩
    rw [List.all_cons, all_isNumeralChar_of_isDigits hall]
    rfl

theorem isExponent_digits {e : Text} (h : isExponent e = true) :
    e.all isNumeralChar = true ∧ (e = [] ∨ EndsInDigit e) := by
  cases e with
  | nil => simp
  | cons c cs =>
    simp only [isExponent, isDigits, Bool.and_eq_true, Bool.or_eq_true, decide_eq_true_eq,
      Bool.not_eq_true', List.isEmpty_eq_false_iff] at h
    obtain ⟨hc, hne, hall⟩ := h
    have hsign : (splitSign cs).1.all isNumeralChar = true := by
      cases cs with
      | nil => rfl
      | cons d ds =>
        simp only [splitSign]
        split
        · rename_i hd
          simp only [Bool.or_eq_true, decide_eq_true_eq] at hd
          rcases hd with rfl | rfl <;> rfl
        · rfl
    have hmark : isNumeralChar c = true := by rcases hc with rfl | rfl <;> rfl
    rw [List.all_cons, hmark, ← splitSign_append cs, List.all_append, hsign,
      all_isNumeralChar_of_isDigits hall]
    refine ⟨rfl, Or.inr ?_⟩
    exact (endsInDigit_of_isDigits hne hall).append_left (c :: (splitSign cs).1)

/-- A numeral consists of numeral characters and ends with a digit. -/
theorem IsNumeral.digits {t : Text} (h : IsNumeral t) :
    t.all isNumeralChar = true ∧ EndsInDigit t := by
  obtain ⟨i, f, e, rfl, hi, hf, he⟩ := h
  obtain ⟨hine, hiall⟩ := isInteger_digits hi
  obtain ⟨hfall, hfend⟩ := isFraction_digits hf
  obtain ⟨heall, heend⟩ := isExponent_digits he
  refine ⟨by simp [hfall, heall, all_isNumeralChar_of_isDigits hiall], ?_⟩
  rcases heend with rfl | heend
  · rw [List.append_nil]
    rcases hfend with rfl | hfend
    · rw [List.append_nil]; exact endsInDigit_of_isDigits hine hiall
    · exact hfend.append_left i
  · exact heend.append_left (i ++ f)

/-- No numeral holds the word `END`, nor begins one that goes on after it. -/
theorem startsWord_end_numeral {init t : Text} {d : Char}
    (hall : (init ++ [d]).all isNumeralChar = true) (hd : d.isDigit = true) :
    startsWord Keyword.end_.written (init ++ d :: t) = false := by
  rw [← Bool.not_eq_true, startsWord_iff]
  rintro ⟨written, rest, h, hlower, -⟩
  have hnotN : ∀ c : Char, isNumeralChar c = true → c.toLower ≠ 'n' := by
    intro c hc hn
    simp only [isNumeralChar, Bool.or_eq_true, decide_eq_true_eq, isDigit_iff_toNat] at hc
    rcases hc with ((((hc | rfl) | rfl) | rfl) | rfl) | rfl
    · have := congrArg Char.toNat hn
      rw [toNat_toLower] at this
      split at this <;> simp at this <;> omega
    all_goals exact absurd hn (by decide)
  have hnotE : d.toLower ≠ 'e' := by
    intro he
    have := congrArg Char.toNat he
    rw [isDigit_iff_toNat] at hd
    rw [toNat_toLower] at this
    split at this <;> simp at this <;> omega
  rcases written with _ | ⟨x, _ | ⟨y, ys⟩⟩ <;>
    simp only [lower, Keyword.written, List.map_nil, List.map_cons, List.cons.injEq, reduceCtorEq,
      and_false] at hlower
  -- `x` must be an `E` and `y` an `N`, but one of them is a character of the numeral
  rcases init with _ | ⟨x', _ | ⟨y', init⟩⟩
  · cases h; exact hnotE hlower.1
  · cases h; exact hnotN _ (isNumeralChar_of_isDigit hd) hlower.2.1
  · simp only [List.cons_append, List.cons.injEq] at h
    exact hnotN y' (by simp_all) (h.2.1 ▸ hlower.2.1)

theorem holdsWord_end_numeral_append {text : Text} (htext : text.IsNumeral) (b : Bool) (t : Text) :
    holdsWord Keyword.end_.written b (text ++ t) = holdsWord Keyword.end_.written true t := by
  obtain ⟨hall, init, d, rfl, hd⟩ := htext.digits
  have hword : isAlphanumeric d = true := isAlphanumeric_of_isAlphanum (isAlphanum_of_isDigit hd)
  rw [List.append_assoc, List.singleton_append]
  clear htext
  induction init generalizing b with
  | nil =>
    have hstart := startsWord_end_numeral (t := t) hall hd
    rw [List.nil_append] at hstart ⊢
    rw [holdsWord_cons, hstart, hword]
    simp
  | cons c cs ih =>
    have hstart := startsWord_end_numeral (t := t) hall hd
    simp only [List.cons_append, List.all_cons, Bool.and_eq_true] at hstart hall ⊢
    rw [holdsWord_cons, hstart, ih _ hall.2]
    simp

/-! ## The first occurrence of a word -/

/-- The first occurrence of a word stays the first one when the text goes on,
    though not with its last word. -/
theorem splitAtWord?_append_iff {word before ending rest : Text}
    (hword : IsWord word) (hne : ending ≠ [])
    (hrest : NotNext isAlphanumeric rest) :
    splitAtWord? word (before ++ (ending ++ rest)) = some (before, ending ++ rest) ↔
      splitAtWord? word (before ++ ending) = some (before, ending) := by
  unfold splitAtWord? splitAtStart?
  generalize false = b
  induction before generalizing b with
  | nil =>
    have hstart := startsWord_append hword ending hrest
    cases ending with
    | nil => exact absurd rfl hne
    | cons c cs =>
      simp only [List.cons_append] at hstart
      simp only [List.nil_append, List.cons_append, splitAtStartFrom?, hstart]
      split <;> simp
  | cons c cs ih =>
    have hstart := startsWord_append hword (c :: cs ++ ending) hrest
    simp only [List.cons_append, List.append_assoc] at hstart
    simp only [List.cons_append, splitAtStartFrom?, hstart]
    split
    · simp
    · simp [← ih, Option.map_eq_some_iff]

/-- The word at which a text is cut has its letters, and ends there. -/
theorem splitAtWord?_ending {word t before ending : Text}
    (h : splitAtWord? word t = some (before, ending)) :
    (ending.take word.length).length = word.length ∧
      NotNext isAlphanumeric (ending.drop word.length) := by
  obtain ⟨written, rest, rfl, hlower, hrest⟩ :=
    startsWord_iff.1 (splitAtStartFrom?_eq_some h).2.1
  have hlen := length_eq_of_lower_eq hlower
  rw [← hlen, List.take_left, List.drop_left]
  exact ⟨rfl, hrest⟩

end Text

end Cypher
