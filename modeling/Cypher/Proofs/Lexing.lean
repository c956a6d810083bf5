/-
  Tokens and their characters — every token stands for texts of one shape.

  * `Text.isName`, `Text.IsNumeral`, `Text.IsNumber` and `Text.isQuotableText` are
    the shapes of identifiers, unsigned and signed numbers and quoted texts;
  * `wellFormed_of_token?`: a token that is read has the shape of its kind;
  * `token?_identifier`, `token?_number`, `token?_quoted`, `token?_symbol`: a text of
    that shape is read as the token, if what follows does not go on with it.
-/
import Cypher.Proofs.Outcome
import Mathlib.Tactic.Common

namespace Cypher

namespace Text

/-! ## Shapes -/

/-- A letter, followed by letters and digits. -/
def isName : Text → Bool
  | [] => false
  | c :: cs => c.isAlpha && cs.all Char.isAlphanum

/-- Letters, digits, blanks and Cyrillic characters. -/
def isQuotableText (t : Text) : Bool :=
  t.all isQuotable

/-- At least one digit, and nothing else. -/
def isDigits (t : Text) : Bool :=
  !t.isEmpty && t.all Char.isDigit

/-- `0`, or digits that do not start with `0`. -/
def isInteger : Text → Bool
  | [] => false
  | c :: cs => if c = '0' then cs.isEmpty else c.isDigit && cs.all Char.isDigit

/-- Nothing, or a dot and digits. -/
def isFraction : Text → Bool
  | [] => true
  | c :: cs => c = '.' && isDigits cs

/-- Nothing, or `e` or `E`, a sign or none, and digits. -/
def isExponent : Text → Bool
  | [] => true
  | c :: cs => (c = 'e' || c = 'E') && isDigits (splitSign cs).2

/-- An integer, then a fraction or none, then an exponent or none. -/
def IsNumeral (t : Text) : Prop :=
  ∃ integer fraction exponent, t = integer ++ fraction ++ exponent ∧
    isInteger integer = true ∧ isFraction fraction = true ∧ isExponent exponent = true

/-- A numeral, with a minus sign before it or without. -/
def IsNumber (t : Text) : Prop :=
  IsNumeral t ∨ ∃ numeral, t = '-' :: numeral ∧ IsNumeral numeral

/-- No character of the class `p` comes next. -/
def NotNext (p : Char → Bool) (t : Text) : Prop :=
  ∀ c cs, t = c :: cs → p c = false

@[simp] theorem notNext_nil (p : Char → Bool) : NotNext p [] := by
  rintro c cs ⟨⟩

@[simp] theorem notNext_cons {p : Char → Bool} {c : Char} {cs : Text} :
    NotNext p (c :: cs) ↔ p c = false := by
  constructor
  · intro h; exact h c cs rfl
  · rintro h _ _ ⟨⟩; exact h

theorem NotNext.append {p : Char → Bool} {s : Text} (hs : NotNext p s) (hne : s ≠ []) (t : Text) :
    NotNext p (s ++ t) := by
  cases s with
  | nil => exact absurd rfl hne
  | cons c cs => exact notNext_cons.2 (notNext_cons.1 hs)

theorem notNext_dropWhile (p : Char → Bool) (t : Text) : NotNext p (t.dropWhile p) := by
  intro c cs h
  have := List.head?_dropWhile_not p t
  rw [h] at this
  simpa using this

theorem takeWhile_append_of_notNext {p : Char → Bool} {s t : Text} (hs : s.all p = true)
    (ht : NotNext p t) : (s ++ t).takeWhile p = s := by
  induction s with
  | nil =>
    cases t with
    | nil => rfl
    | cons c cs => simp [notNext_cons.1 ht]
  | cons c cs ih =>
    simp only [List.all_cons, Bool.and_eq_true] at hs
    simp [hs.1, ih hs.2]

theorem dropWhile_append_of_notNext {p : Char → Bool} {s t : Text} (hs : s.all p = true)
    (ht : NotNext p t) : (s ++ t).dropWhile p = t := by
  induction s with
  | nil =>
    cases t with
    | nil => rfl
    | cons c cs => simp [notNext_cons.1 ht]
  | cons c cs ih =>
    simp only [List.all_cons, Bool.and_eq_true] at hs
    simp [hs.1, ih hs.2]

/-! ## Classes of characters -/

theorem isBlank_eq_false_of_isAlphanum {c : Char} (h : c.isAlphanum = true) :
    isBlank c = false := by
  rw [isAlphanum_iff_toNat] at h
  simp only [isBlank, Bool.or_eq_false_iff, Bool.and_eq_false_iff, decide_eq_false_iff_not,
    beq_eq_false_iff_ne]
  omega

theorem isAlphanum_of_isAlpha {c : Char} (h : c.isAlpha = true) : c.isAlphanum = true := by
  simp [Char.isAlphanum, h]

theorem isAlphanum_of_isDigit {c : Char} (h : c.isDigit = true) : c.isAlphanum = true := by
  simp [Char.isAlphanum, h]

theorem isAlpha_eq_false_of_isDigit {c : Char} (h : c.isDigit = true) : c.isAlpha = false := by
  rw [isDigit_iff_toNat] at h
  rw [← Bool.not_eq_true, isAlpha_iff_toNat]
  omega

theorem NotNext.isAlphanum {t : Text} (h : NotNext isAlphanumeric t) :
    NotNext Char.isAlphanum t := by
  intro c cs hcs
  by_contra hc
  have := h c cs hcs
  rw [isAlphanumeric_of_isAlphanum (by simpa using hc)] at this
  cases this

theorem isName_all {t : Text} (h : isName t = true) : t.all Char.isAlphanum = true := by
  cases t with
  | nil => rfl
  | cons c cs =>
    simp only [isName, Bool.and_eq_true] at h
    simp [isAlphanum_of_isAlpha h.1, h.2]

theorem isQuotableText_of_isName {name : Text} (h : name.isName = true) :
    name.isQuotableText = true := by
  have hall := isName_all h
  rw [List.all_eq_true] at hall
  rw [isQuotableText, List.all_eq_true]
  intro c hc
  simp [isQuotable, hall c hc]

/-! ## Numerals -/

/-- Characters with which a numeral may go on. -/
def goesOnNumeral (c : Char) : Bool :=
  c.isDigit || c = '.' || c = 'e' || c = 'E'

theorem splitInteger_append_of_isInteger {i rest : Text} (hi : isInteger i = true)
    (hrest : NotNext Char.isDigit rest) : splitInteger (i ++ rest) = (i, rest) := by
  cases i with
  | nil => cases hi
  | cons c cs =>
    simp only [isInteger] at hi
    simp only [List.cons_append, splitInteger]
    split at hi
    · rename_i hc; simp_all
    · rename_i hc
      have hall : (c :: cs).all Char.isDigit = true := by simpa using hi
      rw [if_neg hc, ← List.cons_append, takeWhile_append_of_notNext hall hrest,
        dropWhile_append_of_notNext hall hrest]

/-- A text that begins with digits begins with a digit. -/
theorem head?_any_of_isDigits {ds : Text} (h : isDigits ds = true) (rest : Text) :
    (ds ++ rest).head?.any Char.isDigit = true := by
  simp only [isDigits, Bool.and_eq_true] at h
  cases ds with
  | nil => cases h.1
  | cons d ds => simpa using List.all_eq_true.1 h.2 d (by simp)

theorem splitFraction_append_of_isFraction {f rest : Text} (hf : isFraction f = true)
    (hrest : NotNext goesOnNumeral rest ∨ ∃ c cs, rest = c :: cs ∧ (c = 'e' ∨ c = 'E')) :
    splitFraction (f ++ rest) = (f, rest) := by
  have hdigit : NotNext Char.isDigit rest ∧ NotNext (· = '.') rest := by
    rcases hrest with h | ⟨c, cs, rfl, rfl | rfl⟩
    · constructor <;> intro c cs hc <;> have := h c cs hc <;> simp_all [goesOnNumeral]
    · exact ⟨notNext_cons.2 rfl, notNext_cons.2 rfl⟩
    · exact ⟨notNext_cons.2 rfl, notNext_cons.2 rfl⟩
  cases f with
  | nil =>
    cases rest with
    | nil => rfl
    | cons c cs =>
      have hc := notNext_cons.1 hdigit.2
      simp only [List.nil_append, splitFraction, hc, Bool.false_and, Bool.false_eq_true, if_false]
  | cons c cs =>
    simp only [isFraction, Bool.and_eq_true, decide_eq_true_eq] at hf
    obtain ⟨rfl, hdigits⟩ := hf
    have hhead := head?_any_of_isDigits hdigits rest
    have hall : cs.all Char.isDigit = true := (Bool.and_eq_true_iff.1 hdigits).2
    simp only [List.cons_append, splitFraction, hhead, Bool.and_true, decide_true, if_true,
      takeWhile_append_of_notNext hall hdigit.1, dropWhile_append_of_notNext hall hdigit.1]

theorem splitSign_append_of_ne_nil {cs rest : Text} (h : cs ≠ []) :
    splitSign (cs ++ rest) = ((splitSign cs).1, (splitSign cs).2 ++ rest) := by
  cases cs with
  | nil => exact absurd rfl h
  | cons c cs => simp only [List.cons_append, splitSign]; split <;> simp

theorem splitExponent_append_of_isExponent {e rest : Text} (he : isExponent e = true)
    (hrest : NotNext goesOnNumeral rest) : splitExponent (e ++ rest) = (e, rest) := by
  cases e with
  | nil =>
    cases rest with
    | nil => rfl
    | cons c cs =>
      have hc := notNext_cons.1 hrest
      simp only [goesOnNumeral, Bool.or_eq_false_iff, decide_eq_false_iff_not] at hc
      simp [splitExponent, hc]
  | cons c cs =>
    simp only [isExponent, Bool.and_eq_true] at he
    obtain ⟨hc, hdigits⟩ := he
    have hcs : cs ≠ [] := by rintro rfl; cases hdigits
    have hall : (splitSign cs).2.all Char.isDigit = true := (Bool.and_eq_true_iff.1 hdigits).2
    have hstop : NotNext Char.isDigit rest := fun d ds hd => by
      have := hrest d ds hd
      simp_all [goesOnNumeral]
    have hhead := head?_any_of_isDigits hdigits rest
    simp only [List.cons_append, splitExponent, splitSign_append_of_ne_nil hcs, hc, hhead,
      Bool.and_self, if_true, takeWhile_append_of_notNext hall hstop,
      dropWhile_append_of_notNext hall hstop, splitSign_append cs]

/-- A fraction that is not empty begins with a dot. -/
theorem notNext_isDigit_of_isFraction {f : Text} (hf : isFraction f = true) (hne : f ≠ [])
    (rest : Text) : NotNext Char.isDigit (f ++ rest) := by
  cases f with
  | nil => exact absurd rfl hne
  | cons c cs =>
    simp only [isFraction, Bool.and_eq_true, decide_eq_true_eq] at hf
    rw [hf.1]
    exact notNext_cons.2 rfl

/-- An exponent that is not empty begins with its mark. -/
theorem exists_mark_of_isExponent {e : Text} (he : isExponent e = true) (hne : e ≠ [])
    (rest : Text) : ∃ c cs, e ++ rest = c :: cs ∧ (c = 'e' ∨ c = 'E') := by
  cases e with
  | nil => exact absurd rfl hne
  | cons c cs =>
    simp only [isExponent, Bool.and_eq_true, Bool.or_eq_true, decide_eq_true_eq] at he
    exact ⟨c, cs ++ rest, rfl, he.1⟩

theorem notNext_isDigit_of_mark {t : Text} (h : ∃ c cs, t = c :: cs ∧ (c = 'e' ∨ c = 'E')) :
    NotNext Char.isDigit t := by
  obtain ⟨c, cs, rfl, rfl | rfl⟩ := h <;> exact notNext_cons.2 rfl

theorem splitNumeral_append_of_isNumeral {t rest : Text} (ht : IsNumeral t)
    (hrest : NotNext goesOnNumeral rest) : splitNumeral (t ++ rest) = (t, rest) := by
  obtain ⟨i, f, e, rfl, hi, hf, he⟩ := ht
  have hexp : NotNext goesOnNumeral (e ++ rest) ∨
      ∃ c cs, e ++ rest = c :: cs ∧ (c = 'e' ∨ c = 'E') := by
    rcases eq_or_ne e [] with rfl | hne
    · exact Or.inl hrest
    · exact Or.inr (exists_mark_of_isExponent he hne rest)
  have hfrac : NotNext Char.isDigit (f ++ (e ++ rest)) := by
    rcases eq_or_ne f [] with rfl | hne
    · rcases hexp with h | h
      · intro c cs hc; have := h c cs hc; simp_all [goesOnNumeral]
      · exact notNext_isDigit_of_mark h
    · exact notNext_isDigit_of_isFraction hf hne _
  simp only [splitNumeral, List.append_assoc, splitInteger_append_of_isInteger hi hfrac,
    splitFraction_append_of_isFraction hf hexp, splitExponent_append_of_isExponent he hrest]

theorem isInteger_splitInteger {c : Char} (cs : Text) (h : c.isDigit = true) :
    isInteger (splitInteger (c :: cs)).1 = true := by
  simp only [splitInteger]
  split
  · rename_i hc; simp [isInteger, hc]
  · rename_i hc; simp [h, isInteger, hc, List.all_takeWhile]

theorem isFraction_splitFraction (t : Text) : isFraction (splitFraction t).1 = true := by
  cases t with
  | nil => rfl
  | cons c cs =>
    simp only [splitFraction]
    split
    · rename_i h
      simp only [Bool.and_eq_true, decide_eq_true_eq] at h
      obtain ⟨rfl, h⟩ := h
      cases cs with
      | nil => simp at h
      | cons d ds =>
        simp only [List.head?_cons, Option.any_some] at h
        simp [isFraction, isDigits, h, List.all_takeWhile]
    · rfl

/-- A sign that was cut off is cut off again in front of a digit. -/
theorem splitSign_splitSign {cs : Text} {d : Char} (ds : Text) (hd : d.isDigit = true) :
    splitSign ((splitSign cs).1 ++ d :: ds) = ((splitSign cs).1, d :: ds) := by
  have hsign : (d = '+' || d = '-') = false := by
    rw [isDigit_iff_toNat] at hd
    simp only [Bool.or_eq_false_iff, decide_eq_false_iff_not]
    constructor <;> rintro rfl <;> simp at hd
  cases cs with
  | nil => simp [splitSign, hsign]
  | cons c cs =>
    by_cases hc : (c = '+' || c = '-') = true
    · simp [splitSign, hc]
    · simp [splitSign, hc, hsign]

theorem isExponent_splitExponent (t : Text) : isExponent (splitExponent t).1 = true := by
  cases t with
  | nil => rfl
  | cons c cs =>
    simp only [splitExponent]
    split
    · rename_i h
      simp only [Bool.and_eq_true] at h
      obtain ⟨hc, h⟩ := h
      cases hds : (splitSign cs).2 with
      | nil => simp [hds] at h
      | cons d ds =>
        simp only [hds, List.head?_cons, Option.any_some] at h
        simp only [List.cons_append, isExponent, hc, Bool.true_and, List.takeWhile_cons, h, if_true,
          splitSign_splitSign _ h, isDigits, List.isEmpty_cons, Bool.not_false, List.all_cons,
          List.all_takeWhile]
    · rfl

theorem isNumeral_splitNumeral {c : Char} (cs : Text) (h : c.isDigit = true) :
    IsNumeral (splitNumeral (c :: cs)).1 :=
  ⟨_, _, _, rfl, isInteger_splitInteger cs h, isFraction_splitFraction _,
    isExponent_splitExponent _⟩

end Text

/-! ## Tokens that are read -/

/-- The characters of the token have the shape of its kind. -/
def TokenKind.WellFormed : TokenKind → Prop
  | symbol _ => True
  | number text => text.IsNumeral
  | identifier name => name.isName = true
  | quoted text => text.isQuotableText = true

theorem TokenKind.wellFormed_of_scan? {t rest : Text} {kind : TokenKind}
    (h : Lexeme.scan? t = some (.token kind, rest)) : kind.WellFormed := by
  cases t with
  | nil => cases h
  | cons c cs =>
    simp only [Lexeme.scan?] at h
    split at h
    · rename_i hc
      cases h
      simp [WellFormed, Text.isName, hc, List.all_takeWhile]
    split at h
    · rename_i hc
      cases h
      exact Text.isNumeral_splitNumeral cs hc
    split at h
    · simp only [Option.some.injEq, Lexeme.scanQuotation] at h
      split at h
      · cases h; exact List.all_takeWhile
      · cases h
    split at h
    · cases h; trivial
    · cases h

namespace Text

theorem wellFormed_of_token? {t rest : Text} {kind : TokenKind}
    (h : t.token? = some (kind, rest)) : kind.WellFormed :=
  TokenKind.wellFormed_of_scan? (token?_eq_some_iff.1 h)

/-- An identifier is read up to its last letter or digit. -/
theorem notNext_of_identifier {t rest name : Text}
    (h : t.token? = some (.identifier name, rest)) : NotNext Char.isAlphanum rest := by
  rw [token?_eq_some_iff] at h
  cases ht : t.dropBlanks with
  | nil => rw [ht] at h; cases h
  | cons c cs =>
    simp only [ht, Lexeme.scan?] at h
    split at h
    · cases h; exact notNext_dropWhile _ _
    split at h
    · cases h
    split at h
    · simp only [Option.some.injEq, Lexeme.scanQuotation] at h
      split at h <;> cases h
    split at h <;> cases h

/-! ## Texts that are read as tokens -/

theorem dropBlanks_cons_of_not {c : Char} (cs : Text) (h : isBlank c = false) :
    dropBlanks (c :: cs) = c :: cs := by
  simp [dropBlanks, h]

@[simp] theorem token?_nil : token? [] = none := rfl

@[simp] theorem token?_space (t : Text) : token? (' ' :: t) = token? t := rfl

theorem token?_identifier {name rest : Text} (hname : name.isName = true)
    (hrest : NotNext Char.isAlphanum rest) :
    (name ++ rest).token? = some (.identifier name, rest) := by
  cases name with
  | nil => cases hname
  | cons c cs =>
    simp only [isName, Bool.and_eq_true] at hname
    rw [token?_eq_some_iff, List.cons_append, dropBlanks_cons_of_not _
      (isBlank_eq_false_of_isAlphanum (isAlphanum_of_isAlpha hname.1))]
    simp only [Lexeme.scan?, hname.1, if_true, takeWhile_append_of_notNext hname.2 hrest,
      dropWhile_append_of_notNext hname.2 hrest]

theorem exists_digit_of_isNumeral {t : Text} (h : IsNumeral t) :
    ∃ c cs, t = c :: cs ∧ c.isDigit = true := by
  obtain ⟨i, f, e, rfl, hi, -, -⟩ := h
  cases i with
  | nil => cases hi
  | cons c cs =>
    refine ⟨c, cs ++ f ++ e, rfl, ?_⟩
    simp only [isInteger] at hi
    split at hi
    · rename_i hc; rw [hc]; rfl
    · simp_all

theorem token?_number {text rest : Text} (htext : text.IsNumeral)
    (hrest : NotNext goesOnNumeral rest) : (text ++ rest).token? = some (.number text, rest) := by
  obtain ⟨c, cs, rfl, hc⟩ := exists_digit_of_isNumeral htext
  have hsplit := splitNumeral_append_of_isNumeral htext hrest
  rw [List.cons_append] at hsplit
  rw [token?_eq_some_iff, List.cons_append, dropBlanks_cons_of_not _
    (isBlank_eq_false_of_isAlphanum (isAlphanum_of_isDigit hc))]
  simp [Lexeme.scan?, isAlpha_eq_false_of_isDigit hc, hc, hsplit]

theorem token?_quoted {text rest : Text} (htext : text.isQuotableText = true) :
    (text.inBackTicks ++ rest).token? = some (.quoted text, rest) := by
  have hstop : NotNext isQuotable ('\x60' :: rest) := notNext_cons.2 rfl
  rw [token?_eq_some_iff]
  change Lexeme.scan? ('\x60' :: (text ++ ['\x60'] ++ rest)) = _
  have happ : text ++ ['\x60'] ++ rest = text ++ '\x60' :: rest := by simp
  simp only [Lexeme.scan?, happ]
  change some (Lexeme.scanQuotation (text ++ '\x60' :: rest)) = _
  simp only [Lexeme.scanQuotation, takeWhile_append_of_notNext htext hstop,
    dropWhile_append_of_notNext htext hstop]

/-- A symbol is read where no longer one begins. -/
theorem token?_symbol {s : Symbol} {rest : Text} (heq : s = .equal → NotNext (· = '~') rest)
    (hless : s = .less → NotNext (· = '>') rest) :
    (s.written ++ rest).token? = some (.symbol s, rest) := by
  cases s with
  | equal =>
    cases rest with
    | nil => rfl
    | cons c cs =>
      have hc : c ≠ '~' := by simpa using notNext_cons.1 (heq rfl)
      have hscan : Symbol.scan? ('=' :: c :: cs) = some (.equal, c :: cs) := by
        unfold Symbol.scan?
        split
        · rename_i h; simp_all
        · rename_i h; simp_all
        · rename_i h; cases h; rfl
        · rename_i h; cases h
      rw [token?_eq_some_iff]
      change Lexeme.scan? ('=' :: c :: cs) = _
      simp [Lexeme.scan?, hscan]
  | less =>
    cases rest with
    | nil => rfl
    | cons c cs =>
      have hc : c ≠ '>' := by simpa using notNext_cons.1 (hless rfl)
      have hscan : Symbol.scan? ('<' :: c :: cs) = some (.less, c :: cs) := by
        unfold Symbol.scan?
        split
        · rename_i h; simp_all
        · rename_i h; simp_all
        · rename_i h; cases h; rfl
        · rename_i h; cases h
      rw [token?_eq_some_iff]
      change Lexeme.scan? ('<' :: c :: cs) = _
      simp [Lexeme.scan?, hscan]
  | _ => rfl

end Text

end Cypher
