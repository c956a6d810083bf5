/-
  Number values — every number of a query that was read has a value.

  Three grammars meet here. The scanner knows numerals, the grammar of queries puts a minus sign
  directly before one of them, and what has a floating-point value is said by a third grammar, which
  is wider. It is given here as a regular language, apart from the reader.

  * `Pattern.floating`: the texts that have a value. The reader accepts these and no others
    (`NumberReading.isSome_ofText?_iff`);
  * `Text.IsNumber.exists_reading`: a number of a query is read as a decimal number with its sign;
  * `Binary64.testBit_bits`: the first bit of a value is its sign, however large or small it is;
  * `Query.mem_numbers_iff`: the numbers of a query are its number operands, at any nesting;
  * `Query.hasValue_of_parse`: the values of the numbers of a query.
-/
import Cypher.Number.Binary64
import Cypher.Proofs.LongestMatch
import Cypher.Proofs.Validity

namespace Cypher

open scoped Computability

/-! ## Texts with a value -/

namespace Pattern

/-- `[+-]?` -/
def sign : Language Char :=
  1 + oneOf fun c => c = '+' || c = '-'

/-- A word in any mixture of capitals and small letters. -/
def anyCase (word : Text) : Language Char :=
  {t | Text.eqIgnoringCase t word = true}

/-- `[0-9]+|[0-9]+\.[0-9]*|[0-9]*\.[0-9]+` -/
def mantissa : Language Char :=
  digits + digits * oneOf (· = '.') * (oneOf Char.isDigit)∗ +
    (oneOf Char.isDigit)∗ * oneOf (· = '.') * digits

/-- The texts that have a value, without a sign. -/
def magnitude : Language Char :=
  anyCase "inf".toList + anyCase "infinity".toList + anyCase "nan".toList + mantissa * exponent

/-- The texts that have a floating-point value. -/
def floating : Language Char :=
  sign * magnitude

variable {t : Text}

theorem mem_mantissa : t ∈ mantissa ↔ t.isDigits = true ∨ ∃ whole decimals : Text,
    t = whole ++ '.' :: decimals ∧ whole.all Char.isDigit = true ∧
      decimals.all Char.isDigit = true ∧ (whole ≠ [] ∨ decimals ≠ []) := by
  simp only [mantissa, Language.mem_add, Language.mem_mul, mem_digits, mem_kstar_oneOf, mem_oneOf,
    decide_eq_true_eq, Text.isDigits, Bool.and_eq_true, Bool.not_eq_true',
    List.isEmpty_eq_false_iff, or_assoc]
  refine or_congr_right ⟨?_, ?_⟩
  · rintro (⟨_, ⟨whole, ⟨hne, hwhole⟩, _, ⟨_, rfl, rfl⟩, rfl⟩, decimals, hdecimals, rfl⟩ |
      ⟨_, ⟨whole, hwhole, _, ⟨_, rfl, rfl⟩, rfl⟩, decimals, ⟨hne, hdecimals⟩, rfl⟩)
    · exact ⟨whole, decimals, by simp, hwhole, hdecimals, Or.inl hne⟩
    · exact ⟨whole, decimals, by simp, hwhole, hdecimals, Or.inr hne⟩
  · rintro ⟨whole, decimals, rfl, hwhole, hdecimals, hne | hne⟩
    · exact Or.inl ⟨_, ⟨whole, ⟨hne, hwhole⟩, _, ⟨_, rfl, rfl⟩, rfl⟩, decimals, hdecimals, by simp⟩
    · exact Or.inr ⟨_, ⟨whole, hwhole, _, ⟨_, rfl, rfl⟩, rfl⟩, decimals, ⟨hne, hdecimals⟩, by simp⟩

/-- A sign or none, before texts that do not begin with one. -/
theorem mem_sign_mul {l : Language Char} (hl : ∀ c cs, c :: cs ∈ l → ¬(c = '+' ∨ c = '-')) :
    t ∈ sign * l ↔ t.splitSign.2 ∈ l := by
  rw [sign, add_mul, one_mul, Language.mem_add, mem_oneOf_mul]
  cases t with
  | nil => simp [Text.splitSign]
  | cons c cs =>
    by_cases hc : c = '+' ∨ c = '-'
    · have hnot : c :: cs ∉ l := fun h => hl c cs h hc
      simp [Text.splitSign, hc, hnot]
    · simp [Text.splitSign, hc]

end Pattern

/-! ## The reader -/

namespace Text

theorem isDigits_of_all {t : Text} (hall : t.all Char.isDigit = true) (hne : t ≠ []) :
    t.isDigits = true := by
  simpa [isDigits, hne] using hall

theorem isSome_readDigits?_iff {t : Text} :
    t.readDigits?.isSome = true ↔ t.isDigits = true := by
  simp only [readDigits?, isDigits]
  cases t.isEmpty <;> cases t.all Char.isDigit <;> simp

theorem isSome_readExponent?_iff {t : Text} :
    t.readExponent?.isSome = true ↔ t.isExponent = true := by
  cases t with
  | nil => exact ⟨fun _ => rfl, fun _ => rfl⟩
  | cons c cs =>
    simp only [readExponent?, isExponent, Bool.and_eq_true, ← isSome_readDigits?_iff]
    split
    · rename_i hc
      rw [Option.isSome_map, and_iff_right hc]
      cases (splitSign cs).2.readDigits? <;> rfl
    · rename_i hc
      exact ⟨fun h => absurd h Bool.false_ne_true, fun h => absurd h.1 hc⟩

theorem notNext_of_isExponent {e : Text} (h : e.isExponent = true) :
    NotNext Char.isDigit e ∧ splitDecimals e = ([], e) := by
  cases e with
  | nil => exact ⟨notNext_nil _, rfl⟩
  | cons c cs =>
    simp only [isExponent, Bool.and_eq_true, Bool.or_eq_true, decide_eq_true_eq] at h
    rcases h.1 with rfl | rfl
    · exact ⟨notNext_cons.2 rfl, rfl⟩
    · exact ⟨notNext_cons.2 rfl, rfl⟩

end Text

namespace Decimal

open Text

variable {t whole rest : Text}

/-- What is read after the digits at the front of a text. -/
theorem isSome_ofText?_append (hwhole : whole.all Char.isDigit = true)
    (hrest : NotNext Char.isDigit rest) : (ofText? (whole ++ rest)).isSome = true ↔
      (whole ≠ [] ∨ (splitDecimals rest).1 ≠ []) ∧ (splitDecimals rest).2.isExponent = true := by
  rw [ofText?, takeWhile_append_of_notNext hwhole hrest, dropWhile_append_of_notNext hwhole hrest]
  rcases splitDecimals rest with ⟨decimals, after⟩
  simp only [Bool.and_eq_true, List.isEmpty_iff]
  split
  · rename_i hnone
    simp [hnone.1, hnone.2]
  · rename_i hsome
    rw [Option.isSome_map, isSome_readExponent?_iff]
    exact (and_iff_right (not_and_or.1 hsome)).symm

theorem isSome_ofText?_iff :
    (ofText? t).isSome = true ↔ t ∈ Pattern.mantissa * Pattern.exponent := by
  simp only [Language.mem_mul, Pattern.mem_mantissa, Pattern.mem_exponent]
  constructor
  · intro h
    have happ : t.takeWhile Char.isDigit ++ t.dropWhile Char.isDigit = t :=
      List.takeWhile_append_dropWhile
    have hwhole : (t.takeWhile Char.isDigit).all Char.isDigit = true := List.all_takeWhile
    rw [← happ, isSome_ofText?_append hwhole (notNext_dropWhile _ _)] at h
    generalize t.takeWhile Char.isDigit = whole at *
    generalize t.dropWhile Char.isDigit = rest at *
    subst happ
    obtain ⟨hne, hexponent⟩ := h
    cases rest with
    | nil =>
      exact ⟨whole, Or.inl (isDigits_of_all hwhole (hne.resolve_right (by simp [splitDecimals]))),
        [], rfl, rfl⟩
    | cons c cs =>
      by_cases hc : c = '.'
      · subst hc
        rw [splitDecimals, if_pos rfl] at hne hexponent
        refine ⟨_, Or.inr ⟨whole, _, rfl, hwhole, List.all_takeWhile, hne⟩, _, hexponent, ?_⟩
        rw [List.append_assoc, List.cons_append, List.takeWhile_append_dropWhile]
      · rw [splitDecimals, if_neg hc] at hne hexponent
        exact ⟨whole, Or.inl (isDigits_of_all hwhole (hne.resolve_right (by simp))), c :: cs,
          hexponent, rfl⟩
  · rintro ⟨m, hm, e, he, rfl⟩
    obtain ⟨hdigit, hsplit⟩ := notNext_of_isExponent he
    rcases hm with hm | ⟨whole, decimals, rfl, hwhole, hdecimals, hne⟩
    · simp only [isDigits, Bool.and_eq_true, Bool.not_eq_true', List.isEmpty_eq_false_iff] at hm
      rw [isSome_ofText?_append hm.2 hdigit, hsplit]
      exact ⟨Or.inl hm.1, he⟩
    · have hdecimals' : splitDecimals ('.' :: (decimals ++ e)) = (decimals, e) := by
        rw [splitDecimals, if_pos rfl, takeWhile_append_of_notNext hdecimals hdigit,
          dropWhile_append_of_notNext hdecimals hdigit]
      rw [List.append_assoc, List.cons_append,
        isSome_ofText?_append hwhole (notNext_cons.2 rfl), hdecimals']
      exact ⟨hne, he⟩

end Decimal

theorem Magnitude.isSome_ofText?_iff {t : Text} :
    (ofText? t).isSome = true ↔ t ∈ Pattern.magnitude := by
  have hword (word : Text) : t ∈ Pattern.anyCase word ↔ t.eqIgnoringCase word = true := Iff.rfl
  simp only [Pattern.magnitude, Language.mem_add, hword, ← Decimal.isSome_ofText?_iff, ofText?,
    Bool.or_eq_true]
  split
  · rename_i hinf
    exact ⟨fun _ => Or.inl (Or.inl hinf), fun _ => rfl⟩
  · rename_i hinf
    split
    · rename_i hnan
      exact ⟨fun _ => Or.inl (Or.inr hnan), fun _ => rfl⟩
    · rename_i hnan
      rw [Option.isSome_map]
      exact (or_iff_right (not_or_intro hinf hnan)).symm

/-- A number text is read exactly if it has the shape of one. -/
theorem NumberReading.isSome_ofText?_iff {t : Text} :
    (ofText? t).isSome = true ↔ t ∈ Pattern.floating := by
  have hsign : ∀ c cs, c :: cs ∈ Pattern.magnitude → ¬(c = '+' ∨ c = '-') := by
    intro c cs h hc
    rw [← Magnitude.isSome_ofText?_iff] at h
    rcases hc with rfl | rfl
    · cases h
    · cases h
  rw [Pattern.floating, Pattern.mem_sign_mul hsign, ← Magnitude.isSome_ofText?_iff, ofText?,
    Option.isSome_map]

/-! ## Numbers of queries -/

namespace Text

variable {t : Text}

theorem mem_mantissa_mul_of_isNumeral (h : t.IsNumeral) :
    t ∈ Pattern.mantissa * Pattern.exponent := by
  obtain ⟨i, f, e, rfl, hi, hf, he⟩ := h
  obtain ⟨hne, hdigits⟩ := isInteger_digits hi
  refine Language.mem_mul.2 ⟨i ++ f, Pattern.mem_mantissa.2 ?_, e, Pattern.mem_exponent.2 he, rfl⟩
  cases f with
  | nil =>
    rw [List.append_nil]
    exact Or.inl (isDigits_of_all hdigits hne)
  | cons c cs =>
    simp only [isFraction, isDigits, Bool.and_eq_true, decide_eq_true_eq] at hf
    obtain ⟨rfl, -, hcs⟩ := hf
    exact Or.inr ⟨i, cs, rfl, hdigits, hcs, Or.inl hne⟩

/-- A text that begins with a digit is no word. -/
theorem eqIgnoringCase_of_isDigit {c w : Char} {cs ws : Text} (hc : c.isDigit = true)
    (hw : w.isAlpha = true) : eqIgnoringCase (c :: cs) (w :: ws) = false := by
  rw [← Bool.not_eq_true, eqIgnoringCase_iff]
  intro h
  simp only [lower, List.map_cons, List.cons.injEq] at h
  have halpha := isAlpha_of_toLower_eq hw h.1
  rw [isAlpha_eq_false_of_isDigit hc] at halpha
  cases halpha

theorem magnitude_of_isNumeral (h : t.IsNumeral) :
    ∃ decimal, Magnitude.ofText? t = some (.finite decimal) := by
  obtain ⟨decimal, hdecimal⟩ := Option.isSome_iff_exists.1
    (Decimal.isSome_ofText?_iff.2 (mem_mantissa_mul_of_isNumeral h))
  obtain ⟨c, cs, rfl, hc⟩ := exists_digit_of_isNumeral h
  have hinf : eqIgnoringCase (c :: cs) "inf".toList = false := eqIgnoringCase_of_isDigit hc rfl
  have hinfinity : eqIgnoringCase (c :: cs) "infinity".toList = false :=
    eqIgnoringCase_of_isDigit hc rfl
  have hnan : eqIgnoringCase (c :: cs) "nan".toList = false := eqIgnoringCase_of_isDigit hc rfl
  exact ⟨decimal, by rw [Magnitude.ofText?, hinf, hinfinity, hnan, hdecimal]; rfl⟩

/-- The number is read as a decimal number, negative if a minus sign stands before it. -/
theorem IsNumber.exists_reading (h : t.IsNumber) : ∃ decimal,
    NumberReading.ofText? t = some ⟨t.head? = some '-', .finite decimal⟩ := by
  rcases h with h | ⟨numeral, rfl, h⟩
  · obtain ⟨decimal, hdecimal⟩ := magnitude_of_isNumeral h
    obtain ⟨c, cs, rfl, hc⟩ := exists_digit_of_isNumeral h
    have hplus : c ≠ '+' := by rintro rfl; cases hc
    have hminus : c ≠ '-' := by rintro rfl; cases hc
    have hsign : splitSign (c :: cs) = ([], c :: cs) := by simp [splitSign, hplus, hminus]
    exact ⟨decimal, by simp [NumberReading.ofText?, hsign, hdecimal, hminus]⟩
  · obtain ⟨decimal, hdecimal⟩ := magnitude_of_isNumeral h
    exact ⟨decimal, by simp [NumberReading.ofText?, splitSign, hdecimal]⟩

end Text

/-! ## Values -/

namespace Binary64

theorem ofDecimal_le_infinity (d : Decimal) : ofDecimal d ≤ infinity := by
  have hnearest (num den : Nat) : nearest num den ≤ infinity := Nat.min_le_right _ _
  simp only [ofDecimal]
  split
  · exact Nat.zero_le _
  · split
    · split
      · exact Nat.le_refl _
      · exact hnearest _ _
    · split
      · exact Nat.zero_le _
      · exact hnearest _ _

/-- The value of a decimal number is a number, or infinite. -/
theorem isNaN_ofReading_finite (negative : Bool) (d : Decimal) :
    (ofReading ⟨negative, .finite d⟩).isNaN = false :=
  decide_eq_false (Nat.not_lt.2 (ofDecimal_le_infinity d))

theorem magnitude_ofReading_lt (reading : NumberReading) :
    (ofReading reading).magnitude < 2 ^ 63 := by
  have hinfinity : infinity < 2 ^ 63 := by decide
  obtain ⟨negative, magnitude⟩ := reading
  cases magnitude with
  | nan => exact (by decide : nan < 2 ^ 63)
  | infinity => exact hinfinity
  | finite d => exact Nat.lt_of_le_of_lt (ofDecimal_le_infinity d) hinfinity

/-- The first of the 64 bits is the sign. -/
theorem testBit_bits {value : Binary64} (h : value.magnitude < 2 ^ 63) :
    value.bits.testBit 63 = value.negative := by
  have hmagnitude : value.magnitude.testBit 63 = false := Nat.testBit_lt_two_pow h
  cases hnegative : value.negative with
  | true =>
    rw [bits, hnegative, if_pos rfl]
    change (2 ^ 63 + value.magnitude).testBit 63 = true
    rw [Nat.testBit_two_pow_add_eq, hmagnitude, Bool.not_false]
  | false => rw [bits, hnegative, if_neg Bool.false_ne_true, Nat.zero_add, hmagnitude]

theorem ofText_eq {t : Text} {reading : NumberReading}
    (h : NumberReading.ofText? t = some reading) : ofText t = ofReading reading := by
  rw [ofText, h, Option.map_some, Option.getD_some]

end Binary64

/-! ## Number operands -/

mutual

theorem Operand.mem_numbers_iff {text : Text} (depth : Nat) (after : Text) : ∀ o : Operand,
    text ∈ o.numbers ↔ ∃ place ∈ o.places depth after, place.operand = .number text
  | .call _ _ arguments => by
    simp [Operand.numbers, Operand.places,
      Expression.mem_numbers_iff (depth + 1) (')' :: after) arguments]
  | .case_ _ => by simp [Operand.numbers, Operand.places]
  | .group inner => by
    simp [Operand.numbers, Operand.places,
      Expression.mem_numbers_iff (depth + 1) (')' :: after) inner]
  | .property _ _ => by simp [Operand.numbers, Operand.places]
  | .literal _ => by simp [Operand.numbers, Operand.places]
  | .identifier _ => by simp [Operand.numbers, Operand.places]
  | .string _ => by simp [Operand.numbers, Operand.places]
  | .number _ => by simp [Operand.numbers, Operand.places, eq_comm]
  | .wildcard => by simp [Operand.numbers, Operand.places]

theorem Expression.mem_numbers_iff {text : Text} (depth : Nat) (after : Text) :
    ∀ e : Chain Operand, text ∈ Expression.numbers e ↔
      ∃ place ∈ Expression.places depth after e, place.operand = .number text
  | .empty => by simp [Expression.numbers, Expression.places]
  | .cons head tail => by
    simp [Expression.numbers, Expression.places, or_and_right, exists_or,
      Operand.mem_numbers_iff depth (Operand.renderLinks tail ++ after) head,
      Operand.mem_numbersOfLinks_iff depth after tail]

theorem Operand.mem_numbersOfLinks_iff {text : Text} (depth : Nat) (after : Text) :
    ∀ links : List (Operator × Operand), text ∈ Operand.numbersOfLinks links ↔
      ∃ place ∈ Operand.placesOfLinks depth after links, place.operand = .number text
  | [] => by simp [Operand.numbersOfLinks, Operand.placesOfLinks]
  | (_, operand) :: links => by
    simp [Operand.numbersOfLinks, Operand.placesOfLinks, or_and_right, exists_or,
      Operand.mem_numbers_iff depth (Operand.renderLinks links ++ after) operand,
      Operand.mem_numbersOfLinks_iff depth after links]

end

theorem mem_numbers_conditions_iff {text : Text} (after : Text) (clauses : List MatchClause) :
    (text ∈ clauses.flatMap fun clause => (clause.condition.map Expression.numbers).getD []) ↔
      ∃ place ∈ placesOfClauses after clauses, place.operand = .number text := by
  induction clauses with
  | nil => simp [placesOfClauses]
  | cons clause clauses ih =>
    rw [List.flatMap_cons, List.mem_append, ih, placesOfClauses]
    cases clause.condition with
    | none => simp
    | some e =>
      simp [Expression.mem_numbers_iff 0 (' ' :: renderClauses clauses after) e, or_and_right,
        exists_or]

theorem mem_numbers_items_iff {text : Text} (items : List ReturnItem) :
    (text ∈ items.flatMap fun item => Expression.numbers item.expression) ↔
      ∃ place ∈ placesOfItems items, place.operand = .number text := by
  induction items with
  | nil => simp [placesOfItems]
  | cons item items ih =>
    rw [List.flatMap_cons, List.mem_append, ih, placesOfItems]
    simp [Expression.mem_numbers_iff 0 (renderAlias item.aliasName ++ renderItemsAfter items)
      item.expression, or_and_right, exists_or]

namespace Query

/-- The numbers of a query are those of its operands, at any nesting. -/
theorem mem_numbers_iff {query : Query} {text : Text} :
    text ∈ query.numbers ↔ ∃ place ∈ query.places, place.operand = .number text := by
  rw [numbers, List.mem_append, mem_numbers_conditions_iff (renderReturns query.returns),
    mem_numbers_items_iff, places]
  simp [or_and_right, exists_or]

/-- Every number of a query that was read, at any nesting, is a text with a floating-point value:
    the reader accepts it, so that nothing need stand in for the value. This is a number or
    infinite, and its first bit is set exactly if a minus sign stands before the digits. -/
theorem hasValue_of_parse {limit : Nat} {source : Text} {query : Query}
    (h : parse limit source = .ok query) : ∀ text ∈ query.numbers,
      text ∈ Pattern.floating ∧
        (∃ reading, NumberReading.ofText? text = some reading ∧
          Binary64.ofText text = .ofReading reading) ∧
        (Binary64.ofText text).isNaN = false ∧
        ((Binary64.ofText text).bits.testBit 63 = true ↔ text.head? = some '-') := by
  intro text htext
  obtain ⟨place, hplace, hoperand⟩ := mem_numbers_iff.1 htext
  have hnumber : text.IsNumber := by
    have hshape := (wellShaped_of_parse h).operands place hplace
    rwa [hoperand] at hshape
  obtain ⟨decimal, hreading⟩ := hnumber.exists_reading
  have hvalue := Binary64.ofText_eq hreading
  have hgrammar : text ∈ Pattern.floating :=
    NumberReading.isSome_ofText?_iff.1 (by rw [hreading]; rfl)
  refine ⟨hgrammar, ⟨_, hreading, hvalue⟩, ?_, ?_⟩
  · rw [hvalue, Binary64.isNaN_ofReading_finite]
  · rw [hvalue, Binary64.testBit_bits (Binary64.magnitude_ofReading_lt _)]
    exact decide_eq_true_iff

/-- Numbers in a call, in a group and among the items: one overflows, one is too small, and one is
    a zero with a sign. -/
theorem hasValue_of_parse_nested :
    let source : Text := "MATCH (a) WHERE f(-1.5e400) = (0.50 - -0) RETURN 3e-999".toList
    ∃ query, parse 1 source = .ok query ∧
      query.numbers = ["-1.5e400", "0.50", "-0", "3e-999"].map String.toList ∧
      query.numbers.map (fun text => (Binary64.ofText text).bits) =
        [0xFFF0000000000000, 0x3FE0000000000000, 0x8000000000000000, 0] ∧
      ∀ text ∈ query.numbers, text ∈ Pattern.floating ∧
        (∃ reading, NumberReading.ofText? text = some reading ∧
          Binary64.ofText text = .ofReading reading) ∧
        (Binary64.ofText text).isNaN = false ∧
        ((Binary64.ofText text).bits.testBit 63 = true ↔ text.head? = some '-') := by
  intro source
  let number (text : String) : Operand := .number text.toList
  let condition : Expression := .cons (.call ['f'] false (.single (number "-1.5e400")))
    [(.equal, .group (.cons (number "0.50") [(.subtract, number "-0")]))]
  let query : Query := ⟨none, [⟨.required, [⟨some ⟨['a'], none⟩, []⟩], some condition⟩],
    [⟨.single (number "3e-999"), none⟩]⟩
  have h : parse 1 source = .ok query := by decide +kernel
  exact ⟨query, h, by decide +kernel, by decide +kernel, hasValue_of_parse h⟩

end Query

end Cypher
