/-
  Longest match — every item is the longest token at its place.

  The shapes of tokens are given as regular languages, with a character class for each kind of
  character. The scanner knows none of them: it takes characters as long as it can, and a fraction
  or an exponent only if it is complete.

  * `Pattern.numeral`, `Pattern.name`, `Pattern.quotation`: the texts of numbers, identifiers and
    quoted text; `TokenKind.Matches` is the kind of token that a text is by its pattern;
  * `TokenKind.matches_iff`: a token matches its own characters, if they have its shape, and no
    other text;
  * `Text.length_le_splitNumeral`: no numeral at the front of a text is longer than the one cut off;
  * `Lexeme.exists_scan?_written`: where a token stands, one at least as long is read;
  * `Lexeme.IsLongestMatch`: the lexeme is the longest token at the front of a text, or what is
    reported where there is none;
  * `Cursor.isLongestMatch_of_mem_items`: so is every item, from wherever a text is read.
-/
import Cypher.Proofs.Partition
import Mathlib.Computability.Language

namespace Cypher

open scoped Computability

/-! ## Patterns -/

namespace Pattern

/-- One character of a class. -/
def oneOf (p : Char → Bool) : Language Char :=
  {t | ∃ c, p c = true ∧ t = [c]}

/-- `[0-9]+` -/
def digits : Language Char :=
  oneOf Char.isDigit * (oneOf Char.isDigit)∗

/-- `0|[1-9][0-9]*` -/
def integer : Language Char :=
  oneOf (· = '0') + oneOf (fun c => '1' ≤ c && c ≤ '9') * (oneOf Char.isDigit)∗

/-- `(\.[0-9]+)?` -/
def fraction : Language Char :=
  1 + oneOf (· = '.') * digits

/-- `([eE][+-]?[0-9]+)?` -/
def exponent : Language Char :=
  1 + oneOf (fun c => c = 'e' || c = 'E') * (1 + oneOf (fun c => c = '+' || c = '-')) * digits

/-- The texts of numbers. -/
def numeral : Language Char :=
  integer * fraction * exponent

/-- `[A-Za-z][0-9A-Za-z]*` -/
def name : Language Char :=
  oneOf Char.isAlpha * (oneOf Char.isAlphanum)∗

/-- Letters, digits, blanks and Cyrillic characters between back-ticks. -/
def quotation : Language Char :=
  oneOf (· = '\x60') * (oneOf Text.isQuotable)∗ * oneOf (· = '\x60')

end Pattern

/-- The text has the pattern of the token. A number or an identifier carries the text, a quotation
    the text without its back-ticks. -/
def TokenKind.Matches (t : Text) : TokenKind → Prop
  | symbol s => t = s.written
  | number text => t ∈ Pattern.numeral ∧ text = t
  | identifier name => t ∈ Pattern.name ∧ name = t
  | quoted text => t ∈ Pattern.quotation ∧ text = (t.drop 1).dropLast

/-- The texts of all tokens. -/
def Pattern.token : Language Char :=
  {t | ∃ kind, TokenKind.Matches t kind}

/-! ## Patterns and shapes -/

namespace Pattern

variable {p : Char → Bool} {t : Text}

theorem mem_oneOf : t ∈ oneOf p ↔ ∃ c, p c = true ∧ t = [c] :=
  Iff.rfl

theorem mem_kstar_oneOf : t ∈ (oneOf p)∗ ↔ t.all p = true := by
  rw [Language.mem_kstar]
  constructor
  · rintro ⟨parts, rfl, hparts⟩
    rw [List.all_eq_true]
    intro c hc
    obtain ⟨part, hpart, hmem⟩ := List.mem_flatten.1 hc
    obtain ⟨d, hd, rfl⟩ := hparts part hpart
    rwa [List.mem_singleton.1 hmem]
  · intro hall
    refine ⟨t.map fun c => [c], (List.flatMap_singleton' t).symm, ?_⟩
    intro part hpart
    obtain ⟨c, hc, rfl⟩ := List.mem_map.1 hpart
    exact ⟨c, List.all_eq_true.1 hall c hc, rfl⟩

/-- A character of a class before a text. -/
theorem mem_oneOf_mul {l : Language Char} :
    t ∈ oneOf p * l ↔ ∃ c cs, t = c :: cs ∧ p c = true ∧ cs ∈ l := by
  rw [Language.mem_mul]
  constructor
  · rintro ⟨_, ⟨c, hc, rfl⟩, cs, hcs, rfl⟩
    exact ⟨c, cs, rfl, hc, hcs⟩
  · rintro ⟨c, cs, rfl, hc, hcs⟩
    exact ⟨[c], ⟨c, hc, rfl⟩, cs, hcs, rfl⟩

theorem mem_digits : t ∈ digits ↔ t.isDigits = true := by
  rw [digits, mem_oneOf_mul]
  cases t with
  | nil => simp [Text.isDigits]
  | cons c cs => simp [Text.isDigits, mem_kstar_oneOf]

theorem mem_integer : t ∈ integer ↔ t.isInteger = true := by
  have hclass : ∀ c : Char, ('1' ≤ c && c ≤ '9') = true ↔ c ≠ '0' ∧ c.isDigit = true := by
    intro c
    rw [Text.isDigit_iff_toNat, Bool.and_eq_true, decide_eq_true_iff, decide_eq_true_iff,
      Char.le_def, Char.le_def, UInt32.le_iff_toNat_le, UInt32.le_iff_toNat_le, ne_eq,
      ← Char.toNat_inj]
    change 49 ≤ c.toNat ∧ c.toNat ≤ 57 ↔ ¬c.toNat = 48 ∧ _
    omega
  rw [integer, Language.mem_add, mem_oneOf_mul, mem_oneOf]
  simp only [hclass, mem_kstar_oneOf, decide_eq_true_eq, exists_eq_left]
  cases t with
  | nil => simp [Text.isInteger]
  | cons c cs =>
    by_cases hc : c = '0'
    · simp [Text.isInteger, hc]
    · simp [Text.isInteger, hc]

theorem mem_fraction : t ∈ fraction ↔ t.isFraction = true := by
  rw [fraction, Language.mem_add, Language.mem_one, mem_oneOf_mul]
  cases t with
  | nil => simp [Text.isFraction]
  | cons c cs => simp [Text.isFraction, mem_digits]

/-- Digits with a sign or none in front. -/
theorem mem_signed : t ∈ (1 + oneOf fun c => c = '+' || c = '-') * digits ↔
    t.splitSign.2.isDigits = true := by
  rw [add_mul, one_mul, Language.mem_add, mem_digits, mem_oneOf_mul]
  cases t with
  | nil => simp [Text.isDigits, Text.splitSign]
  | cons c cs =>
    by_cases hc : c = '+' ∨ c = '-'
    · have hdigit : c.isDigit = false := by
        rcases hc with rfl | rfl <;> rfl
      simp [Text.splitSign, hc, mem_digits, Text.isDigits, hdigit]
    · simp [Text.splitSign, hc]

theorem mem_exponent : t ∈ exponent ↔ t.isExponent = true := by
  rw [exponent, Language.mem_add, Language.mem_one, mul_assoc, mem_oneOf_mul]
  simp only [mem_signed]
  cases t with
  | nil => simp [Text.isExponent]
  | cons c cs => simp [Text.isExponent]

theorem mem_numeral : t ∈ numeral ↔ t.IsNumeral := by
  simp only [numeral, Language.mem_mul, mem_integer, mem_fraction, mem_exponent]
  constructor
  · rintro ⟨_, ⟨i, hi, f, hf, rfl⟩, e, he, rfl⟩
    exact ⟨i, f, e, rfl, hi, hf, he⟩
  · rintro ⟨i, f, e, rfl, hi, hf, he⟩
    exact ⟨i ++ f, ⟨i, hi, f, hf, rfl⟩, e, he, rfl⟩

theorem mem_name : t ∈ name ↔ t.isName = true := by
  rw [name, mem_oneOf_mul]
  cases t with
  | nil => simp [Text.isName]
  | cons c cs => simp [Text.isName, mem_kstar_oneOf]

theorem mem_quotation : t ∈ quotation ↔
    ∃ text : Text, text.isQuotableText = true ∧ t = text.inBackTicks := by
  simp only [quotation, Language.mem_mul, mem_kstar_oneOf, mem_oneOf, decide_eq_true_eq]
  constructor
  · rintro ⟨_, ⟨_, ⟨_, rfl, rfl⟩, text, htext, rfl⟩, _, ⟨_, rfl, rfl⟩, rfl⟩
    exact ⟨text, htext, rfl⟩
  · rintro ⟨text, htext, rfl⟩
    exact ⟨_, ⟨_, ⟨_, rfl, rfl⟩, text, htext, rfl⟩, _, ⟨_, rfl, rfl⟩, rfl⟩

end Pattern

namespace TokenKind

variable {kind kind' : TokenKind} {t : Text}

/-- A token matches its own characters, if they have the shape of its kind, and no other text. -/
theorem matches_iff : kind.Matches t ↔ kind.WellFormed ∧ t = kind.written := by
  cases kind with
  | symbol s => simp [Matches, WellFormed, written]
  | number text =>
    simp only [Matches, WellFormed, written, Pattern.mem_numeral, eq_comm (a := text)]
    exact and_congr_left fun h => by rw [h]
  | identifier name =>
    simp only [Matches, WellFormed, written, Pattern.mem_name, eq_comm (a := name)]
    exact and_congr_left fun h => by rw [h]
  | quoted text =>
    simp only [Matches, WellFormed, written, Pattern.mem_quotation]
    constructor
    · rintro ⟨⟨inner, hinner, rfl⟩, rfl⟩
      simp [Text.inBackTicks, hinner]
    · rintro ⟨htext, rfl⟩
      exact ⟨⟨text, htext, rfl⟩, by simp [Text.inBackTicks]⟩

/-- Different tokens are written differently. -/
theorem WellFormed.written_injective (h : kind.WellFormed) (h' : kind'.WellFormed)
    (hwritten : kind.written = kind'.written) : kind = kind' := by
  have htoken := h.token?_written
  rw [hwritten, h'.token?_written] at htoken
  cases htoken
  rfl

/-- The characters of a token match no other token. -/
theorem WellFormed.matches_written_iff (h : kind.WellFormed) :
    kind'.Matches kind.written ↔ kind' = kind := by
  rw [matches_iff]
  constructor
  · rintro ⟨h', hwritten⟩
    exact h'.written_injective h hwritten.symm
  · rintro rfl
    exact ⟨h, rfl⟩

end TokenKind

/-! ## Numerals -/

namespace Text

variable {t i f e : Text} {p : Char → Bool}

/-- Characters of a class at the front of a text are part of its longest such run. -/
theorem length_le_takeWhile (h : t.all p = true) (rest : Text) :
    t.length ≤ ((t ++ rest).takeWhile p).length := by
  rw [List.takeWhile_append_of_pos (List.all_eq_true.1 h), List.length_append]
  omega

theorem length_le_splitInteger (h : i.isInteger = true) (rest : Text) :
    i.length ≤ (splitInteger (i ++ rest)).1.length := by
  cases i with
  | nil => cases h
  | cons c cs =>
    simp only [isInteger] at h
    simp only [List.cons_append, splitInteger]
    split at h
    · rename_i hc
      simp_all
    · rename_i hc
      rw [if_neg hc]
      have hall : (c :: cs).all Char.isDigit = true := by simpa using h
      exact length_le_takeWhile hall rest

theorem length_le_splitFraction (h : f.isFraction = true) (rest : Text) :
    f.length ≤ (splitFraction (f ++ rest)).1.length := by
  cases f with
  | nil => exact Nat.zero_le _
  | cons c cs =>
    simp only [isFraction, Bool.and_eq_true] at h
    have hle := length_le_takeWhile (Bool.and_eq_true_iff.1 h.2).2 rest
    simp only [List.cons_append, splitFraction, h.1, head?_any_of_isDigits h.2 rest, Bool.and_self,
      if_true, List.length_cons]
    omega

theorem length_le_splitExponent (h : e.isExponent = true) (rest : Text) :
    e.length ≤ (splitExponent (e ++ rest)).1.length := by
  cases e with
  | nil => exact Nat.zero_le _
  | cons c cs =>
    simp only [isExponent, Bool.and_eq_true] at h
    have hne : cs ≠ [] := by rintro rfl; cases h.2
    have hle := length_le_takeWhile (Bool.and_eq_true_iff.1 h.2).2 rest
    have hlength := congrArg List.length (splitSign_append cs)
    simp only [List.cons_append, splitExponent, splitSign_append_of_ne_nil hne, h.1,
      head?_any_of_isDigits h.2 rest, Bool.and_self, if_true, List.length_cons, List.length_append]
      at hlength ⊢
    omega

theorem splitNumeral_fst (t : Text) : (splitNumeral t).1 =
    (splitInteger t).1 ++ (splitFraction (splitInteger t).2).1 ++
      (splitExponent (splitFraction (splitInteger t).2).2).1 := rfl

/-- No numeral at the front of a text is longer than the one that is cut off. -/
theorem length_le_splitNumeral (h : t.IsNumeral) (rest : Text) :
    t.length ≤ (splitNumeral (t ++ rest)).1.length := by
  obtain ⟨i, f, e, rfl, hi, hf, he⟩ := h
  rw [splitNumeral_fst]
  simp only [List.append_assoc, List.length_append]
  -- the parts before the last one are cut off as they are, and the last one is cut off at least
  rcases eq_or_ne e [] with rfl | hne
  · rcases eq_or_ne f [] with rfl | hne
    · have hle := length_le_splitInteger hi rest
      simp only [List.nil_append, List.length_nil]
      omega
    · have hle := length_le_splitFraction hf rest
      rw [List.nil_append,
        splitInteger_append_of_isInteger hi (notNext_isDigit_of_isFraction hf hne rest)]
      simp only [List.length_nil]
      omega
  · have hle := length_le_splitExponent he rest
    have hmark := exists_mark_of_isExponent he hne rest
    have hdigit : NotNext Char.isDigit (f ++ (e ++ rest)) := by
      rcases eq_or_ne f [] with rfl | hne
      · exact notNext_isDigit_of_mark hmark
      · exact notNext_isDigit_of_isFraction hf hne _
    rw [splitInteger_append_of_isInteger hi hdigit]
    rw [splitFraction_append_of_isFraction hf (Or.inr hmark)]
    simp only
    omega

end Text

/-! ## The longest match -/

/-- The text is the longest one of a language at the front of another text. -/
structure Text.IsLongest (l : Language Char) (ahead t : Text) : Prop where
  front : t <+: ahead
  mem : t ∈ l
  length_le : ∀ t', t' <+: ahead → t' ∈ l → t'.length ≤ t.length

theorem Text.isLongest_takeWhile (p : Char → Bool) (t : Text) :
    IsLongest (Pattern.oneOf p)∗ t (t.takeWhile p) := by
  refine ⟨List.takeWhile_prefix p, Pattern.mem_kstar_oneOf.2 List.all_takeWhile, ?_⟩
  rintro t' ⟨rest, rfl⟩ hmem
  exact length_le_takeWhile (Pattern.mem_kstar_oneOf.1 hmem) rest

namespace Lexeme

/-- The lexeme is the longest token at the front of the text. Where there is none, it is the one
    character that stands there, or a back-tick with all that could be quoted after it. -/
structure IsLongestMatch (ahead : Text) (lexeme : Lexeme) : Prop where
  token : (∃ t ≠ [], t <+: ahead ∧ t ∈ Pattern.token) →
    ∃ kind, lexeme = .token kind ∧ Text.IsLongest Pattern.token ahead kind.written ∧
      ∀ kind', TokenKind.Matches kind.written kind' ↔ kind' = kind
  unrecognized : (¬∃ t ≠ [], t <+: ahead ∧ t ∈ Pattern.token) →
    ∃ c cs, ahead = c :: cs ∧
      if c = '\x60' then
        ∃ run, lexeme = .unrecognized (c :: run) ∧
          Text.IsLongest (Pattern.oneOf Text.isQuotable)∗ cs run
      else lexeme = .unrecognized [c]

variable {ahead rest t text : Text} {lexeme : Lexeme} {kind : TokenKind}

/-- A token that is read in front of a text is scanned there, since it begins with no blank. -/
theorem scan?_of_token? (h : (kind.written ++ rest).token? = some (kind, rest)) :
    scan? (kind.written ++ rest) = some (.token kind, rest) := by
  rw [← Text.dropBlanks_of_token? h]
  exact Text.token?_eq_some_iff.1 h

/-- Where a token stands, one at least as long is read. -/
theorem exists_scan?_written (h : kind.WellFormed) (rest : Text) :
    ∃ kind' rest', scan? (kind.written ++ rest) = some (.token kind', rest') ∧
      kind.written.length ≤ kind'.written.length := by
  cases kind with
  | symbol s =>
    -- only two symbols are the beginning of a longer one
    by_cases hequal : s = .equal ∧ ∃ cs, rest = '~' :: cs
    · obtain ⟨rfl, cs, rfl⟩ := hequal
      exact ⟨.symbol .regexMatch, cs, rfl, by decide⟩
    by_cases hless : s = .less ∧ ∃ cs, rest = '>' :: cs
    · obtain ⟨rfl, cs, rfl⟩ := hless
      exact ⟨.symbol .notEqual, cs, rfl, by decide⟩
    refine ⟨.symbol s, rest, scan?_of_token? (Text.token?_symbol ?_ ?_), Nat.le_refl _⟩
    · rintro hs c cs rfl
      exact decide_eq_false fun hc => hequal ⟨hs, cs, by rw [hc]⟩
    · rintro hs c cs rfl
      exact decide_eq_false fun hc => hless ⟨hs, cs, by rw [hc]⟩
  | number text =>
    obtain ⟨c, cs, rfl, hc⟩ := Text.exists_digit_of_isNumeral h
    refine ⟨.number (Text.splitNumeral (c :: cs ++ rest)).1,
      (Text.splitNumeral (c :: cs ++ rest)).2, ?_, Text.length_le_splitNumeral h rest⟩
    simp only [TokenKind.written, List.cons_append, scan?, Text.isAlpha_eq_false_of_isDigit hc, hc,
      Bool.false_eq_true, if_false, if_true]
  | identifier name =>
    cases name with
    | nil => cases h
    | cons c cs =>
      obtain ⟨hc, hcs⟩ := Bool.and_eq_true_iff.1 h
      have hle := Text.length_le_takeWhile hcs rest
      refine ⟨.identifier (c :: (cs ++ rest).takeWhile Char.isAlphanum),
        (cs ++ rest).dropWhile Char.isAlphanum, ?_, ?_⟩
      · simp only [TokenKind.written, List.cons_append, scan?, hc, if_true]
      · simpa [TokenKind.written] using hle
  | quoted text => exact ⟨.quoted text, rest, scan?_of_token? (Text.token?_quoted h), Nat.le_refl _⟩

/-- No token at the front of a text is longer than what is read. -/
theorem exists_token_of_scan? (h : scan? ahead = some (lexeme, rest)) (hfront : t <+: ahead)
    (hmem : t ∈ Pattern.token) : ∃ kind, lexeme = .token kind ∧ t.length ≤ kind.written.length := by
  obtain ⟨kind, hmatches⟩ := hmem
  obtain ⟨hkind, rfl⟩ := TokenKind.matches_iff.1 hmatches
  obtain ⟨behind, rfl⟩ := hfront
  obtain ⟨kind', rest', hscan, hle⟩ := exists_scan?_written hkind behind
  rw [hscan] at h
  cases h
  exact ⟨kind', rfl, hle⟩

/-- What is taken where no token is read. -/
theorem unrecognized_of_scan? (h : scan? ahead = some (.unrecognized text, rest)) :
    ∃ c cs, ahead = c :: cs ∧
      if c = '\x60' then text = c :: cs.takeWhile Text.isQuotable else text = [c] := by
  cases ahead with
  | nil => cases h
  | cons c cs =>
    refine ⟨c, cs, rfl, ?_⟩
    simp only [scan?] at h
    split at h
    · cases h
    split at h
    · cases h
    split at h
    · rename_i hc
      simp only [Option.some.injEq, scanQuotation] at h
      split at h
      · cases h
      · cases h
        rw [if_pos hc, hc]
    · rename_i hc
      rw [if_neg hc]
      split at h <;> cases h
      rfl

theorem isLongestMatch_of_scan? (h : scan? ahead = some (lexeme, rest)) :
    lexeme.IsLongestMatch ahead := by
  obtain ⟨hahead, hne⟩ := scan?_eq_some h
  have hfront : lexeme.written <+: ahead := ⟨rest, hahead.symm⟩
  have hmem : ∀ kind, lexeme = .token kind → kind.written ∈ Pattern.token := by
    rintro kind rfl
    exact ⟨kind, TokenKind.matches_iff.2 ⟨TokenKind.wellFormed_of_scan? h, rfl⟩⟩
  constructor
  · rintro ⟨t, -, ht, htoken⟩
    obtain ⟨kind, rfl, -⟩ := exists_token_of_scan? h ht htoken
    have hkind := TokenKind.wellFormed_of_scan? h
    refine ⟨kind, rfl, ⟨hfront, hmem kind rfl, ?_⟩, fun kind' => hkind.matches_written_iff⟩
    intro t' ht' htoken'
    obtain ⟨kind', heq, hle⟩ := exists_token_of_scan? h ht' htoken'
    cases heq
    exact hle
  · intro hnone
    cases lexeme with
    | token kind => exact absurd ⟨kind.written, hne, hfront, hmem kind rfl⟩ hnone
    | unrecognized text =>
      obtain ⟨c, cs, rfl, htext⟩ := unrecognized_of_scan? h
      refine ⟨c, cs, rfl, ?_⟩
      by_cases hc : c = '\x60'
      · rw [if_pos hc] at htext ⊢
        exact ⟨_, by rw [htext], Text.isLongest_takeWhile _ cs⟩
      · rw [if_neg hc] at htext ⊢
        rw [htext]

end Lexeme

namespace Cursor

variable {source : Text} {c : Cursor} {item : Item}

/-- Every item that is read, from wherever in a text, is the longest match at its place. -/
theorem isLongestMatch_of_mem_items {offset : Nat} (h : at? source offset = some c)
    (hitem : item ∈ c.items) :
    ∃ before ahead, source = before ++ ahead ∧ Text.NotNext Text.isBlank ahead ∧
      item.span = ⟨before.byteSize, before.byteSize + item.lexeme.written.byteSize⟩ ∧
      item.lexeme.IsLongestMatch ahead := by
  obtain ⟨d, after, hd, hnext⟩ := (isIn_of_at? h).exists_next? hitem
  obtain ⟨before, hsource, hoffset⟩ := hd.skipBlanks
  obtain ⟨-, -, hspan, hafter⟩ := next?_eq_some hnext
  refine ⟨before, d.skipBlanks.rest, hsource, Text.notNext_dropWhile _ d.rest, ?_,
    Lexeme.isLongestMatch_of_scan? (scan?_of_next? hnext)⟩
  rw [hspan, hafter, hoffset]

/-- An exponent without digits is not part of the number before it. -/
theorem isLongestMatch_of_mem_items_mark :
    let source : Text := "x 1.5e+".toList
    let item : Item := ⟨.token (.number "1.5".toList), ⟨2, 5⟩⟩
    ∃ c, at? source 1 = some c ∧ item ∈ c.items ∧
      ∃ before ahead, source = before ++ ahead ∧ Text.NotNext Text.isBlank ahead ∧
        item.span = ⟨before.byteSize, before.byteSize + item.lexeme.written.byteSize⟩ ∧
        item.lexeme.IsLongestMatch ahead := by
  intro source item
  have hat : at? source 1 = some ⟨1, " 1.5e+".toList⟩ := rfl
  have hitem : item ∈ items ⟨1, " 1.5e+".toList⟩ := by
    rw [items_eq_cons rfl]
    exact List.mem_cons_self
  exact ⟨_, hat, hitem, isLongestMatch_of_mem_items hat hitem⟩

end Cursor

end Cypher
