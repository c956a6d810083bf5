/-
  Scanning — the first lexeme of a text.

  `Lexeme.scan?` takes the longest token at the front of a text. Where no token
  matches, the lexeme is the one character found there, except that an
  unfinished quotation is taken with all the characters it could hold.

  * `Lexeme.scan?_eq_some`: the lexeme, as written, and the rest make up the
    text, and the lexeme is not empty.
-/
import Cypher.Token.Numeral
import Cypher.Token.Basic

namespace Cypher

/-- Characters that may stand between back-ticks: ASCII letters and digits,
    blanks and the Cyrillic block. -/
def Text.isQuotable (c : Char) : Bool :=
  c.isAlphanum || isBlank c || (0x400 ≤ c.toNat && c.toNat ≤ 0x4FF)

/-- The symbol that consists of this one character. -/
def Symbol.ofChar? : Char → Option Symbol
  | '(' => some leftParen
  | ')' => some rightParen
  | '[' => some leftBracket
  | ']' => some rightBracket
  | '\x7b' => some leftBrace
  | '\x7d' => some rightBrace
  | ',' => some comma
  | '.' => some dot
  | ':' => some colon
  | '*' => some star
  | '=' => some equal
  | '<' => some less
  | '>' => some greater
  | '|' => some pipe
  | '+' => some plus
  | '-' => some minus
  | '/' => some slash
  | _ => none

/-- The longest symbol at the front of a text, and the rest. -/
def Symbol.scan? : Text → Option (Symbol × Text)
  | '=' :: '~' :: rest => some (regexMatch, rest)
  | '<' :: '>' :: rest => some (notEqual, rest)
  | c :: rest => (ofChar? c).map fun s => (s, rest)
  | [] => none

/-- The quotation after an opening back-tick, and the rest. -/
def Lexeme.scanQuotation (t : Text) : Lexeme × Text :=
  let inside := t.takeWhile Text.isQuotable
  match t.dropWhile Text.isQuotable with
  | '\x60' :: rest => (.token (.quoted inside), rest)
  | rest => (.unrecognized ('\x60' :: inside), rest)

/-- The lexeme at the front of a text and the rest; nothing at the end of the
    text. A leading blank is no lexeme: it counts as unrecognized. -/
def Lexeme.scan? : Text → Option (Lexeme × Text)
  | [] => none
  | c :: cs =>
    if c.isAlpha then
      some (.token (.identifier (c :: cs.takeWhile Char.isAlphanum)), cs.dropWhile Char.isAlphanum)
    else if c.isDigit then
      let (numeral, rest) := Text.splitNumeral (c :: cs)
      some (.token (.number numeral), rest)
    else if c = '\x60' then
      some (scanQuotation cs)
    else match Symbol.scan? (c :: cs) with
      | some (symbol, rest) => some (.token (.symbol symbol), rest)
      | none => some (.unrecognized [c], cs)

/-! ## Laws -/

theorem Symbol.written_of_ofChar? {c : Char} {s : Symbol} (h : ofChar? c = some s) :
    s.written = [c] := by
  unfold ofChar? at h
  split at h <;> simp_all [written] <;> subst h <;> rfl

theorem Symbol.scan?_eq_some {t : Text} {s : Symbol} {rest : Text}
    (h : scan? t = some (s, rest)) : t = s.written ++ rest := by
  unfold scan? at h
  split at h
  · simp only [Option.some.injEq, Prod.mk.injEq] at h
    obtain ⟨rfl, rfl⟩ := h
    rfl
  · simp only [Option.some.injEq, Prod.mk.injEq] at h
    obtain ⟨rfl, rfl⟩ := h
    rfl
  · simp only [Option.map_eq_some_iff, Prod.mk.injEq] at h
    obtain ⟨s', hs, rfl, rfl⟩ := h
    simp [written_of_ofChar? hs]
  · simp at h

theorem Lexeme.scanQuotation_append (t : Text) :
    (scanQuotation t).1.written ++ (scanQuotation t).2 = '\x60' :: t := by
  have split_t : t.takeWhile Text.isQuotable ++ t.dropWhile Text.isQuotable = t :=
    List.takeWhile_append_dropWhile
  unfold scanQuotation
  split
  · rename_i h
    rw [h] at split_t
    simp [written, TokenKind.written, Text.inBackTicks, split_t]
  · simp [written, split_t]

theorem Lexeme.scanQuotation_ne_nil (t : Text) : (scanQuotation t).1.written ≠ [] := by
  unfold scanQuotation
  split <;> simp [written, TokenKind.written, Text.inBackTicks]

/-- Scanning loses no character and always makes progress. -/
theorem Lexeme.scan?_eq_some {t : Text} {lexeme : Lexeme} {rest : Text}
    (h : scan? t = some (lexeme, rest)) : t = lexeme.written ++ rest ∧ lexeme.written ≠ [] := by
  cases t with
  | nil => simp [scan?] at h
  | cons c cs =>
    simp only [scan?] at h
    split at h
    · simp only [Option.some.injEq, Prod.mk.injEq] at h
      obtain ⟨rfl, rfl⟩ := h
      simp [written, TokenKind.written, List.takeWhile_append_dropWhile]
    split at h
    · rename_i hc
      simp only [Option.some.injEq, Prod.mk.injEq] at h
      obtain ⟨rfl, rfl⟩ := h
      exact ⟨(Text.splitNumeral_append _).symm, Text.splitNumeral_ne_nil cs hc⟩
    split at h
    · rename_i hc
      simp only [Option.some.injEq] at h
      have happ := scanQuotation_append cs
      have hne := scanQuotation_ne_nil cs
      simp only [h, ← hc] at happ hne
      exact ⟨happ.symm, hne⟩
    split at h
    · rename_i hs
      simp only [Option.some.injEq, Prod.mk.injEq] at h
      obtain ⟨rfl, rfl⟩ := h
      exact ⟨Symbol.scan?_eq_some hs, Symbol.written_ne_nil _⟩
    · simp only [Option.some.injEq, Prod.mk.injEq] at h
      obtain ⟨rfl, rfl⟩ := h
      simp [written]

/-- Only the empty text has no lexeme. -/
theorem Lexeme.scan?_eq_none_iff {t : Text} : scan? t = none ↔ t = [] := by
  cases t with
  | nil => simp [scan?]
  | cons c cs =>
    simp only [scan?, reduceCtorEq, iff_false]
    split <;> try simp
    split <;> try simp
    split <;> try simp
    split <;> simp

end Cypher
