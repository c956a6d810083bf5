/-
  Rewriting — one text is another one, written canonically.

  * `TokenKind.RenderedAs`: a token is written as it came, a keyword in capitals, or a
    name in back-ticks;
  * `Rewrites t x`: the text `x` has the tokens of `t` up to their end, each written
    canonically, and the verbatim expressions of `t`;
  * `Rewrites.not_endsCase`: a text without the word `END` is not written as one with it;
  * `Rewrites.forall₂_tokens`: without verbatim expressions, the tokens of both correspond
    one to one.
-/
import Cypher.Proofs.ReadBack
import Cypher.Token.Lexed
import Mathlib.Data.List.Forall2

namespace Cypher

/-! ## Tokens -/

/-- The words that are written in capitals where they are no names. -/
def capitalWords : List Text :=
  [Keyword.match_, .optional, .where_, .return_, .as_, .distinct].map Keyword.written ++
    [Operator.in_, .and_, .or_].map Operator.written

/-- The token is written as the other one in canonical text. -/
inductive TokenKind.RenderedAs : TokenKind → TokenKind → Prop
  | same (kind : TokenKind) : RenderedAs kind kind
  | capitals {word : Text} : (∃ w ∈ capitalWords, word.eqIgnoringCase w = true) →
      RenderedAs (.identifier word) (.identifier (word.map Char.toUpper))
  | quoted (word : Text) : RenderedAs (.identifier word) (.quoted word)

theorem map_toUpper_of_capital {word w : Text} (hw : w ∈ capitalWords)
    (h : word.eqIgnoringCase w = true) : word.map Char.toUpper = w := by
  have hupper : ∀ w ∈ capitalWords, w.map Char.toUpper = w := by decide
  rw [Text.map_toUpper_eq_of_lower_eq (Text.eqIgnoringCase_iff.1 h), hupper w hw]

theorem ne_end_of_capital {w : Text} (hw : w ∈ capitalWords) :
    w.eqIgnoringCase Keyword.end_.written = false := by
  revert w
  decide

theorem TokenKind.renderedAs_capitals {word w : Text} (hw : w ∈ capitalWords)
    (h : word.eqIgnoringCase w = true) : RenderedAs (.identifier word) (.identifier w) := by
  rw [← map_toUpper_of_capital hw h]
  exact .capitals ⟨w, hw, h⟩

/-- The first character of a token is an ASCII character. -/
theorem TokenKind.ascii_of_written {kind : TokenKind} (h : kind.WellFormed) {c : Char} {cs : Text}
    (hwritten : kind.written = c :: cs) : c.toNat < 0x80 := by
  have hascii : ∀ {d : Char}, d.isAlphanum = true → d.toNat < 0x80 := fun hd => by
    rw [Text.isAlphanum_iff_toNat] at hd
    omega
  cases kind with
  | symbol s => cases s <;> cases hwritten <;> decide
  | number text =>
    obtain ⟨d, ds, rfl, hd⟩ := Text.exists_digit_of_isNumeral h
    cases hwritten
    exact hascii (Text.isAlphanum_of_isDigit hd)
  | identifier name =>
    have hall := Text.isName_all h
    rw [show name = c :: cs from hwritten, List.all_cons, Bool.and_eq_true] at hall
    exact hascii hall.1
  | quoted text => cases hwritten; decide

/-- Where a token comes next, no other alphanumeric characters do than ASCII ones. -/
theorem Text.notNext_isAlphanumeric_of_token? {t rest : Text} {kind : TokenKind}
    (h : t.token? = some (kind, rest)) (ht : NotNext Char.isAlphanum t) :
    NotNext isAlphanumeric t := by
  rintro c cs rfl
  by_cases hblank : isBlank c = true
  · exact isAlphanumeric_eq_false_of_isBlank hblank
  · have hdrop := dropBlanks_of_token? h
    rw [dropBlanks_cons_of_not _ (by simpa using hblank)] at hdrop
    cases hwritten : kind.written with
    | nil => exact absurd hwritten (written_ne_nil_of_token? h)
    | cons d ds =>
      rw [hwritten] at hdrop
      cases hdrop
      rw [isAlphanumeric_of_ascii (TokenKind.ascii_of_written (wellFormed_of_token? h) hwritten)]
      exact notNext_cons.1 ht

theorem Text.notNext_isAlphanumeric_of_dropBlanks {t : Text} (h : t.dropBlanks = []) :
    NotNext isAlphanumeric t := by
  rintro c cs rfl
  exact isAlphanumeric_eq_false_of_isBlank (List.dropWhile_eq_nil_iff.1 h c (by simp))

/-! ## Texts -/

/-- The text `x` is `t` written canonically, up to the end of both. -/
inductive Rewrites : Text → Text → Prop
  /-- Nothing is left but blanks -/
  | done {t x : Text} : t.dropBlanks = [] → x.dropBlanks = [] → Rewrites t x
  /-- A token, which is not followed by the word `END` if it is a number -/
  | token {t x u y : Text} {kind kind' : TokenKind} : t.token? = some (kind, u) →
      x.token? = some (kind', y) → kind.RenderedAs kind' →
      (∀ text, kind = .number text → ∀ v, ¬Production.KeywordAt .end_ u v) → Rewrites u y →
      Rewrites t x
  /-- A verbatim expression -/
  | case_ {t x u y word before ending : Text} : t.token? = some (.identifier word, u) →
      word.eqIgnoringCase Keyword.case_.written = true →
      Text.splitAtWord? Keyword.end_.written u = some (before, ending) →
      x.token? =
        some (.identifier word, before ++ (ending.take Keyword.end_.written.length ++ y)) →
      Rewrites (ending.drop Keyword.end_.written.length) y → Rewrites t x

namespace Rewrites

open Production

theorem sameAhead {t x y : Text} (h : Rewrites t x) (hx : y.SameAhead x) : Rewrites t y := by
  cases h with
  | done ht hxnil => exact .done ht (hx.trans hxnil)
  | token ht htok hkind hnumber hrest =>
    exact .token ht (hx.token?.trans htok) hkind hnumber hrest
  | case_ ht hword hsplit htok hrest => exact .case_ ht hword hsplit (hx.token?.trans htok) hrest

theorem space {t x : Text} (h : Rewrites t x) : Rewrites t (' ' :: x) :=
  h.sameAhead (Text.sameAhead_space x).symm

theorem notNext_left {t x : Text} (h : Rewrites t x) (ht : Text.NotNext Char.isAlphanum t) :
    Text.NotNext Text.isAlphanumeric t := by
  cases h with
  | done hnil => exact Text.notNext_isAlphanumeric_of_dropBlanks hnil
  | token htok => exact Text.notNext_isAlphanumeric_of_token? htok ht
  | case_ htok => exact Text.notNext_isAlphanumeric_of_token? htok ht

theorem notNext_right {t x : Text} (h : Rewrites t x) (hx : Text.NotNext Char.isAlphanum x) :
    Text.NotNext Text.isAlphanumeric x := by
  cases h with
  | done _ hnil => exact Text.notNext_isAlphanumeric_of_dropBlanks hnil
  | token _ htok => exact Text.notNext_isAlphanumeric_of_token? htok hx
  | case_ _ _ _ htok => exact Text.notNext_isAlphanumeric_of_token? htok hx

/-! ## The word `END` -/

theorem endsCase_iff {t : Text} :
    endsCase t ↔ Text.holdsWord Keyword.end_.written false t = true :=
  Iff.rfl

theorem endsCase_of_token? {t u : Text} {kind : TokenKind} (h : t.token? = some (kind, u)) :
    endsCase t ↔ endsCase (kind.written ++ u) := by
  rw [endsCase_iff, ← Text.holdsWord_dropBlanks (Text.isWord_written .end_),
    Text.dropBlanks_of_token? h, endsCase_iff]

theorem all_isAlphanumeric_of_identifier {t u name : Text}
    (h : t.token? = some (.identifier name, u)) : name.all Text.isAlphanumeric = true := by
  have hall := Text.isName_all (Text.wellFormed_of_token? h)
  rw [List.all_eq_true] at hall ⊢
  exact fun c hc => Text.isAlphanumeric_of_isAlphanum (hall c hc)

theorem endsCase_identifier {t u name : Text} (h : t.token? = some (.identifier name, u))
    (hu : Text.NotNext Text.isAlphanumeric u) :
    endsCase t ↔ name.eqIgnoringCase Keyword.end_.written = true ∨ endsCase u := by
  rw [endsCase_of_token? h, endsCase_iff, TokenKind.written, Text.holdsWord_name_append
    (Text.isWord_written .end_)
    (all_isAlphanumeric_of_identifier h) hu, Bool.or_eq_true, endsCase_iff]

theorem endsCase_symbol {t u : Text} {s : Symbol} (h : t.token? = some (.symbol s, u)) :
    endsCase t ↔ endsCase u := by
  have hascii : (s.written.all fun c => c.toNat < 0x80 && !c.isAlphanum) = true := by
    cases s <;> rfl
  have hchars : ∀ c ∈ s.written, Text.isAlphanumeric c = false := by
    intro c hc
    have hc' := List.all_eq_true.1 hascii c hc
    simp only [Bool.and_eq_true, decide_eq_true_eq, Bool.not_eq_true'] at hc'
    rw [Text.isAlphanumeric_of_ascii hc'.1]
    exact hc'.2
  rw [endsCase_of_token? h, endsCase_iff, TokenKind.written, Text.holdsWord_separators
    (Text.isWord_written .end_) hchars, endsCase_iff]

theorem endsCase_quoted {t u text : Text} (h : t.token? = some (.quoted text, u)) :
    endsCase t ↔ Text.holdsWord Keyword.end_.written false (text ++ ['\x60']) = true ∨
      endsCase u := by
  rw [endsCase_of_token? h, endsCase_iff, TokenKind.written, Text.holdsWord_inBackTicks_append
    (Text.isWord_written .end_), Bool.or_eq_true, endsCase_iff]

theorem endsCase_number {t u text : Text} (h : t.token? = some (.number text, u)) :
    endsCase t ↔ Text.holdsWord Keyword.end_.written true u = true := by
  rw [endsCase_of_token? h, endsCase_iff, TokenKind.written,
    Text.holdsWord_end_numeral_append (Text.wellFormed_of_token? h)]

/-- A name in back-ticks holds the word `END` only if it is the name. -/
theorem eqIgnoringCase_of_holdsWord_quoted {t u name : Text}
    (h : t.token? = some (.identifier name, u))
    (hend : Text.holdsWord Keyword.end_.written false (name ++ ['\x60']) = true) :
    name.eqIgnoringCase Keyword.end_.written = true := by
  have htick : Text.isAlphanumeric '\x60' = false := by
    rw [Text.isAlphanumeric_of_ascii] <;> decide
  rw [Text.holdsWord_name_append (Text.isWord_written .end_)
    (all_isAlphanumeric_of_identifier h) (Text.notNext_cons.2 htick), Bool.or_eq_true,
    Text.holdsWord_separator (Text.isWord_written .end_) htick]
    at hend
  exact hend.resolve_right (by simp)

/-- A verbatim expression holds the word `END`. -/
theorem endsCase_of_case {t u word : Text} (h : t.token? = some (.identifier word, u))
    (hend : endsCase u) : endsCase t := by
  have hnext := Text.notNext_of_identifier h
  rw [endsCase_of_token? h, endsCase_iff, TokenKind.written, Text.holdsWord_false_eq
    (Text.isWord_written .end_), Text.holdsWord_true_append u
    (all_isAlphanumeric_of_identifier h), Text.holdsWord_eq_of_notNext
    (Text.isWord_written .end_) hnext, Bool.or_eq_true]
  exact Or.inr hend

/-- A text without the word `END` is not written as one with it. -/
theorem endsCase_of_endsCase {t x : Text} (h : Rewrites t x) (hx : endsCase x) : endsCase t := by
  induction h with
  | done _ hnil =>
    rw [endsCase_iff, ← Text.holdsWord_dropBlanks (Text.isWord_written .end_), hnil] at hx
    cases hx
  | @token t x u y kind kind' ht hxtok hkind hnumber hrest ih =>
    cases hkind with
    | @capitals word hword =>
      obtain ⟨w, hw, hword⟩ := hword
      have hu := hrest.notNext_left (Text.notNext_of_identifier ht)
      have hy := hrest.notNext_right (Text.notNext_of_identifier hxtok)
      rw [endsCase_identifier hxtok hy, map_toUpper_of_capital hw hword, ne_end_of_capital hw] at hx
      exact (endsCase_identifier ht hu).2 (Or.inr (ih (hx.resolve_left (by simp))))
    | quoted word =>
      have hu := hrest.notNext_left (Text.notNext_of_identifier ht)
      exact (endsCase_identifier ht hu).2 (((endsCase_quoted hxtok).1 hx).imp
        (eqIgnoringCase_of_holdsWord_quoted ht) ih)
    | same =>
      cases kind with
      | symbol s => exact (endsCase_symbol ht).2 (ih ((endsCase_symbol hxtok).1 hx))
      | quoted text => exact (endsCase_quoted ht).2 (((endsCase_quoted hxtok).1 hx).imp_right ih)
      | identifier name =>
        have hu := hrest.notNext_left (Text.notNext_of_identifier ht)
        have hy := hrest.notNext_right (Text.notNext_of_identifier hxtok)
        exact (endsCase_identifier ht hu).2 (((endsCase_identifier hxtok hy).1 hx).imp_right ih)
      | number text =>
        -- the word `END` directly after a number would not be whole
        have hy : endsCase y := by
          rw [endsCase_iff, Text.holdsWord_false_eq (Text.isWord_written .end_),
            (endsCase_number hxtok).1 hx, Bool.or_true]
        have hu := ih hy
        rw [endsCase_iff, Text.holdsWord_false_eq (Text.isWord_written .end_),
          Bool.or_eq_true] at hu
        refine (endsCase_number ht).2 (hu.resolve_left fun hstarts => ?_)
        obtain ⟨v, hv⟩ := keywordAt_of_startsWord hstarts
        exact hnumber text rfl v hv
  | case_ ht _ hsplit _ _ _ => exact endsCase_of_case ht (by rw [endsCase, hsplit]; rfl)

end Rewrites

/-! ## Lists of tokens -/

theorem Cursor.lexed_of_dropBlanks {c : Cursor} (h : c.rest.dropBlanks = []) :
    c.lexed = ⟨[], []⟩ := by
  have hnone : c.next? = none := by
    simp [next?, skipBlanks, advance, h, Lexeme.scan?]
  simp [lexed, items_eq_nil hnone]

theorem Cursor.lexed_of_token? {c : Cursor} {kind : TokenKind} {u : Text}
    (h : c.rest.token? = some (kind, u)) : ∃ span after, Cursor.rest after = u ∧
      c.lexed = ⟨⟨kind, span⟩ :: after.lexed.tokens, after.lexed.errors⟩ := by
  have hnext : ∃ span after, c.next? = some (⟨.token kind, span⟩, after) ∧ after.rest = u := by
    simp [next?, skipBlanks, advance, Text.token?_eq_some_iff.1 h]
  obtain ⟨span, after, hnext, hrest⟩ := hnext
  exact ⟨span, after, hrest, by rw [lexed, items_eq_cons hnext]; rfl⟩

/-- Where no word `CASE` stands, the tokens are those of the canonical text, one by one. -/
theorem Rewrites.forall₂_tokens {t x : Text} (h : Rewrites t x) {c d : Cursor} (hc : c.rest = t)
    (hd : d.rest = x)
    (hcase : ∀ token ∈ c.lexed.tokens, token.kind.isWord Keyword.case_.written = false) :
    c.lexed.errors = [] ∧ d.lexed.errors = [] ∧
      List.Forall₂ (fun a b => a.kind.RenderedAs b.kind) c.lexed.tokens d.lexed.tokens := by
  induction h generalizing c d with
  | done ht hx =>
    rw [Cursor.lexed_of_dropBlanks (hc ▸ ht), Cursor.lexed_of_dropBlanks (hd ▸ hx)]
    exact ⟨rfl, rfl, .nil⟩
  | token ht hx hkind _ _ ih =>
    obtain ⟨span, c', hc', hlexed⟩ := Cursor.lexed_of_token? (hc ▸ ht)
    obtain ⟨span', d', hd', hlexed'⟩ := Cursor.lexed_of_token? (hd ▸ hx)
    rw [hlexed, List.forall_mem_cons] at hcase
    obtain ⟨herrors, herrors', htokens⟩ := ih hc' hd' hcase.2
    rw [hlexed, hlexed']
    exact ⟨herrors, herrors', .cons hkind htokens⟩
  | case_ ht hword =>
    obtain ⟨span, c', -, hlexed⟩ := Cursor.lexed_of_token? (hc ▸ ht)
    rw [hlexed, List.forall_mem_cons] at hcase
    have hno : Text.eqIgnoringCase _ Keyword.case_.written = false := hcase.1
    rw [hword] at hno
    cases hno

end Cypher
