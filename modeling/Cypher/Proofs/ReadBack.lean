/-
  Reading back — when a production reads a value off a text that begins with it.

  * `Production.ReadsBack p x a rest c`: wherever `x` is ahead, up to blanks, the value
    `a` is read and `rest` is left ahead, exactly if `c` holds;
  * `ReadsBack.link`, `ReadsBack.many_cons`, `ReadsBack.chain_cons` and so on: one rule for
    each way in which productions are combined;
  * `EndsOperand`, `EndsExpression`: what must not follow an operand or an expression, so
    that no more is read than was written.
-/
import Cypher.Proofs.Shape

namespace Cypher

/-! ## Texts up to blanks -/

/-- The texts differ at most by blanks in front. -/
def Text.SameAhead (t x : Text) : Prop :=
  t.dropBlanks = x.dropBlanks

theorem Text.SameAhead.refl (t : Text) : t.SameAhead t := rfl

theorem Text.SameAhead.token? {t x : Text} (h : t.SameAhead x) : t.token? = x.token? := by
  unfold Text.token?
  rw [h]

theorem Text.sameAhead_space (t : Text) : t.SameAhead (' ' :: t) := rfl

/-- The token is quoted text, or the word `END`. -/
def TokenKind.mayHoldEnd : TokenKind → Bool
  | quoted _ => true
  | identifier word => word.eqIgnoringCase Keyword.end_.written
  | _ => false

namespace Production

variable {α β : Type}

/-- Wherever `x` is ahead, `p` reads `a` and leaves `rest` ahead iff `c` holds. -/
structure ReadsBack (p : Production α) (x : Text) (a : α) (rest : Text) (c : Prop) : Prop where
  reads : c → ∀ {t : Text}, t.SameAhead x → ∃ u, p.outcome t = .matched a u ∧ u.SameAhead rest
  only : ∀ {t u : Text}, t.SameAhead x → p.outcome t = .matched a u → c

namespace ReadsBack

variable {p : Production α} {x y rest : Text} {a : α} {c c' : Prop}

/-- What is left ahead after a match. -/
theorem sameAhead (h : ReadsBack p x a rest c) {t u : Text} (ht : t.SameAhead x)
    (hu : p.outcome t = .matched a u) : u.SameAhead rest := by
  obtain ⟨v, hv, hrest⟩ := h.reads (h.only ht hu) ht
  rw [hu] at hv
  cases hv
  exact hrest

theorem congr (h : ReadsBack p x a rest c) (hc : c ↔ c') : ReadsBack p x a rest c' :=
  ⟨fun h' => h.reads (hc.2 h'), fun ht hu => hc.1 (h.only ht hu)⟩

theorem space (h : ReadsBack p x a rest c) : ReadsBack p (' ' :: x) a rest c :=
  ⟨fun hc _ ht => h.reads hc ht, fun ht hu => h.only ht hu⟩

/-- A production that reads the value under no condition. -/
theorem always
    (h : ∀ {t : Text}, t.SameAhead x → ∃ u, p.outcome t = .matched a u ∧ u.SameAhead rest) :
    ReadsBack p x a rest True :=
  ⟨fun _ _ => h, fun _ _ => trivial⟩

theorem link {separator : Production β} {m : β} (hs : ReadsBack separator x m y c)
    (hp : ReadsBack p y a rest c') : ReadsBack (link separator p) x (m, a) rest (c ∧ c') := by
  constructor
  · rintro ⟨hc, hc'⟩ t ht
    obtain ⟨u, hu, hy⟩ := hs.reads hc ht
    obtain ⟨v, hv, hrest⟩ := hp.reads hc' hy
    exact ⟨v, outcome_link_eq_matched.2 ⟨u, hu, hv⟩, hrest⟩
  · intro t v ht h
    obtain ⟨u, hu, hv⟩ := outcome_link_eq_matched.1 h
    exact ⟨hs.only ht hu, hp.only (hs.sameAhead ht hu) hv⟩

theorem many_nil (hp : p.Advances) (h : ∀ {t : Text}, t.SameAhead x → p.Misses t) :
    ReadsBack (many p) x [] x True :=
  always fun {t} ht => ⟨t, (outcome_many_eq_matched hp).2 (.stop (h ht)), ht⟩

theorem many_cons (hp : p.Advances) {as : List α} (ha : ReadsBack p x a y c)
    (has : ReadsBack (many p) y as rest c') : ReadsBack (many p) x (a :: as) rest (c ∧ c') := by
  constructor
  · rintro ⟨hc, hc'⟩ t ht
    obtain ⟨u, hu, hy⟩ := ha.reads hc ht
    obtain ⟨v, hv, hrest⟩ := has.reads hc' hy
    rw [outcome_many_eq_matched hp] at hv
    exact ⟨v, (outcome_many_eq_matched hp).2 (.step hu hv), hrest⟩
  · intro t v ht h
    rw [outcome_many_eq_matched hp] at h
    cases h with
    | step hu hv =>
      exact ⟨ha.only ht hu, has.only (ha.sameAhead ht hu) ((outcome_many_eq_matched hp).2 hv)⟩

theorem chain_empty (h : ∀ {t : Text}, t.SameAhead x → p.Misses t) :
    ReadsBack (chain p) x .empty x True :=
  always fun {t} ht => ⟨t, outcome_chain_eq_matched.2 (Or.inl ⟨rfl, rfl, h ht⟩), ht⟩

theorem chain_cons {tail : List (Operator × α)} (ha : ReadsBack p x a y c)
    (htail : ReadsBack (many (Production.link operator p)) y tail rest c') :
    ReadsBack (chain p) x (.cons a tail) rest (c ∧ c') := by
  have hlink : (Production.link operator p).Advances := advances_link advances_operator p
  constructor
  · rintro ⟨hc, hc'⟩ t ht
    obtain ⟨u, hu, hy⟩ := ha.reads hc ht
    obtain ⟨v, hv, hrest⟩ := htail.reads hc' hy
    rw [outcome_many_eq_matched hlink] at hv
    exact ⟨v, outcome_chain_eq_matched.2 (Or.inr ⟨a, tail, u, rfl, hu, hv⟩), hrest⟩
  · intro t v ht h
    rcases outcome_chain_eq_matched.1 h with ⟨h, -⟩ | ⟨head, tail', u, h, hu, hv⟩
    · cases h
    · cases h
      exact ⟨ha.only ht hu, htail.only (ha.sameAhead ht hu) ((outcome_many_eq_matched hlink).2 hv)⟩

/-- A list with commas, of which the first item and the others are read back. -/
theorem commaList {isBlank : α → Bool} {as : List α} (hblank : as = [] → isBlank a = false)
    (ha : ReadsBack p x a y c)
    (has : ReadsBack (many (Production.link (symbol .comma) p)) y (as.map fun b => ((), b))
      rest c') :
    ReadsBack (Production.commaList isBlank p) x (a :: as) rest (c ∧ c') := by
  have hlink : (Production.link (symbol .comma) p).Advances := advances_link (advances_symbol _) p
  constructor
  · rintro ⟨hc, hc'⟩ t ht
    obtain ⟨u, hu, hy⟩ := ha.reads hc ht
    obtain ⟨v, hv, hrest⟩ := has.reads hc' hy
    rw [outcome_many_eq_matched hlink] at hv
    refine ⟨v, outcome_commaList_eq_matched.2 (Or.inr ⟨a, _, u, ?_, hu, hv⟩), hrest⟩
    have hsnd : (as.map fun b => ((), b)).map Prod.snd = as := by simp [Function.comp_def]
    rw [hsnd, dropLoneBlank_eq_cons_iff.2 ⟨rfl, hblank⟩]
  · intro t v ht h
    rcases outcome_commaList_eq_matched.1 h with ⟨h, -⟩ | ⟨head, tail, u, h, hu, hv⟩
    · cases h
    · obtain ⟨hcons, -⟩ := dropLoneBlank_eq_cons_iff.1 h.symm
      cases hcons
      have htail : (tail.map Prod.snd).map (fun b => ((), b)) = tail := by
        rw [List.map_map]; exact List.map_id _
      exact ⟨ha.only ht hu, has.only (ha.sameAhead ht hu)
        ((outcome_many_eq_matched hlink).2 (htail.symm ▸ hv))⟩

/-- An optional part that is there. -/
theorem optional_some (h : ReadsBack p x a rest c) : ReadsBack (optional p) x (some a) rest c := by
  constructor
  · intro hc t ht
    obtain ⟨u, hu, hrest⟩ := h.reads hc ht
    exact ⟨u, outcome_optional_eq_matched.2 (Or.inl ⟨a, rfl, hu⟩), hrest⟩
  · intro t u ht hu
    rcases outcome_optional_eq_matched.1 hu with ⟨b, hb, hu⟩ | ⟨hb, -⟩
    · cases hb; exact h.only ht hu
    · cases hb

/-- An optional part that is not there. -/
theorem optional_none (h : ∀ {t : Text}, t.SameAhead x → p.Misses t) :
    ReadsBack (optional p) x none x True :=
  always fun {t} ht => ⟨t, outcome_optional_eq_matched.2 (Or.inr ⟨rfl, rfl, h ht⟩), ht⟩

end ReadsBack

/-! ## Terminals -/

theorem readsBack_symbol {s : Symbol} {rest : Text} (heq : s ≠ .equal) (hless : s ≠ .less) :
    ReadsBack (symbol s) (s.written ++ rest) () rest True := by
  refine .always fun {t} ht => ⟨rest, outcome_symbol_eq_matched.2 ?_, .refl _⟩
  rw [ht.token?]
  exact Text.token?_symbol (fun h => absurd h heq) (fun h => absurd h hless)

theorem readsBack_nameOrQuoted {text rest : Text} (htext : text.isQuotableText = true) :
    ReadsBack nameOrQuoted (text.inBackTicks ++ rest) text rest True := by
  refine .always fun {t} ht => ⟨rest, outcome_nameOrQuoted_eq_matched.2 (Or.inl ?_), .refl _⟩
  rw [ht.token?]
  exact Text.token?_quoted htext

/-- The token with which an operator is written. -/
theorem token?_operator (o : Operator) (rest : Text) :
    ∃ kind, (o.written ++ ' ' :: rest).token? = some (kind, ' ' :: rest) ∧
      Operator.ofToken? kind = some o ∧ kind ≠ .symbol .leftParen ∧ kind ≠ .symbol .dot ∧
      kind.mayHoldEnd = false := by
  cases o <;> exact ⟨_, rfl, rfl, by simp, by simp, rfl⟩

theorem readsBack_operator (o : Operator) (rest : Text) :
    ReadsBack operator (o.written ++ ' ' :: rest) o (' ' :: rest) True := by
  refine .always fun {t} ht => ⟨' ' :: rest, outcome_operator_eq_matched.2 ?_, .refl _⟩
  obtain ⟨kind, hkind, ho, -⟩ := token?_operator o rest
  exact ⟨kind, by rw [ht.token?, hkind], ho⟩

/-! ## What follows an operand -/

/-- A character that a name or a number may go on with, or a property. -/
def goesOnOperand (c : Char) : Bool :=
  Text.isAlphanumeric c || c = '.'

/-- Nothing ahead belongs to an operand that has just been read, or holds the word
    `END` as its next token. -/
structure EndsOperand (rest : Text) : Prop where
  separated : Text.NotNext goesOnOperand rest
  no_call : ∀ u, rest.token? ≠ some (.symbol .leftParen, u)
  no_property : ∀ u, rest.token? ≠ some (.symbol .dot, u)
  no_end : ∀ kind u, rest.token? = some (kind, u) → kind.mayHoldEnd = false

/-- Nothing ahead belongs to an expression that has just been read. -/
structure EndsExpression (rest : Text) : Prop extends EndsOperand rest where
  no_operator : ∀ kind u, rest.token? = some (kind, u) → Operator.ofToken? kind = none

theorem EndsOperand.notNext_isAlphanumeric {rest : Text} (h : EndsOperand rest) :
    Text.NotNext Text.isAlphanumeric rest := by
  intro c cs hcs
  have := h.separated c cs hcs
  simp only [goesOnOperand, Bool.or_eq_false_iff] at this
  exact this.1

theorem EndsOperand.notNext_isAlphanum {rest : Text} (h : EndsOperand rest) :
    Text.NotNext Char.isAlphanum rest :=
  h.notNext_isAlphanumeric.isAlphanum

theorem EndsOperand.notNext_goesOnNumeral {rest : Text} (h : EndsOperand rest) :
    Text.NotNext Text.goesOnNumeral rest := by
  intro c cs hcs
  have hsep := h.separated c cs hcs
  have halnum := h.notNext_isAlphanum c cs hcs
  simp only [goesOnOperand, Bool.or_eq_false_iff, decide_eq_false_iff_not] at hsep
  simp only [Text.goesOnNumeral, Bool.or_eq_false_iff, decide_eq_false_iff_not]
  refine ⟨⟨⟨?_, hsep.2⟩, ?_⟩, ?_⟩
  · by_contra hd
    rw [Text.isAlphanum_of_isDigit (by simpa using hd)] at halnum
    cases halnum
  · rintro rfl; cases halnum
  · rintro rfl; cases halnum

theorem goesOnOperand_of_ascii {c : Char} (h : c.toNat < 0x80) :
    goesOnOperand c = (c.isAlphanum || c = '.') := by
  rw [goesOnOperand, Text.isAlphanumeric_of_ascii h]

/-- A closing bracket or a comma ends an expression. -/
theorem endsExpression_closing {c : Char} (hc : c ∈ [')', ']', ',']) (rest : Text) :
    EndsExpression (c :: rest) := by
  simp only [List.mem_cons, List.not_mem_nil, or_false] at hc
  rcases hc with rfl | rfl | rfl <;> exact {
    separated := Text.notNext_cons.2 (by rw [goesOnOperand_of_ascii] <;> decide)
    no_call := fun _ h => by cases h
    no_property := fun _ h => by cases h
    no_end := fun _ _ h => by cases h; rfl
    no_operator := fun _ _ h => by cases h; rfl }

theorem endsExpression_nil : EndsExpression [] where
  separated := Text.notNext_nil _
  no_call _ h := by cases h
  no_property _ h := by cases h
  no_end _ _ h := by cases h
  no_operator _ _ h := by cases h

theorem endsOperand_operator (o : Operator) (rest : Text) :
    EndsOperand (' ' :: o.written ++ ' ' :: rest) := by
  obtain ⟨kind, hkind, -, hparen, hdot, hend⟩ := token?_operator o rest
  have htok : Text.token? (' ' :: o.written ++ ' ' :: rest) = some (kind, ' ' :: rest) := hkind
  refine ⟨Text.notNext_cons.2 (by rw [goesOnOperand_of_ascii] <;> decide), fun u h => ?_,
    fun u h => ?_, fun kind u h => ?_⟩
  · rw [htok] at h; cases h; exact hparen rfl
  · rw [htok] at h; cases h; exact hdot rfl
  · rw [htok] at h; cases h; exact hend

theorem isName_written (k : Keyword) : k.written.isName = true := by
  cases k <;> rfl

theorem token?_keyword (k : Keyword) {rest : Text} (hrest : Text.NotNext Char.isAlphanum rest) :
    (k.written ++ rest).token? = some (.identifier k.written, rest) :=
  Text.token?_identifier (isName_written k) hrest

theorem keywordAt_written (k : Keyword) {rest : Text} (hrest : Text.NotNext Char.isAlphanum rest) :
    KeywordAt k (k.written ++ rest) rest :=
  ⟨k.written, token?_keyword k hrest, by simp [Text.eqIgnoringCase]⟩

theorem keywordAt_of_startsWord {k : Keyword} {t : Text} (h : Text.startsWord k.written t = true) :
    ∃ u, KeywordAt k t u := by
  obtain ⟨written, rest, rfl, hlower, hrest⟩ := Text.startsWord_iff.1 h
  refine ⟨rest, written, Text.token?_identifier ?_ hrest.isAlphanum,
    Text.eqIgnoringCase_iff.2 hlower⟩
  exact Text.isName_of_lower_eq (Text.isWord_written k) hlower

/-- No keyword is an operator. -/
theorem ofWord?_of_keyword {word : Text} {k : Keyword} (h : word.eqIgnoringCase k.written = true) :
    Operator.ofWord? word = none := by
  rw [Text.eqIgnoringCase_iff] at h
  simp only [Operator.ofWord?, Text.eqIgnoringCase, h]
  cases k <;> decide

theorem endsExpression_keyword {k : Keyword} (hk : k ≠ .end_) {rest : Text}
    (hrest : Text.NotNext Char.isAlphanum rest) : EndsExpression (' ' :: k.written ++ rest) := by
  have htok : Text.token? (' ' :: k.written ++ rest) = some (.identifier k.written, rest) :=
    token?_keyword k hrest
  refine ⟨⟨Text.notNext_cons.2 (by rw [goesOnOperand_of_ascii] <;> decide), fun u h => ?_,
    fun u h => ?_, fun kind u h => ?_⟩, fun kind u h => ?_⟩
  · rw [htok] at h; cases h
  · rw [htok] at h; cases h
  · rw [htok] at h; cases h; cases k <;> first | rfl | exact absurd rfl hk
  · rw [htok] at h; cases h; exact ofWord?_of_keyword (k := k) (by simp [Text.eqIgnoringCase])

end Production

end Cypher
