/-
  Spacing — blanks between tokens change neither the result nor the error.

  Two texts with the same tokens are read in step: at each moment the same number of tokens
  has been read of both. The only blanks that matter are those between the two characters
  of an arrow and after the sign of a number.

  * `InStep t x`: the texts have the same tokens, up to their ends;
  * `Along t x u y`: after the same number of tokens, `u` is left of `t` and `y` of `x`.
    Of two such places the same one is further on in both texts (`Along.byteSize_lt_iff`);
  * `SameNext t x`: the texts begin with the same token, and with the same sign. This is all that
    a production for one token or sign asks for;
  * `Production.InStep`: a production has the same outcome on both texts, and makes the same
    notes at the same places. So does every production that reads tokens
    (`Tokenwise.inStep`);
  * `Query.parse_of_sameKinds`: both texts are read as the same query, or refused with the same
    words.
-/
import Cypher.Proofs.Tokenwise

namespace Cypher

/-! ## Texts in step -/

/-- For neighbours of these kinds it matters whether a blank stands between them. -/
def TokenKind.bindsTo : TokenKind → TokenKind → Bool
  | .symbol .minus, .number _ => true
  | .symbol .less, .symbol .minus => true
  | .symbol .minus, .symbol .greater => true
  | _, _ => false

/-- The texts have the same tokens up to their ends, and no word `CASE`. -/
inductive InStep : Text → Text → Prop
  | done {t x : Text} : t.dropBlanks = [] → x.dropBlanks = [] → InStep t x
  | token {t x u y : Text} {kind : TokenKind} : t.token? = some (kind, u) →
      x.token? = some (kind, y) → kind.isWord Keyword.case_.written = false →
      (∀ next v, u.token? = some (next, v) → kind.bindsTo next = true →
        (u.dropBlanks = u ↔ y.dropBlanks = y)) →
      InStep u y → InStep t x

/-- After the same number of tokens, of the same kinds, `u` is left of `t` and `y` of `x`. -/
inductive Along : Text → Text → Text → Text → Prop
  | refl (t x : Text) : Along t x t x
  | token {t x u y v z : Text} {kind : TokenKind} : t.token? = some (kind, u) →
      x.token? = some (kind, y) → Along u y v z → Along t x v z

theorem Along.trans {t x u y v z : Text} (h : Along t x u y) (h' : Along u y v z) :
    Along t x v z := by
  induction h with
  | refl t x => exact h'
  | token ht hx _ ih => exact .token ht hx (ih h')

theorem along_of_token? {t x u y : Text} {kind : TokenKind} (ht : t.token? = some (kind, u))
    (hx : x.token? = some (kind, y)) : Along t x u y :=
  .token ht hx (.refl u y)

theorem InStep.along {t x u y : Text} (h : InStep t x) (halong : Along t x u y) : InStep u y := by
  induction halong with
  | refl t x => exact h
  | token ht hx _ ih =>
    cases h with
    | done hnil _ => rw [Text.token?, hnil] at ht; cases ht
    | token ht' hx' _ _ hrest =>
      rw [ht] at ht'
      rw [hx] at hx'
      cases ht'
      cases hx'
      exact ih hrest

theorem InStep.keywordAt {t x y : Text} {k : Keyword} (h : InStep t x)
    (hy : Production.KeywordAt k x y) : ∃ u, Production.KeywordAt k t u := by
  obtain ⟨word, hword, hk⟩ := hy
  cases h with
  | done _ hnil => rw [Text.token?, hnil] at hword; cases hword
  | @token t x u y kind ht hx _ _ _ =>
    rw [hx] at hword
    cases hword
    exact ⟨u, word, ht, hk⟩

/-- Of two places, one is reached from the other. -/
theorem Along.total {t x u y v z : Text} (h : Along t x u y) (h' : Along t x v z) :
    Along u y v z ∨ Along v z u y := by
  induction h with
  | refl t x => exact Or.inl h'
  | token ht hx hrest ih =>
    cases h' with
    | refl => exact Or.inr (.token ht hx hrest)
    | token ht' hx' hrest' =>
      rw [ht] at ht'
      rw [hx] at hx'
      cases ht'
      cases hx'
      exact ih hrest'

/-- Both places are the same, or further on in both texts. -/
theorem Along.eq_or_lt {t x u y : Text} (h : Along t x u y) :
    t = u ∧ x = y ∨ u.dropBlanks.byteSize < t.dropBlanks.byteSize ∧
      y.dropBlanks.byteSize < x.dropBlanks.byteSize := by
  induction h with
  | refl t x => exact Or.inl ⟨rfl, rfl⟩
  | @token t x u y v z kind ht hx _ ih =>
    have hu := Text.byteSize_lt_of_token? ht
    have hy := Text.byteSize_lt_of_token? hx
    have hu' := Text.byteSize_dropBlanks_le u
    have hy' := Text.byteSize_dropBlanks_le y
    rcases ih with ⟨rfl, rfl⟩ | ⟨hv, hz⟩ <;> right <;> omega

/-- Of two places, the same one is further on in both texts. -/
theorem Along.byteSize_lt_iff {t x u y v z : Text} (h : Along t x u y) (h' : Along t x v z) :
    u.dropBlanks.byteSize < v.dropBlanks.byteSize ↔
      y.dropBlanks.byteSize < z.dropBlanks.byteSize := by
  rcases h.total h' with hnext | hnext <;> rcases hnext.eq_or_lt with ⟨rfl, rfl⟩ | hlt <;> omega

/-! ## Neighbours -/

/-- Two tokens that may make up one sign do so in both texts, or in none. -/
theorem InStep.adjacent {t x u y : Text} {kind next : TokenKind} (h : InStep t x)
    (ht : t.token? = some (kind, u)) (hx : x.token? = some (kind, y))
    (hbinds : kind.bindsTo next = true) :
    (∃ v z, u.adjacentToken? = some (next, v) ∧ y.adjacentToken? = some (next, z) ∧
      Along u y v z) ∨
    (∀ v, u.adjacentToken? ≠ some (next, v)) ∧ ∀ z, y.adjacentToken? ≠ some (next, z) := by
  cases h with
  | done hnil _ => rw [Text.token?, hnil] at ht; cases ht
  | token ht' hx' _ hblank hrest =>
    rw [ht] at ht'
    rw [hx] at hx'
    cases ht'
    cases hx'
    simp only [Text.adjacentToken?_eq_some_iff, ne_eq]
    cases hrest with
    | done hu hy => right; simp [Text.token?, hu, hy, Lexeme.scan?]
    | @token u y v z kind' hu hy _ _ _ =>
      by_cases hnext : kind' = next
      · subst hnext
        have hiff := hblank kind' v hu hbinds
        by_cases hadjacent : u.dropBlanks = u
        · exact Or.inl ⟨v, z, ⟨hadjacent, hu⟩, ⟨hiff.1 hadjacent, hy⟩, along_of_token? hu hy⟩
        · exact Or.inr ⟨fun v h => hadjacent h.1, fun z h => hadjacent (hiff.2 h.1)⟩
      · right
        constructor
        · rintro v ⟨-, hv⟩; rw [hu] at hv; cases hv; exact hnext rfl
        · rintro v ⟨-, hv⟩; rw [hy] at hv; cases hv; exact hnext rfl

/-- Both texts begin with the same token, or with none, and this is not the word `CASE`. Two
    tokens that may make up one sign do so in both texts, or in none. -/
structure SameNext (t x : Text) : Prop where
  token : ∀ kind, (∃ u, t.token? = some (kind, u)) ↔ ∃ y, x.token? = some (kind, y)
  notCase : ∀ u, ¬Production.KeywordAt .case_ t u
  adjacent : ∀ {kind next : TokenKind} {u y : Text}, t.token? = some (kind, u) →
    x.token? = some (kind, y) → kind.bindsTo next = true →
    ((∃ v, u.adjacentToken? = some (next, v)) ↔ ∃ z, y.adjacentToken? = some (next, z))

theorem SameNext.token?_eq_none {t x : Text} (h : SameNext t x) (ht : t.token? = none) :
    x.token? = none := by
  cases hx : x.token? with
  | none => rfl
  | some found =>
    obtain ⟨u, hu⟩ := (h.token found.1).2 ⟨found.2, hx⟩
    rw [ht] at hu
    cases hu

theorem InStep.sameNext {t x : Text} (h : InStep t x) : SameNext t x := by
  refine ⟨fun kind => ?_, ?_, fun ht hx hbinds => ?_⟩
  · cases h with
    | done ht hx => simp [Text.token?, ht, hx, Lexeme.scan?]
    | token ht hx _ _ _ => simp [ht, hx]
  · rintro u ⟨word, hword, hcase⟩
    cases h with
    | done ht _ => rw [Text.token?, ht] at hword; cases hword
    | token ht _ hno _ _ =>
      rw [ht] at hword
      cases hword
      rw [TokenKind.isWord, TokenKind.identifier?, Option.any_some, hcase] at hno
      cases hno
  · rcases h.adjacent ht hx hbinds with ⟨v, z, hv, hz, -⟩ | ⟨hv, hz⟩
    · exact ⟨fun _ => ⟨z, hz⟩, fun _ => ⟨v, hv⟩⟩
    · constructor
      · rintro ⟨v, h⟩
        exact absurd h (hv v)
      · rintro ⟨z, h⟩
        exact absurd h (hz z)

/-! ## Outcomes and notes in step -/

/-- The outcomes have the same value and end at corresponding places. -/
inductive Outcome.InStep {α : Type} (t x : Text) : Outcome α → Outcome α → Prop
  | matched (a : α) {u y : Text} : Along t x u y → InStep t x (.matched a u) (.matched a y)
  | missed {u y : Text} : Along t x u y → InStep t x (.missed u) (.missed y)
  | gaveUp : InStep t x .gaveUp .gaveUp

theorem Outcome.InStep.of_along {α : Type} {t x u y : Text} {o o' : Outcome α}
    (halong : Along t x u y) (h : InStep u y o o') : InStep t x o o' := by
  cases h with
  | matched a h => exact .matched a (halong.trans h)
  | missed h => exact .missed (halong.trans h)
  | gaveUp => exact .gaveUp

/-- The notes say the same of corresponding places. -/
inductive Note.InStep (t x : Text) : Note → Note → Prop
  | expected (e : Expectation) {u y : Text} : Along t x u y →
      InStep t x (.expected e u.dropBlanks) (.expected e y.dropBlanks)
  | tooDeep (limit : Nat) {u y : Text} : Along t x u y →
      InStep t x (.tooDeep limit u.dropBlanks) (.tooDeep limit y.dropBlanks)
  | looked {u y : Text} : Along t x u y → InStep t x (.looked u.dropBlanks) (.looked y.dropBlanks)

theorem Note.InStep.of_along {t x u y : Text} {n m : Note} (halong : Along t x u y)
    (h : InStep u y n m) : InStep t x n m := by
  cases h with
  | expected e h => exact .expected e (halong.trans h)
  | tooDeep limit h => exact .tooDeep limit (halong.trans h)
  | looked h => exact .looked (halong.trans h)

namespace Production

variable {α β : Type} {t x u y : Text}

/-- The production does the same on both texts. -/
structure InStep (p : Production α) (t x : Text) : Prop where
  outcome : (p.outcome t).InStep t x (p.outcome x)
  notes : List.Forall₂ (Note.InStep t x) (p.notes t) (p.notes x)

namespace InStep

theorem notes_along {p : Production α} (halong : Along t x u y) (h : InStep p u y) :
    List.Forall₂ (Note.InStep t x) (p.notes u) (p.notes y) :=
  h.notes.imp fun _ _ hnote => hnote.of_along halong

theorem succeed (a : α) : InStep (.succeed a) t x :=
  ⟨.matched a (.refl t x), .nil⟩

theorem andThen {p : Production α} {f : α → Production β} (hp : InStep p t x)
    (hf : ∀ a u y, p.outcome t = .matched a u → p.outcome x = .matched a y → Along t x u y →
      InStep (f a) u y) : InStep (.andThen p f) t x := by
  have ho := hp.outcome
  generalize ht : p.outcome t = o at ho
  generalize hx : p.outcome x = o' at ho
  cases ho with
  | matched a halong =>
    have hnext := hf a _ _ ht hx halong
    constructor
    · simp only [Production.outcome, ht, hx, Outcome.andThen]
      exact hnext.outcome.of_along halong
    · simp only [Production.notes, ht, hx, Outcome.onMatch]
      exact List.rel_append hp.notes (hnext.notes_along halong)
  | missed halong =>
    constructor
    · simpa only [Production.outcome, ht, hx, Outcome.andThen] using .missed halong
    · simpa only [Production.notes, ht, hx, Outcome.onMatch, List.append_nil] using hp.notes
  | gaveUp =>
    constructor
    · simpa only [Production.outcome, ht, hx, Outcome.andThen] using .gaveUp
    · simpa only [Production.notes, ht, hx, Outcome.onMatch, List.append_nil] using hp.notes

theorem orTry {p q : Production α} (hp : InStep p t x)
    (hq : ∀ u y, p.outcome t = .missed u → p.outcome x = .missed y → Along t x u y →
      InStep q u y) : InStep (.orTry p q) t x := by
  have ho := hp.outcome
  generalize ht : p.outcome t = o at ho
  generalize hx : p.outcome x = o' at ho
  cases ho with
  | missed halong =>
    have hnext := hq _ _ ht hx halong
    constructor
    · simp only [Production.outcome, ht, hx, Outcome.orTry]
      exact hnext.outcome.of_along halong
    · simp only [Production.notes, ht, hx, Outcome.onMiss]
      exact List.rel_append hp.notes (hnext.notes_along halong)
  | matched a halong =>
    constructor
    · simpa only [Production.outcome, ht, hx, Outcome.orTry] using .matched a halong
    · simpa only [Production.notes, ht, hx, Outcome.onMiss, List.append_nil] using hp.notes
  | gaveUp =>
    constructor
    · simpa only [Production.outcome, ht, hx, Outcome.orTry] using .gaveUp
    · simpa only [Production.notes, ht, hx, Outcome.onMiss, List.append_nil] using hp.notes

theorem attempt {p : Production α} (hp : InStep p t x) : InStep (.attempt p) t x := by
  refine ⟨?_, hp.notes⟩
  have ho := hp.outcome
  simp only [Production.outcome]
  generalize p.outcome t = o, p.outcome x = o' at ho
  cases ho with
  | matched a halong => exact .matched a halong
  | missed _ => exact .missed (.refl t x)
  | gaveUp => exact .gaveUp

theorem maybe {p : Production α} (hp : InStep p t x) : InStep (.maybe p) t x := by
  refine ⟨?_, hp.notes⟩
  have ho := hp.outcome
  simp only [Production.outcome]
  generalize p.outcome t = o, p.outcome x = o' at ho
  cases ho with
  | matched a halong => exact .matched (some a) halong
  | missed halong => exact .matched none halong
  | gaveUp => exact .gaveUp

theorem lookahead {p : Production α} (hp : InStep p t x) : InStep (.lookahead p) t x := by
  have ho := hp.outcome
  have hn := hp.notes
  constructor
  · simp only [Production.outcome]
    generalize p.outcome t = o, p.outcome x = o' at ho
    cases ho with
    | matched a _ => exact .matched true (.refl t x)
    | missed _ => exact .matched false (.refl t x)
    | gaveUp => exact .gaveUp
  · simp only [Production.notes]
    refine List.rel_append hn ?_
    generalize p.outcome t = o, p.outcome x = o' at ho
    cases ho with
    | matched a halong => exact .cons (.looked halong) .nil
    | missed _ => exact .nil
    | gaveUp => exact .nil

/-- One round, and the rounds that follow if it is a match. -/
theorem many_round {p : Production α} (hadvances : p.Advances) (hround : InStep p t x)
    (hmore : ∀ a u y, p.outcome t = .matched a u → p.outcome x = .matched a y → Along t x u y →
      InStep (.many p) u y) : InStep (.many p) t x := by
  have ho := hround.outcome
  generalize ht : p.outcome t = o, hx : p.outcome x = o' at ho
  cases ho with
  | @matched a u y halong =>
    have hrest := (hmore a u y ht hx halong).outcome
    constructor
    · simp only [Production.outcome] at hrest ⊢
      rw [Outcome.repeated_of_matched ht (hadvances ht),
        Outcome.repeated_of_matched hx (hadvances hx)]
      generalize Outcome.repeated p.outcome u = r, Outcome.repeated p.outcome y = r' at hrest
      cases hrest with
      | matched as h => exact .matched (a :: as) (halong.trans h)
      | missed h => exact .missed (halong.trans h)
      | gaveUp => exact .gaveUp
    · simp only [Production.notes]
      rw [Outcome.repeatedNotes_of_matched ht (hadvances ht),
        Outcome.repeatedNotes_of_matched hx (hadvances hx)]
      exact List.rel_append hround.notes ((hmore a u y ht hx halong).notes_along halong)
  | missed halong =>
    constructor
    · simp only [Production.outcome]
      rw [Outcome.repeated_of_missed ht, Outcome.repeated_of_missed hx]
      exact .matched [] (.refl t x)
    · simp only [Production.notes]
      rw [Outcome.repeatedNotes_of_ne_matched (by simp [ht]),
        Outcome.repeatedNotes_of_ne_matched (by simp [hx])]
      exact hround.notes
  | gaveUp =>
    constructor
    · simp only [Production.outcome]
      rw [Outcome.repeated_of_gaveUp ht, Outcome.repeated_of_gaveUp hx]
      exact .gaveUp
    · simp only [Production.notes]
      rw [Outcome.repeatedNotes_of_ne_matched (by simp [ht]),
        Outcome.repeatedNotes_of_ne_matched (by simp [hx])]
      exact hround.notes

theorem many {p : Production α} (hadvances : p.Advances)
    (hp : ∀ u y, Along t x u y → InStep p u y) : InStep (.many p) t x := by
  induction hlength : t.length using Nat.strongRecOn generalizing t x with
  | ind n ih =>
    refine many_round hadvances (hp t x (.refl t x)) fun a u y ht _ halong => ?_
    exact ih _ (hlength ▸ hadvances ht) (fun v z h => hp v z (halong.trans h)) rfl

theorem token {e : Expectation} {accept : TokenKind → Option α} (h : SameNext t x) :
    InStep (.token e accept) t x := by
  have hmiss : (∀ kind u, t.token? = some (kind, u) → accept kind = none) →
      (∀ kind y, x.token? = some (kind, y) → accept kind = none) →
      InStep (.token e accept) t x := by
    intro ht hx
    have ht' := outcome_token_eq_missed (e := e) |>.2 ⟨rfl, ht⟩
    have hx' := outcome_token_eq_missed (e := e) |>.2 ⟨rfl, hx⟩
    refine ⟨by rw [ht', hx']; exact .missed (.refl t x), ?_⟩
    rw [notes_token_of_misses ⟨t, ht'⟩, notes_token_of_misses ⟨x, hx'⟩]
    exact .cons (.expected e (.refl t x)) .nil
  cases ht : t.token? with
  | none => exact hmiss (by simp [ht]) (by simp [h.token?_eq_none ht])
  | some found =>
    obtain ⟨kind, u⟩ := found
    obtain ⟨y, hx⟩ := (h.token kind).1 ⟨u, ht⟩
    cases haccept : accept kind with
    | some a =>
      have hmatch : (Production.token e accept).outcome t = .matched a u :=
        outcome_token_eq_matched.2 ⟨kind, ht, haccept⟩
      have hmatch' : (Production.token e accept).outcome x = .matched a y :=
        outcome_token_eq_matched.2 ⟨kind, hx, haccept⟩
      refine ⟨by rw [hmatch, hmatch']; exact .matched a (along_of_token? ht hx), ?_⟩
      rw [notes_token_of_matched hmatch, notes_token_of_matched hmatch']
      exact .nil
    | none => exact hmiss (by simp [ht, haccept]) (by simp [hx, haccept])

/-- Two tokens, the second directly after the first, lead along in both texts. -/
theorem along_of_adjacentToken? {kind next : TokenKind} {v z : Text}
    (ht : t.token? = some (kind, u)) (hv : u.adjacentToken? = some (next, v))
    (hx : x.token? = some (kind, y)) (hz : y.adjacentToken? = some (next, z)) : Along t x v z :=
  .token ht hx (along_of_token? (Text.adjacentToken?_eq_some_iff.1 hv).2
    (Text.adjacentToken?_eq_some_iff.1 hz).2)

theorem arrow {e : Expectation} {first second : Symbol} (h : SameNext t x)
    (hbinds : TokenKind.bindsTo (.symbol first) (.symbol second) = true) :
    InStep (.arrow e first second) t x := by
  by_cases harrow : ∃ u v, t.token? = some (.symbol first, u) ∧
      u.adjacentToken? = some (.symbol second, v)
  · obtain ⟨u, v, ht, hv⟩ := harrow
    obtain ⟨y, hx⟩ := (h.token _).1 ⟨u, ht⟩
    obtain ⟨z, hz⟩ := (h.adjacent ht hx hbinds).1 ⟨v, hv⟩
    have ht' := outcome_arrow_eq_matched (e := e) (x := ()) |>.2 ⟨u, ht, hv⟩
    have hx' := outcome_arrow_eq_matched (e := e) (x := ()) |>.2 ⟨y, hx, hz⟩
    refine ⟨by rw [ht', hx']; exact .matched () (along_of_adjacentToken? ht hv hx hz), ?_⟩
    simp only [Production.notes, ht', hx', Outcome.onMiss]
    exact .nil
  · have ht' := outcome_arrow_eq_missed (e := e) |>.2
      ⟨rfl, fun u v ht hv => harrow ⟨u, v, ht, hv⟩⟩
    have hx' : (Production.arrow e first second).outcome x = .missed x := by
      refine outcome_arrow_eq_missed.2 ⟨rfl, fun y z hx hz => ?_⟩
      obtain ⟨u, ht⟩ := (h.token _).2 ⟨y, hx⟩
      obtain ⟨v, hv⟩ := (h.adjacent ht hx hbinds).2 ⟨z, hz⟩
      exact harrow ⟨u, v, ht, hv⟩
    refine ⟨by rw [ht', hx']; exact .missed (.refl t x), ?_⟩
    simp only [Production.notes, ht', hx', Outcome.onMiss]
    exact .cons (.expected e (.refl t x)) .nil

/-- After a minus sign, a number stands directly in both texts, or in none. -/
theorem adjacent_number (h : SameNext t x) (ht : t.token? = some (.symbol .minus, u))
    (hx : x.token? = some (.symbol .minus, y)) : InStep (.adjacent TokenKind.number?) u y := by
  have hsome : ∀ {kind : TokenKind} {digits : Text}, kind.number? = some digits →
      kind = .number digits := by
    intro kind digits hk
    cases kind with
    | number text => cases hk; rfl
    | _ => cases hk
  have hsame : ∀ digits, (∃ v, u.adjacentToken? = some (.number digits, v)) ↔
      ∃ z, y.adjacentToken? = some (.number digits, z) := fun _ => h.adjacent ht hx rfl
  by_cases hdigits : ∃ digits v, u.adjacentToken? = some (.number digits, v)
  · obtain ⟨digits, v, hv⟩ := hdigits
    obtain ⟨z, hz⟩ := (hsame digits).1 ⟨v, hv⟩
    have hu : (Production.adjacent TokenKind.number?).outcome u = .matched digits v :=
      outcome_adjacent_eq_matched.2 ⟨_, hv, rfl⟩
    have hy : (Production.adjacent TokenKind.number?).outcome y = .matched digits z :=
      outcome_adjacent_eq_matched.2 ⟨_, hz, rfl⟩
    have halong : Along u y v z := along_of_token? (Text.adjacentToken?_eq_some_iff.1 hv).2
      (Text.adjacentToken?_eq_some_iff.1 hz).2
    exact ⟨by rw [hu, hy]; exact .matched digits halong, .nil⟩
  · have hu : (Production.adjacent TokenKind.number?).outcome u = .missed u := by
      refine outcome_adjacent_eq_missed.2 ⟨rfl, fun kind v hv => ?_⟩
      cases hk : kind.number? with
      | none => rfl
      | some digits => exact absurd ⟨digits, v, hsome hk ▸ hv⟩ hdigits
    have hy : (Production.adjacent TokenKind.number?).outcome y = .missed y := by
      refine outcome_adjacent_eq_missed.2 ⟨rfl, fun kind z hz => ?_⟩
      cases hk : kind.number? with
      | none => rfl
      | some digits =>
        obtain ⟨v, hv⟩ := (hsame digits).2 ⟨z, hsome hk ▸ hz⟩
        exact absurd ⟨digits, v, hv⟩ hdigits
    exact ⟨by rw [hu, hy]; exact .missed (.refl u y), .nil⟩

/-- Where the first alternative misses, the second one is read from the same place. -/
theorem orElse {p q : Production α} (hstays : p.Stays) (hp : InStep p t x) (hq : InStep q t x) :
    InStep (p <|> q) t x :=
  orTry hp fun u y ht hx _ => by rwa [hstays ht, hstays hx]

theorem number (h : SameNext t x) : InStep number t x := by
  refine orElse (stays_attempt _) (attempt (andThen (token h) fun _ u y ht hx _ => ?_)) (token h)
  refine andThen (adjacent_number h ?_ ?_) fun text _ _ _ _ _ => succeed ('-' :: text)
  · exact outcome_symbol_eq_matched.1 ht
  · exact outcome_symbol_eq_matched.1 hx

theorem mark {e : Expectation} {first second : Symbol} {a b : α} (h : SameNext t x)
    (hbinds : TokenKind.bindsTo (.symbol first) (.symbol second) = true) :
    InStep (mark e first second a b) t x :=
  orElse (stays_map (fun h => (outcome_arrow_eq_missed.1 h).1) _)
    (andThen (arrow h hbinds) fun _ _ _ _ _ _ => succeed _)
    (andThen (token h) fun _ _ _ _ _ _ => succeed _)

theorem leftMark (h : SameNext t x) : InStep leftMark t x :=
  mark h rfl

theorem rightMark (h : SameNext t x) : InStep rightMark t x :=
  mark h rfl

theorem caseExpression (h : SameNext t x) : InStep caseExpression t x := by
  have hcase : ∀ y, ¬KeywordAt .case_ x y := by
    rintro y ⟨word, hy, hword⟩
    obtain ⟨u, hu⟩ := (h.token _).2 ⟨y, hy⟩
    exact h.notCase u ⟨word, hu, hword⟩
  obtain ⟨ht, htnotes⟩ := caseExpression_of_not_keywordAt h.notCase
  obtain ⟨hx, hxnotes⟩ := caseExpression_of_not_keywordAt hcase
  refine ⟨by rw [ht, hx]; exact .missed (.refl t x), ?_⟩
  rw [htnotes, hxnotes]
  exact .cons (.expected _ (.refl t x)) .nil

theorem tooDeep (limit : Nat) : InStep (.tooDeep limit : Production α) t x :=
  ⟨.gaveUp, .cons (.tooDeep limit (.refl t x)) .nil⟩

end InStep

/-- Productions that read tokens do the same on texts in step. -/
theorem Tokenwise.inStep {limit : Nat} {looks : Bool} {p : Production α}
    (hp : Tokenwise limit looks p) (h : Cypher.InStep t x) : p.InStep t x := by
  induction hp generalizing t x with
  | succeed a => exact .succeed a
  | andThen _ _ ihp ihf => exact .andThen (ihp h) fun a u y _ _ halong => ihf a (h.along halong)
  | orTry _ _ ihp ihq => exact .orTry (ihp h) fun u y _ _ halong => ihq (h.along halong)
  | attempt _ ih => exact .attempt (ih h)
  | maybe _ ih => exact .maybe (ih h)
  | lookahead _ _ ih => exact .lookahead (ih h)
  | many hadvances _ ih => exact .many hadvances fun u y halong => ih (h.along halong)
  | token _ _ => exact .token h.sameNext
  | leftMark => exact .leftMark h.sameNext
  | rightMark => exact .rightMark h.sameNext
  | number => exact .number h.sameNext
  | caseExpression => exact .caseExpression h.sameNext
  | tooDeep => exact .tooDeep limit

end Production

/-! ## Errors in step -/

/-- The same was expected at corresponding places, or nothing yet. -/
def Furthest.InStep (t x : Text) (f g : Furthest) : Prop :=
  f = ⟨.start t, []⟩ ∧ g = ⟨.start x, []⟩ ∨
    f.expected = g.expected ∧ ∃ u y, Along t x u y ∧
      f.cursor = .before t.byteSize u.dropBlanks ∧ g.cursor = .before x.byteSize y.dropBlanks

/-- Whatever is recorded first is kept. -/
theorem Furthest.record_start {source ahead : Text} (e : Expectation) (h : ahead <:+ source) :
    Furthest.record (.before source.byteSize ahead) e ⟨.start source, []⟩ =
      ⟨.before source.byteSize ahead, [e]⟩ := by
  have hle := Text.byteSize_le_of_suffix h
  by_cases hsize : ahead.byteSize = source.byteSize
  · rw [Text.eq_of_suffix_of_byteSize h List.suffix_rfl hsize]
    simp [record, Cursor.start, Cursor.before]
  · have hlt : 0 < source.byteSize - ahead.byteSize := by omega
    simp [record, Cursor.start, Cursor.before, hlt]

theorem Along.suffix {t x u y : Text} (h : Along t x u y) : u <:+ t ∧ y <:+ x := by
  induction h with
  | refl t x => exact ⟨List.suffix_rfl, List.suffix_rfl⟩
  | token ht hx _ ih =>
    exact ⟨ih.1.trans (Text.suffix_of_token? ht), ih.2.trans (Text.suffix_of_token? hx)⟩

/-- Corresponding notes keep the furthest failures in step. -/
theorem Furthest.InStep.note {t x : Text} {f g : Furthest} {n m : Note} (h : InStep t x f g)
    (hnote : Note.InStep t x n m) :
    InStep t x (f.note t.byteSize n) (g.note x.byteSize m) := by
  cases hnote with
  | tooDeep limit _ => exact h
  | looked _ => exact h
  | @expected e u y halong =>
    have hsuffix := halong.suffix
    have hu : u.dropBlanks <:+ t := (Text.dropBlanks_suffix u).trans hsuffix.1
    have hy : y.dropBlanks <:+ x := (Text.dropBlanks_suffix y).trans hsuffix.2
    simp only [Furthest.note]
    rcases h with ⟨rfl, rfl⟩ | ⟨hexpected, v, z, halong', hf, hg⟩
    · rw [record_start e hu, record_start e hy]
      exact Or.inr ⟨rfl, u, y, halong, rfl, rfl⟩
    · have hv := Text.byteSize_le_of_suffix ((Text.dropBlanks_suffix v).trans halong'.suffix.1)
      have hz := Text.byteSize_le_of_suffix ((Text.dropBlanks_suffix z).trans halong'.suffix.2)
      have hu := Text.byteSize_le_of_suffix hu
      have hy := Text.byteSize_le_of_suffix hy
      have hfurther := halong.byteSize_lt_iff halong'
      have hbefore := halong'.byteSize_lt_iff halong
      have hlt : f.cursor.offset < (Cursor.before t.byteSize u.dropBlanks).offset ↔
          g.cursor.offset < (Cursor.before x.byteSize y.dropBlanks).offset := by
        simp only [hf, hg, Cursor.before]; omega
      have heq : (Cursor.before t.byteSize u.dropBlanks).offset = f.cursor.offset ↔
          (Cursor.before x.byteSize y.dropBlanks).offset = g.cursor.offset := by
        simp only [hf, hg, Cursor.before]; omega
      simp only [record, hlt, heq, hexpected]
      split
      · exact Or.inr ⟨rfl, u, y, halong, rfl, rfl⟩
      · split
        · exact Or.inr ⟨rfl, v, z, halong', hf, hg⟩
        · exact Or.inr ⟨hexpected, v, z, halong', hf, hg⟩

theorem Furthest.InStep.foldl {t x : Text} {f g : Furthest} {notes notes' : List Note}
    (h : InStep t x f g) (hnotes : List.Forall₂ (Note.InStep t x) notes notes') :
    InStep t x (notes.foldl (Furthest.note t.byteSize) f)
      (notes'.foldl (Furthest.note x.byteSize) g) := by
  induction hnotes generalizing f g with
  | nil => exact h
  | cons hnote _ ih => exact ih (h.note hnote)

/-- What stands at corresponding places is the same. -/
theorem Furthest.InStep.cause_eq {t x : Text} {f g : Furthest} (h : InStep t x f g)
    (hstep : Cypher.InStep t x) : f.error.cause = g.error.cause := by
  have hsame : f.expected = g.expected ∧ Cypher.InStep f.cursor.rest g.cursor.rest := by
    rcases h with ⟨rfl, rfl⟩ | ⟨hexpected, u, y, halong, hf, hg⟩
    · exact ⟨rfl, hstep⟩
    · rw [hf, hg]
      refine ⟨hexpected, ?_⟩
      cases hstep.along halong with
      | done hu hy => exact .done (by rw [Cursor.before, hu]; rfl) (by rw [Cursor.before, hy]; rfl)
      | token hu hy hcase hblank hrest =>
        refine .token ?_ ?_ hcase hblank hrest
        · rwa [Cursor.before, Text.token?, Text.dropBlanks_dropBlanks, ← Text.token?]
        · rwa [Cursor.before, Text.token?, Text.dropBlanks_dropBlanks, ← Text.token?]
  simp only [error, Reading.next?_eq, hsame.1]
  cases hsame.2 with
  | done hf hg => simp [hf, hg, Lexeme.scan?]
  | token hf hg => simp [Text.token?_eq_some_iff.1 hf, Text.token?_eq_some_iff.1 hg]

/-- An error is worded by its cause. -/
theorem SyntaxError.words_eq {e e' : SyntaxError} (h : e.cause = e'.cause) :
    e.message = e'.message ∧ e.alternatives = e'.alternatives ∧ e.found = e'.found := by
  simp only [message, alternatives, found, h, and_self]

/-- Corresponding notes are reported in the same words. -/
theorem Note.cause_report_eq {t x : Text} {notes notes' : List Note} (hstep : Cypher.InStep t x)
    (hnotes : List.Forall₂ (Note.InStep t x) notes notes') :
    (Note.report t notes).cause = (Note.report x notes').cause := by
  have hfurthest : (Furthest.ofNotes t notes).error.cause =
      (Furthest.ofNotes x notes').error.cause :=
    (Furthest.InStep.foldl (Or.inl ⟨rfl, rfl⟩) hnotes).cause_eq hstep
  rw [report, report]
  generalize (Furthest.ofNotes t notes).error = e,
    (Furthest.ofNotes x notes').error = e' at hfurthest
  induction hnotes with
  | nil => exact hfurthest
  | cons hnote _ ih =>
    cases hnote with
    | expected e _ => simpa only [List.findSome?_cons, error?] using ih
    | looked _ => simpa only [List.findSome?_cons, error?] using ih
    | tooDeep limit _ => simp only [List.findSome?_cons, error?, Option.getD_some]; rfl

/-! ## Lists of tokens -/

/-- The cursor after the first token. -/
def Cursor.afterToken (c : Cursor) (kind : TokenKind) (u : Text) : Cursor :=
  ⟨c.skipBlanks.offset + kind.written.byteSize, u⟩

theorem Cursor.lexed_eq_cons {c : Cursor} {kind : TokenKind} {u : Text}
    (h : c.rest.token? = some (kind, u)) :
    c.lexed = ⟨⟨kind, ⟨c.skipBlanks.offset, (c.afterToken kind u).offset⟩⟩ ::
      (c.afterToken kind u).lexed.tokens, (c.afterToken kind u).lexed.errors⟩ := by
  have hnext : c.next? = some (⟨.token kind,
      ⟨c.skipBlanks.offset, (c.afterToken kind u).offset⟩⟩, c.afterToken kind u) := by
    rw [Reading.next?_eq, Text.token?_eq_some_iff.1 h]
    rfl
  rw [lexed, items_eq_cons hnext]
  rfl

/-- Where no token comes next and nothing is unrecognized, the text is over. -/
theorem Cursor.dropBlanks_of_token?_eq_none {c : Cursor} (herrors : c.lexed.errors = [])
    (h : c.rest.token? = none) : c.rest.dropBlanks = [] := by
  cases hscan : Lexeme.scan? c.rest.dropBlanks with
  | none => exact Lexeme.scan?_eq_none_iff.1 hscan
  | some found =>
    obtain ⟨_ | text, rest⟩ := found
    · rw [Text.token?, hscan] at h; cases h
    · obtain ⟨item, after, hnext, hitem⟩ : ∃ item after, c.next? = some (item, after) ∧
          item.lexeme = .unrecognized text := by
        rw [Reading.next?_eq, hscan]
        exact ⟨_, _, rfl, rfl⟩
      obtain ⟨lexeme, span⟩ := item
      cases hitem
      rw [lexed, items_eq_cons hnext] at herrors
      cases herrors

theorem Cursor.isAdjacentTo_iff {c : Cursor} (kind : TokenKind) {next : TokenKind} {u v : Text}
    {token : Token} (hv : u.token? = some (next, v))
    (htoken : (c.afterToken kind u).lexed.tokens.head? = some token) :
    Span.isAdjacentTo ⟨c.skipBlanks.offset, (c.afterToken kind u).offset⟩ token.span = true ↔
      u.dropBlanks = u := by
  rw [lexed_eq_cons (c := c.afterToken kind u) hv] at htoken
  cases htoken
  rw [Span.isAdjacentTo, beq_iff_eq, eq_comm]
  exact Cursor.skipBlanks_offset_eq_iff (c.afterToken kind u)

/-- Wherever it matters, neighbours are adjacent in both lists of tokens or in none. -/
def SameAdjacency (tokens tokens' : List Token) : Prop :=
  ∀ i, ∀ a ∈ tokens[i]?, ∀ b ∈ tokens[i + 1]?, ∀ a' ∈ tokens'[i]?, ∀ b' ∈ tokens'[i + 1]?,
    a.kind.bindsTo b.kind = true → a.span.isAdjacentTo b.span = a'.span.isAdjacentTo b'.span

instance (tokens tokens' : List Token) : Decidable (SameAdjacency tokens tokens') :=
  decidable_of_iff (∀ i < tokens.length, ∀ a ∈ tokens[i]?, ∀ b ∈ tokens[i + 1]?,
      ∀ a' ∈ tokens'[i]?, ∀ b' ∈ tokens'[i + 1]?, a.kind.bindsTo b.kind = true →
        a.span.isAdjacentTo b.span = a'.span.isAdjacentTo b'.span)
    ⟨fun h i a ha => h i (List.getElem?_eq_some_iff.1 ha).1 a ha, fun h i _ => h i⟩

/-- Texts with the same kinds of tokens are in step. -/
theorem inStep_of_tokens {c d : Cursor} (hc : c.lexed.errors = []) (hd : d.lexed.errors = [])
    (hkinds : c.lexed.tokens.map Token.kind = d.lexed.tokens.map Token.kind)
    (hcase : ∀ token ∈ c.lexed.tokens, token.kind.isWord Keyword.case_.written = false)
    (hadjacent : SameAdjacency c.lexed.tokens d.lexed.tokens) : InStep c.rest d.rest := by
  induction hlength : c.rest.length using Nat.strongRecOn generalizing c d with
  | ind n ih =>
    cases htok : c.rest.token? with
    | none =>
      have hnil := Cursor.dropBlanks_of_token?_eq_none hc htok
      refine .done hnil ?_
      rw [Cursor.lexed_of_dropBlanks hnil] at hkinds
      cases htok' : d.rest.token? with
      | none => exact Cursor.dropBlanks_of_token?_eq_none hd htok'
      | some found => rw [Cursor.lexed_eq_cons htok'] at hkinds; cases hkinds
    | some found =>
      obtain ⟨kind, u⟩ := found
      have hlexed := Cursor.lexed_eq_cons htok
      rw [hlexed] at hkinds hcase hadjacent hc
      cases htok' : d.rest.token? with
      | none =>
        rw [Cursor.lexed_of_dropBlanks (Cursor.dropBlanks_of_token?_eq_none hd htok')] at hkinds
        cases hkinds
      | some found =>
        obtain ⟨kind', y⟩ := found
        have hlexed' := Cursor.lexed_eq_cons htok'
        rw [hlexed'] at hkinds hadjacent hd
        obtain ⟨rfl, hkinds⟩ := List.cons.inj hkinds
        rw [List.forall_mem_cons] at hcase
        refine .token htok htok' hcase.1 (fun next v hv hbinds => ?_) ?_
        · -- the next tokens are of the same kind, so that their adjacency is compared
          have hnext := Cursor.lexed_eq_cons (c := c.afterToken kind u) hv
          cases hy : y.token? with
          | none =>
            have hnil := Cursor.dropBlanks_of_token?_eq_none (c := d.afterToken kind y) hd hy
            rw [hnext, Cursor.lexed_of_dropBlanks hnil] at hkinds
            cases hkinds
          | some found =>
            have hnext' := Cursor.lexed_eq_cons (c := d.afterToken kind y) hy
            rw [← Cursor.isAdjacentTo_iff (c := c) kind hv (by rw [hnext]; rfl),
              ← Cursor.isAdjacentTo_iff (c := d) kind hy (by rw [hnext']; rfl)]
            rw [hnext, hnext'] at hadjacent
            rw [hadjacent 0 _ rfl _ rfl _ rfl _ rfl hbinds]
        · refine ih u.length ?_ hc hd hkinds hcase.2 ?_ rfl
          · rw [← hlength]; exact Text.length_lt_of_token? htok
          · exact fun i a ha b hb a' ha' b' hb' => hadjacent (i + 1) a ha b hb a' ha' b' hb'

/-! ## Queries -/

namespace Query

open Production

/-- Where a text was refused, if it was. -/
def Result.refusedAt? : Result → Option Span
  | .ok _ => none
  | .error error => some error.span

/-- Texts whose bodies are read alike are read alike, if both end behind the body or none. -/
theorem inStep_query_of_body {limit : Nat} {t x : Text} (hbody : (body limit).InStep t x)
    (ht : ∀ u, ¬KeywordAt .start t u) (hx : ∀ y, ¬KeywordAt .start x y)
    (hend : ∀ parts u y, (body limit).outcome t = .matched parts u → Along t x u y →
      (u.dropBlanks = [] ↔ y.dropBlanks = [])) : (Production.query limit).InStep t x := by
  have ho := hbody.outcome
  constructor
  · rw [outcome_query_of_not_start ht, outcome_query_of_not_start hx]
    generalize hparts : (body limit).outcome t = o, (body limit).outcome x = o' at ho
    cases ho with
    | missed halong => exact .missed halong
    | gaveUp => exact .gaveUp
    | @matched parts u y halong =>
      simp only [Outcome.andThen, hend parts u y hparts halong]
      split
      · exact .matched _ halong
      · exact .missed halong
  · rw [notes_query_of_not_start ht, notes_query_of_not_start hx]
    refine .cons (.expected _ (.refl t x)) (List.rel_append hbody.notes ?_)
    generalize hparts : (body limit).outcome t = o, (body limit).outcome x = o' at ho
    cases ho with
    | missed halong => exact .nil
    | gaveUp => exact .nil
    | @matched parts u y halong =>
      simp only [Outcome.onMatch, notes, outcome, hend parts u y hparts halong]
      split
      · exact .nil
      · exact .cons (.expected _ halong) .nil

theorem inStep_query {limit : Nat} {t x : Text} (h : InStep t x)
    (ht : ∀ u, ¬KeywordAt .start t u) (hx : ∀ y, ¬KeywordAt .start x y) :
    (Production.query limit).InStep t x := by
  refine inStep_query_of_body ((Tokenwise.body limit).inStep h) ht hx fun _ u y _ halong => ?_
  cases h.along halong with
  | done hu hy => simp [hu, hy]
  | token hu hy =>
    refine iff_of_false (fun hnil => ?_) fun hnil => ?_
    · rw [Text.token?, hnil] at hu; cases hu
    · rw [Text.token?, hnil] at hy; cases hy

/-- Two texts with the same kinds of tokens, adjacent alike where it matters, are read as the
    same query or refused in the same words. -/
theorem parse_of_sameKinds (limit : Nat) {source source' : Text}
    (herrors : (tokenize source).errors = []) (herrors' : (tokenize source').errors = [])
    (hkinds : (tokenize source).tokens.map Token.kind = (tokenize source').tokens.map Token.kind)
    (hstart : ∀ token ∈ (tokenize source).tokens.head?,
      token.kind.isWord Keyword.start.written = false)
    (hcase : ∀ token ∈ (tokenize source).tokens,
      token.kind.isWord Keyword.case_.written = false)
    (hadjacent : SameAdjacency (tokenize source).tokens (tokenize source').tokens) :
    (∃ q, parse limit source = .ok q ∧ parse limit source' = .ok q) ∨
    ∃ error error', parse limit source = .error error ∧ parse limit source' = .error error' ∧
      error.message = error'.message ∧ error.alternatives = error'.alternatives ∧
      error.found = error'.found := by
  have hstep : InStep source source' :=
    inStep_of_tokens (c := .start source) (d := .start source') herrors herrors' hkinds hcase
      hadjacent
  have hfirst := Text.not_keywordAt_start_of_tokens hstart
  have hfirst' : ∀ y, ¬KeywordAt .start source' y := fun y hy =>
    have ⟨u, hu⟩ := hstep.keywordAt hy
    hfirst u hu
  have hquery : (Production.query limit).InStep source source' := inStep_query hstep hfirst hfirst'
  have hcause := Note.cause_report_eq hstep hquery.notes
  have ho := hquery.outcome
  rw [parse_eq, parse_eq]
  generalize (Production.query limit).outcome source = o,
    (Production.query limit).outcome source' = o' at ho
  cases ho with
  | matched q _ => exact Or.inl ⟨q, rfl, rfl⟩
  | missed _ => exact Or.inr ⟨_, _, rfl, rfl, SyntaxError.words_eq hcause⟩
  | gaveUp => exact Or.inr ⟨_, _, rfl, rfl, SyntaxError.words_eq hcause⟩

/-- The blanks of one text stand elsewhere in the other one, and so does the error; the words
    are the same. -/
theorem parse_of_sameKinds_refused :
    let source := "MATCH (a)<-[r]-(b) RETURN -1 2".toList
    let source' := "  MATCH(a) <-[ r ] - (b)RETURN  -1\n2".toList
    ∃ error error', parse 0 source = .error error ∧ parse 0 source' = .error error' ∧
      error.message = error'.message ∧ error.span = ⟨29, 30⟩ ∧ error'.span = ⟨35, 36⟩ := by
  intro source source'
  have herrors : (tokenize source).errors = [] := by decide +kernel
  have herrors' : (tokenize source').errors = [] := by decide +kernel
  have hkinds : (tokenize source).tokens.map Token.kind =
      (tokenize source').tokens.map Token.kind := by decide +kernel
  have hstart : ∀ token ∈ (tokenize source).tokens.head?,
      token.kind.isWord Keyword.start.written = false := by decide +kernel
  have hcase : ∀ token ∈ (tokenize source).tokens,
      token.kind.isWord Keyword.case_.written = false := by decide +kernel
  have hadjacent : SameAdjacency (tokenize source).tokens (tokenize source').tokens := by
    decide +kernel
  have hspan : (parse 0 source).refusedAt? = some ⟨29, 30⟩ := by decide +kernel
  have hspan' : (parse 0 source').refusedAt? = some ⟨35, 36⟩ := by decide +kernel
  rcases parse_of_sameKinds 0 herrors herrors' hkinds hstart hcase hadjacent with
    ⟨q, hq, -⟩ | ⟨error, error', h, h', hmessage, -⟩
  · rw [hq] at hspan
    cases hspan
  · rw [h, Result.refusedAt?, Option.some.injEq] at hspan
    rw [h', Result.refusedAt?, Option.some.injEq] at hspan'
    exact ⟨error, error', h, h', hmessage, hspan, hspan'⟩

end Query

end Cypher
