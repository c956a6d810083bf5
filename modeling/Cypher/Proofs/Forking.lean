/-
  Forking — two texts that go on differently from some place on.

  Up to that place both texts have the same tokens, and both are read alike. There the one
  text goes on with `old` and the other one with `new`. Each look at the next token there
  either takes it or notes its own expectation. So what is noted there in the one text
  tells what the other text may go on with.

  * `Expectation.IsMet e t`: the text `t` begins with what `e` asks for;
  * `Fork old new t x`: after the same tokens, `t` goes on with `old` and `x` with `new`;
  * `Production.GetsTo`, `Production.Beyond p t place`: how far reading `t` has got, and that it
    has got further than `place`;
  * `Production.Forks`: both texts are read alike, or the reading of one of them gets beyond
    the fork. If it is the second one, its next token was asked for in the first one;
  * `Tokenwise.forks`: so are all productions that read tokens.
-/
import Cypher.Proofs.Tokenwise

namespace Cypher

/-! ## Expectations that are met -/

/-- The text begins with what the expectation asks for. A minus sign is asked for as the
    sign of a number. -/
def Expectation.IsMet : Expectation → Text → Prop
  | symbol .minus, t => ∃ u digits v, t.token? = some (.symbol .minus, u) ∧
      u.adjacentToken? = some (.number digits, v)
  | leftArrow, t => ∃ u v, t.token? = some (.symbol .less, u) ∧
      u.adjacentToken? = some (.symbol .minus, v)
  | rightArrow, t => ∃ u v, t.token? = some (.symbol .minus, u) ∧
      u.adjacentToken? = some (.symbol .greater, v)
  | endOfInput, t => t.dropBlanks = []
  | e, t => ∃ kind u, t.token? = some (kind, u) ∧ e.accepts kind = true

theorem Expectation.isMet_iff_of_isPlain {e : Expectation} (h : e.isPlain = true) (t : Text) :
    e.IsMet t ↔ ∃ kind u, t.token? = some (kind, u) ∧ e.accepts kind = true := by
  cases e with
  | symbol s => cases s <;> first | exact Iff.rfl | cases h
  | leftArrow => cases h
  | rightArrow => cases h
  | clause => cases h
  | endOfInput => cases h
  | _ => exact Iff.rfl

theorem Expectation.isMet_dropBlanks (e : Expectation) (t : Text) :
    e.IsMet t.dropBlanks ↔ e.IsMet t := by
  cases e with
  | symbol s => cases s <;> simp only [IsMet, Text.token?_dropBlanks]
  | endOfInput => simp only [IsMet, Text.dropBlanks_dropBlanks]
  | _ => simp only [IsMet, Text.token?_dropBlanks]

/-- One token, and nothing directly after it. -/
def Text.IsSingle (t : Text) : Prop :=
  ∀ kind u, t.token? = some (kind, u) → u.adjacentToken? = none

/-! ## Forks -/

/-- After the same tokens the first text goes on with `old` and the second one with `new`,
    which does not directly follow the token before it. -/
inductive Fork (old new : Text) : Text → Text → Prop
  | here {t x : Text} : t.dropBlanks = old → x.dropBlanks = new → x.adjacentToken? = none →
      Fork old new t x
  | token {t x u y : Text} {kind : TokenKind} : t.token? = some (kind, u) →
      x.token? = some (kind, y) → kind.isWord Keyword.case_.written = false →
      (t.dropBlanks = t ↔ x.dropBlanks = x) → Fork old new u y → Fork old new t x

namespace Fork

variable {old new t x u y : Text}

/-- The fork is not further on than what is left to read. -/
theorem le_byteSize (h : Fork old new t x) :
    old.byteSize ≤ t.dropBlanks.byteSize ∧ new.byteSize ≤ x.dropBlanks.byteSize := by
  induction h with
  | here ht hx _ => rw [ht, hx]; exact ⟨Nat.le_refl _, Nat.le_refl _⟩
  | @token t x u y kind ht hx _ _ _ ih =>
    have hu := Text.byteSize_lt_of_token? ht
    have hy := Text.byteSize_lt_of_token? hx
    have hu' := Text.byteSize_dropBlanks_le u
    have hy' := Text.byteSize_dropBlanks_le y
    omega

theorem lt_of_token? {kind : TokenKind} (ht : t.token? = some (kind, u)) (h : Fork old new u y) :
    old.byteSize < t.dropBlanks.byteSize := by
  have hu := Text.byteSize_lt_of_token? ht
  have hu' := Text.byteSize_dropBlanks_le u
  have hle := h.le_byteSize.1
  omega

/-- A token directly after the one before in the first text is there in the second one too,
    unless it lies beyond the fork. -/
theorem adjacent_of_left {kind : TokenKind} (h : Fork old new t x)
    (hu : t.adjacentToken? = some (kind, u)) :
    (∃ y, x.adjacentToken? = some (kind, y) ∧ Fork old new u y) ∨
      u.dropBlanks.byteSize < old.byteSize := by
  obtain ⟨hadjacent, htoken⟩ := Text.adjacentToken?_eq_some_iff.1 hu
  cases h with
  | here ht hx hnone =>
    have hlt := Text.byteSize_lt_of_token? htoken
    have hle := Text.byteSize_dropBlanks_le u
    rw [ht] at hlt
    exact Or.inr (by omega)
  | @token t x u' y kind' ht hx _ hblank hrest =>
    rw [ht] at htoken
    cases htoken
    exact Or.inl ⟨y, Text.adjacentToken?_eq_some_iff.2 ⟨hblank.1 hadjacent, hx⟩, hrest⟩

/-- A token directly after the one before in the second text is there in the first one too. -/
theorem adjacent_of_right {kind : TokenKind} (h : Fork old new t x)
    (hy : x.adjacentToken? = some (kind, y)) : ∃ u, t.adjacentToken? = some (kind, u) := by
  cases h with
  | here ht hx hnone => rw [hnone] at hy; cases hy
  | @token t x u y' kind' ht hx _ hblank hrest =>
    obtain ⟨hadjacent, htoken⟩ := Text.adjacentToken?_eq_some_iff.1 hy
    rw [hx] at htoken
    cases htoken
    exact ⟨u, Text.adjacentToken?_eq_some_iff.2 ⟨hblank.2 hadjacent, ht⟩⟩

end Fork

namespace Production

variable {α β : Type}

/-! ## Getting beyond a place -/

/-- Reading the text has got to where less than `size` bytes are left. Of the notes on it,
    those that `counts` says are taken into account. -/
def GetsTo (counts : Note → Bool) (size : Nat) (p : Production α) (t : Text) : Prop :=
  (∃ n ∈ p.notes t, counts n = true ∧ n.ahead.byteSize < size) ∨
    ∃ a u, p.outcome t = .matched a u ∧ u.dropBlanks.byteSize < size

/-- Reading the text has got further than `place`. -/
abbrev Beyond (p : Production α) (t place : Text) : Prop :=
  p.GetsTo (fun _ => true) place.byteSize t

theorem byteSize_dropBlanks_le_of_matched {p : Production α} {t u : Text} {a : α}
    (h : p.outcome t = .matched a u) : u.dropBlanks.byteSize ≤ t.dropBlanks.byteSize :=
  Text.byteSize_le_of_suffix (Text.dropBlanks_suffix_of_suffix (suffix_of_matched h))

/-- What starts there gets there. -/
theorem Tokenwise.getsTo {limit : Nat} {looks : Bool} {p : Production α} {t : Text}
    {counts : Note → Bool} {size : Nat} (hp : Tokenwise limit looks p)
    (hcounts : ∀ n, n.isFailure = true → counts n = true) (h : t.dropBlanks.byteSize < size) :
    p.GetsTo counts size t := by
  have hnote : ∀ n ∈ p.notes t, n.ahead.byteSize < size := fun n hn =>
    Nat.lt_of_le_of_lt (Text.byteSize_le_of_suffix (ahead_of_mem_notes p n hn).1) h
  cases ho : p.outcome t with
  | matched a u =>
    exact Or.inr ⟨a, u, ho, Nat.lt_of_le_of_lt (byteSize_dropBlanks_le_of_matched ho) h⟩
  | missed u =>
    obtain ⟨e, ahead, hn, -⟩ := hp.exists_expected ho
    exact Or.inl ⟨_, hn, hcounts _ rfl, hnote _ hn⟩
  | gaveUp =>
    obtain ⟨l, ahead, hn⟩ := outcome_eq_gaveUp_iff.1 ho
    exact Or.inl ⟨_, hn, hcounts _ rfl, hnote _ hn⟩

namespace GetsTo

variable {counts : Note → Bool} {size : Nat} {p q : Production α} {f : α → Production β}
  {t u : Text}

theorem of_note {n : Note} (hn : n ∈ p.notes t) (hlt : n.ahead.byteSize < size) :
    p.GetsTo (fun _ => true) size t :=
  Or.inl ⟨n, hn, rfl, hlt⟩

theorem andThen_right {a : α} (hp : p.outcome t = .matched a u) (h : (f a).GetsTo counts size u) :
    (p >>= f).GetsTo counts size t := by
  rcases h with ⟨n, hn, hlt⟩ | ⟨b, v, hb, hlt⟩
  · exact Or.inl ⟨n, mem_notes_bind.2 (Or.inr ⟨a, u, hp, hn⟩), hlt⟩
  · exact Or.inr ⟨b, v, outcome_bind_eq_matched.2 ⟨a, u, hp, hb⟩, hlt⟩

theorem andThen_left {limit : Nat} {looks : Bool} (hf : ∀ a, Tokenwise limit looks (f a))
    (hcounts : ∀ n, n.isFailure = true → counts n = true) (h : p.GetsTo counts size t) :
    (p >>= f).GetsTo counts size t := by
  rcases h with ⟨n, hn, hlt⟩ | ⟨a, u, ha, hlt⟩
  · exact Or.inl ⟨n, mem_notes_bind.2 (Or.inl hn), hlt⟩
  · exact andThen_right ha ((hf a).getsTo hcounts hlt)

theorem orTry_left (h : p.GetsTo counts size t) : (p <|> q).GetsTo counts size t := by
  rcases h with ⟨n, hn, hlt⟩ | ⟨a, u, ha, hlt⟩
  · exact Or.inl ⟨n, mem_notes_orElse.2 (Or.inl hn), hlt⟩
  · exact Or.inr ⟨a, u, outcome_orElse_eq_matched.2 (Or.inl ha), hlt⟩

theorem orTry_right (hp : p.outcome t = .missed u) (h : q.GetsTo counts size u) :
    (p <|> q).GetsTo counts size t := by
  rcases h with ⟨n, hn, hlt⟩ | ⟨a, v, ha, hlt⟩
  · exact Or.inl ⟨n, mem_notes_orElse.2 (Or.inr ⟨u, hp, hn⟩), hlt⟩
  · exact Or.inr ⟨a, v, outcome_orElse_eq_matched.2 (Or.inr ⟨u, hp, ha⟩), hlt⟩

theorem attempt (h : p.GetsTo counts size t) : (attempt p).GetsTo counts size t := by
  rcases h with h | ⟨a, u, ha, hlt⟩
  · exact Or.inl h
  · exact Or.inr ⟨a, u, outcome_attempt_eq_matched.2 ha, hlt⟩

theorem maybe (h : p.GetsTo counts size t) : (maybe p).GetsTo counts size t := by
  rcases h with h | ⟨a, u, ha, hlt⟩
  · exact Or.inl h
  · exact Or.inr ⟨some a, u, outcome_maybe_eq_matched.2 (Or.inl ⟨a, rfl, ha⟩), hlt⟩

/-- How far a lookahead got is noted. -/
theorem lookahead (h : p.GetsTo (fun _ => true) size t) :
    (lookahead p).GetsTo (fun _ => true) size t := by
  rcases h with ⟨n, hn, -, hlt⟩ | ⟨a, u, ha, hlt⟩
  · exact of_note (mem_notes_lookahead.2 (Or.inl hn)) hlt
  · exact of_note (mem_notes_lookahead.2 (Or.inr ⟨a, u, ha, rfl⟩)) hlt

theorem many_right {a : α} (hp : p.outcome t = .matched a u) (hlt : u.length < t.length)
    (h : (many p).GetsTo counts size u) : (many p).GetsTo counts size t := by
  have hnotes : (many p).notes t = p.notes t ++ (many p).notes u :=
    Outcome.repeatedNotes_of_matched hp hlt
  have houtcome : (many p).outcome t = ((many p).outcome u).map (a :: ·) :=
    Outcome.repeated_of_matched hp hlt
  rcases h with ⟨n, hn, hbeyond⟩ | ⟨as, v, has, hbeyond⟩
  · exact Or.inl ⟨n, by rw [hnotes]; exact List.mem_append_right _ hn, hbeyond⟩
  · exact Or.inr ⟨a :: as, v, by rw [houtcome, has]; rfl, hbeyond⟩

theorem many_left {limit : Nat} {looks : Bool} (hp : Tokenwise limit looks p)
    (hadvances : p.Advances) (hcounts : ∀ n, n.isFailure = true → counts n = true)
    (h : p.GetsTo counts size t) : (many p).GetsTo counts size t := by
  rcases h with ⟨n, hn, hbeyond⟩ | ⟨a, u, ha, hbeyond⟩
  · exact Or.inl ⟨n, Outcome.subset_repeatedNotes hn, hbeyond⟩
  · exact many_right ha (hadvances ha) ((Tokenwise.many hadvances hp).getsTo hcounts hbeyond)

end GetsTo

end Production

/-! ## Reading alike up to the fork -/

/-- The outcomes are the same, and both texts still fork. -/
inductive Outcome.Alongside {α : Type} (old new : Text) : Outcome α → Outcome α → Prop
  | matched (a : α) {u y : Text} : Fork old new u y →
      Alongside old new (.matched a u) (.matched a y)
  | missed {u y : Text} : Fork old new u y → Alongside old new (.missed u) (.missed y)
  | gaveUp : Alongside old new .gaveUp .gaveUp

/-- In the second text no note was made beyond the fork. Whatever was expected there in the
    first text is not met in the second one, and something was expected there too. -/
structure Note.Alongside (old new : Text) (notes notes' : List Note) : Prop where
  before : ∀ n ∈ notes', new.byteSize ≤ n.ahead.byteSize
  unmet : ∀ e, .expected e old ∈ notes → ¬e.IsMet new
  expected : ∀ e, .expected e old ∈ notes → ∃ e', .expected e' new ∈ notes'

/-- What the second text goes on with was asked for in the first one. A minus sign alone
    counts where an arrow was asked for. -/
def Note.Invites (old new : Text) (notes : List Note) : Prop :=
  (∃ e, .expected e old ∈ notes ∧ e.IsMet new) ∨
    (∃ u, new.token? = some (.symbol .minus, u)) ∧
      (.expected .leftArrow old ∈ notes ∨ .expected .rightArrow old ∈ notes)

theorem Note.Invites.mono {old new : Text} {notes notes' : List Note} (h : Invites old new notes)
    (hsub : notes ⊆ notes') : Invites old new notes' := by
  rcases h with ⟨e, he, hmet⟩ | ⟨hminus, h | h⟩
  · exact Or.inl ⟨e, hsub he, hmet⟩
  · exact Or.inr ⟨hminus, Or.inl (hsub h)⟩
  · exact Or.inr ⟨hminus, Or.inr (hsub h)⟩

theorem Note.Alongside.append {old new : Text} {notes notes' more more' : List Note}
    (h : Alongside old new notes notes') (h' : Alongside old new more more') :
    Alongside old new (notes ++ more) (notes' ++ more') where
  before := List.forall_mem_append.2 ⟨h.before, h'.before⟩
  unmet e he := (List.mem_append.1 he).elim (h.unmet e) (h'.unmet e)
  expected e he := by
    rcases List.mem_append.1 he with he | he
    · obtain ⟨e', he'⟩ := h.expected e he
      exact ⟨e', List.mem_append_left _ he'⟩
    · obtain ⟨e', he'⟩ := h'.expected e he
      exact ⟨e', List.mem_append_right _ he'⟩

theorem Note.Alongside.nil (old new : Text) : Alongside old new [] [] :=
  ⟨nofun, nofun, nofun⟩

/-- Notes before the fork. -/
theorem Note.Alongside.of_before {old new t x : Text} {notes notes' : List Note}
    (hold : old.byteSize < t.byteSize) (hnew : new.byteSize ≤ x.byteSize)
    (hnotes : ∀ n ∈ notes, n.ahead = t) (hnotes' : ∀ n ∈ notes', n.ahead = x) :
    Alongside old new notes notes' := by
  have hno : ∀ e, Note.expected e old ∉ notes := by
    intro e he
    have heq : old = t := hnotes _ he
    rw [heq] at hold
    exact absurd hold (Nat.lt_irrefl _)
  exact ⟨fun n hn => by rw [hnotes' n hn]; exact hnew, fun e he => absurd he (hno e),
    fun e he => absurd he (hno e)⟩

namespace Production

variable {α β : Type} {old new t x : Text}

/-- The production does the same on both texts and does not get beyond the fork. -/
structure Alongside (old new : Text) (p : Production α) (t x : Text) : Prop where
  outcome : (p.outcome t).Alongside old new (p.outcome x)
  notes : Note.Alongside old new (p.notes t) (p.notes x)

/-- Both texts are read alike, or the reading of one gets beyond the fork. -/
def Forks (old new : Text) (p : Production α) (t x : Text) : Prop :=
  p.Alongside old new t x ∨ p.Beyond t old ∨
    p.Beyond x new ∧ (new.IsSingle → Note.Invites old new (p.notes t))

namespace Forks

theorem of_alongside {p : Production α} (h : p.Alongside old new t x) : p.Forks old new t x :=
  Or.inl h

theorem of_matched {p : Production α} {a : α} {u : Text} (h : p.outcome t = .matched a u)
    (hlt : u.dropBlanks.byteSize < old.byteSize) : p.Forks old new t x :=
  Or.inr (Or.inl (Or.inr ⟨a, u, h, hlt⟩))

theorem andThen {limit : Nat} {looks : Bool} {p : Production α} {f : α → Production β}
    (hf : ∀ a, Tokenwise limit looks (f a)) (hp : p.Forks old new t x)
    (hnext : ∀ a u y, Fork old new u y → (f a).Forks old new u y) :
    (p >>= f).Forks old new t x := by
  rcases hp with hp | hp | ⟨hp, hinvites⟩
  · have ho := hp.outcome
    have hn := hp.notes
    generalize ht : p.outcome t = o, hx : p.outcome x = o' at ho
    cases ho with
    | @matched a u y hfork =>
      rcases hnext a u y hfork with hq | hq | ⟨hq, hinvites⟩
      · refine of_alongside ⟨?_, ?_⟩
        · simpa only [bind, Production.outcome, ht, hx, Outcome.andThen] using hq.outcome
        · rw [notes_bind, notes_bind, ht, hx]
          exact hn.append hq.notes
      · exact Or.inr (Or.inl (.andThen_right ht hq))
      · refine Or.inr (Or.inr ⟨.andThen_right hx hq, fun hsingle => ?_⟩)
        refine (hinvites hsingle).mono fun n hn => ?_
        exact mem_notes_bind.2 (Or.inr ⟨a, u, ht, hn⟩)
    | missed hfork =>
      refine of_alongside ⟨?_, ?_⟩
      · simpa only [bind, Production.outcome, ht, hx, Outcome.andThen] using .missed hfork
      · rw [notes_bind, notes_bind, ht, hx]
        exact hn.append (.nil old new)
    | gaveUp =>
      refine of_alongside ⟨?_, ?_⟩
      · simpa only [bind, Production.outcome, ht, hx, Outcome.andThen] using .gaveUp
      · rw [notes_bind, notes_bind, ht, hx]
        exact hn.append (.nil old new)
  · exact Or.inr (Or.inl (hp.andThen_left hf fun _ _ => rfl))
  · refine Or.inr (Or.inr ⟨hp.andThen_left hf (fun _ _ => rfl), fun hsingle => ?_⟩)
    refine (hinvites hsingle).mono ?_
    exact fun n hn => mem_notes_bind.2 (Or.inl hn)

theorem orTry {p q : Production α} (hp : p.Forks old new t x)
    (hnext : ∀ u y, Fork old new u y → q.Forks old new u y) : (p <|> q).Forks old new t x := by
  rcases hp with hp | hp | ⟨hp, hinvites⟩
  · have ho := hp.outcome
    have hn := hp.notes
    generalize ht : p.outcome t = o, hx : p.outcome x = o' at ho
    cases ho with
    | @missed u y hfork =>
      rcases hnext u y hfork with hq | hq | ⟨hq, hinvites⟩
      · refine of_alongside ⟨?_, ?_⟩
        · simpa only [outcome_orElse, ht, hx, Outcome.orTry] using hq.outcome
        · rw [notes_orElse, notes_orElse, ht, hx]
          exact hn.append hq.notes
      · exact Or.inr (Or.inl (.orTry_right ht hq))
      · refine Or.inr (Or.inr ⟨.orTry_right hx hq, fun hsingle => ?_⟩)
        refine (hinvites hsingle).mono fun n hn => ?_
        exact mem_notes_orElse.2 (Or.inr ⟨u, ht, hn⟩)
    | matched a hfork =>
      refine of_alongside ⟨?_, ?_⟩
      · simpa only [outcome_orElse, ht, hx, Outcome.orTry] using .matched a hfork
      · rw [notes_orElse, notes_orElse, ht, hx]
        exact hn.append (.nil old new)
    | gaveUp =>
      refine of_alongside ⟨?_, ?_⟩
      · simpa only [outcome_orElse, ht, hx, Outcome.orTry] using .gaveUp
      · rw [notes_orElse, notes_orElse, ht, hx]
        exact hn.append (.nil old new)
  · exact Or.inr (Or.inl hp.orTry_left)
  · refine Or.inr (Or.inr ⟨hp.orTry_left, fun hsingle => (hinvites hsingle).mono ?_⟩)
    exact fun n hn => mem_notes_orElse.2 (Or.inl hn)

theorem attempt {p : Production α} (h : Fork old new t x) (hp : p.Forks old new t x) :
    (Production.attempt p).Forks old new t x := by
  rcases hp with hp | hp | ⟨hp, hinvites⟩
  · refine of_alongside ⟨?_, hp.notes⟩
    have ho := hp.outcome
    simp only [Production.outcome]
    generalize p.outcome t = o, p.outcome x = o' at ho
    cases ho with
    | matched a hfork => exact .matched a hfork
    | missed _ => exact .missed h
    | gaveUp => exact .gaveUp
  · exact Or.inr (Or.inl hp.attempt)
  · exact Or.inr (Or.inr ⟨hp.attempt, hinvites⟩)

theorem maybe {p : Production α} (hp : p.Forks old new t x) :
    (Production.maybe p).Forks old new t x := by
  rcases hp with hp | hp | ⟨hp, hinvites⟩
  · refine of_alongside ⟨?_, hp.notes⟩
    have ho := hp.outcome
    simp only [Production.outcome]
    generalize p.outcome t = o, p.outcome x = o' at ho
    cases ho with
    | matched a hfork => exact .matched (some a) hfork
    | missed hfork => exact .matched none hfork
    | gaveUp => exact .gaveUp
  · exact Or.inr (Or.inl hp.maybe)
  · exact Or.inr (Or.inr ⟨hp.maybe, hinvites⟩)

theorem lookahead {p : Production α} (h : Fork old new t x) (hp : p.Forks old new t x) :
    (Production.lookahead p).Forks old new t x := by
  rcases hp with hp | hp | ⟨hp, hinvites⟩
  · have ho := hp.outcome
    have hn := hp.notes
    refine of_alongside ⟨?_, ?_⟩
    · simp only [Production.outcome]
      generalize p.outcome t = o, p.outcome x = o' at ho
      cases ho with
      | matched a _ => exact .matched true h
      | missed _ => exact .matched false h
      | gaveUp => exact .gaveUp
    · simp only [Production.notes]
      refine hn.append ?_
      generalize p.outcome t = o, p.outcome x = o' at ho
      cases ho with
      | @matched a u y hfork =>
        refine ⟨?_, ?_, ?_⟩ <;> simp only [Outcome.onMatch, List.mem_singleton, reduceCtorEq]
        · rintro n rfl
          exact hfork.le_byteSize.2
        · exact fun e hno => hno.elim
        · exact fun e hno => hno.elim
      | missed _ => exact .nil old new
      | gaveUp => exact .nil old new
  · exact Or.inr (Or.inl hp.lookahead)
  · refine Or.inr (Or.inr ⟨hp.lookahead, fun hsingle => (hinvites hsingle).mono ?_⟩)
    exact fun n hn => mem_notes_lookahead.2 (Or.inl hn)

theorem many {limit : Nat} {looks : Bool} {p : Production α} (hadvances : p.Advances)
    (htokens : Tokenwise limit looks p)
    (hp : ∀ u y, Fork old new u y → p.Forks old new u y) (h : Fork old new t x) :
    (Production.many p).Forks old new t x := by
  induction hlength : t.length using Nat.strongRecOn generalizing t x with
  | ind n ih =>
    rcases hp t x h with hround | hround | ⟨hround, hinvites⟩
    · have ho := hround.outcome
      have hn := hround.notes
      generalize ht : p.outcome t = o, hx : p.outcome x = o' at ho
      cases ho with
      | @matched a u y hfork =>
        have hnotes : (Production.many p).notes t = p.notes t ++ (Production.many p).notes u :=
          Outcome.repeatedNotes_of_matched ht (hadvances ht)
        have hnotes' : (Production.many p).notes x = p.notes x ++ (Production.many p).notes y :=
          Outcome.repeatedNotes_of_matched hx (hadvances hx)
        rcases ih _ (hlength ▸ hadvances ht) hfork rfl with hmore | hmore | ⟨hmore, hinvites⟩
        · refine of_alongside ⟨?_, by rw [hnotes, hnotes']; exact hn.append hmore.notes⟩
          have hrest := hmore.outcome
          simp only [Production.outcome] at hrest ⊢
          rw [Outcome.repeated_of_matched ht (hadvances ht),
            Outcome.repeated_of_matched hx (hadvances hx)]
          generalize Outcome.repeated p.outcome u = r, Outcome.repeated p.outcome y = r' at hrest
          cases hrest with
          | matched as hfork => exact .matched (a :: as) hfork
          | missed hfork => exact .missed hfork
          | gaveUp => exact .gaveUp
        · exact Or.inr (Or.inl (.many_right ht (hadvances ht) hmore))
        · refine Or.inr (Or.inr ⟨.many_right hx (hadvances hx) hmore, fun hsingle => ?_⟩)
          refine (hinvites hsingle).mono fun n hn => ?_
          rw [hnotes]
          exact List.mem_append_right _ hn
      | missed _ =>
        refine of_alongside ⟨?_, ?_⟩
        · simp only [Production.outcome]
          rw [Outcome.repeated_of_missed ht, Outcome.repeated_of_missed hx]
          exact .matched [] h
        · simp only [Production.notes]
          rwa [Outcome.repeatedNotes_of_ne_matched (by simp [ht]),
            Outcome.repeatedNotes_of_ne_matched (by simp [hx])]
      | gaveUp =>
        refine of_alongside ⟨?_, ?_⟩
        · simp only [Production.outcome]
          rw [Outcome.repeated_of_gaveUp ht, Outcome.repeated_of_gaveUp hx]
          exact .gaveUp
        · simp only [Production.notes]
          rwa [Outcome.repeatedNotes_of_ne_matched (by simp [ht]),
            Outcome.repeatedNotes_of_ne_matched (by simp [hx])]
    · exact Or.inr (Or.inl (hround.many_left htokens hadvances fun _ _ => rfl))
    · refine Or.inr (Or.inr
        ⟨hround.many_left htokens hadvances (fun _ _ => rfl), fun hsingle => ?_⟩)
      exact (hinvites hsingle).mono Outcome.subset_repeatedNotes

end Forks

/-! ## Single readings -/

/-- A reading that makes notes only where it stands, and stays there if it misses. -/
structure IsLeaf (p : Production α) : Prop where
  stays : p.Stays
  tokens : ∀ {t a u}, p.outcome t = .matched a u → u.dropBlanks.byteSize < t.dropBlanks.byteSize
  goesOn : ∀ t, p.outcome t ≠ .gaveUp
  ahead : ∀ {t}, ∀ n ∈ p.notes t, n.ahead = t.dropBlanks

namespace IsLeaf

variable {p : Production α}

theorem missed_of_not_matched (hp : IsLeaf p) (h : ∀ a u, p.outcome t ≠ .matched a u) :
    p.outcome t = .missed t := by
  cases ho : p.outcome t with
  | matched a u => exact absurd ho (h a u)
  | missed u => rw [hp.stays ho]
  | gaveUp => exact absurd ho (hp.goesOn t)

/-- Before the fork, only the outcomes have to be compared. -/
theorem forks_before (hp : IsLeaf p) (h : Fork old new t x)
    (hlt : old.byteSize < t.dropBlanks.byteSize)
    (hmatched : ∀ a u, p.outcome t = .matched a u →
      (∃ y, p.outcome x = .matched a y ∧ Fork old new u y) ∨
        u.dropBlanks.byteSize < old.byteSize)
    (hmatched' : ∀ a y, p.outcome x = .matched a y → ∃ b u, p.outcome t = .matched b u) :
    p.Forks old new t x := by
  have hnotes : Note.Alongside old new (p.notes t) (p.notes x) :=
    .of_before hlt h.le_byteSize.2 hp.ahead hp.ahead
  cases ho : p.outcome t with
  | matched a u =>
    rcases hmatched a u ho with ⟨y, hy, hfork⟩ | hbeyond
    · exact .of_alongside ⟨by rw [ho, hy]; exact .matched a hfork, hnotes⟩
    · exact .of_matched ho hbeyond
  | missed u =>
    have hx : p.outcome x = .missed x := hp.missed_of_not_matched fun a y hy => by
      obtain ⟨b, v, hv⟩ := hmatched' a y hy
      rw [ho] at hv
      cases hv
    obtain rfl := hp.stays ho
    exact .of_alongside ⟨by rw [ho, hx]; exact .missed h, hnotes⟩
  | gaveUp => exact absurd ho (hp.goesOn t)

/-- At the fork, what either text goes on with is taken, or what was expected is noted. -/
theorem forks_here (hp : IsLeaf p) (ht : t.dropBlanks = old) (hx : x.dropBlanks = new)
    (hnone : x.adjacentToken? = none)
    (hmiss : ∀ {t}, p.outcome t = .missed t → ∃ e, .expected e t.dropBlanks ∈ p.notes t)
    (hunmet : ∀ e, p.outcome x = .missed x → p.outcome t = .missed t →
      .expected e old ∈ p.notes t → ¬e.IsMet new)
    (hinvites : ∀ a y, new.IsSingle → p.outcome x = .matched a y → p.outcome t = .missed t →
      Note.Invites old new (p.notes t)) : p.Forks old new t x := by
  by_cases hmatched : ∃ a u, p.outcome t = .matched a u
  · obtain ⟨a, u, hu⟩ := hmatched
    exact .of_matched hu (ht ▸ hp.tokens hu)
  have hold : p.outcome t = .missed t :=
    hp.missed_of_not_matched fun a u hu => hmatched ⟨a, u, hu⟩
  by_cases hmatched' : ∃ a y, p.outcome x = .matched a y
  · obtain ⟨a, y, hy⟩ := hmatched'
    exact Or.inr (Or.inr ⟨Or.inr ⟨a, y, hy, hx ▸ hp.tokens hy⟩,
      fun hsingle => hinvites a y hsingle hy hold⟩)
  · have hnew : p.outcome x = .missed x :=
      hp.missed_of_not_matched fun a u hu => hmatched' ⟨a, u, hu⟩
    refine .of_alongside ⟨by rw [hold, hnew]; exact .missed (.here ht hx hnone), ?_⟩
    refine ⟨fun n hn => ?_, fun e he => hunmet e hnew hold he, fun e he => ?_⟩
    · rw [hp.ahead n hn, hx]
    · rw [← hx]
      exact hmiss hnew

end IsLeaf

theorem isLeaf_token (e : Expectation) (accept : TokenKind → Option α) :
    IsLeaf (token e accept) where
  stays := stays_token e accept
  tokens h := by
    obtain ⟨kind, hkind, -⟩ := outcome_token_eq_matched.1 h
    exact Nat.lt_of_le_of_lt (Text.byteSize_dropBlanks_le _) (Text.byteSize_lt_of_token? hkind)
  goesOn t h := by
    obtain ⟨l, ahead, hn⟩ := outcome_eq_gaveUp_iff.1 h
    cases (mem_notes_token.1 hn).1
  ahead n hn := by rw [(mem_notes_token.1 hn).1]; rfl

theorem forks_token {e : Expectation} {accept : TokenKind → Option α}
    (haccepts : ∀ kind, (accept kind).isSome = e.accepts kind) (hplain : e.isPlain = true)
    (h : Fork old new t x) : (token e accept).Forks old new t x := by
  have hleaf := isLeaf_token e accept
  cases h with
  | here ht hx hnone =>
    subst ht hx
    refine hleaf.forks_here rfl rfl hnone
      (fun hmiss => ⟨e, mem_notes_token.2 ⟨rfl, _, hmiss⟩⟩) ?_ ?_
    · intro e' hmiss _ he' hmet
      obtain ⟨⟨⟩, -⟩ := mem_notes_token.1 he'
      rw [e.isMet_dropBlanks, e.isMet_iff_of_isPlain hplain] at hmet
      obtain ⟨kind, u, hu, hkind⟩ := hmet
      rw [← haccepts, (outcome_token_eq_missed.1 hmiss).2 kind u hu] at hkind
      cases hkind
    · intro a y _ hy hmiss
      refine Or.inl ⟨e, mem_notes_token.2 ⟨rfl, _, hmiss⟩, ?_⟩
      obtain ⟨kind, hkind, ha⟩ := outcome_token_eq_matched.1 hy
      rw [e.isMet_dropBlanks, e.isMet_iff_of_isPlain hplain]
      exact ⟨kind, y, hkind, by rw [← haccepts, ha]; rfl⟩
  | @token t x u y kind ht hx hcase hblank hrest =>
    refine hleaf.forks_before (.token ht hx hcase hblank hrest) (hrest.lt_of_token? ht) ?_ ?_
    · intro a v hv
      obtain ⟨kind', hkind', ha⟩ := outcome_token_eq_matched.1 hv
      rw [ht] at hkind'
      cases hkind'
      exact Or.inl ⟨y, outcome_token_eq_matched.2 ⟨kind, hx, ha⟩, hrest⟩
    · intro a z hz
      obtain ⟨kind', hkind', ha⟩ := outcome_token_eq_matched.1 hz
      rw [hx] at hkind'
      cases hkind'
      exact ⟨a, u, outcome_token_eq_matched.2 ⟨kind, ht, ha⟩⟩

/-! ## Marks and numbers -/

section

variable {e : Expectation} {first second : Symbol} {a b : α}

theorem isLeaf_mark : IsLeaf (mark e first second a b) where
  stays := stays_mark
  tokens {t c u} h := by
    have hle := Text.byteSize_dropBlanks_le u
    rcases outcome_mark_eq_matched.1 h with ⟨-, v, hv, hu⟩ | ⟨-, hu, -⟩
    · have hlt := Text.byteSize_lt_of_token? hv
      have hlt' := Text.byteSize_lt_of_token? (Text.adjacentToken?_eq_some_iff.1 hu).2
      have hle' := Text.byteSize_dropBlanks_le v
      omega
    · exact Nat.lt_of_le_of_lt hle (Text.byteSize_lt_of_token? hu)
  goesOn t h := by
    obtain ⟨l, ahead, hn⟩ := outcome_eq_gaveUp_iff.1 h
    rcases mem_notes_mark hn with h | h <;> cases h
  ahead n hn := by rcases mem_notes_mark hn with rfl | rfl <;> rfl

theorem forks_mark (he : ∀ t, e.IsMet t ↔ ∃ u v, t.token? = some (.symbol first, u) ∧
      u.adjacentToken? = some (.symbol second, v)) (harrow : e = .leftArrow ∨ e = .rightArrow)
    (h : Fork old new t x) : (mark e first second a b).Forks old new t x := by
  have hleaf : IsLeaf (mark e first second a b) := isLeaf_mark
  cases h with
  | here ht hx hnone =>
    subst ht hx
    refine hleaf.forks_here rfl rfl hnone (fun hmiss => ⟨e, expected_mem_notes_mark hmiss⟩) ?_ ?_
    · intro e' hmiss _ he' hmet
      have hno : ∀ c u, (mark e first second a b).outcome x ≠ .matched c u := by simp [hmiss]
      rw [e'.isMet_dropBlanks] at hmet
      -- a mark that is met, as an arrow or as a minus sign, would have been read
      by_cases harrow : ∃ u v, x.token? = some (.symbol first, u) ∧
          u.adjacentToken? = some (.symbol second, v)
      · obtain ⟨u, v, hu, hv⟩ := harrow
        exact hno a v (outcome_mark_eq_matched.2 (Or.inl ⟨rfl, u, hu, hv⟩))
      · rcases mem_notes_mark he' with ⟨⟨⟩⟩ | ⟨⟨⟩⟩
        · exact harrow ((he x).1 hmet)
        · obtain ⟨u, -, -, hu, -⟩ := hmet
          exact hno b u (outcome_mark_eq_matched.2
            (Or.inr ⟨rfl, hu, fun v w hv hw => harrow ⟨v, w, hv, hw⟩⟩))
    · intro c y hsingle hy hmiss
      have hnote := expected_mem_notes_mark hmiss
      rcases outcome_mark_eq_matched.1 hy with ⟨-, v, hv, hu⟩ | ⟨-, hu, -⟩
      · rw [← Text.token?_dropBlanks] at hv
        rw [hsingle _ _ hv] at hu
        cases hu
      · rw [← Text.token?_dropBlanks] at hu
        refine Or.inr ⟨⟨y, hu⟩, ?_⟩
        rcases harrow with rfl | rfl
        exacts [Or.inl hnote, Or.inr hnote]
  | @token t x u y kind ht hx hcase hblank hrest =>
    -- before the fork, the texts differ in the second token of an arrow at most
    refine hleaf.forks_before (.token ht hx hcase hblank hrest) (hrest.lt_of_token? ht) ?_ ?_
    · intro c v hv
      rcases outcome_mark_eq_matched.1 hv with ⟨rfl, w, hw, hv⟩ | ⟨rfl, hv, hno⟩
      · rw [ht] at hw
        cases hw
        refine (hrest.adjacent_of_left hv).imp_left ?_
        rintro ⟨z, hz, hfork⟩
        exact ⟨z, outcome_mark_eq_matched.2 (Or.inl ⟨rfl, y, hx, hz⟩), hfork⟩
      · rw [ht] at hv
        cases hv
        refine Or.inl ⟨y, outcome_mark_eq_matched.2 (Or.inr ⟨rfl, hx, fun z w hz hw => ?_⟩), hrest⟩
        rw [hx] at hz
        cases hz
        obtain ⟨v, hv⟩ := hrest.adjacent_of_right hw
        exact hno u v ht hv
    · intro c z hz
      by_cases harrow : ∃ v w, t.token? = some (.symbol first, v) ∧
          v.adjacentToken? = some (.symbol second, w)
      · obtain ⟨v, w, hv, hw⟩ := harrow
        exact ⟨a, w, outcome_mark_eq_matched.2 (Or.inl ⟨rfl, v, hv, hw⟩)⟩
      · rcases outcome_mark_eq_matched.1 hz with ⟨rfl, w, hw, hz⟩ | ⟨rfl, hz, -⟩
        · rw [hx] at hw
          cases hw
          obtain ⟨v, hv⟩ := hrest.adjacent_of_right hz
          exact absurd ⟨u, v, ht, hv⟩ harrow
        · rw [hx] at hz
          cases hz
          exact ⟨c, u, outcome_mark_eq_matched.2
            (Or.inr ⟨rfl, ht, fun v w hv hw => harrow ⟨v, w, hv, hw⟩⟩)⟩

end

theorem mem_notes_number {n : Note} (h : n ∈ number.notes t) :
    n = .expected (.symbol .minus) t.dropBlanks ∨ n = .expected .number t.dropBlanks := by
  rcases mem_notes_orElse.1 h with hn | ⟨u, hu, hn⟩
  · rcases mem_notes_bind.1 hn with hn | ⟨_, u, -, hn⟩
    · exact Or.inl (mem_notes_token.1 hn).1
    · rcases mem_notes_bind.1 hn with hn | ⟨_, v, -, hn⟩ <;> cases hn
  · obtain rfl := stays_attempt _ hu
    exact Or.inr (mem_notes_token.1 hn).1

theorem expected_mem_notes_number (h : number.outcome t = .missed t) :
    .expected .number t.dropBlanks ∈ number.notes t := by
  obtain ⟨u, hu, hmiss⟩ := outcome_orElse_eq_missed.1 h
  obtain rfl := stays_attempt _ hu
  exact mem_notes_orElse.2 (Or.inr ⟨u, hu, mem_notes_token.2 ⟨rfl, u, hmiss⟩⟩)

theorem isLeaf_number : IsLeaf number where
  stays := stays_number
  tokens {t text u} h := by
    have hle := Text.byteSize_dropBlanks_le u
    rcases outcome_number_eq_matched.1 h with hu | ⟨v, digits, -, hv, hu⟩
    · exact Nat.lt_of_le_of_lt hle (Text.byteSize_lt_of_token? hu)
    · have hlt := Text.byteSize_lt_of_token? hv
      have hlt' := Text.byteSize_lt_of_token? (Text.adjacentToken?_eq_some_iff.1 hu).2
      have hle' := Text.byteSize_dropBlanks_le v
      omega
  goesOn t h := by
    obtain ⟨l, ahead, hn⟩ := outcome_eq_gaveUp_iff.1 h
    rcases mem_notes_number hn with h | h <;> cases h
  ahead n hn := by rcases mem_notes_number hn with rfl | rfl <;> rfl

theorem forks_number (h : Fork old new t x) : number.Forks old new t x := by
  cases h with
  | here ht hx hnone =>
    subst ht hx
    refine isLeaf_number.forks_here rfl rfl hnone
      (fun hmiss => ⟨_, expected_mem_notes_number hmiss⟩) ?_ ?_
    · intro e hmiss _ he hmet
      have hno : ∀ text u, number.outcome x ≠ .matched text u := by simp [hmiss]
      rw [e.isMet_dropBlanks] at hmet
      rcases mem_notes_number he with ⟨⟨⟩⟩ | ⟨⟨⟩⟩
      · obtain ⟨u, digits, v, hu, hv⟩ := hmet
        exact hno _ v (outcome_number_eq_matched.2 (Or.inr ⟨u, digits, rfl, hu, hv⟩))
      · obtain ⟨kind, u, hu, hkind⟩ := hmet
        cases kind with
        | number text => exact hno text u (outcome_number_eq_matched.2 (Or.inl hu))
        | _ => cases hkind
    · intro text y hsingle hy hmiss
      rcases outcome_number_eq_matched.1 hy with hu | ⟨v, digits, -, hv, hu⟩
      · refine Or.inl ⟨.number, expected_mem_notes_number hmiss, ?_⟩
        rw [Expectation.isMet_dropBlanks]
        exact ⟨_, y, hu, rfl⟩
      · rw [← Text.token?_dropBlanks] at hv
        rw [hsingle _ _ hv] at hu
        cases hu
  | @token t x u y kind ht hx hcase hblank hrest =>
    refine isLeaf_number.forks_before (.token ht hx hcase hblank hrest)
      (hrest.lt_of_token? ht) ?_ ?_
    · intro text v hv
      rcases outcome_number_eq_matched.1 hv with hv | ⟨w, digits, rfl, hw, hv⟩
      · rw [ht] at hv
        cases hv
        exact Or.inl ⟨y, outcome_number_eq_matched.2 (Or.inl hx), hrest⟩
      · rw [ht] at hw
        cases hw
        refine (hrest.adjacent_of_left hv).imp_left ?_
        rintro ⟨z, hz, hfork⟩
        exact ⟨z, outcome_number_eq_matched.2 (Or.inr ⟨y, digits, rfl, hx, hz⟩), hfork⟩
    · intro text z hz
      rcases outcome_number_eq_matched.1 hz with hz | ⟨w, digits, rfl, hw, hz⟩
      · rw [hx] at hz
        cases hz
        exact ⟨text, u, outcome_number_eq_matched.2 (Or.inl ht)⟩
      · rw [hx] at hw
        cases hw
        obtain ⟨v, hv⟩ := hrest.adjacent_of_right hz
        exact ⟨_, v, outcome_number_eq_matched.2 (Or.inr ⟨u, digits, rfl, ht, hv⟩)⟩

/-! ## All of them -/

/-- A verbatim expression is not read: the word `CASE` is not among the tokens, unless it is
    the last one of the second text. -/
theorem forks_caseExpression (hold : ∀ u, ¬KeywordAt .case_ old u)
    (hnew : ∀ word u, new.token? = some (.identifier word, u) → u = []) (h : Fork old new t x) :
    caseExpression.Forks old new t x := by
  have hno : ∀ {t u : Text} {kind : TokenKind}, t.token? = some (kind, u) →
      kind.isWord Keyword.case_.written = false → ∀ v, ¬KeywordAt .case_ t v := by
    rintro t u kind ht hkind v ⟨word, hword, hcase⟩
    rw [ht] at hword
    cases hword
    rw [TokenKind.isWord, TokenKind.identifier?, Option.any_some, hcase] at hkind
    cases hkind
  cases h with
  | here ht hx hnone =>
    have hcase : ∀ u, ¬KeywordAt .case_ t u := by
      rintro u ⟨word, hword, hcase⟩
      rw [← Text.token?_dropBlanks, ht] at hword
      exact hold u ⟨word, hword, hcase⟩
    obtain ⟨hmiss, hnotes⟩ := caseExpression_of_not_keywordAt hcase
    by_cases hcase' : ∃ u, KeywordAt .case_ x u
    · obtain ⟨u, word, hword, heq⟩ := hcase'
      have hkeyword : (keyword .case_).outcome x = .matched word u :=
        outcome_keyword_eq_matched.2 ⟨hword, heq⟩
      have hlt := Text.byteSize_lt_of_token? hword
      rw [hx] at hlt
      rw [← Text.token?_dropBlanks, hx] at hword
      obtain rfl := hnew word u hword
      refine Or.inr (Or.inr ⟨.of_note (n := .expected (.keyword .end_) []) ?_ hlt, fun _ => ?_⟩)
      · refine mem_notes_bind.2 (Or.inr ⟨word, [], hkeyword, mem_notes_bind.2 (Or.inl ?_)⟩)
        exact mem_notes_caseRest.2 ⟨rfl, [], rfl⟩
      · refine Or.inl ⟨.keyword .case_, by rw [hnotes, ht]; exact List.mem_singleton.2 rfl, ?_⟩
        exact ⟨_, [], hword, heq⟩
    · obtain ⟨hmiss', hnotes'⟩ := caseExpression_of_not_keywordAt fun u hu => hcase' ⟨u, hu⟩
      refine .of_alongside ⟨by rw [hmiss, hmiss']; exact .missed (.here ht hx hnone), ?_⟩
      rw [hnotes, hnotes', ht, hx]
      refine ⟨fun n hn => ?_, fun e he => ?_, fun e he => ⟨_, List.mem_singleton.2 rfl⟩⟩
      · rw [List.mem_singleton.1 hn]
        exact Nat.le_refl _
      · cases List.mem_singleton.1 he
        rintro ⟨kind, u, hu, hkind⟩
        cases kind with
        | identifier word =>
          rw [← hx, Text.token?_dropBlanks] at hu
          exact hcase' ⟨u, word, hu, hkind⟩
        | _ => cases hkind
  | token ht hx hcase hblank hrest =>
    have hfork := Fork.token ht hx hcase hblank hrest
    obtain ⟨hmiss, hnotes⟩ := caseExpression_of_not_keywordAt (hno ht hcase)
    obtain ⟨hmiss', hnotes'⟩ := caseExpression_of_not_keywordAt (hno hx hcase)
    refine .of_alongside ⟨by rw [hmiss, hmiss']; exact .missed hfork, ?_⟩
    rw [hnotes, hnotes']
    refine .of_before (hrest.lt_of_token? ht) hfork.le_byteSize.2 ?_ ?_
    · intro n hn; rw [List.mem_singleton.1 hn]; rfl
    · intro n hn; rw [List.mem_singleton.1 hn]; rfl

/-- Productions that read tokens do the same on both texts, up to the fork. -/
theorem Tokenwise.forks {limit : Nat} {looks : Bool} {p : Production α}
    (hp : Tokenwise limit looks p) (hold : ∀ u, ¬KeywordAt .case_ old u)
    (hnew : ∀ word u, new.token? = some (.identifier word, u) → u = []) (h : Fork old new t x) :
    p.Forks old new t x := by
  induction hp generalizing t x with
  | succeed a => exact .of_alongside ⟨.matched a h, .nil old new⟩
  | andThen _ hf ihp ihf => exact .andThen hf (ihp h) fun a u y hfork => ihf a hfork
  | orTry _ _ ihp ihq => exact .orTry (ihp h) fun u y hfork => ihq hfork
  | attempt _ ih => exact .attempt h (ih h)
  | maybe _ ih => exact .maybe (ih h)
  | lookahead _ _ ih => exact .lookahead h (ih h)
  | many hadvances hp ih => exact .many hadvances hp (fun u y hfork => ih hfork) h
  | token haccepts hplain => exact forks_token haccepts hplain h
  | leftMark => exact forks_mark (fun _ => Iff.rfl) (Or.inl rfl) h
  | rightMark => exact forks_mark (fun _ => Iff.rfl) (Or.inr rfl) h
  | number => exact forks_number h
  | caseExpression => exact forks_caseExpression hold hnew h
  | tooDeep =>
    refine .of_alongside ⟨.gaveUp, ?_, ?_, ?_⟩
    · intro n hn; rw [List.mem_singleton.1 hn]; exact h.le_byteSize.2
    · intro e he; cases List.mem_singleton.1 he
    · intro e he; cases List.mem_singleton.1 he

end Production

end Cypher
