/-
  Notes — what is written down while a text is read.

  Beside its outcome, reading a text leaves notes behind: each expectation that
  failed, with the text that lay ahead of it, and where the query was given up.
  Like the outcome they depend on the text alone, and the error to report is
  determined by them.

  * `Production.notes` are the notes on a text, by recursion on the production;
  * `bears_run`: a run from a state that is not given up ends with the furthest
    failure and the fatal error that the notes say;
  * `Query.parse_eq`: a text is read as a query, or the notes on it are reported;
  * `Furthest.Of`: which expectations are reported, and at which place.
-/
import Cypher.Proofs.Matching
import Mathlib.Data.List.DropRight
import Mathlib.Data.List.Induction

namespace Cypher

/-! ## Notes -/

/-- Something written down while a text is read. `ahead` is the text from the next
    character on that is not blank. -/
inductive Note where
  /-- An expectation failed. -/
  | expected (e : Expectation) (ahead : Text)
  /-- The query was given up: calls and groups are nested more than `limit` deep. -/
  | tooDeep (limit : Nat) (ahead : Text)
  /-- A lookahead was a match up to here. It has no part in what is reported. -/
  | looked (ahead : Text)
  deriving DecidableEq

/-- The text that lay ahead. -/
def Note.ahead : Note → Text
  | expected _ ahead | tooDeep _ ahead | looked ahead => ahead

/-- The note is about something that failed. -/
def Note.isFailure : Note → Bool
  | expected .. | tooDeep .. => true
  | looked _ => false

namespace Outcome

variable {α : Type}

/-- The notes of going on with `f` after a match. -/
def onMatch (f : α → Text → List Note) : Outcome α → List Note
  | matched a rest => f a rest
  | missed _ | gaveUp => []

/-- The notes of going on with `g` after a miss. -/
def onMiss (g : Text → List Note) : Outcome α → List Note
  | missed rest => g rest
  | matched .. | gaveUp => []

/-- The notes of reading as often as there is a match. -/
def repeatedNotes (read : Text → Outcome α) (notes : Text → List Note) (t : Text) : List Note :=
  match read t with
  | matched _ rest =>
    if rest.length < t.length then notes t ++ repeatedNotes read notes rest else notes t
  | missed _ | gaveUp => notes t
termination_by t.length

section

variable {read : Text → Outcome α} {notes : Text → List Note} {t u : Text} {a : α}

theorem repeated_of_matched (h : read t = matched a u) (hlt : u.length < t.length) :
    repeated read t = (repeated read u).map (a :: ·) := by
  rw [repeated, h]
  simp only [hlt, if_true]

theorem repeated_of_missed (h : read t = missed u) : repeated read t = matched [] t := by
  rw [repeated, h]

theorem repeated_of_gaveUp (h : read t = gaveUp) : repeated read t = gaveUp := by
  rw [repeated, h]

theorem repeatedNotes_of_matched (h : read t = matched a u) (hlt : u.length < t.length) :
    repeatedNotes read notes t = notes t ++ repeatedNotes read notes u := by
  rw [repeatedNotes, h]
  simp only [hlt, if_true]

theorem repeatedNotes_of_ne_matched (h : ∀ a u, read t ≠ matched a u) :
    repeatedNotes read notes t = notes t := by
  rw [repeatedNotes]
  split
  · rename_i hmatched; exact absurd hmatched (h _ _)
  · rfl
  · rfl

/-- The notes of the first round are among those of all rounds. -/
theorem subset_repeatedNotes : notes t ⊆ repeatedNotes read notes t := by
  rw [repeatedNotes]
  split
  · split
    · exact List.subset_append_left _ _
    · exact List.Subset.refl _
  · exact List.Subset.refl _
  · exact List.Subset.refl _

end

end Outcome

/-- What a production writes down while it reads a text, up to where it gives up. -/
def Production.notes {α : Type} : Production α → Text → List Note
  | .succeed _ => fun _ => []
  | .andThen p f => fun t => p.notes t ++ (p.outcome t).onMatch fun a rest => (f a).notes rest
  | .orTry p q => fun t => p.notes t ++ (p.outcome t).onMiss q.notes
  | .attempt p => p.notes
  | .maybe p => p.notes
  | .lookahead p => fun t =>
    p.notes t ++ (p.outcome t).onMatch fun _ rest => [.looked rest.dropBlanks]
  | .many p => Outcome.repeatedNotes p.outcome p.notes
  | .token e accept => fun t =>
    ((Production.token e accept).outcome t).onMiss fun _ => [.expected e t.dropBlanks]
  | .adjacent _ => fun _ => []
  | .arrow e first second => fun t =>
    ((Production.arrow e first second).outcome t).onMiss fun _ => [.expected e t.dropBlanks]
  | .endOfInput => fun t =>
    (Production.endOfInput.outcome t).onMiss fun _ => [.expected .endOfInput t.dropBlanks]
  | .startBody => fun t => (Production.startBody.outcome t).onMiss fun _ => [.expected .clause []]
  | .caseRest word => fun t =>
    ((Production.caseRest word).outcome t).onMiss fun _ => [.expected (.keyword .end_) []]
  | .tooDeep limit => fun t => [.tooDeep limit t.dropBlanks]

-- The equations are derived once, before the proofs that open notes by them.
attribute [local simp] Production.notes

/-! ## What the notes report -/

/-- The place in a text of `size` bytes where its last part `ahead` begins. -/
def Cursor.before (size : Nat) (ahead : Text) : Cursor :=
  ⟨size - ahead.byteSize, ahead⟩

/-- The cursor is at a place of a text of `size` bytes. -/
def Cursor.EndsAt (size : Nat) (c : Cursor) : Prop :=
  c.offset + c.rest.byteSize = size

/-- The furthest failure after a note on a text of `size` bytes. -/
def Furthest.note (size : Nat) (f : Furthest) : Note → Furthest
  | .expected e ahead => f.record (.before size ahead) e
  | .tooDeep .. | .looked _ => f

/-- The error that a note on a text of `size` bytes makes the result. -/
def Note.error? (size : Nat) : Note → Option SyntaxError
  | tooDeep limit ahead =>
    some (.nestingTooDeep limit ⟨size - ahead.byteSize, size - ahead.byteSize + 1⟩)
  | expected .. | looked _ => none

/-- The furthest failure on a text with these notes. -/
def Furthest.ofNotes (source : Text) (notes : List Note) : Furthest :=
  notes.foldl (Furthest.note source.byteSize) ⟨.start source, []⟩

/-- The error to report on a text with these notes. -/
def Note.report (source : Text) (notes : List Note) : SyntaxError :=
  (notes.findSome? (Note.error? source.byteSize)).getD (Furthest.ofNotes source notes).error

/-! ## Places -/

namespace Cursor

variable {size : Nat} {c : Cursor}

theorem EndsAt.eq_before (h : c.EndsAt size) : c = before size c.rest := by
  obtain ⟨offset, rest⟩ := c
  simp only [EndsAt] at h
  simp only [before, mk.injEq, and_true]
  omega

theorem EndsAt.advance {taken rest : Text} (h : c.EndsAt size) (hrest : c.rest = taken ++ rest) :
    (c.advance taken rest).EndsAt size := by
  simp only [EndsAt, hrest, Text.byteSize_append] at h
  simp only [EndsAt, Cursor.advance]
  omega

theorem EndsAt.skipBlanks (h : c.EndsAt size) : c.skipBlanks.EndsAt size :=
  h.advance (Text.takeWhile_append_dropBlanks c.rest).symm

theorem EndsAt.skipBlanks_eq (h : c.EndsAt size) : c.skipBlanks = before size c.rest.dropBlanks :=
  h.skipBlanks.eq_before

theorem EndsAt.toEnd_eq (h : c.EndsAt size) : c.toEnd = before size [] :=
  (h.advance (List.append_nil _).symm).eq_before

theorem EndsAt.next? {item : Item} {after : Cursor} (h : c.EndsAt size)
    (hnext : c.next? = some (item, after)) : after.EndsAt size := by
  obtain ⟨hrest, -, -, hoffset⟩ := next?_eq_some hnext
  have hskip := h.skipBlanks
  simp only [EndsAt, hrest, Text.byteSize_append] at hskip
  simp only [EndsAt, hoffset]
  omega

theorem EndsAt.adjacent? {kind : TokenKind} {after : Cursor} (h : c.EndsAt size)
    (hadj : c.adjacent? = some (kind, after)) : after.EndsAt size := by
  unfold Cursor.adjacent? at hadj
  split at hadj
  · rename_i hnext
    split at hadj
    · cases hadj; exact h.next? hnext
    · cases hadj
  · cases hadj

theorem EndsAt.afterPair? {first second : Symbol} {after : Cursor} (h : c.EndsAt size)
    (hpair : c.afterPair? first second = some after) : after.EndsAt size := by
  unfold Cursor.afterPair? at hpair
  split at hpair
  · rename_i hnext
    split at hpair
    · split at hpair
      · rename_i hadj
        split at hpair
        · cases hpair; exact (h.next? hnext).adjacent? hadj
        · cases hpair
      · cases hpair
    · cases hpair
  · cases hpair

end Cursor

namespace Reading

variable {α : Type} {size : Nat} {s : State}

theorem endsAt_attempt {read : Reading α}
    (hread : ∀ {s : State}, s.cursor.EndsAt size → (read s).2.cursor.EndsAt size)
    (h : s.cursor.EndsAt size) : (attempt read s).2.cursor.EndsAt size := by
  have hs := hread h
  unfold attempt
  split
  · exact h
  · split
    · rename_i heq; rw [heq] at hs; exact hs
    · exact h

theorem endsAt_repeated {read : Reading α}
    (hread : ∀ {s : State}, s.cursor.EndsAt size → (read s).2.cursor.EndsAt size)
    (h : s.cursor.EndsAt size) : (repeated read s).2.cursor.EndsAt size := by
  fun_induction repeated read s with
  | case1 s s' heq =>
    have hs := endsAt_attempt (s := s) hread h
    rwa [heq] at hs
  | case2 s a s' heq hlt as s'' hrep ih =>
    have hs := endsAt_attempt (s := s) hread h
    rw [heq] at hs
    have := ih hs
    rwa [hrep] at this
  | case3 s a s' heq hlt =>
    have hs := endsAt_attempt (s := s) hread h
    rwa [heq] at hs

end Reading

/-- A run stays inside the text. -/
theorem Production.endsAt_run {α : Type} (p : Production α) {size : Nat} {s : State}
    (h : s.cursor.EndsAt size) : (p.run s).2.cursor.EndsAt size := by
  induction p generalizing s with
  | succeed a => exact h
  | andThen p f ihp ihf =>
    have hp := ihp h
    simp only [run]
    split
    · rename_i a s' heq; rw [heq] at hp; exact ihf a hp
    · rename_i s' heq; rw [heq] at hp; exact hp
  | orTry p q ihp ihq =>
    have hp := ihp h
    simp only [run]
    split
    · rename_i a s' heq; rw [heq] at hp; exact hp
    · rename_i s' heq; rw [heq] at hp; exact ihq hp
  | attempt p ih => exact Reading.endsAt_attempt (fun h => ih h) h
  | maybe p ih => exact ih h
  | lookahead p ih => exact h
  | many p ih => exact Reading.endsAt_repeated (fun h => ih h) h
  | token e accept =>
    simp only [run, Reading.token]
    split
    · rename_i hnext
      split
      · exact h.next? hnext
      · exact h
    · exact h
  | adjacent accept =>
    simp only [run, Reading.adjacent]
    split
    · rename_i hadj
      split
      · exact h.adjacent? hadj
      · exact h
    · exact h
  | arrow e first second =>
    simp only [run, Reading.arrow]
    split
    · rename_i hpair; exact h.afterPair? hpair
    · exact h
  | endOfInput => simp only [run, Reading.endOfInput]; split <;> exact h
  | startBody =>
    simp only [run, Reading.startBody]
    split
    · rename_i hsplit; exact h.advance (Text.splitAtStartFrom?_eq_some hsplit).1
    · exact h
  | caseRest word =>
    simp only [run, Reading.caseRest]
    split
    · rename_i before rest hsplit
      refine h.advance ?_
      rw [List.append_assoc, List.take_append_drop]
      exact (Text.splitAtStartFrom?_eq_some hsplit).1
    · exact h
  | tooDeep limit => exact h

/-! ## Fatal errors -/

/-- The first fatal error stands. -/
theorem Production.fatal_run_eq {α : Type} (p : Production α) {s : State}
    (h : s.fatal.isSome = true) : (p.run s).2.fatal = s.fatal := by
  induction p generalizing s with
  | succeed a => rfl
  | andThen p f ihp ihf =>
    have hp := ihp h
    simp only [run]
    split
    · rename_i a s' heq; rw [heq] at hp; rw [ihf a (hp ▸ h), hp]
    · rename_i s' heq; rw [heq] at hp; exact hp
  | orTry p q ihp ihq =>
    have hp := ihp h
    simp only [run]
    split
    · rename_i a s' heq; rw [heq] at hp; exact hp
    · rename_i s' heq; rw [heq] at hp; rw [ihq (hp ▸ h), hp]
  | attempt p ih => simp only [run]; rw [Reading.attempt_of_fatal _ h]
  | maybe p ih => exact ih h
  | lookahead p ih => exact ih h
  | many p ih => simp only [run]; rw [Reading.repeated_of_fatal _ h]
  | token e accept => exact Reading.token_fatal e accept s
  | adjacent accept => exact Reading.adjacent_fatal accept s
  | arrow e first second => exact Reading.arrow_fatal e first second s
  | endOfInput => exact Reading.endOfInput_fatal s
  | startBody => exact Reading.startBody_fatal s
  | caseRest word => exact Reading.caseRest_fatal word s
  | tooDeep limit =>
    obtain ⟨error, herror⟩ := Option.isSome_iff_exists.1 h
    simp [run, Reading.tooDeep, State.fail, herror]

/-! ## Runs and notes -/

/-- Reading from `s` to `s'` has written down the notes. Once the query is given up
    only the fatal error counts. -/
structure Note.Bears (size : Nat) (s : State) (notes : List Note) (s' : State) : Prop where
  fatal : s'.fatal = notes.findSome? (Note.error? size)
  furthest : s'.fatal = none → s'.furthest = notes.foldl (Furthest.note size) s.furthest

namespace Note.Bears

variable {size : Nat} {s s' s'' : State} {notes more : List Note}

theorem nil (h : s.fatal = none) : Bears size s [] s :=
  ⟨h, fun _ => rfl⟩

theorem append (h : Bears size s notes s') (hnone : s'.fatal = none)
    (h' : Bears size s' more s'') : Bears size s (notes ++ more) s'' where
  fatal := by rw [List.findSome?_append, ← h.fatal, hnone, Option.none_or, h'.fatal]
  furthest hs := by rw [List.foldl_append, ← h.furthest hnone, h'.furthest hs]

/-- What happens after giving up does not count. -/
theorem of_fatal (h : Bears size s notes s') (hsome : s'.fatal.isSome = true)
    (hs : s''.fatal = s'.fatal) : Bears size s notes s'' where
  fatal := hs.trans h.fatal
  furthest hnone := by rw [hs] at hnone; rw [hnone] at hsome; cases hsome

theorem moveTo (h : Bears size s notes s') (c : Cursor) : Bears size s notes (s'.moveTo c) :=
  ⟨h.fatal, h.furthest⟩

theorem expected (h : s.fatal = none) (e : Expectation) {ahead : Text} {c : Cursor}
    (hc : c = .before size ahead) : Bears size s [.expected e ahead] (s.expectAt c e) where
  fatal := h
  furthest _ := by rw [hc]; rfl

end Note.Bears

namespace Reading

variable {α : Type} {size : Nat} {s : State}

/-- A reading that matches and records nothing, or else records one expectation. -/
theorem bears_leaf {o : Outcome α} {result : Option α × State} {e : Expectation} {ahead : Text}
    {c : Cursor} (ha : o.Agrees result) (hfatal : result.2.fatal = none)
    (hread : result.2.furthest = s.furthest ∧ result.1.isSome = true ∨
      result = (none, s.expectAt c e))
    (h : s.fatal = none) (hc : c = .before size ahead) :
    Note.Bears size s (o.onMiss fun _ => [.expected e ahead]) result.2 := by
  cases o with
  | matched a rest =>
    obtain ⟨ha, -, -⟩ := ha
    rcases hread with ⟨hf, -⟩ | rfl
    · exact ⟨hfatal, fun _ => hf⟩
    · cases ha
  | missed rest =>
    obtain ⟨ha, -, -⟩ := ha
    rcases hread with ⟨-, hsome⟩ | rfl
    · rw [ha] at hsome; cases hsome
    · exact .expected h e hc
  | gaveUp =>
    have hsome : result.2.fatal.isSome = true := ha
    rw [hfatal] at hsome
    cases hsome

theorem bears_attempt {read : Reading α} {notes : Text → List Note}
    (hbears : ∀ {s : State}, s.cursor.EndsAt size → s.fatal = none →
      Note.Bears size s (notes s.cursor.rest) (read s).2)
    (hs : s.cursor.EndsAt size) (h : s.fatal = none) :
    Note.Bears size s (notes s.cursor.rest) (attempt read s).2 := by
  have hread := hbears hs h
  simp only [attempt, h, Option.isSome_none, Bool.false_eq_true, if_false]
  split
  · rename_i heq; rwa [heq] at hread
  · rename_i heq; rw [heq] at hread; exact hread.moveTo _

theorem bears_repeated {read : Reading α} {o : Text → Outcome α} {notes : Text → List Note}
    (hends : ∀ {s : State}, s.cursor.EndsAt size → (read s).2.cursor.EndsAt size)
    (hagrees : ∀ {s : State}, s.fatal = none → (o s.cursor.rest).Agrees (read s))
    (hbears : ∀ {s : State}, s.cursor.EndsAt size → s.fatal = none →
      Note.Bears size s (notes s.cursor.rest) (read s).2)
    (hs : s.cursor.EndsAt size) (h : s.fatal = none) :
    Note.Bears size s (Outcome.repeatedNotes o notes s.cursor.rest) (repeated read s).2 := by
  fun_induction repeated read s with
  | case1 s s' heq =>
    have ha := agrees_attempt (s := s) hagrees h
    have hb := bears_attempt hbears hs h
    rw [heq] at ha hb
    rw [Outcome.repeatedNotes]
    cases ho : o s.cursor.rest with
    | matched a rest => rw [ho] at ha; exact absurd ha.1 (by simp)
    | missed rest => exact hb
    | gaveUp => exact hb
  | case2 s a s' heq hlt as s'' hrep ih =>
    have ha := agrees_attempt (s := s) hagrees h
    have hb := bears_attempt hbears hs h
    have he := endsAt_attempt hends hs
    rw [heq] at ha hb he
    rw [Outcome.repeatedNotes]
    cases ho : o s.cursor.rest with
    | matched b rest =>
      rw [ho] at ha
      obtain ⟨-, rfl, hnone⟩ := ha
      have := ih he hnone
      rw [hrep] at this
      simp only [hlt, if_true]
      exact hb.append hnone this
    | missed rest => rw [ho] at ha; exact absurd ha.1 (by simp)
    | gaveUp =>
      rw [ho] at ha
      have hstop := repeated_of_fatal read (s := s') ha
      rw [hrep] at hstop
      obtain rfl : s'' = s' := (Prod.mk.inj hstop).2
      exact hb
  | case3 s a s' heq hlt =>
    have ha := agrees_attempt (s := s) hagrees h
    have hb := bears_attempt hbears hs h
    rw [heq] at ha hb
    rw [Outcome.repeatedNotes]
    cases ho : o s.cursor.rest with
    | matched b rest =>
      rw [ho] at ha
      obtain ⟨-, rfl, -⟩ := ha
      simp only [hlt, if_false]
      exact hb
    | missed rest => exact hb
    | gaveUp => exact hb

end Reading

/-- A run from a state that is not given up writes down the notes. -/
theorem Production.bears_run {α : Type} (p : Production α) {size : Nat} {s : State}
    (hs : s.cursor.EndsAt size) (h : s.fatal = none) :
    Note.Bears size s (p.notes s.cursor.rest) (p.run s).2 := by
  induction p generalizing s with
  | succeed a => exact .nil h
  | andThen p f ihp ihf =>
    have hp := p.agrees_run h
    have hb := ihp hs h
    have he := p.endsAt_run hs
    simp only [run, notes]
    rcases hr : p.run s with ⟨_ | a, s'⟩ <;> rw [hr] at hp hb he
    · cases ho : p.outcome s.cursor.rest with
      | matched b rest => rw [ho] at hp; exact absurd hp.1 (by simp)
      | missed rest => simpa only [Outcome.onMatch, List.append_nil] using hb
      | gaveUp => simpa only [Outcome.onMatch, List.append_nil] using hb
    · cases ho : p.outcome s.cursor.rest with
      | matched b rest =>
        rw [ho] at hp
        obtain ⟨hb', rfl, hnone⟩ := hp
        obtain rfl : a = b := by simpa using hb'
        exact hb.append hnone (ihf a he hnone)
      | missed rest => rw [ho] at hp; exact absurd hp.1 (by simp)
      | gaveUp =>
        -- `p` has a value although it gave up, and `f a` is still run
        rw [ho] at hp
        simpa only [Outcome.onMatch, List.append_nil] using hb.of_fatal hp ((f a).fatal_run_eq hp)
  | orTry p q ihp ihq =>
    have hp := p.agrees_run h
    have hb := ihp hs h
    have he := p.endsAt_run hs
    simp only [run, notes]
    rcases hr : p.run s with ⟨_ | a, s'⟩ <;> rw [hr] at hp hb he
    · cases ho : p.outcome s.cursor.rest with
      | matched b rest => rw [ho] at hp; exact absurd hp.1 (by simp)
      | missed rest =>
        rw [ho] at hp
        obtain ⟨-, rfl, hnone⟩ := hp
        exact hb.append hnone (ihq he hnone)
      | gaveUp =>
        rw [ho] at hp
        simpa only [Outcome.onMiss, List.append_nil] using hb.of_fatal hp (q.fatal_run_eq hp)
    · cases ho : p.outcome s.cursor.rest with
      | matched b rest => simpa only [Outcome.onMiss, List.append_nil] using hb
      | missed rest => rw [ho] at hp; exact absurd hp.1 (by simp)
      | gaveUp => simpa only [Outcome.onMiss, List.append_nil] using hb
  | attempt p ih =>
    exact Reading.bears_attempt (fun hs h => ih hs h) hs h
  | maybe p ih => exact ih hs h
  | lookahead p ih =>
    simp only [run, notes]
    have hb := (ih hs h).moveTo s.cursor
    cases ho : p.outcome s.cursor.rest with
    | matched a rest =>
      have hp := p.agrees_run h
      rw [ho] at hp
      exact hb.append hp.2.2 ⟨hp.2.2, fun _ => rfl⟩
    | missed rest => simpa only [Outcome.onMatch, List.append_nil] using hb
    | gaveUp => simpa only [Outcome.onMatch, List.append_nil] using hb
  | many p ih =>
    exact Reading.bears_repeated (fun hs => p.endsAt_run hs) (fun h => p.agrees_run h)
      (fun hs h => ih hs h) hs h
  | token e accept =>
    refine Reading.bears_leaf (Reading.agrees_token e accept h)
      ((Reading.token_fatal e accept s).trans h) ?_ h hs.skipBlanks_eq
    simp only [run, Reading.token]
    split
    · split
      · exact Or.inl ⟨rfl, rfl⟩
      · exact Or.inr rfl
    · exact Or.inr rfl
  | adjacent accept =>
    refine ⟨(Reading.adjacent_fatal accept s).trans h, fun _ => ?_⟩
    simp only [run, Reading.adjacent]
    split
    · split <;> rfl
    · rfl
  | arrow e first second =>
    refine Reading.bears_leaf (Reading.agrees_arrow e first second h)
      ((Reading.arrow_fatal e first second s).trans h) ?_ h hs.skipBlanks_eq
    simp only [run, Reading.arrow]
    split
    · exact Or.inl ⟨rfl, rfl⟩
    · exact Or.inr rfl
  | endOfInput =>
    refine Reading.bears_leaf (Reading.agrees_endOfInput h)
      ((Reading.endOfInput_fatal s).trans h) ?_ h hs.skipBlanks_eq
    simp only [run, Reading.endOfInput]
    split
    · exact Or.inl ⟨rfl, rfl⟩
    · exact Or.inr rfl
  | startBody =>
    refine Reading.bears_leaf (Reading.agrees_startBody h)
      ((Reading.startBody_fatal s).trans h) ?_ h hs.toEnd_eq
    simp only [run, Reading.startBody]
    split
    · exact Or.inl ⟨rfl, rfl⟩
    · exact Or.inr rfl
  | caseRest word =>
    refine Reading.bears_leaf (Reading.agrees_caseRest word h)
      ((Reading.caseRest_fatal word s).trans h) ?_ h hs.toEnd_eq
    simp only [run, Reading.caseRest]
    split
    · exact Or.inl ⟨rfl, rfl⟩
    · exact Or.inr rfl
  | tooDeep limit =>
    refine ⟨?_, fun _ => rfl⟩
    simp [run, Reading.tooDeep, State.fail, h, notes, Note.error?, hs.skipBlanks_eq, Cursor.before]

/-! ## The error to report -/

/-- A production gives up iff a note says so. -/
theorem Production.outcome_eq_gaveUp_iff {α : Type} {p : Production α} {t : Text} :
    p.outcome t = .gaveUp ↔ ∃ limit ahead, Note.tooDeep limit ahead ∈ p.notes t := by
  have ha := p.agrees_run (s := .start t) rfl
  have hstart : (Cursor.start t).EndsAt t.byteSize := Nat.zero_add _
  have hb := p.bears_run (s := .start t) hstart rfl
  change (p.outcome t).Agrees _ at ha
  have hfatal : (p.run (.start t)).2.fatal.isSome = true ↔
      ∃ limit ahead, Note.tooDeep limit ahead ∈ p.notes t := by
    rw [hb.fatal, List.findSome?_isSome_iff]
    constructor
    · rintro ⟨note, hmem, herror⟩
      cases note with
      | tooDeep limit ahead => exact ⟨limit, ahead, hmem⟩
      | expected e ahead => cases herror
      | looked ahead => cases herror
    · rintro ⟨limit, ahead, hmem⟩
      exact ⟨_, hmem, rfl⟩
  rw [← hfatal]
  cases ho : p.outcome t with
  | matched a rest => rw [ho] at ha; simp [ha.2.2]
  | missed rest => rw [ho] at ha; simp [ha.2.2]
  | gaveUp => rw [ho] at ha; exact ⟨fun _ => ha, fun _ => rfl⟩

/-- A text is read as a query, or else the notes on it are reported. -/
theorem Query.parse_eq (limit : Nat) (source : Text) :
    parse limit source =
      match (Production.query limit).outcome source with
      | .matched q _ => .ok q
      | .missed _ | .gaveUp =>
        .error (Note.report source ((Production.query limit).notes source)) := by
  have ha := (Production.query limit).agrees_run (s := .start source) rfl
  have hstart : (Cursor.start source).EndsAt source.byteSize := Nat.zero_add _
  have hb := (Production.query limit).bears_run (s := .start source) hstart rfl
  have herror : ∀ {s : State}, Note.Bears source.byteSize (.start source)
      ((Production.query limit).notes source) s →
      s.error = Note.report source ((Production.query limit).notes source) := by
    intro s hs
    rw [State.error, Note.report, ← hs.fatal]
    cases hf : s.fatal with
    | none => rw [Option.getD_none, Option.getD_none, hs.furthest hf]; rfl
    | some error => rfl
  change ((Production.query limit).outcome source).Agrees _ at ha
  change Note.Bears _ _ ((Production.query limit).notes source) _ at hb
  rw [parse]
  rcases hr : (Production.query limit).run (.start source) with ⟨_ | q, s⟩ <;> rw [hr] at ha hb
  · cases ho : (Production.query limit).outcome source with
    | matched q rest => rw [ho] at ha; exact absurd ha.1 (by simp)
    | missed rest => simp only [result, herror hb]
    | gaveUp => simp only [result, herror hb]
  · cases ho : (Production.query limit).outcome source with
    | matched q' rest =>
      rw [ho] at ha
      obtain ⟨hq, -, hnone⟩ := ha
      obtain rfl : q = q' := by simpa using hq
      have hfatal : s.fatal = none := hnone
      simp [result, hfatal]
    | missed rest => rw [ho] at ha; exact absurd ha.1 (by simp)
    | gaveUp =>
      rw [ho] at ha
      have hsome : s.fatal.isSome = true := ha
      simp only [result, hsome, if_true, herror hb]

/-- Where a text is given up, that is reported. -/
theorem Note.report_of_tooDeep (source : Text) {ahead : Text} {notes : List Note} {limit : Nat}
    (h : .tooDeep limit ahead ∈ notes) : ∃ l v, .tooDeep l v ∈ notes ∧
      report source notes = .nestingTooDeep l
        ⟨source.byteSize - v.byteSize, source.byteSize - v.byteSize + 1⟩ := by
  obtain ⟨error, herror⟩ := Option.isSome_iff_exists.1
    (List.findSome?_isSome_iff.2 ⟨_, h, rfl⟩ :
      (notes.findSome? (Note.error? source.byteSize)).isSome = true)
  obtain ⟨note, hnote, heq⟩ := List.exists_of_findSome?_eq_some herror
  rw [report, herror, Option.getD_some]
  cases note with
  | expected e ahead => cases heq
  | looked ahead => cases heq
  | tooDeep l v => cases heq; exact ⟨l, v, hnote, rfl⟩

/-- Otherwise the furthest failure is reported. -/
theorem Note.report_of_not_tooDeep {source : Text} {notes : List Note}
    (h : ∀ l v, .tooDeep l v ∉ notes) :
    report source notes = (Furthest.ofNotes source notes).error := by
  have hnone : notes.findSome? (Note.error? source.byteSize) = none := by
    refine List.findSome?_eq_none_iff.2 fun note hnote => ?_
    cases note with
    | tooDeep l v => exact absurd hnote (h l v)
    | _ => rfl
  rw [report, hnone, Option.getD_none]

/-! ## Where notes are made -/

theorem Text.dropBlanks_dropBlanks (t : Text) : t.dropBlanks.dropBlanks = t.dropBlanks :=
  List.dropWhile_idempotent _ t

theorem Text.token?_dropBlanks (t : Text) : t.dropBlanks.token? = t.token? := by
  rw [token?, token?, dropBlanks_dropBlanks]

/-- What follows the blanks of a suffix is a suffix of what follows the blanks. -/
theorem Text.dropBlanks_suffix_of_suffix {u t : Text} (h : u <:+ t) :
    u.dropBlanks <:+ t.dropBlanks := by
  induction t with
  | nil =>
    obtain rfl := List.suffix_nil.1 h
    exact List.suffix_rfl
  | cons c cs ih =>
    rcases List.suffix_cons_iff.1 h with rfl | h
    · exact List.suffix_rfl
    · have hcs := ih h
      simp only [dropBlanks, List.dropWhile_cons] at hcs ⊢
      split
      · exact hcs
      · exact (List.dropWhile_suffix _).trans (h.trans (List.suffix_cons c cs))

namespace Production

variable {α β : Type}

theorem notes_bind (p : Production α) (f : α → Production β) (t : Text) :
    (p >>= f).notes t = p.notes t ++ (p.outcome t).onMatch fun a rest => (f a).notes rest := rfl

theorem notes_pure (a : α) (t : Text) : (pure a : Production α).notes t = [] := rfl

theorem notes_orElse (p q : Production α) (t : Text) :
    (p <|> q).notes t = p.notes t ++ (p.outcome t).onMiss q.notes := rfl

/-- A function of the value changes no note. -/
theorem notes_map (g : α → β) (p : Production α) (t : Text) : (g <$> p).notes t = p.notes t := by
  change p.notes t ++ (p.outcome t).onMatch (fun a rest => []) = p.notes t
  cases p.outcome t <;> simp [Outcome.onMatch]

theorem mem_notes_bind {p : Production α} {f : α → Production β} {t : Text} {note : Note} :
    note ∈ (p >>= f).notes t ↔ note ∈ p.notes t ∨
      ∃ a u, p.outcome t = .matched a u ∧ note ∈ (f a).notes u := by
  rw [notes_bind, List.mem_append]
  cases p.outcome t <;> simp [Outcome.onMatch, and_assoc]

theorem mem_notes_orElse {p q : Production α} {t : Text} {note : Note} :
    note ∈ (p <|> q).notes t ↔ note ∈ p.notes t ∨
      ∃ u, p.outcome t = .missed u ∧ note ∈ q.notes u := by
  rw [notes_orElse, List.mem_append]
  cases p.outcome t <;> simp [Outcome.onMiss]

theorem outcome_lookahead_ne_missed {p : Production α} {t rest : Text} :
    (lookahead p).outcome t ≠ .missed rest := by
  simp only [outcome]
  cases p.outcome t <;> simp [Outcome.andThen, Outcome.orTry]

theorem mem_notes_lookahead {p : Production α} {t : Text} {note : Note} :
    note ∈ (lookahead p).notes t ↔ note ∈ p.notes t ∨
      ∃ a u, p.outcome t = .matched a u ∧ note = .looked u.dropBlanks := by
  rw [notes, List.mem_append]
  cases p.outcome t <;> simp [Outcome.onMatch, and_assoc]

theorem mem_notes_token {e : Expectation} {accept : TokenKind → Option α} {t : Text}
    {note : Note} : note ∈ (token e accept).notes t ↔
      note = .expected e t.dropBlanks ∧ (token e accept).Misses t := by
  rw [notes]
  cases h : (token e accept).outcome t <;> simp [Outcome.onMiss, Misses, h]

theorem notes_token_of_misses {e : Expectation} {accept : TokenKind → Option α} {t : Text}
    (h : (token e accept).Misses t) : (token e accept).notes t = [.expected e t.dropBlanks] := by
  obtain ⟨u, hu⟩ := h
  simp only [notes, hu, Outcome.onMiss]

theorem notes_token_of_matched {e : Expectation} {accept : TokenKind → Option α} {t u : Text}
    {a : α} (h : (token e accept).outcome t = .matched a u) : (token e accept).notes t = [] := by
  simp only [notes, h, Outcome.onMiss]

theorem mem_notes_arrow {e : Expectation} {first second : Symbol} {t : Text} {note : Note} :
    note ∈ (arrow e first second).notes t ↔
      note = .expected e t.dropBlanks ∧ (arrow e first second).Misses t := by
  rw [notes]
  cases h : (arrow e first second).outcome t <;> simp [Outcome.onMiss, Misses, h]

theorem mem_notes_endOfInput {t : Text} {note : Note} :
    note ∈ endOfInput.notes t ↔
      note = .expected .endOfInput t.dropBlanks ∧ t.dropBlanks ≠ [] := by
  simp only [notes, outcome]
  split <;> simp_all [Outcome.onMiss]

theorem mem_notes_caseRest {word t : Text} {note : Note} :
    note ∈ (caseRest word).notes t ↔
      note = .expected (.keyword .end_) [] ∧ (caseRest word).Misses t := by
  rw [notes]
  cases h : (caseRest word).outcome t <;> simp [Outcome.onMiss, Misses, h]

theorem mem_notes_startBody {t : Text} {note : Note} :
    note ∈ startBody.notes t ↔ note = .expected .clause [] ∧ startBody.Misses t := by
  rw [notes]
  cases h : startBody.outcome t <;> simp [Outcome.onMiss, Misses, h]

/-- The notes of a repetition are those of its rounds. -/
theorem forall_mem_notes_many {p : Production α} (good : Text → Note → Prop)
    (hround : ∀ t, ∀ note ∈ p.notes t, good t note)
    (hback : ∀ {t u a note}, p.outcome t = .matched a u → good u note → good t note) (t : Text) :
    ∀ note ∈ (many p).notes t, good t note := by
  rw [notes]
  fun_induction Outcome.repeatedNotes p.outcome p.notes t with
  | case1 t a u hp hlt ih =>
    intro note hnote
    rcases List.mem_append.1 hnote with hnote | hnote
    exacts [hround t note hnote, hback hp (ih note hnote)]
  | case2 t a u hp hlt => exact hround t
  | case3 t u hp => exact hround t
  | case4 t hp => exact hround t

/-- A note is made at a suffix of the text, before a character that is not blank. -/
theorem ahead_of_mem_notes (p : Production α) {t : Text} :
    ∀ note ∈ p.notes t, note.ahead <:+ t.dropBlanks ∧ note.ahead.dropBlanks = note.ahead := by
  have hnext : ∀ {t u : Text} {note : Note}, u <:+ t →
      note.ahead <:+ u.dropBlanks ∧ note.ahead.dropBlanks = note.ahead →
      note.ahead <:+ t.dropBlanks ∧ note.ahead.dropBlanks = note.ahead :=
    fun hsuffix hnote => ⟨hnote.1.trans (Text.dropBlanks_suffix_of_suffix hsuffix), hnote.2⟩
  induction p generalizing t with
  | succeed a => intro note hnote; cases hnote
  | andThen p f ihp ihf =>
    intro note hnote
    rcases mem_notes_bind.1 hnote with hnote | ⟨a, u, hp, hnote⟩
    exacts [ihp note hnote, hnext ((suffix_of_outcome p).1 a hp) (ihf a note hnote)]
  | orTry p q ihp ihq =>
    intro note hnote
    rcases mem_notes_orElse.1 hnote with hnote | ⟨u, hp, hnote⟩
    exacts [ihp note hnote, hnext ((suffix_of_outcome p).2 hp) (ihq note hnote)]
  | attempt p ih => exact ih
  | maybe p ih => exact ih
  | lookahead p ih =>
    intro note hnote
    rcases mem_notes_lookahead.1 hnote with hnote | ⟨a, u, hp, rfl⟩
    · exact ih note hnote
    · exact hnext ((suffix_of_outcome p).1 a hp)
        ⟨List.suffix_rfl, Text.dropBlanks_dropBlanks u⟩
  | many p ih =>
    exact forall_mem_notes_many _ (fun t => ih (t := t))
      (fun hp hnote => hnext ((suffix_of_outcome p).1 _ hp) hnote) t
  | token e accept =>
    intro note hnote
    rw [(mem_notes_token.1 hnote).1]
    exact ⟨List.suffix_rfl, Text.dropBlanks_dropBlanks t⟩
  | adjacent accept => intro note hnote; cases hnote
  | arrow e first second =>
    intro note hnote
    rw [(mem_notes_arrow.1 hnote).1]
    exact ⟨List.suffix_rfl, Text.dropBlanks_dropBlanks t⟩
  | endOfInput =>
    intro note hnote
    rw [(mem_notes_endOfInput.1 hnote).1]
    exact ⟨List.suffix_rfl, Text.dropBlanks_dropBlanks t⟩
  | startBody =>
    intro note hnote
    rw [(mem_notes_startBody.1 hnote).1]
    exact ⟨List.nil_suffix, rfl⟩
  | caseRest word =>
    intro note hnote
    rw [(mem_notes_caseRest.1 hnote).1]
    exact ⟨List.nil_suffix, rfl⟩
  | tooDeep limit =>
    intro note hnote
    rw [List.mem_singleton.1 hnote]
    exact ⟨List.suffix_rfl, Text.dropBlanks_dropBlanks t⟩

end Production

/-! ## The furthest failure -/

/-- A suffix is determined by its size. -/
theorem Text.eq_of_suffix_of_byteSize {u v t : Text} (hu : u <:+ t) (hv : v <:+ t)
    (h : u.byteSize = v.byteSize) : u = v := by
  have heq : ∀ {x y : Text}, x <:+ y → x.byteSize = y.byteSize → x = y := by
    rintro x y ⟨z, rfl⟩ hsize
    have hz : byteSize z = 0 := by rw [byteSize_append] at hsize; omega
    rw [byteSize_eq_zero_iff.1 hz, List.nil_append]
  rcases List.suffix_or_suffix_of_suffix hu hv with hsuffix | hsuffix
  exacts [heq hsuffix h, (heq hsuffix h.symm).symm]

theorem Text.byteSize_le_of_suffix {u t : Text} (h : u <:+ t) : u.byteSize ≤ t.byteSize := by
  obtain ⟨z, rfl⟩ := h
  rw [byteSize_append]
  omega

theorem Text.byteSize_dropBlanks_le (t : Text) : t.dropBlanks.byteSize ≤ t.byteSize :=
  byteSize_le_of_suffix (dropBlanks_suffix t)

/-- A token takes up space. -/
theorem Text.byteSize_lt_of_token? {t u : Text} {kind : TokenKind}
    (h : t.token? = some (kind, u)) : u.byteSize < t.dropBlanks.byteSize := by
  have hpos : byteSize kind.written ≠ 0 := fun hzero =>
    written_ne_nil_of_token? h (byteSize_eq_zero_iff.1 hzero)
  rw [dropBlanks_of_token? h, byteSize_append]
  omega

/-- The failure `f` is the furthest one of the notes: none of them lies further on than its
    place, and it lists what was expected there. -/
structure Furthest.Of (source : Text) (notes : List Note) (f : Furthest) (place : Text) : Prop where
  cursor : f.cursor = .before source.byteSize place
  suffix : place <:+ source
  furthest : ∀ e ahead, Note.expected e ahead ∈ notes → place.byteSize ≤ ahead.byteSize
  expected : ∀ e, e ∈ f.expected ↔ Note.expected e place ∈ notes
  started : f.expected = [] → place = source

theorem Furthest.of_record {source ahead place : Text} {notes : List Note} {f : Furthest}
    {e : Expectation} (h : Of source notes f place) (hahead : ahead <:+ source) :
    ∃ place, Of source (notes ++ [.expected e ahead])
      (f.record (.before source.byteSize ahead) e) place := by
  have hplace := Text.byteSize_le_of_suffix h.suffix
  have hsize := Text.byteSize_le_of_suffix hahead
  have hmem : ∀ {e' u}, Note.expected e' u ∈ notes ++ [.expected e ahead] ↔
      Note.expected e' u ∈ notes ∨ e' = e ∧ u = ahead := by
    simp
  have hoffset : f.cursor.offset = source.byteSize - place.byteSize := by rw [h.cursor]; rfl
  simp only [record, hoffset, Cursor.before]
  split
  · -- further on than all notes before
    have hlt : ahead.byteSize < place.byteSize := by omega
    refine ⟨ahead, rfl, hahead, fun e' u hu => ?_, fun e' => ?_, by simp⟩
    · rcases hmem.1 hu with hu | ⟨-, rfl⟩
      · exact Nat.le_of_lt (Nat.lt_of_lt_of_le hlt (h.furthest e' u hu))
      · exact Nat.le_refl _
    · rw [hmem, List.mem_singleton]
      refine ⟨fun he => Or.inr ⟨he, rfl⟩, fun he => ?_⟩
      rcases he with he | ⟨he, -⟩
      · exact absurd (h.furthest e' ahead he) (by omega)
      · exact he
  · have hle : place.byteSize ≤ ahead.byteSize := by omega
    have hfurthest : ∀ e' u, Note.expected e' u ∈ notes ++ [.expected e ahead] →
        place.byteSize ≤ u.byteSize := by
      intro e' u hu
      rcases hmem.1 hu with hu | ⟨-, rfl⟩
      exacts [h.furthest e' u hu, hle]
    split
    · -- at the same place
      rename_i hsame
      obtain rfl : ahead = place :=
        Text.eq_of_suffix_of_byteSize hahead h.suffix (by omega)
      refine ⟨ahead, h.cursor, h.suffix, hfurthest, fun e' => ?_, by simp⟩
      rw [hmem, List.mem_append, List.mem_singleton, h.expected, and_iff_left rfl]
    · -- before it, or known already
      rename_i hsame
      refine ⟨place, h.cursor, h.suffix, hfurthest, fun e' => ?_, h.started⟩
      · rw [hmem, h.expected]
        refine ⟨Or.inl, fun he => ?_⟩
        rcases he with he | ⟨rfl, rfl⟩
        · exact he
        · by_contra hnot
          exact hsame ⟨rfl, fun hin => hnot ((h.expected e').1 hin)⟩

/-- A note that is not about an expectation changes nothing. -/
theorem Furthest.Of.append_other {source place : Text} {notes : List Note} {f : Furthest}
    {note : Note} (h : Of source notes f place) (hnote : ∀ e ahead, note ≠ .expected e ahead) :
    Of source (notes ++ [note]) f place := by
  have hmem : ∀ {e u}, Note.expected e u ∈ notes ++ [note] ↔ Note.expected e u ∈ notes := by
    intro e u
    rw [List.mem_append, List.mem_singleton, or_iff_left fun heq => hnote e u heq.symm]
  exact ⟨h.cursor, h.suffix, fun e u hu => h.furthest e u (hmem.1 hu),
    fun e => (h.expected e).trans hmem.symm, h.started⟩

/-- The furthest failure of the notes on a text, and its place. -/
theorem Furthest.exists_of_notes {source : Text} {notes : List Note}
    (h : ∀ note ∈ notes, note.ahead <:+ source) :
    ∃ place, Of source notes (ofNotes source notes) place := by
  induction notes using List.reverseRecOn with
  | nil =>
    refine ⟨source, ?_, List.suffix_rfl, by simp, by simp [ofNotes], fun _ => rfl⟩
    simp [ofNotes, Cursor.start, Cursor.before]
  | append_singleton notes note ih =>
    rw [List.forall_mem_append, List.forall_mem_singleton] at h
    obtain ⟨place, hplace⟩ := ih h.1
    rw [ofNotes, List.foldl_append]
    cases note with
    | expected e ahead => exact of_record hplace h.2
    | tooDeep limit ahead => exact ⟨place, hplace.append_other (by simp)⟩
    | looked ahead => exact ⟨place, hplace.append_other (by simp)⟩

/-- Where something was expected, something is listed. -/
theorem Furthest.Of.exists_expected {source place : Text} {notes : List Note} {f : Furthest}
    (h : Of source notes f place) (hsuffix : ∀ note ∈ notes, note.ahead <:+ source)
    {e : Expectation} {ahead : Text} (hnote : Note.expected e ahead ∈ notes) :
    ∃ e', Note.expected e' place ∈ notes := by
  cases hlist : f.expected with
  | cons e' es => exact ⟨e', (h.expected e').1 (by simp [hlist])⟩
  | nil =>
    have hplace := h.started hlist
    have hle := h.furthest e ahead hnote
    rw [hplace] at hle
    have hahead : ahead = source := Text.eq_of_suffix_of_byteSize (hsuffix _ hnote) List.suffix_rfl
      (Nat.le_antisymm (Text.byteSize_le_of_suffix (hsuffix _ hnote)) hle)
    exact ⟨e, by rw [hplace, ← hahead]; exact hnote⟩

end Cypher
