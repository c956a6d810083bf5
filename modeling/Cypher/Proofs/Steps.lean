/-
  Step by step — the states that a run of a production goes through.

  A run is made of small steps: tokens are read, text is taken over verbatim, an expectation is
  recorded, or the query is given up. Between them the cursor goes back to where an alternative
  began.

  * `Cursor.Takes`: one cursor lies ahead of another, with the text between them;
  * `State.TokenStep` and `State.Step`: all that an elementary reading does to a state
    (`Reading.tokenStep_token` to `Reading.step_caseRest`);
  * `Production.states`: the states of a run, in order. They lead from where it starts to where it
    ends, without a gap (`trail_states`);
  * `Production.Keeps`: an invariant holds in all states of a run. It does if every step and
    going back keep it (`keeps_of_step`).
-/
import Cypher.Proofs.Partition

namespace Cypher

/-! ## Cursors ahead -/

namespace Cursor

variable {c d e after : Cursor} {source taken s t : Text} {item : Item} {items : List Item}

/-- From `c` on stands the text `taken`, and `d` is right behind it. -/
def Takes (c : Cursor) (taken : Text) (d : Cursor) : Prop :=
  c.rest = taken ++ d.rest ∧ d.offset = c.offset + taken.byteSize

theorem takes_nil (c : Cursor) : c.Takes [] c :=
  ⟨rfl, rfl⟩

theorem Takes.append (h : c.Takes s d) (h' : d.Takes t e) : c.Takes (s ++ t) e := by
  obtain ⟨hrest, hoffset⟩ := h
  obtain ⟨hrest', hoffset'⟩ := h'
  exact ⟨by rw [hrest, hrest', List.append_assoc],
    by rw [hoffset', hoffset, Text.byteSize_append, Nat.add_assoc]⟩

theorem takes_advance {rest : Text} (h : c.rest = taken ++ rest) :
    c.Takes taken (c.advance taken rest) :=
  ⟨h, rfl⟩

theorem takes_skipBlanks (c : Cursor) : c.Takes (c.rest.takeWhile Text.isBlank) c.skipBlanks :=
  takes_advance (Text.takeWhile_append_dropBlanks c.rest).symm

theorem takes_toEnd (c : Cursor) : c.Takes c.rest c.toEnd :=
  takes_advance (List.append_nil _).symm

theorem takes_of_next? (h : c.next? = some (item, after)) :
    c.Takes (c.rest.takeWhile Text.isBlank ++ item.lexeme.written) after := by
  obtain ⟨hrest, -, -, hoffset⟩ := next?_eq_some h
  exact c.takes_skipBlanks.append ⟨hrest, hoffset⟩

/-- Items that are read take some text. -/
theorem Reads.takes (h : Reads c items d) :
    ∃ taken, c.Takes taken d ∧ (items ≠ [] → taken ≠ []) := by
  induction h with
  | done c => exact ⟨[], c.takes_nil, fun hne => absurd rfl hne⟩
  | step hnext _ ih =>
    obtain ⟨taken, htaken, -⟩ := ih
    refine ⟨_, (takes_of_next? hnext).append htaken, fun _ hnil => ?_⟩
    exact (next?_eq_some hnext).2.1 (List.append_eq_nil_iff.1 (List.append_eq_nil_iff.1 hnil).1).2

theorem IsIn.takes (h : c.IsIn source) (htakes : c.Takes taken d) : d.IsIn source := by
  obtain ⟨before, hsource, hoffset⟩ := h
  refine ⟨before ++ taken, ?_, ?_⟩
  · rw [hsource, htakes.1, List.append_assoc]
  · rw [htakes.2, hoffset, Text.byteSize_append]

theorem Takes.offset_le (h : c.Takes taken d) : c.offset ≤ d.offset := by
  rw [h.2]
  exact Nat.le_add_right _ _

theorem Takes.offset_lt_iff (h : c.Takes taken d) : c.offset < d.offset ↔ taken ≠ [] := by
  rw [h.2, ne_eq, ← Text.byteSize_eq_zero_iff]
  omega

theorem Takes.length_rest (h : c.Takes taken d) : c.rest.length = taken.length + d.rest.length := by
  rw [h.1, List.length_append]

/-! ## One token, and two next to each other -/

theorem next?_of_adjacent? {kind : TokenKind} (h : c.adjacent? = some (kind, after)) :
    ∃ span, c.next? = some (⟨.token kind, span⟩, after) := by
  unfold adjacent? at h
  split at h
  · rename_i kind' span after' hnext
    split at h
    · cases h; exact ⟨span, hnext⟩
    · cases h
  · cases h

theorem reads_of_afterPair? {first second : Symbol} (h : c.afterPair? first second = some after) :
    ∃ span span', Reads c [⟨.token (.symbol first), span⟩, ⟨.token (.symbol second), span'⟩]
      after := by
  unfold afterPair? at h
  split at h
  · rename_i kind span between hnext
    split at h
    · rename_i hfirst
      split at h
      · rename_i kind' after' hadj
        split at h
        · rename_i hsecond
          cases h
          obtain ⟨span', hnext'⟩ := next?_of_adjacent? hadj
          exact ⟨span, span', .step (hfirst ▸ hnext) (.step (hsecond ▸ hnext') (.done _))⟩
        · cases h
      · cases h
    · cases h
  · cases h

end Cursor

/-! ## Steps -/

namespace State

/-- What reading token by token does to a state at once. -/
inductive TokenStep (s : State) : State → Prop
  | stay : TokenStep s s
  | tokens {items : List Item} {c : Cursor} : s.cursor.Reads items c → items ≠ [] →
      (∀ item ∈ items, item.token?.isSome = true) → TokenStep s (s.moveTo c)
  | expected {taken : Text} {c : Cursor} (e : Expectation) : s.cursor.Takes taken c →
      TokenStep s (s.expectAt c e)
  | gaveUp (error : SyntaxError) : TokenStep s (s.fail error)

/-- What an elementary reading does to a state at once. -/
inductive Step (s : State) : State → Prop
  | token {s' : State} : s.TokenStep s' → Step s s'
  | verbatim {taken : Text} {c : Cursor} (part : Capture) : s.cursor.Takes taken c →
      Step s ((s.capture part).moveTo c)

theorem tokenStep_expect (s : State) (e : Expectation) : s.TokenStep (s.expect e) :=
  .expected e s.cursor.takes_skipBlanks

theorem tokenStep_of_next? {s : State} {kind : TokenKind} {span : Span} {after : Cursor}
    (h : s.cursor.next? = some (⟨.token kind, span⟩, after)) : s.TokenStep (s.moveTo after) :=
  .tokens (.step h (.done after)) (by simp) (by simp [Item.token?])

end State

namespace Reading

variable {α : Type}

theorem tokenStep_token (e : Expectation) (accept : TokenKind → Option α) (s : State) :
    s.TokenStep (token e accept s).2 := by
  unfold token
  split
  · rename_i hnext
    split
    · exact State.tokenStep_of_next? hnext
    · exact s.tokenStep_expect e
  · exact s.tokenStep_expect e

theorem tokenStep_adjacent (accept : TokenKind → Option α) (s : State) :
    s.TokenStep (adjacent accept s).2 := by
  unfold adjacent
  split
  · rename_i hadj
    obtain ⟨span, hnext⟩ := Cursor.next?_of_adjacent? hadj
    split
    · exact State.tokenStep_of_next? hnext
    · exact .stay
  · exact .stay

theorem tokenStep_arrow (e : Expectation) (first second : Symbol) (s : State) :
    s.TokenStep (arrow e first second s).2 := by
  unfold arrow
  split
  · rename_i hpair
    obtain ⟨span, span', hreads⟩ := Cursor.reads_of_afterPair? hpair
    exact .tokens hreads (by simp) (by simp [Item.token?])
  · exact s.tokenStep_expect e

theorem tokenStep_endOfInput (s : State) : s.TokenStep (endOfInput s).2 := by
  unfold endOfInput
  split
  · exact .stay
  · exact s.tokenStep_expect .endOfInput

theorem tokenStep_tooDeep (limit : Nat) (s : State) :
    s.TokenStep (tooDeep limit s : Option α × State).2 :=
  .gaveUp _

theorem step_startBody (s : State) : s.Step (startBody s).2 := by
  unfold startBody
  split
  · rename_i hsplit
    exact .verbatim _ (Cursor.takes_advance (Text.splitAtStartFrom?_eq_some hsplit).1)
  · exact .token (.expected _ s.cursor.takes_toEnd)

theorem step_caseRest (word : Text) (s : State) : s.Step (caseRest word s).2 := by
  unfold caseRest
  split
  · rename_i before rest hsplit
    refine .verbatim _ (Cursor.takes_advance ?_)
    rw [List.append_assoc, List.take_append_drop]
    exact (Text.splitAtStartFrom?_eq_some hsplit).1
  · exact .token (.expected _ s.cursor.takes_toEnd)

/-! ## The states of a run -/

/-- The states of an elementary reading. -/
def states (read : Reading α) (s : State) : List State :=
  [s, (read s).2]

/-- The states of an attempt: those of reading, and where it ends. -/
def attemptStates (read : Reading α) (within : State → List State) (s : State) : List State :=
  if s.fatal.isSome then [s] else within s ++ [(attempt read s).2]

/-- The states of reading as often as there is a match, and once more in vain. -/
def repeatedStates (read : Reading α) (within : State → List State) (s : State) : List State :=
  attemptStates read within s ++
    match attempt read s with
    | (none, _) => []
    | (some _, s') =>
      if s'.cursor.rest.length < s.cursor.rest.length then repeatedStates read within s' else []
termination_by s.cursor.rest.length

end Reading

/-- The states that the run of a production from a state goes through, in order. -/
def Production.states {α : Type} : Production α → State → List State
  | .succeed _ => fun s => [s]
  | .andThen p f => fun s => p.states s ++
    match p.run s with
    | (some a, s') => (f a).states s'
    | (none, _) => []
  | .orTry p q => fun s => p.states s ++
    match p.run s with
    | (some _, _) => []
    | (none, s') => q.states s'
  | .attempt p => Reading.attemptStates p.run p.states
  | .maybe p => p.states
  | .lookahead p => fun s => p.states s ++ [(p.run s).2.moveTo s.cursor]
  | .many p => Reading.repeatedStates p.run p.states
  | .token e accept => Reading.states (Reading.token e accept)
  | .adjacent accept => Reading.states (Reading.adjacent accept)
  | .arrow e first second => Reading.states (Reading.arrow e first second)
  | .endOfInput => Reading.states Reading.endOfInput
  | .startBody => Reading.states Reading.startBody
  | .caseRest word => Reading.states (Reading.caseRest word)
  | .tooDeep limit => Reading.states (Reading.tooDeep limit : Reading α)

/-! ## No gaps -/

/-- The states lead from the first one to the last one. Each arises from the one before it by a
    step, or by moving the cursor. -/
inductive State.Trail : State → List State → State → Prop
  | here (s : State) : Trail s [s] s
  | step {s t u : State} {states : List State} : s.Step t → Trail t states u →
      Trail s (s :: states) u
  | back {s u : State} {c : Cursor} {states : List State} : Trail (s.moveTo c) states u →
      Trail s (s :: states) u

namespace State.Trail

variable {s t u : State} {states more : List State}

theorem append (h : Trail s states t) (h' : Trail t more u) : Trail s (states ++ more) u := by
  induction h with
  | here s => exact .step (.token .stay) h'
  | step hstep _ ih => exact .step hstep (ih h')
  | back _ ih => exact .back (ih h')

theorem moveTo (h : Trail s states t) (c : Cursor) :
    Trail s (states ++ [t.moveTo c]) (t.moveTo c) := by
  induction h with
  | here s => exact .back (.here _)
  | step hstep _ ih => exact .step hstep ih
  | back _ ih => exact .back ih

theorem last_mem (h : Trail s states t) : t ∈ states := by
  induction h with
  | here s => exact List.mem_singleton_self s
  | step _ _ ih => exact List.mem_cons_of_mem _ ih
  | back _ ih => exact List.mem_cons_of_mem _ ih

end State.Trail

namespace Reading

variable {α : Type} {read : Reading α} {within : State → List State}

theorem trail_of_step {s : State} (h : s.Step (read s).2) :
    State.Trail s (states read s) (read s).2 :=
  .step h (.here _)

theorem trail_attempt (h : ∀ s, State.Trail s (within s) (read s).2) (s : State) :
    State.Trail s (attemptStates read within s) (attempt read s).2 := by
  have hs := h s
  unfold attemptStates attempt
  split
  · exact .here s
  · rcases hread : read s with ⟨_ | a, s'⟩ <;> rw [hread] at hs
    · exact hs.moveTo s.cursor
    · exact hs.append (.here s')

theorem trail_repeated (h : ∀ s, State.Trail s (within s) (read s).2) (s : State) :
    State.Trail s (repeatedStates read within s) (repeated read s).2 := by
  fun_induction repeated read s with
  | case1 s s' heq =>
    have hs := trail_attempt h s
    rw [repeatedStates, heq]
    rw [heq] at hs
    simpa using hs
  | case2 s a s' heq hlt as s'' hrep ih =>
    have hs := trail_attempt h s
    rw [repeatedStates, heq]
    rw [heq] at hs
    rw [hrep] at ih
    simp only [hlt, if_true]
    exact hs.append ih
  | case3 s a s' heq hlt =>
    have hs := trail_attempt h s
    rw [repeatedStates, heq]
    rw [heq] at hs
    simpa [hlt] using hs

end Reading

namespace Production

variable {α β : Type}

/-- The states of a run lead from where it starts to where it ends. -/
theorem trail_states (p : Production α) (s : State) :
    State.Trail s (p.states s) (p.run s).2 := by
  induction p generalizing s with
  | succeed a => exact .here s
  | andThen p f ihp ihf =>
    have hp := ihp s
    simp only [states, run]
    rcases hrun : p.run s with ⟨_ | a, s'⟩ <;> rw [hrun] at hp
    · simpa using hp
    · exact hp.append (ihf a s')
  | orTry p q ihp ihq =>
    have hp := ihp s
    simp only [states, run]
    rcases hrun : p.run s with ⟨_ | a, s'⟩ <;> rw [hrun] at hp
    · exact hp.append (ihq s')
    · simpa using hp
  | attempt p ih => exact Reading.trail_attempt ih s
  | maybe p ih => exact ih s
  | lookahead p ih => exact (ih s).moveTo s.cursor
  | many p ih => exact Reading.trail_repeated ih s
  | token e accept => exact Reading.trail_of_step (.token (Reading.tokenStep_token e accept s))
  | adjacent accept => exact Reading.trail_of_step (.token (Reading.tokenStep_adjacent accept s))
  | arrow e first second =>
    exact Reading.trail_of_step (.token (Reading.tokenStep_arrow e first second s))
  | endOfInput => exact Reading.trail_of_step (.token (Reading.tokenStep_endOfInput s))
  | startBody => exact Reading.trail_of_step (Reading.step_startBody s)
  | caseRest word => exact Reading.trail_of_step (Reading.step_caseRest word s)
  | tooDeep limit => exact Reading.trail_of_step (.token (Reading.tokenStep_tooDeep limit s))

theorem mem_states_bind {p : Production α} {f : α → Production β} {s t : State} :
    t ∈ (p >>= f).states s ↔
      t ∈ p.states s ∨ ∃ a s', p.run s = (some a, s') ∧ t ∈ (f a).states s' := by
  simp only [bind, states, List.mem_append]
  rcases p.run s with ⟨_ | a, s'⟩ <;> simp

theorem run_mem_states (p : Production α) (s : State) : (p.run s).2 ∈ p.states s :=
  (p.trail_states s).last_mem

/-! ## Invariants of a run -/

/-- From a state that is `good`, a run of the production goes through `good` states only. -/
def Keeps (good : State → Prop) (p : Production α) : Prop :=
  ∀ s, good s → ∀ t ∈ p.states s, good t

namespace Keeps

variable {good : State → Prop} {p q : Production α}

theorem run (h : p.Keeps good) {s : State} (hs : good s) : good (p.run s).2 :=
  h s hs _ (p.run_mem_states s)

theorem succeed (a : α) : (Production.succeed a).Keeps good := by
  intro s hs t ht
  rwa [List.mem_singleton.1 ht]

theorem andThen {f : α → Production β} (hp : p.Keeps good) (hf : ∀ a, (f a).Keeps good) :
    (Production.andThen p f).Keeps good := by
  intro s hs t ht
  rcases mem_states_bind.1 ht with ht | ⟨a, s', heq, ht⟩
  · exact hp s hs t ht
  · have hrun := hp.run hs
    rw [heq] at hrun
    exact hf a s' hrun t ht

theorem orTry (hp : p.Keeps good) (hq : q.Keeps good) : (Production.orTry p q).Keeps good := by
  intro s hs t ht
  have hrun := hp.run hs
  rcases List.mem_append.1 ht with ht | ht
  · exact hp s hs t ht
  · rcases heq : p.run s with ⟨_ | a, s'⟩ <;> rw [heq] at ht hrun
    · exact hq s' hrun t ht
    · cases ht

theorem maybe (hp : p.Keeps good) : (Production.maybe p).Keeps good :=
  hp

/-- An elementary production goes through the states before and after it. -/
theorem elementary {read : Reading α} (hstates : p.states = read.states)
    (h : ∀ s, good s → good (read s).2) : p.Keeps good := by
  intro s hs t ht
  rw [hstates] at ht
  simp only [Reading.states, List.mem_cons, List.not_mem_nil, or_false] at ht
  rcases ht with rfl | rfl
  exacts [hs, h s hs]

section

-- Going back takes the cursor of an earlier state.
variable (hback : ∀ s t, good s → good t → good (t.moveTo s.cursor))

include hback

theorem attempt (hp : p.Keeps good) : (Production.attempt p).Keeps good := by
  intro s hs t ht
  simp only [states, Reading.attemptStates] at ht
  split at ht
  · rwa [List.mem_singleton.1 ht]
  · rename_i hfatal
    rcases List.mem_append.1 ht with ht | ht
    · exact hp s hs t ht
    · have hrun := hp.run hs
      rw [List.mem_singleton.1 ht, Reading.attempt, if_neg hfatal]
      rcases heq : p.run s with ⟨_ | a, s'⟩ <;> rw [heq] at hrun
      · exact hback s s' hs hrun
      · exact hrun

theorem lookahead (hp : p.Keeps good) : (Production.lookahead p).Keeps good := by
  intro s hs t ht
  rcases List.mem_append.1 ht with ht | ht
  · exact hp s hs t ht
  · rw [List.mem_singleton.1 ht]
    exact hback s _ hs (hp.run hs)

theorem many (hp : p.Keeps good) : (Production.many p).Keeps good := by
  intro s hs t ht
  have hattempt := attempt hback hp
  simp only [states] at ht
  fun_induction Reading.repeated p.run s with
  | case1 s s' heq =>
    rw [Reading.repeatedStates, heq, List.append_nil] at ht
    exact hattempt s hs t ht
  | case2 s a s' heq hlt as s'' hrep ih =>
    have hrun := hattempt.run hs
    simp only [Production.run, heq] at hrun
    rw [Reading.repeatedStates, heq] at ht
    simp only [hlt, if_true] at ht
    rcases List.mem_append.1 ht with ht | ht
    · exact hattempt s hs t ht
    · exact ih hrun ht
  | case3 s a s' heq hlt =>
    rw [Reading.repeatedStates, heq] at ht
    simp only [hlt, if_false, List.append_nil] at ht
    exact hattempt s hs t ht

end

end Keeps

/-- What every step keeps, and going back, holds in all states of a run. -/
theorem keeps_of_step {good : State → Prop} (hstep : ∀ s s', s.Step s' → good s → good s')
    (hback : ∀ s t, good s → good t → good (t.moveTo s.cursor)) (p : Production α) :
    p.Keeps good := by
  have htoken : ∀ s s', s.TokenStep s' → good s → good s' := fun s s' h => hstep s s' (.token h)
  induction p with
  | succeed a => exact .succeed a
  | andThen p f ihp ihf => exact .andThen ihp ihf
  | orTry p q ihp ihq => exact .orTry ihp ihq
  | attempt p ih => exact .attempt hback ih
  | maybe p ih => exact ih
  | lookahead p ih => exact .lookahead hback ih
  | many p ih => exact .many hback ih
  | token e accept => exact .elementary rfl fun s => htoken s _ (Reading.tokenStep_token e accept s)
  | adjacent accept =>
    exact .elementary rfl fun s => htoken s _ (Reading.tokenStep_adjacent accept s)
  | arrow e first second =>
    exact .elementary rfl fun s => htoken s _ (Reading.tokenStep_arrow e first second s)
  | endOfInput => exact .elementary rfl fun s => htoken s _ (Reading.tokenStep_endOfInput s)
  | startBody => exact .elementary rfl fun s => hstep s _ (Reading.step_startBody s)
  | caseRest word => exact .elementary rfl fun s => hstep s _ (Reading.step_caseRest word s)
  | tooDeep limit => exact .elementary rfl fun s => htoken s _ (Reading.tokenStep_tooDeep limit s)

end Production

end Cypher
