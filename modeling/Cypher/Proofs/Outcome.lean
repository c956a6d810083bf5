/-
  Outcomes — what a production makes of a text, without the bookkeeping.

  A run of a production also carries offsets, recorded expectations and captures
  along. None of them has an influence on what is read: that depends on the text
  ahead alone.

  * `Outcome` is a match with a value and what is left, a miss, or giving up;
  * `Production.outcome` is the outcome on a text, by recursion on the production;
  * `agrees_run`: from a state that is not given up, a run does what the outcome
    on the text ahead says;
  * `Query.parse_eq_ok_iff`: a text is read as a query iff the production for
    queries matches it.
-/
import Cypher.Parsing

namespace Cypher

/-! ## The next token -/

namespace Text

/-- The first token after the blanks and what follows it; nothing at the end of
    the text, or if no token matches there. -/
def token? (t : Text) : Option (TokenKind × Text) :=
  match Lexeme.scan? t.dropBlanks with
  | some (.token kind, rest) => some (kind, rest)
  | _ => none

/-- The first token, if no blank stands before it. -/
def adjacentToken? (t : Text) : Option (TokenKind × Text) :=
  if t.dropBlanks = t then t.token? else none

theorem token?_eq_some_iff {t rest : Text} {kind : TokenKind} :
    t.token? = some (kind, rest) ↔ Lexeme.scan? t.dropBlanks = some (.token kind, rest) := by
  unfold token?
  split <;> simp_all

/-- What follows the blanks ahead is a suffix of the text. -/
theorem dropBlanks_suffix (t : Text) : t.dropBlanks <:+ t :=
  List.dropWhile_suffix _

/-- A token is cut off the text after the blanks. -/
theorem dropBlanks_of_token? {t rest : Text} {kind : TokenKind}
    (h : t.token? = some (kind, rest)) : t.dropBlanks = kind.written ++ rest :=
  (Lexeme.scan?_eq_some (token?_eq_some_iff.1 h)).1

theorem written_ne_nil_of_token? {t rest : Text} {kind : TokenKind}
    (h : t.token? = some (kind, rest)) : kind.written ≠ [] :=
  (Lexeme.scan?_eq_some (token?_eq_some_iff.1 h)).2

theorem suffix_of_token? {t rest : Text} {kind : TokenKind}
    (h : t.token? = some (kind, rest)) : rest <:+ t :=
  (dropBlanks_of_token? h ▸ List.suffix_append _ _).trans (dropBlanks_suffix t)

theorem length_lt_of_token? {t rest : Text} {kind : TokenKind}
    (h : t.token? = some (kind, rest)) : rest.length < t.length := by
  have hlen := congrArg List.length (dropBlanks_of_token? h)
  have hle := length_dropBlanks_le t
  have hpos := List.length_pos_iff.2 (written_ne_nil_of_token? h)
  simp only [List.length_append] at hlen
  omega

theorem adjacentToken?_eq_some_iff {t rest : Text} {kind : TokenKind} :
    t.adjacentToken? = some (kind, rest) ↔ t.dropBlanks = t ∧ t.token? = some (kind, rest) := by
  unfold adjacentToken?
  split <;> simp_all

end Text

/-- The cursor skips no byte iff no blank stands at it. -/
theorem Cursor.skipBlanks_offset_eq_iff (c : Cursor) :
    c.skipBlanks.offset = c.offset ↔ c.rest.dropBlanks = c.rest := by
  have happ := Text.takeWhile_append_dropBlanks c.rest
  constructor
  · intro h
    have hzero : Text.byteSize (c.rest.takeWhile Text.isBlank) = 0 := by
      simp only [skipBlanks, advance] at h; omega
    rw [Text.byteSize_eq_zero_iff] at hzero
    rwa [hzero, List.nil_append] at happ
  · intro h
    rw [h, List.append_left_eq_self] at happ
    simp [skipBlanks, advance, happ]

/-! ## Outcomes -/

/-- What a production makes of a text. -/
inductive Outcome (α : Type) where
  /-- A match: its value, and what is left of the text -/
  | matched (value : α) (rest : Text)
  /-- No match: what is left of the text where the production ends -/
  | missed (rest : Text)
  /-- The query is given up. -/
  | gaveUp

namespace Outcome

variable {α β : Type}

/-- The outcome with a function applied to its value. -/
def map (f : α → β) : Outcome α → Outcome β
  | matched a rest => matched (f a) rest
  | missed rest => missed rest
  | gaveUp => gaveUp

/-- The outcome of going on with `f` after a match. -/
def andThen (f : α → Text → Outcome β) : Outcome α → Outcome β
  | matched a rest => f a rest
  | missed rest => missed rest
  | gaveUp => gaveUp

/-- The outcome of going on with `g` after a miss. -/
def orTry (g : Text → Outcome α) : Outcome α → Outcome α
  | missed rest => g rest
  | outcome => outcome

/-- The outcome of going back to `t` after a miss. -/
def orBack (t : Text) (outcome : Outcome α) : Outcome α :=
  outcome.orTry fun _ => missed t

/-- The outcome of reading as often as there is a match. -/
def repeated (read : Text → Outcome α) (t : Text) : Outcome (List α) :=
  match read t with
  | missed _ => matched [] t
  | gaveUp => gaveUp
  | matched a rest =>
    if rest.length < t.length then (repeated read rest).map (a :: ·) else matched [a] rest
termination_by t.length

end Outcome

/-- The outcome of a production on a text. -/
def Production.outcome {α : Type} : Production α → Text → Outcome α
  | .succeed a => fun t => .matched a t
  | .andThen p f => fun t => (p.outcome t).andThen fun a rest => (f a).outcome rest
  | .orTry p q => fun t => (p.outcome t).orTry q.outcome
  | .attempt p => fun t => (p.outcome t).orBack t
  | .maybe p => fun t => ((p.outcome t).map some).orTry fun rest => .matched none rest
  | .lookahead p => fun t =>
    ((p.outcome t).andThen fun _ _ => .matched true t).orTry fun _ => .matched false t
  | .many p => fun t => Outcome.repeated p.outcome t
  | .token _ accept => fun t =>
    match t.token? with
    | some (kind, rest) => ((accept kind).map fun a => .matched a rest).getD (.missed t)
    | none => .missed t
  | .adjacent accept => fun t =>
    match t.adjacentToken? with
    | some (kind, rest) => ((accept kind).map fun a => .matched a rest).getD (.missed t)
    | none => .missed t
  | .arrow _ first second => fun t =>
    match t.token? with
    | some (kind, between) =>
      match between.adjacentToken? with
      | some (kind', rest) =>
        if kind = .symbol first ∧ kind' = .symbol second then .matched () rest else .missed t
      | none => .missed t
    | none => .missed t
  | .endOfInput => fun t => if t.dropBlanks = [] then .matched () t else .missed t
  | .startBody => fun t =>
    match t.splitAtClause? with
    | some (before, rest) => .matched before.trim rest
    | none => .missed t
  | .caseRest word => fun t =>
    match Text.splitAtWord? Keyword.end_.written t with
    | some (before, rest) =>
      .matched (word ++ (before ++ rest.take Keyword.end_.written.length))
        (rest.drop Keyword.end_.written.length)
    | none => .missed t
  | .tooDeep _ => fun _ => .gaveUp

-- The equations are derived once, before the proofs that open runs and outcomes by them.
attribute [local simp] Production.run Production.outcome

/-! ## What a state keeps -/

namespace State

@[simp] theorem moveTo_cursor (s : State) (c : Cursor) : (s.moveTo c).cursor = c := rfl
@[simp] theorem moveTo_fatal (s : State) (c : Cursor) : (s.moveTo c).fatal = s.fatal := rfl
@[simp] theorem expectAt_cursor (s : State) (c : Cursor) (e : Expectation) :
    (s.expectAt c e).cursor = s.cursor := rfl
@[simp] theorem expectAt_fatal (s : State) (c : Cursor) (e : Expectation) :
    (s.expectAt c e).fatal = s.fatal := rfl
@[simp] theorem expect_cursor (s : State) (e : Expectation) : (s.expect e).cursor = s.cursor := rfl
@[simp] theorem expect_fatal (s : State) (e : Expectation) : (s.expect e).fatal = s.fatal := rfl
@[simp] theorem capture_cursor (s : State) (c : Capture) : (s.capture c).cursor = s.cursor := rfl
@[simp] theorem capture_fatal (s : State) (c : Capture) : (s.capture c).fatal = s.fatal := rfl
@[simp] theorem fail_fatal_isSome (s : State) (e : SyntaxError) :
    (s.fail e).fatal.isSome = true := by
  simp [fail]

end State

namespace Reading

variable {α : Type}

theorem token_fatal (e : Expectation) (accept : TokenKind → Option α) (s : State) :
    (token e accept s).2.fatal = s.fatal := by
  unfold token
  split
  · split <;> rfl
  · rfl

theorem adjacent_fatal (accept : TokenKind → Option α) (s : State) :
    (adjacent accept s).2.fatal = s.fatal := by
  unfold adjacent
  split
  · split <;> rfl
  · rfl

theorem arrow_fatal (e : Expectation) (first second : Symbol) (s : State) :
    (arrow e first second s).2.fatal = s.fatal := by
  unfold arrow
  split <;> rfl

theorem endOfInput_fatal (s : State) : (endOfInput s).2.fatal = s.fatal := by
  unfold endOfInput
  split <;> rfl

theorem startBody_fatal (s : State) : (startBody s).2.fatal = s.fatal := by
  unfold startBody
  split <;> rfl

theorem caseRest_fatal (word : Text) (s : State) : (caseRest word s).2.fatal = s.fatal := by
  unfold caseRest
  split <;> rfl

/-- Nothing is attempted once the query has been given up. -/
theorem attempt_of_fatal (read : Reading α) {s : State} (h : s.fatal.isSome = true) :
    attempt read s = (none, s) := by
  simp [attempt, h]

theorem repeated_of_fatal (read : Reading α) {s : State} (h : s.fatal.isSome = true) :
    repeated read s = ([], s) := by
  rw [repeated, attempt_of_fatal read h]

end Reading

/-- A query that has been given up stays given up. -/
theorem Production.fatal_run {α : Type} (p : Production α) {s : State}
    (h : s.fatal.isSome = true) : (p.run s).2.fatal.isSome = true := by
  induction p generalizing s with
  | succeed a => exact h
  | andThen p f ihp ihf =>
    have hp := ihp h
    simp only [run]
    split
    · rename_i a s' heq; rw [heq] at hp; exact ihf a hp
    · rename_i s' heq; rw [heq] at hp; exact hp
  | orTry p q ihp ihq =>
    have hp := ihp h
    simp only [run]
    split
    · rename_i a s' heq; rw [heq] at hp; exact hp
    · rename_i s' heq; rw [heq] at hp; exact ihq hp
  | attempt p ih => simp only [run]; rw [Reading.attempt_of_fatal _ h]; exact h
  | maybe p ih => simpa only [run] using ih h
  | lookahead p ih => simpa only [run, State.moveTo_fatal] using ih h
  | many p ih => simp only [run]; rw [Reading.repeated_of_fatal _ h]; exact h
  | token e accept => simp only [run, Reading.token_fatal]; exact h
  | adjacent accept => simp only [run, Reading.adjacent_fatal]; exact h
  | arrow e first second => simp only [run, Reading.arrow_fatal]; exact h
  | endOfInput => simp only [run, Reading.endOfInput_fatal]; exact h
  | startBody => simp only [run, Reading.startBody_fatal]; exact h
  | caseRest word => simp only [run, Reading.caseRest_fatal]; exact h
  | tooDeep limit => simp [run, Reading.tooDeep]

/-! ## Runs and outcomes -/

/-- A run that ended with `result` did what the outcome says. -/
def Outcome.Agrees {α : Type} : Outcome α → (result : Option α × State) → Prop
  | matched a rest, result =>
    result.1 = some a ∧ result.2.cursor.rest = rest ∧ result.2.fatal = none
  | missed rest, result => result.1 = none ∧ result.2.cursor.rest = rest ∧ result.2.fatal = none
  | gaveUp, result => result.2.fatal.isSome = true

namespace Reading

variable {α : Type} {s : State}

theorem next?_eq (c : Cursor) :
    c.next? = (Lexeme.scan? c.rest.dropBlanks).map fun (lexeme, rest) =>
      (⟨lexeme, ⟨c.skipBlanks.offset, (c.skipBlanks.advance lexeme.written rest).offset⟩⟩,
        c.skipBlanks.advance lexeme.written rest) := rfl

theorem agrees_token (e : Expectation) (accept : TokenKind → Option α) (h : s.fatal = none) :
    ((Production.token e accept).outcome s.cursor.rest).Agrees (token e accept s) := by
  simp only [Production.outcome, token, next?_eq, Text.token?]
  cases Lexeme.scan? s.cursor.rest.dropBlanks with
  | none => exact ⟨rfl, rfl, h⟩
  | some found =>
    obtain ⟨_ | _, rest⟩ := found
    · rename_i kind
      simp only [Option.map_some]
      cases accept kind with
      | none => exact ⟨rfl, rfl, h⟩
      | some a => exact ⟨rfl, rfl, h⟩
    · exact ⟨rfl, rfl, h⟩

theorem adjacent?_map_rest (c : Cursor) :
    c.adjacent?.map (fun (kind, after) => (kind, after.rest)) = c.rest.adjacentToken? := by
  simp only [Cursor.adjacent?, next?_eq, Text.adjacentToken?, Text.token?,
    ← Cursor.skipBlanks_offset_eq_iff]
  cases Lexeme.scan? c.rest.dropBlanks with
  | none => simp
  | some found =>
    obtain ⟨_ | _, rest⟩ := found
    · simp only [Option.map_some]
      split <;> rfl
    · simp

theorem agrees_adjacent (accept : TokenKind → Option α) (h : s.fatal = none) :
    ((Production.adjacent accept).outcome s.cursor.rest).Agrees (adjacent accept s) := by
  simp only [Production.outcome, adjacent, ← adjacent?_map_rest]
  cases s.cursor.adjacent? with
  | none => exact ⟨rfl, rfl, h⟩
  | some found =>
    obtain ⟨kind, after⟩ := found
    simp only [Option.map_some]
    cases accept kind with
    | none => exact ⟨rfl, rfl, h⟩
    | some a => exact ⟨rfl, rfl, h⟩

theorem agrees_arrow (e : Expectation) (first second : Symbol) (h : s.fatal = none) :
    ((Production.arrow e first second).outcome s.cursor.rest).Agrees (arrow e first second s) := by
  simp only [Production.outcome, arrow, Cursor.afterPair?, next?_eq, Text.token?]
  cases Lexeme.scan? s.cursor.rest.dropBlanks with
  | none => exact ⟨rfl, rfl, h⟩
  | some found =>
    obtain ⟨_ | _, rest⟩ := found
    · rename_i kind
      simp only [Option.map_some]
      have hadj := adjacent?_map_rest (s.cursor.skipBlanks.advance kind.written rest)
      simp only [Cursor.advance] at hadj
      by_cases hk : kind = .symbol first
      · simp only [hk, if_true, true_and, Lexeme.written, Cursor.advance] at hadj ⊢
        rw [← hadj]
        cases Cursor.adjacent? _ with
        | none => exact ⟨rfl, rfl, h⟩
        | some second? =>
          obtain ⟨kind', after⟩ := second?
          simp only [Option.map_some]
          split
          · exact ⟨rfl, rfl, h⟩
          · exact ⟨rfl, rfl, h⟩
      · simp only [hk, if_false, false_and]
        split <;> exact ⟨rfl, rfl, h⟩
    · exact ⟨rfl, rfl, h⟩

theorem agrees_endOfInput (h : s.fatal = none) :
    (Production.endOfInput.outcome s.cursor.rest).Agrees (endOfInput s) := by
  simp only [Production.outcome, endOfInput, next?_eq, ← Lexeme.scan?_eq_none_iff]
  cases Lexeme.scan? s.cursor.rest.dropBlanks with
  | none => exact ⟨rfl, rfl, h⟩
  | some found => exact ⟨rfl, rfl, h⟩

theorem agrees_startBody (h : s.fatal = none) :
    (Production.startBody.outcome s.cursor.rest).Agrees (startBody s) := by
  simp only [Production.outcome, startBody]
  cases s.cursor.rest.splitAtClause? with
  | none => exact ⟨rfl, rfl, h⟩
  | some parts => exact ⟨rfl, rfl, h⟩

theorem agrees_caseRest (word : Text) (h : s.fatal = none) :
    ((Production.caseRest word).outcome s.cursor.rest).Agrees (caseRest word s) := by
  simp only [Production.outcome, caseRest]
  cases Text.splitAtWord? Keyword.end_.written s.cursor.rest with
  | none => exact ⟨rfl, rfl, h⟩
  | some parts => exact ⟨rfl, rfl, h⟩

theorem agrees_attempt {read : Reading α} {o : Text → Outcome α}
    (hread : ∀ {s : State}, s.fatal = none → (o s.cursor.rest).Agrees (read s))
    (h : s.fatal = none) : ((o s.cursor.rest).orBack s.cursor.rest).Agrees (attempt read s) := by
  have hs := hread h
  simp only [attempt, h, Option.isSome_none, Bool.false_eq_true, if_false]
  rcases hr : read s with ⟨_ | a, s'⟩ <;> rw [hr] at hs
  · cases ho : o s.cursor.rest with
    | matched a rest => rw [ho] at hs; exact absurd hs.1 (by simp)
    | missed rest => rw [ho] at hs; exact ⟨rfl, rfl, hs.2.2⟩
    | gaveUp => rw [ho] at hs; exact hs
  · cases ho : o s.cursor.rest with
    | matched a rest => rw [ho] at hs; exact hs
    | missed rest => rw [ho] at hs; exact absurd hs.1 (by simp)
    | gaveUp => rw [ho] at hs; exact hs

theorem agrees_repeated {read : Reading α} {o : Text → Outcome α}
    (hread : ∀ {s : State}, s.fatal = none → (o s.cursor.rest).Agrees (read s))
    (h : s.fatal = none) :
    (Outcome.repeated o s.cursor.rest).Agrees
      (some (repeated read s).1, (repeated read s).2) := by
  fun_induction repeated read s with
  | case1 s s' heq =>
    have hs := agrees_attempt (s := s) hread h
    rw [heq] at hs
    rw [Outcome.repeated]
    cases ho : o s.cursor.rest with
    | matched a rest => rw [ho] at hs; exact absurd hs.1 (by simp)
    | missed rest => rw [ho] at hs; exact ⟨rfl, hs.2.1, hs.2.2⟩
    | gaveUp => rw [ho] at hs; exact hs
  | case2 s a s' heq hlt as s'' hrep ih =>
    have hs := agrees_attempt (s := s) hread h
    rw [heq] at hs
    rw [Outcome.repeated]
    cases ho : o s.cursor.rest with
    | matched b rest =>
      rw [ho] at hs
      obtain ⟨hb, rfl, hnone⟩ := hs
      obtain rfl : a = b := by simpa using hb
      have ih := ih hnone
      simp only [hlt, if_true, hrep] at ih ⊢
      cases hrest : Outcome.repeated o s'.cursor.rest with
      | matched as' rest' =>
        rw [hrest] at ih
        obtain ⟨has, hr, hf⟩ := ih
        obtain rfl : as = as' := by simpa using has
        exact ⟨rfl, hr, hf⟩
      | missed rest' => rw [hrest] at ih; exact absurd ih.1 (by simp)
      | gaveUp => rw [hrest] at ih; exact ih
    | missed rest => rw [ho] at hs; exact absurd hs.1 (by simp)
    | gaveUp =>
      -- once given up, the repetition comes to nothing more
      rw [ho] at hs
      have hstop := repeated_of_fatal read (s := s') hs
      rw [hrep] at hstop
      simp only [Prod.mk.injEq] at hstop
      simp only [Outcome.Agrees, hstop.2]
      exact hs
  | case3 s a s' heq hlt =>
    have hs := agrees_attempt (s := s) hread h
    rw [heq] at hs
    rw [Outcome.repeated]
    cases ho : o s.cursor.rest with
    | matched b rest =>
      rw [ho] at hs
      obtain ⟨hb, rfl, hnone⟩ := hs
      obtain rfl : a = b := by simpa using hb
      simp only [hlt, if_false]
      exact ⟨rfl, rfl, hnone⟩
    | missed rest => rw [ho] at hs; exact absurd hs.1 (by simp)
    | gaveUp => rw [ho] at hs; exact hs

end Reading

/-- A run from a state that is not given up does what the outcome on the text
    ahead says. -/
theorem Production.agrees_run {α : Type} (p : Production α) {s : State} (h : s.fatal = none) :
    (p.outcome s.cursor.rest).Agrees (p.run s) := by
  induction p generalizing s with
  | succeed a => exact ⟨rfl, rfl, h⟩
  | andThen p f ihp ihf =>
    have hp := ihp h
    simp only [run, outcome]
    rcases hr : p.run s with ⟨_ | a, s'⟩ <;> rw [hr] at hp
    · cases ho : p.outcome s.cursor.rest with
      | matched b rest => rw [ho] at hp; exact absurd hp.1 (by simp)
      | missed rest => rw [ho] at hp; exact ⟨rfl, hp.2⟩
      | gaveUp => rw [ho] at hp; exact hp
    · cases ho : p.outcome s.cursor.rest with
      | matched b rest =>
        rw [ho] at hp
        obtain ⟨hb, rfl, hnone⟩ := hp
        obtain rfl : a = b := by simpa using hb
        exact ihf a hnone
      | missed rest => rw [ho] at hp; exact absurd hp.1 (by simp)
      | gaveUp => rw [ho] at hp; exact fatal_run _ hp
  | orTry p q ihp ihq =>
    have hp := ihp h
    simp only [run, outcome]
    rcases hr : p.run s with ⟨_ | a, s'⟩ <;> rw [hr] at hp
    · cases ho : p.outcome s.cursor.rest with
      | matched b rest => rw [ho] at hp; exact absurd hp.1 (by simp)
      | missed rest => rw [ho] at hp; obtain ⟨-, rfl, hnone⟩ := hp; exact ihq hnone
      | gaveUp => rw [ho] at hp; exact fatal_run _ hp
    · cases ho : p.outcome s.cursor.rest with
      | matched b rest => rw [ho] at hp; exact hp
      | missed rest => rw [ho] at hp; exact absurd hp.1 (by simp)
      | gaveUp => rw [ho] at hp; exact hp
  | attempt p ih => exact Reading.agrees_attempt (fun h => ih h) h
  | maybe p ih =>
    have hp := ih h
    simp only [run, outcome]
    cases ho : p.outcome s.cursor.rest with
    | matched b rest => rw [ho] at hp; exact ⟨congrArg some hp.1, hp.2⟩
    | missed rest => rw [ho] at hp; exact ⟨congrArg some hp.1, hp.2⟩
    | gaveUp => rw [ho] at hp; exact hp
  | lookahead p ih =>
    have hp := ih h
    simp only [run, outcome]
    cases ho : p.outcome s.cursor.rest with
    | matched b rest => rw [ho] at hp; exact ⟨by rw [hp.1]; rfl, rfl, hp.2.2⟩
    | missed rest => rw [ho] at hp; exact ⟨by rw [hp.1]; rfl, rfl, hp.2.2⟩
    | gaveUp => rw [ho] at hp; exact hp
  | many p ih =>
    exact Reading.agrees_repeated (fun h => ih h) h
  | token e accept => exact Reading.agrees_token e accept h
  | adjacent accept => exact Reading.agrees_adjacent accept h
  | arrow e first second => exact Reading.agrees_arrow e first second h
  | endOfInput => exact Reading.agrees_endOfInput h
  | startBody => exact Reading.agrees_startBody h
  | caseRest word => exact Reading.agrees_caseRest word h
  | tooDeep limit => simp [outcome, run, Reading.tooDeep, Outcome.Agrees]

/-- A text is read as a query iff the production for queries matches it. -/
theorem Query.parse_eq_ok_iff {limit : Nat} {source : Text} {q : Query} :
    parse limit source = .ok q ↔
      ∃ rest, (Production.query limit).outcome source = .matched q rest := by
  have hrun := (Production.query limit).agrees_run (s := .start source) rfl
  simp only [parse]
  change Outcome.Agrees ((Production.query limit).outcome source) _ at hrun
  rcases hr : (Production.query limit).run (.start source) with ⟨_ | q', s'⟩ <;> rw [hr] at hrun
  · cases ho : (Production.query limit).outcome source <;> rw [ho] at hrun <;>
      simp_all [result, Outcome.Agrees]
  · cases ho : (Production.query limit).outcome source <;> rw [ho] at hrun <;>
      simp_all [result, Outcome.Agrees]

end Cypher
