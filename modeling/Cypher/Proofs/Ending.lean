/-
  Ending — how much recursion a query takes.

  A production may match without reading anything, and an expression may hold another one, as deep
  as the limit allows. All the same a query is read in a number of steps that grows with its text
  alone: what is repeated moves on each time, and what is nested stands behind a parenthesis.

  * `Production.LoopsMoveOn`: whatever is repeated in a production moves on with every match;
  * `Production.ReadsInnerBehind`: a production reads what it holds only behind its own start;
  * `Production.exec`: a run that may recurse only so often, and repeats while there is a match;
  * `Production.Ends`: a bound, linear in the text that is left, within which such a run ends. The
    whole grammar has one (`Composed.ends`);
  * `Query.parse_ends`: the bound for a query, whatever the limit is.
-/
import Cypher.Proofs.Composition

namespace Cypher

namespace Production

variable {α β : Type} {p q : Production α} {f : α → Production β} {s s' : State}

/-! ## Repetitions -/

/-- Whatever is repeated in the production, moves on with every match. -/
def LoopsMoveOn {α : Type} : Production α → Prop
  | .andThen p f => p.LoopsMoveOn ∧ ∀ a, (f a).LoopsMoveOn
  | .orTry p q => p.LoopsMoveOn ∧ q.LoopsMoveOn
  | .attempt p => p.LoopsMoveOn
  | .maybe p => p.LoopsMoveOn
  | .lookahead p => p.LoopsMoveOn
  | .many p => p.MovesOn ∧ p.LoopsMoveOn
  | _ => True

/-! ## Nesting -/

/-- What `body` reads from a state depends on the production inside of it only as far as that one
    reads behind the state. -/
def ReadsInnerBehind (body : Production α → Production β) : Prop :=
  ∀ inner inner' s, (∀ t : State, s.cursor.offset < t.cursor.offset → inner.run t = inner'.run t) →
    (body inner).run s = (body inner').run s

theorem run_bind_congr {f' : α → Production β}
    (h : ∀ a s', p.run s = (some a, s') → (f a).run s' = (f' a).run s') :
    (p >>= f).run s = (p >>= f').run s := by
  rw [run_bind, run_bind]
  rcases hrun : p.run s with ⟨_ | a, s'⟩
  · rfl
  · exact h a s' hrun

theorem run_orElse_congr {p' q' : Production α} (hp : p.run s = p'.run s)
    (hq : ∀ s', p.run s = (none, s') → q.run s' = q'.run s') :
    (p <|> q).run s = (p' <|> q').run s := by
  rw [run_orElse, run_orElse, ← hp]
  rcases hrun : p.run s with ⟨_ | a, s'⟩
  · exact hq s' hrun
  · rfl

theorem run_attempt_congr {p' : Production α} (h : p.run s = p'.run s) :
    (attempt p).run s = (attempt p').run s := by
  simp only [run, Reading.attempt, h]

/-- A call is only read on behind its opening parenthesis. -/
theorem readsInnerBehind_call (limit : Nat) :
    ReadsInnerBehind fun inner => call limit (some fun _ => inner) := by
  intro inner inner' s h
  refine run_bind_congr fun name t ht => run_bind_congr fun _ u hu => run_bind_congr fun _ v hv =>
    ?_
  have hlt : s.cursor.offset < v.cursor.offset := by
    have hname := movesOn_token _ _ s name t ht
    have hparen := movesOn_token _ _ t _ u hu
    have hdistinct := (maybe (keyword .distinct)).offset_le_run u
    rw [hv] at hdistinct
    exact Nat.lt_of_lt_of_le (Nat.lt_trans hname hparen) hdistinct
  rw [run_bind, run_bind, h v hlt]

theorem readsInnerBehind_group (limit : Nat) :
    ReadsInnerBehind fun inner => group limit (some fun _ => inner) := by
  intro inner inner' s h
  refine run_bind_congr fun _ t ht => ?_
  change (inner >>= _).run t = (inner' >>= _).run t
  rw [run_bind, run_bind, h t (movesOn_token _ _ s _ t ht)]

/-- An operand reads the expression inside of it only behind the place where it starts itself. -/
theorem readsInnerBehind_operand (limit : Nat) :
    ReadsInnerBehind fun inner => operand limit (some fun _ => inner) := by
  intro inner inner' s h
  refine run_orElse_congr (run_attempt_congr (readsInnerBehind_call limit inner inner' s h))
    fun t ht => run_orElse_congr rfl fun u hu => run_orElse_congr (run_attempt_congr ?_)
      fun _ _ => rfl
  -- The alternatives before the group have gone back to the start.
  have hcursor : u.cursor = s.cursor :=
    (staysPut_attempt _ t u hu).trans (staysPut_attempt _ s t ht)
  exact readsInnerBehind_group limit inner inner' u (hcursor ▸ h)

/-! ## Runs with a bound -/

/-- Reads from a state, with at most `fuel` readings inside each other; nothing if that does not do.
    Repeating ends only where there is no match. -/
@[simp] def exec : (fuel : Nat) → {α : Type} → Production α → State → Option (Option α × State)
  | 0, _, _, _ => none
  | fuel + 1, _, .andThen p f, s =>
    match p.exec fuel s with
    | some (some a, s') => (f a).exec fuel s'
    | some (none, s') => some (none, s')
    | none => none
  | fuel + 1, _, .orTry p q, s =>
    match p.exec fuel s with
    | some (some a, s') => some (some a, s')
    | some (none, s') => q.exec fuel s'
    | none => none
  | fuel + 1, _, .attempt p, s =>
    if s.fatal.isSome then some (none, s)
    else match p.exec fuel s with
      | some (some a, s') => some (some a, s')
      | some (none, s') => some (none, s'.moveTo s.cursor)
      | none => none
  | fuel + 1, _, .maybe p, s => (p.exec fuel s).map fun (result, s') => (some result, s')
  | fuel + 1, _, .lookahead p, s =>
    (p.exec fuel s).map fun (result, s') => (some result.isSome, s'.moveTo s.cursor)
  | fuel + 1, _, .many p, s =>
    match (attempt p).exec fuel s with
    | some (some a, s') =>
      ((many p).exec fuel s').map fun (as, s'') => (as.map (a :: ·), s'')
    | some (none, s') => some (some [], s')
    | none => none
  | _ + 1, _, .succeed a, s => some ((succeed a).run s)
  | _ + 1, _, .token e accept, s => some ((token e accept).run s)
  | _ + 1, _, .adjacent accept, s => some ((adjacent accept).run s)
  | _ + 1, _, .arrow e first second, s => some ((arrow e first second).run s)
  | _ + 1, _, .endOfInput, s => some (endOfInput.run s)
  | _ + 1, _, .startBody, s => some (startBody.run s)
  | _ + 1, _, .caseRest word, s => some ((caseRest word).run s)
  | _ + 1, _, .tooDeep limit, s => some ((tooDeep limit).run s)

/-- Repetitions move on, and a run ends with `a` readings inside each other for each character that
    is left, and `b` more. -/
structure Ends (a b : Nat) (p : Production α) : Prop where
  loops : p.LoopsMoveOn
  exec_eq (s : State) (fuel : Nat) :
    a * s.cursor.rest.length + b ≤ fuel → p.exec fuel s = some (p.run s)

variable {a b c : Nat}

namespace Ends

theorem mono (h : p.Ends a b) (hle : b ≤ c) : p.Ends a c where
  loops := h.loops
  exec_eq s fuel hfuel := h.exec_eq s fuel (Nat.le_trans (Nat.add_le_add_left hle _) hfuel)

theorem elementary (hloops : p.LoopsMoveOn)
    (hexec : ∀ fuel s, p.exec (fuel + 1) s = some (p.run s)) : p.Ends a 1 := by
  refine ⟨hloops, fun s fuel hfuel => ?_⟩
  cases fuel with
  | zero => omega
  | succ fuel => exact hexec fuel s

theorem token (e : Expectation) (accept : TokenKind → Option α) :
    (Production.token e accept).Ends a 1 :=
  elementary trivial fun _ _ => rfl

theorem adjacent (accept : TokenKind → Option α) : (Production.adjacent accept).Ends a 1 :=
  elementary trivial fun _ _ => rfl

theorem arrow (e : Expectation) (first second : Symbol) :
    (Production.arrow e first second).Ends a 1 :=
  elementary trivial fun _ _ => rfl

theorem endOfInput : Production.endOfInput.Ends a 1 :=
  elementary trivial fun _ _ => rfl

theorem startBody : Production.startBody.Ends a 1 :=
  elementary trivial fun _ _ => rfl

theorem caseRest (word : Text) : (Production.caseRest word).Ends a 1 :=
  elementary trivial fun _ _ => rfl

theorem tooDeep (limit : Nat) : (Production.tooDeep limit : Production α).Ends a 1 :=
  elementary trivial fun _ _ => rfl

theorem pure (x : α) : (Pure.pure x : Production α).Ends a 1 :=
  elementary trivial fun _ _ => rfl

theorem bind (hp : p.Ends a b) (hf : ∀ x, (f x).Ends a c) : (p >>= f).Ends a (max b c + 1) := by
  refine ⟨⟨hp.loops, fun x => (hf x).loops⟩, fun s fuel hfuel => ?_⟩
  cases fuel with
  | zero => omega
  | succ fuel =>
    have hfirst := hp.exec_eq s fuel (by omega)
    rw [run_bind]
    simp only [Bind.bind, exec, hfirst]
    rcases hrun : p.run s with ⟨_ | x, s'⟩
    · rfl
    · have hle := Nat.mul_le_mul_left a (length_rest_le hrun)
      exact (hf x).exec_eq s' fuel (by omega)

/-- The second part has less to read if the first part moves on: what it takes by itself is
    reduced by what one character gives. -/
theorem bind_behind (hmoves : p.MovesOn) (hp : p.Ends a b) (hf : ∀ x, (f x).Ends a (a + c)) :
    (p >>= f).Ends a (max b c + 1) := by
  refine ⟨⟨hp.loops, fun x => (hf x).loops⟩, fun s fuel hfuel => ?_⟩
  cases fuel with
  | zero => omega
  | succ fuel =>
    have hfirst := hp.exec_eq s fuel (by omega)
    rw [run_bind]
    simp only [Bind.bind, exec, hfirst]
    rcases hrun : p.run s with ⟨_ | x, s'⟩
    · rfl
    · have hlt := Nat.mul_le_mul_left a (hmoves.length_rest_lt hrun)
      rw [Nat.mul_succ] at hlt
      exact (hf x).exec_eq s' fuel (by omega)

theorem map (g : α → β) (hp : p.Ends a b) : (g <$> p).Ends a (max b 1 + 1) :=
  hp.bind fun x => .pure (g x)

theorem orElse (hp : p.Ends a b) (hq : q.Ends a c) : (p <|> q).Ends a (max b c + 1) := by
  refine ⟨⟨hp.loops, hq.loops⟩, fun s fuel hfuel => ?_⟩
  cases fuel with
  | zero => omega
  | succ fuel =>
    have hfirst := hp.exec_eq s fuel (by omega)
    rw [run_orElse]
    simp only [HOrElse.hOrElse, OrElse.orElse, exec, hfirst]
    rcases hrun : p.run s with ⟨_ | x, s'⟩
    · have hle := Nat.mul_le_mul_left a (length_rest_le hrun)
      exact hq.exec_eq s' fuel (by omega)
    · rfl

theorem attempt (hp : p.Ends a b) : (attempt p).Ends a (b + 1) := by
  refine ⟨hp.loops, fun s fuel hfuel => ?_⟩
  cases fuel with
  | zero => omega
  | succ fuel =>
    simp only [exec, run, Reading.attempt, hp.exec_eq s fuel (by omega)]
    split
    · rfl
    · rcases p.run s with ⟨_ | x, s'⟩ <;> rfl

theorem maybe (hp : p.Ends a b) : (maybe p).Ends a (b + 1) := by
  refine ⟨hp.loops, fun s fuel hfuel => ?_⟩
  cases fuel with
  | zero => omega
  | succ fuel => simp only [exec, run, hp.exec_eq s fuel (by omega), Option.map_some]

theorem lookahead (hp : p.Ends a b) : (lookahead p).Ends a (b + 1) := by
  refine ⟨hp.loops, fun s fuel hfuel => ?_⟩
  cases fuel with
  | zero => omega
  | succ fuel => simp only [exec, run, hp.exec_eq s fuel (by omega), Option.map_some]

/-- What is repeated moves on: there are no more rounds than characters. -/
theorem many (hpos : 0 < a) (hmoves : p.MovesOn) (hp : p.Ends a b) : (many p).Ends a (b + 2) := by
  refine ⟨⟨hmoves, hp.loops⟩, fun s fuel hfuel => ?_⟩
  induction fuel generalizing s with
  | zero => omega
  | succ fuel ih =>
    have hround := hp.attempt.exec_eq s fuel (by omega)
    simp only [run] at hround
    simp only [exec, run, hround]
    rw [Reading.repeated]
    rcases hrun : Reading.attempt p.run s with ⟨_ | x, s'⟩
    · rfl
    · have hlt := (movesOn_attempt hmoves).length_rest_lt hrun
      have hmul := Nat.mul_le_mul_left a hlt
      rw [Nat.mul_succ] at hmul
      have hrest := ih s' (by omega)
      simp only [run] at hrest
      simp only [hrest, if_pos hlt, Option.map_some]

end Ends

/-! ## The grammar -/

theorem ends_mark {e : Expectation} {first second : Symbol} {x y : α} :
    (mark e first second x y).Ends a 3 :=
  ((Ends.arrow _ _ _).map _).orElse ((Ends.token _ _).map _)

theorem ends_number : number.Ends a 5 := by
  have hnegative : negativeNumber.Ends a 3 :=
    (Ends.token _ _).bind fun _ => (Ends.adjacent _).bind fun _ => .pure _
  exact hnegative.attempt.orElse (.token _ _)

theorem ends_caseExpression : caseExpression.Ends a 3 :=
  (Ends.token _ _).bind fun _ => (Ends.caseRest _).bind fun _ => .pure _

/-- The readings inside each other are as many as productions. What stands in parentheses is read
    once a parenthesis has been: that pays for it. -/
theorem Composed.ends {scope : Scope} {n : Nat} {γ : Type} {fold : α → γ}
    {p p' : Production α} (h : Composed scope n fold p p') (hfolds : scope.folds = false) :
    p.Ends 24 n := by
  induction h with
  | succeed _ => exact .pure _
  | andThen _ _ ihp ihf => exact .bind ihp fun a => ihf a a (.refl a)
  | orTry _ _ ihp ihq => exact .orElse ihp ihq
  | attempt _ ih => exact .attempt ih
  | maybe _ ih => exact .maybe ih
  | lookahead _ _ ih => exact .lookahead ih
  | many hmoves _ ih => exact .many (by decide) hmoves ih
  | token _ _ _ => exact .token _ _
  | leftMark => exact ends_mark
  | rightMark => exact ends_mark
  | number => exact ends_number
  | caseExpression => exact ends_caseExpression
  | startBody _ => exact .startBody
  | endOfInput _ => exact .endOfInput
  | propertyOrPlain h => rw [hfolds] at h; cases h
  | parenthesis _ ih => exact .bind_behind (c := 0) (movesOn_token _ _) (.token _ _) fun _ => ih
  | tooDeep _ => exact .bind (.token _ _) fun _ => .tooDeep _
  | mono hle _ ih => exact ih.mono hle

/-- The limit does not matter. -/
theorem ends_query (limit : Nat) : (query limit).Ends 24 38 :=
  (Composed.query limit 0 false).ends rfl

end Production

namespace Query

open Production

/-- Reads a query with at most `fuel` readings inside each other; nothing if that does not do. -/
def parseWithin (fuel limit : Nat) (source : Text) : Option Result :=
  ((query limit).exec fuel (State.start source)).map result

/-- As many readings inside each other as no query exceeds: 24 for each character, and 38 more. -/
def fuelFor (source : Text) : Nat :=
  24 * source.length + 38

/-- Reading a query ends, whatever the limit is. Whatever is repeated moves on each time; an
    operand reads the expression in it only behind its own start; and so the text alone bounds how
    deep readings stand inside each other. -/
theorem parse_ends (limit : Nat) :
    (query limit).LoopsMoveOn ∧
      ReadsInnerBehind (fun inner => operand limit (some fun _ => inner)) ∧
      ∀ source more,
        parseWithin (fuelFor source + more) limit source = some (parse limit source) := by
  have hends := ends_query limit
  refine ⟨hends.loops, readsInnerBehind_operand limit, fun source more => ?_⟩
  have hrun := hends.exec_eq (State.start source) (fuelFor source + more) (Nat.le_add_right _ _)
  rw [parseWithin, hrun, Option.map_some, parse]

example : parseWithin 7 0 "RETURN a".toList = none := by decide +kernel

end Query

end Cypher
