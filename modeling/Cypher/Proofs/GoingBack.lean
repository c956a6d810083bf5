/-
  Going back — where a production leaves the cursor, and what it leaves alone.

  Alternatives are tried one after the other from the same place. That place is not lost, since
  every production that others are tried after goes back to it, although most of them are made of
  productions that do not.

  * `exists_takes_run`, `furthest_le_run`: a run never ends before the place where it starts, and
    never takes back how far an expectation failed;
  * `Production.StaysPut` and `Production.MovesOn`: without a match the cursor is where it was, and
    with a match it is further on;
  * `backtrackingContract`: which productions of the grammar do both, and what all productions
    leave as it was.
-/
import Cypher.Proofs.Depth
import Cypher.Proofs.Notes
import Cypher.Proofs.Steps

namespace Cypher

theorem Furthest.offset_le_record (c : Cursor) (e : Expectation) (f : Furthest) :
    f.cursor.offset ≤ (f.record c e).cursor.offset := by
  unfold record
  split
  · rename_i hlt
    exact Nat.le_of_lt hlt
  · split <;> exact Nat.le_refl _

namespace State

variable {s s' : State}

/-- A step only ever goes forward. -/
theorem Step.exists_takes (h : s.Step s') : ∃ taken, s.cursor.Takes taken s'.cursor := by
  cases h with
  | token h =>
    cases h with
    | stay => exact ⟨[], s.cursor.takes_nil⟩
    | tokens hreads _ _ =>
      obtain ⟨taken, htakes, -⟩ := hreads.takes
      exact ⟨taken, htakes⟩
    | expected e _ => exact ⟨[], s.cursor.takes_nil⟩
    | gaveUp error => exact ⟨[], s.cursor.takes_nil⟩
  | verbatim part htakes => exact ⟨_, htakes⟩

theorem Step.furthest_le (h : s.Step s') :
    s.furthest.cursor.offset ≤ s'.furthest.cursor.offset := by
  cases h with
  | token h =>
    cases h with
    | expected e _ => exact Furthest.offset_le_record _ e s.furthest
    | _ => exact Nat.le_refl _
  | verbatim part _ => exact Nat.le_refl _

end State

namespace Production

variable {α β : Type}

/-! ## What holds of every production -/

/-- Every state of a run is at or behind the place where the run starts. -/
theorem exists_takes_of_states (p : Production α) (s : State) :
    ∀ t ∈ p.states s, ∃ taken, s.cursor.Takes taken t.cursor := by
  have hkeeps : p.Keeps fun t => ∃ taken, s.cursor.Takes taken t.cursor := by
    refine keeps_of_step ?_ (fun _ _ ht _ => ht) p
    rintro t t' hstep ⟨taken, htakes⟩
    obtain ⟨more, hmore⟩ := hstep.exists_takes
    exact ⟨taken ++ more, htakes.append hmore⟩
  exact hkeeps s ⟨[], s.cursor.takes_nil⟩

theorem exists_takes_run (p : Production α) (s : State) :
    ∃ taken, s.cursor.Takes taken (p.run s).2.cursor :=
  p.exists_takes_of_states s _ (p.run_mem_states s)

theorem offset_le_run (p : Production α) (s : State) :
    s.cursor.offset ≤ (p.run s).2.cursor.offset := by
  obtain ⟨taken, htakes⟩ := p.exists_takes_run s
  exact htakes.offset_le

theorem furthest_le_run (p : Production α) (s : State) :
    s.furthest.cursor.offset ≤ (p.run s).2.furthest.cursor.offset := by
  have hkeeps : p.Keeps fun t => s.furthest.cursor.offset ≤ t.furthest.cursor.offset :=
    keeps_of_step (fun t t' hstep ht => Nat.le_trans ht hstep.furthest_le) (fun _ _ _ ht => ht) p
  exact hkeeps.run (Nat.le_refl _)

/-! ## Sequences and alternatives -/

theorem run_bind_eq_some {p : Production α} {f : α → Production β} {s s' : State} {b : β} :
    (p >>= f).run s = (some b, s') ↔
      ∃ a u, p.run s = (some a, u) ∧ (f a).run u = (some b, s') := by
  rw [run_bind]
  rcases p.run s with ⟨_ | a, u⟩ <;> simp

theorem run_bind_eq_none {p : Production α} {f : α → Production β} {s s' : State} :
    (p >>= f).run s = (none, s') ↔ p.run s = (none, s') ∨
      ∃ a u, p.run s = (some a, u) ∧ (f a).run u = (none, s') := by
  rw [run_bind]
  rcases p.run s with ⟨_ | a, u⟩ <;> simp

theorem run_orElse_eq_some {p q : Production α} {s s' : State} {a : α} :
    (p <|> q).run s = (some a, s') ↔ p.run s = (some a, s') ∨
      ∃ u, p.run s = (none, u) ∧ q.run u = (some a, s') := by
  rw [run_orElse]
  rcases p.run s with ⟨_ | b, u⟩ <;> simp

theorem run_orElse_eq_none {p q : Production α} {s s' : State} :
    (p <|> q).run s = (none, s') ↔ ∃ u, p.run s = (none, u) ∧ q.run u = (none, s') := by
  rw [run_orElse]
  rcases p.run s with ⟨_ | b, u⟩ <;> simp

/-! ## Staying put and moving on -/

/-- Without a match the cursor is where it was. -/
def StaysPut (p : Production α) : Prop :=
  ∀ s s', p.run s = (none, s') → s'.cursor = s.cursor

/-- With a match the cursor is further on. -/
def MovesOn (p : Production α) : Prop :=
  ∀ s a s', p.run s = (some a, s') → s.cursor.offset < s'.cursor.offset

/-- There is always a match. -/
def Total (p : Production α) : Prop :=
  ∀ s s', p.run s ≠ (none, s')

variable {p q : Production α} {f : α → Production β}

/-! ## What is left to read -/

theorem length_rest_le {s s' : State} {result : Option α} (hrun : p.run s = (result, s')) :
    s'.cursor.rest.length ≤ s.cursor.rest.length := by
  obtain ⟨taken, htakes⟩ := p.exists_takes_run s
  rw [hrun] at htakes
  rw [htakes.length_rest]
  exact Nat.le_add_left _ _

theorem MovesOn.length_rest_lt (h : p.MovesOn) {s s' : State} {a : α}
    (hrun : p.run s = (some a, s')) : s'.cursor.rest.length < s.cursor.rest.length := by
  obtain ⟨taken, htakes⟩ := p.exists_takes_run s
  rw [hrun] at htakes
  have hne := htakes.offset_lt_iff.1 (h s a s' hrun)
  have hlen : s.cursor.rest.length = taken.length + s'.cursor.rest.length := htakes.length_rest
  have := List.length_pos_iff.2 hne
  omega

/-- On every text, a match then leaves less of it. -/
theorem MovesOn.advances (h : p.MovesOn) : p.Advances := by
  intro t rest a hmatched
  have hagrees := p.agrees_run (s := .start t) rfl
  rw [show (State.start t).cursor.rest = t from rfl, hmatched] at hagrees
  obtain ⟨hresult, hrest, -⟩ := hagrees
  rw [← hrest]
  exact h.length_rest_lt (Prod.ext hresult rfl)

/-! ## Ways to stay put and to move on -/

theorem total_pure (a : α) : (pure a : Production α).Total :=
  nofun

theorem total_bind (hp : p.Total) (hf : ∀ a, (f a).Total) : (p >>= f).Total := by
  intro s s' h
  rcases run_bind_eq_none.1 h with h | ⟨a, u, -, h⟩
  exacts [hp s s' h, hf a u s' h]

theorem total_chain (p : Production α) : (chain p).Total := by
  have hseparated : (separated operator p).Total := by
    refine total_bind nofun fun head => ?_
    cases head with
    | none => exact total_pure _
    | some head => exact total_bind nofun fun tail => total_pure _
  refine total_bind hseparated fun parts => ?_
  cases parts <;> exact total_pure _

theorem staysPut_token (e : Expectation) (accept : TokenKind → Option α) :
    (token e accept).StaysPut := by
  intro s s' h
  simp only [run, Reading.token] at h
  split at h
  · split at h
    · cases h
    · cases h; rfl
  · cases h; rfl

theorem movesOn_token (e : Expectation) (accept : TokenKind → Option α) :
    (token e accept).MovesOn := by
  intro s a s' h
  simp only [run, Reading.token] at h
  split at h
  · rename_i hnext
    have hlt := Cursor.offset_le_of_next? hnext
    split at h
    · cases h; exact Nat.lt_of_le_of_lt hlt.1 hlt.2
    · cases h
  · cases h

theorem staysPut_arrow (e : Expectation) (first second : Symbol) :
    (arrow e first second).StaysPut := by
  intro s s' h
  simp only [run, Reading.arrow] at h
  split at h
  · cases h
  · cases h; rfl

theorem movesOn_arrow (e : Expectation) (first second : Symbol) :
    (arrow e first second).MovesOn := by
  intro s a s' h
  simp only [run, Reading.arrow] at h
  split at h
  · rename_i hpair
    cases h
    obtain ⟨span, span', hreads⟩ := Cursor.reads_of_afterPair? hpair
    obtain ⟨taken, htakes, hne⟩ := hreads.takes
    exact htakes.offset_lt_iff.2 (hne (by simp))
  · cases h

theorem staysPut_startBody : startBody.StaysPut := by
  intro s s' h
  simp only [run, Reading.startBody] at h
  split at h
  · cases h
  · cases h; rfl

theorem staysPut_attempt (p : Production α) : (attempt p).StaysPut := by
  intro s s' h
  simp only [run, Reading.attempt] at h
  split at h
  · cases h; rfl
  · split at h
    · cases h
    · cases h; rfl

theorem movesOn_attempt (hp : p.MovesOn) : (attempt p).MovesOn := by
  intro s a s' h
  simp only [run, Reading.attempt] at h
  split at h
  · cases h
  · split at h
    · rename_i hrun; cases h; exact hp s a s' hrun
    · cases h

/-- What is tried after a production that stays put, is tried in the same place. -/
theorem staysPut_orElse (hp : p.StaysPut) (hq : q.StaysPut) : (p <|> q).StaysPut := by
  intro s s' h
  obtain ⟨u, hu, h⟩ := run_orElse_eq_none.1 h
  rw [hq u s' h, hp s u hu]

theorem movesOn_orElse (hp : p.MovesOn) (hq : q.MovesOn) : (p <|> q).MovesOn := by
  intro s a s' h
  rcases run_orElse_eq_some.1 h with h | ⟨u, hu, h⟩
  · exact hp s a s' h
  · have hle := p.offset_le_run s
    rw [hu] at hle
    exact Nat.lt_of_le_of_lt hle (hq u a s' h)

theorem staysPut_bind (hp : p.StaysPut) (hf : ∀ a, (f a).Total) : (p >>= f).StaysPut := by
  intro s s' h
  rcases run_bind_eq_none.1 h with h | ⟨a, u, -, h⟩
  · exact hp s s' h
  · exact absurd h (hf a u s')

/-- Once the first part has moved on, what follows does not go back before it. -/
theorem movesOn_bind (hp : p.MovesOn) (f : α → Production β) : (p >>= f).MovesOn := by
  intro s b s' h
  obtain ⟨a, u, hu, h⟩ := run_bind_eq_some.1 h
  have hle := (f a).offset_le_run u
  rw [h] at hle
  exact Nat.lt_of_lt_of_le (hp s a u hu) hle

theorem staysPut_map (g : α → β) (hp : p.StaysPut) : (g <$> p).StaysPut :=
  staysPut_bind hp fun a => total_pure (g a)

theorem movesOn_map (g : α → β) (hp : p.MovesOn) : (g <$> p).MovesOn :=
  movesOn_bind hp _

/-! ## The grammar -/

/-- Without a match the cursor is exactly where it was, and with a match it is further on. -/
structure Backtracks (p : Production α) : Prop where
  stays : p.StaysPut
  moves : p.MovesOn

theorem backtracks_token (e : Expectation) (accept : TokenKind → Option α) :
    (token e accept).Backtracks :=
  ⟨staysPut_token e accept, movesOn_token e accept⟩

theorem backtracks_arrow (e : Expectation) (first second : Symbol) :
    (arrow e first second).Backtracks :=
  ⟨staysPut_arrow e first second, movesOn_arrow e first second⟩

namespace Backtracks

theorem map (g : α → β) (hp : p.Backtracks) : (g <$> p).Backtracks :=
  ⟨staysPut_map g hp.stays, movesOn_map g hp.moves⟩

theorem orElse (hp : p.Backtracks) (hq : q.Backtracks) : (p <|> q).Backtracks :=
  ⟨staysPut_orElse hp.stays hq.stays, movesOn_orElse hp.moves hq.moves⟩

/-- Productions that do not go back by themselves do so in an attempt. -/
theorem attempt (hp : p.MovesOn) : (attempt p).Backtracks :=
  ⟨staysPut_attempt p, movesOn_attempt hp⟩

end Backtracks

theorem backtracks_nameOrQuoted : nameOrQuoted.Backtracks :=
  (backtracks_token _ _).orElse (backtracks_token _ _)

theorem backtracks_number : number.Backtracks :=
  (Backtracks.attempt (movesOn_bind (movesOn_token _ _) _)).orElse (backtracks_token _ _)

theorem backtracks_operand (limit : Nat) (inside : Option (Unit → Production Expression)) :
    (operand limit inside).Backtracks :=
  (Backtracks.attempt (movesOn_bind (movesOn_token _ _) _)).orElse <|
    (Backtracks.attempt (movesOn_bind (movesOn_token _ _) _)).orElse <|
    (Backtracks.attempt (movesOn_bind (movesOn_token _ _) _)).orElse <|
    (Backtracks.attempt (movesOn_bind (movesOn_token _ _) _)).orElse <|
    ((backtracks_token _ _).map _).orElse <| ((backtracks_token _ _).map _).orElse <|
    ((backtracks_token _ _).map _).orElse <| (backtracks_number.map _).orElse <|
    (backtracks_token _ _).map _

theorem backtracks_labels : labels.Backtracks :=
  ⟨staysPut_bind (staysPut_token _ _) fun _ => total_chain _, movesOn_bind (movesOn_token _ _) _⟩

theorem backtracks_node : node.Backtracks :=
  .attempt (movesOn_bind (movesOn_token _ _) _)

theorem backtracks_relationship : relationship.Backtracks :=
  .attempt (movesOn_bind (movesOn_token _ _) _)

theorem backtracks_edge : edge.Backtracks :=
  .attempt (movesOn_bind (movesOn_orElse (movesOn_map _ (movesOn_arrow _ _ _))
    (movesOn_map _ (movesOn_token _ _))) _)

theorem backtracks_matchKind : matchKind.Backtracks :=
  ((backtracks_token _ _).map _).orElse (.attempt (movesOn_bind (movesOn_token _ _) _))

/-- Where the productions leave the cursor, and what they leave as it was, from any state. -/
structure BacktrackingContract (limit : Nat) : Prop where
  /-- Tokens: symbols, keywords, identifiers, quoted strings, operators and literals -/
  token {α : Type} (e : Expectation) (accept : TokenKind → Option α) : (token e accept).Backtracks
  symbol (x : Symbol) : (symbol x).Backtracks
  keyword (k : Keyword) : (keyword k).Backtracks
  identifier : identifier.Backtracks
  quotedString : quotedString.Backtracks
  operator : operator.Backtracks
  literal : literal.Backtracks
  arrow (e : Expectation) (first second : Symbol) : (arrow e first second).Backtracks
  nameOrQuoted : nameOrQuoted.Backtracks
  number : number.Backtracks
  /-- Whatever stands inside of calls and groups -/
  operand (inside : Option (Unit → Production Expression)) : (operand limit inside).Backtracks
  labels : labels.Backtracks
  node : node.Backtracks
  relationship : relationship.Backtracks
  edge : edge.Backtracks
  matchKind : matchKind.Backtracks
  startBody : startBody.StaysPut ∧
    ∀ s, s.cursor.offset ≤ (Production.startBody.run s).2.cursor.offset
  attempt {α : Type} (p : Production α) : (attempt p).StaysPut ∧
    ∀ s, s.cursor.offset ≤ ((Production.attempt p).run s).2.cursor.offset
  /-- Looking for a clause never moves the cursor. -/
  atClause (s : State) : (atClause.run s).2.cursor = s.cursor
  furthest {α : Type} (p : Production α) (s : State) :
    s.furthest.cursor.offset ≤ (p.run s).2.furthest.cursor.offset
  fatal {α : Type} (p : Production α) (s : State) (error : SyntaxError) :
    s.fatal = some error → (p.run s).2.fatal = some error
  /-- A counter of the calls and groups that are open is left as it was found. -/
  depth (depth levels : Nat) : limit - depth < levels →
    Counted.FollowsGrammar limit depth (Counted.expression limit levels)
  /-- At the depth 0 that is the grammar of queries. -/
  query : query limit = queryOf (expression limit limit)

theorem backtrackingContract (limit : Nat) : BacktrackingContract limit where
  token := backtracks_token
  symbol _ := backtracks_token _ _
  keyword _ := backtracks_token _ _
  identifier := backtracks_token _ _
  quotedString := backtracks_token _ _
  operator := backtracks_token _ _
  literal := backtracks_token _ _
  arrow := backtracks_arrow
  nameOrQuoted := backtracks_nameOrQuoted
  number := backtracks_number
  operand := backtracks_operand limit
  labels := backtracks_labels
  node := backtracks_node
  relationship := backtracks_relationship
  edge := backtracks_edge
  matchKind := backtracks_matchKind
  startBody := ⟨staysPut_startBody, offset_le_run _⟩
  attempt p := ⟨staysPut_attempt p, offset_le_run _⟩
  atClause _ := rfl
  furthest := furthest_le_run
  fatal p s error h := by rw [fatal_run_eq p (by rw [h]; rfl), h]
  depth _ _ := Counted.followsGrammar
  query := query_eq_queryOf limit

end Production

end Cypher
