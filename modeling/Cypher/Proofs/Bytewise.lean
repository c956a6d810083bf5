/-
  Bytewise — a query is read by byte offsets, and no slice is ever missing.

  A cursor holds the text that follows it. Here there are only byte offsets: whatever is looked at
  is cut out of the query, and there is no result at all once a slice does not begin and end between
  two characters of it.

  * `ByteState` has offsets in place of cursors; `Bytewise.token?` to `Bytewise.tooDeep?` are the
    elementary readings, `Production.bytewise?` is the run of a production;
  * `State.IsIn`: cursor and furthest failure are places of the text. They are in all states of a
    run (`keeps_isIn`);
  * `Production.ReadsBytewise`: by offsets a production is read as it is with cursors, slices and
    all. So is the whole grammar (`Composed.readsBytewise`);
  * `Query.parse_within_source`: no offset leaves the text or lies inside of a character.
-/
import Cypher.Proofs.Composition
import Cypher.Proofs.Slices

namespace Cypher

/-! ## Offsets in place of cursors -/

/-- The state of reading a query by its byte offsets. -/
structure ByteState where
  position : Nat
  furthest : Nat
  expected : List Expectation
  fatal : Option SyntaxError
  captures : List Capture

namespace ByteState

/-- The state before anything is read. -/
def start : ByteState :=
  ⟨0, 0, [], none, []⟩

/-- The state with its position elsewhere, at the end of the query if that is before it. -/
def moveTo (source : Text) (offset : Nat) (s : ByteState) : ByteState :=
  { s with position := min offset source.byteSize }

/-- Records an expectation that failed at an offset. -/
def expectAt (offset : Nat) (e : Expectation) (s : ByteState) : ByteState :=
  if s.furthest < offset then { s with furthest := offset, expected := [e] }
  else if offset = s.furthest ∧ e ∉ s.expected then { s with expected := s.expected ++ [e] }
  else s

/-- Gives up the whole query; the first error stands. -/
def fail (error : SyntaxError) (s : ByteState) : ByteState :=
  { s with fatal := s.fatal.or (some error) }

/-- Notes a verbatim part. -/
def capture (c : Capture) (s : ByteState) : ByteState :=
  { s with captures := s.captures ++ [c] }

end ByteState

namespace Bytewise

variable {α : Type} (source : Text)

/-! ## Elementary readings -/

/-- The next item from an offset on. -/
def itemAt? (offset : Nat) : Option (Option Item) :=
  (Cursor.at? source offset).map fun c => c.next?.map Prod.fst

/-- The offset of the next character that is not blank, by what trimming leaves. -/
def nextOffset? (offset : Nat) : Option Nat :=
  (source.from? offset).map fun rest => offset + (rest.byteSize - rest.dropBlanks.byteSize)

/-- Records an expectation that failed at the next character that is not blank. -/
def missed? (e : Expectation) (s : ByteState) : Option (Option α × ByteState) :=
  (nextOffset? source s.position).map fun offset => (none, s.expectAt offset e)

/-- Reads the next token if `accept` gives it a value. -/
def token? (e : Expectation) (accept : TokenKind → Option α) (s : ByteState) :
    Option (Option α × ByteState) :=
  (itemAt? source s.position).bind fun
    | some ⟨.token kind, span⟩ =>
      match accept kind with
      | some a => some (some a, { s with position := span.stop })
      | none => missed? source e s
    | _ => missed? source e s

/-- The token that stands directly at an offset, and the offset behind it. -/
def adjacentAt? (offset : Nat) : Option (Option (TokenKind × Nat)) :=
  (itemAt? source offset).map fun
    | some ⟨.token kind, span⟩ => if span.start = offset then some (kind, span.stop) else none
    | _ => none

/-- Reads the token directly at the position if `accept` gives it a value. -/
def adjacent? (accept : TokenKind → Option α) (s : ByteState) : Option (Option α × ByteState) :=
  (adjacentAt? source s.position).map fun
    | some (kind, stop) =>
      match accept kind with
      | some a => (some a, { s with position := stop })
      | none => (none, s)
    | none => (none, s)

/-- Reads two symbols with nothing between them. -/
def arrow? (e : Expectation) (first second : Symbol) (s : ByteState) :
    Option (Option Unit × ByteState) :=
  (itemAt? source s.position).bind fun
    | some ⟨.token kind, span⟩ =>
      if kind = .symbol first then
        (adjacentAt? source span.stop).bind fun
          | some (kind', stop) =>
            if kind' = .symbol second then some (some (), { s with position := stop })
            else missed? source e s
          | none => missed? source e s
      else missed? source e s
    | _ => missed? source e s

/-- Matches if only blanks are left. -/
def endOfInput? (s : ByteState) : Option (Option Unit × ByteState) :=
  (itemAt? source s.position).bind fun
    | none => some (some (), s)
    | some _ => missed? source .endOfInput s

/-- Takes over the text up to the next clause, trimmed. -/
def startBody? (s : ByteState) : Option (Option Text × ByteState) :=
  (source.from? s.position).bind fun rest => rest.findClause?.bind fun
    | none => some (none, s.expectAt source.byteSize .clause)
    | some boundary => (rest.upTo? boundary).map fun before =>
      let body := before.trim
      (some body, (s.capture (.startBody body)).moveTo source (s.position + boundary))

/-- Takes over a `CASE` expression up to the first `END`, trimmed. It begins with `word`, which has
    just been read. -/
def caseRest? (word : Text) (s : ByteState) : Option (Option Text × ByteState) :=
  (source.from? s.position).bind fun rest => (rest.findWord? Keyword.end_.written).bind fun
    | none => some (none, s.expectAt source.byteSize (.keyword .end_))
    | some offset =>
      let stop := s.position + offset + Keyword.end_.written.byteSize
      (source.slice? (s.position - word.byteSize) stop).map fun slice =>
        let text := slice.trim
        (some text, (s.capture (.caseExpression text)).moveTo source stop)

/-- Gives up the query at the next character that is not blank. -/
def tooDeep? (limit : Nat) (s : ByteState) : Option (Option α × ByteState) :=
  (nextOffset? source s.position).map fun offset =>
    (none, s.fail (.nestingTooDeep limit ⟨offset, offset + 1⟩))

/-! ## Going back and repeating -/

variable (read : ByteState → Option (Option α × ByteState))

/-- Reads, and goes back to the start if there is no match. -/
def attempt? (s : ByteState) : Option (Option α × ByteState) :=
  if s.fatal.isSome then some (none, s)
  else (read s).map fun
    | (some a, s') => (some a, s')
    | (none, s') => (none, s'.moveTo source s.position)

/-- Reads as often as there is a match that moves on, and once more. -/
def repeated? (s : ByteState) : Option (List α × ByteState) :=
  match attempt? source read s with
  | none => none
  | some (none, s') => some ([], s')
  | some (some a, s') =>
    if s.position < s'.position ∧ s'.position ≤ source.byteSize then
      (repeated? s').map fun (as, s'') => (a :: as, s'')
    else some ([a], s')
termination_by source.byteSize - s.position

end Bytewise

open Bytewise in
/-- How a production reads by byte offsets; nothing once a slice is missing. -/
@[simp] def Production.bytewise? {α : Type} (source : Text) :
    Production α → ByteState → Option (Option α × ByteState)
  | .succeed a => fun s => some (some a, s)
  | .andThen p f => fun s => (p.bytewise? source s).bind fun
    | (some a, s') => (f a).bytewise? source s'
    | (none, s') => some (none, s')
  | .orTry p q => fun s => (p.bytewise? source s).bind fun
    | (some a, s') => some (some a, s')
    | (none, s') => q.bytewise? source s'
  | .attempt p => attempt? source (p.bytewise? source)
  | .maybe p => fun s => (p.bytewise? source s).map fun (result, s') => (some result, s')
  | .lookahead p => fun s => (p.bytewise? source s).map fun (result, s') =>
    (some result.isSome, s'.moveTo source s.position)
  | .many p => fun s =>
    (repeated? source (p.bytewise? source) s).map fun (as, s') => (some as, s')
  | .token e accept => token? source e accept
  | .adjacent accept => adjacent? source accept
  | .arrow e first second => arrow? source e first second
  | .endOfInput => endOfInput? source
  | .startBody => startBody? source
  | .caseRest word => caseRest? source word
  | .tooDeep limit => tooDeep? source limit

/-- The error to report: the fatal one, or else what is found at the furthest failure. -/
def ByteState.error? (source : Text) (s : ByteState) : Option SyntaxError :=
  let alternatives := s.expected.map Expectation.describe
  match s.fatal with
  | some error => some error
  | none => (Bytewise.itemAt? source s.furthest).bind fun
    | none => some ⟨.unexpected alternatives .endOfInput, ⟨s.furthest, s.furthest⟩⟩
    | some ⟨.token _, span⟩ => (source.slice? span.start span.stop).map fun text =>
      ⟨.unexpected alternatives (.token text), span⟩
    | some ⟨.unrecognized _, span⟩ =>
      some ⟨.unexpected alternatives (.unrecognized ((source.slice? span.start span.stop).getD [])),
        span⟩

/-- Reads a query by byte offsets; nothing once a slice is missing. -/
def Query.parseBytewise? (limit : Nat) (source : Text) : Option Query.Result :=
  ((Production.query limit).bytewise? source .start).bind fun
    | (some query, s) =>
      if s.fatal.isSome then (s.error? source).map .error else some (.ok query)
    | (none, s) => (s.error? source).map .error

/-! ## States in the text -/

namespace State

variable {source : Text} {s s' : State}

/-- The cursor and the furthest failure are places of the text. -/
structure IsIn (source : Text) (s : State) : Prop where
  cursor : s.cursor.IsIn source
  furthest : s.furthest.cursor.IsIn source

theorem isIn_start (source : Text) : (start source).IsIn source :=
  ⟨Cursor.isIn_start source, Cursor.isIn_start source⟩

theorem IsIn.expectAt {c : Cursor} (h : s.IsIn source) (hc : c.IsIn source) (e : Expectation) :
    (s.expectAt c e).IsIn source := by
  refine ⟨h.cursor, ?_⟩
  simp only [State.expectAt, Furthest.record]
  split
  · exact hc
  · split <;> exact h.furthest

theorem IsIn.step (h : s.IsIn source) (hstep : s.Step s') : s'.IsIn source := by
  cases hstep with
  | token hstep =>
    cases hstep with
    | stay => exact h
    | tokens hreads _ _ => exact ⟨h.cursor.reads hreads, h.furthest⟩
    | expected e htakes => exact h.expectAt (h.cursor.takes htakes) e
    | gaveUp error => exact ⟨h.cursor, h.furthest⟩
  | verbatim part htakes => exact ⟨h.cursor.takes htakes, h.furthest⟩

/-- The state with offsets in place of its cursors. -/
def bytes (s : State) : ByteState :=
  ⟨s.cursor.offset, s.furthest.cursor.offset, s.furthest.expected, s.fatal, s.captures⟩

@[simp] theorem bytes_position (s : State) : s.bytes.position = s.cursor.offset := rfl

@[simp] theorem bytes_furthest (s : State) : s.bytes.furthest = s.furthest.cursor.offset := rfl

@[simp] theorem bytes_fatal (s : State) : s.bytes.fatal = s.fatal := rfl

theorem bytes_expectAt (c : Cursor) (e : Expectation) (s : State) :
    (s.expectAt c e).bytes = s.bytes.expectAt c.offset e := by
  unfold expectAt Furthest.record ByteState.expectAt
  by_cases hfurther : s.furthest.cursor.offset < c.offset
  · rw [if_pos hfurther, if_pos (show s.bytes.furthest < c.offset from hfurther)]
    rfl
  · rw [if_neg hfurther, if_neg (show ¬s.bytes.furthest < c.offset from hfurther)]
    by_cases hnew : c.offset = s.furthest.cursor.offset ∧ e ∉ s.furthest.expected
    · rw [if_pos hnew, if_pos (show c.offset = s.bytes.furthest ∧ e ∉ s.bytes.expected from hnew)]
      rfl
    · rw [if_neg hnew,
        if_neg (show ¬(c.offset = s.bytes.furthest ∧ e ∉ s.bytes.expected) from hnew)]

/-- Within the text there is nothing to keep a position from. -/
theorem bytes_moveTo {c : Cursor} (hc : c.IsIn source) (s : State) :
    (s.moveTo c).bytes = s.bytes.moveTo source c.offset := by
  simp only [bytes, moveTo, ByteState.moveTo, Nat.min_eq_left hc.isBoundary.le]

end State

theorem Production.keeps_isIn {α : Type} (source : Text) (p : Production α) :
    p.Keeps (State.IsIn source) :=
  keeps_of_step (fun _ _ hstep h => h.step hstep) (fun _ _ hs ht => ⟨hs.cursor, ht.furthest⟩) p

/-! ## Elementary readings by offsets -/

namespace Bytewise

variable {α : Type} {source : Text} {c : Cursor} {s : State}

theorem from?_offset (h : c.IsIn source) : source.from? c.offset = some c.rest := by
  obtain ⟨before, hsource, hoffset⟩ := h
  rw [hsource, hoffset, Text.from?_append]

theorem itemAt?_offset (h : c.IsIn source) :
    itemAt? source c.offset = some (c.next?.map Prod.fst) := by
  rw [itemAt?, h.at?_offset, Option.map_some]

theorem nextOffset?_offset (h : c.IsIn source) :
    nextOffset? source c.offset = some c.skipBlanks.offset := by
  have hsize := congrArg Text.byteSize (Text.takeWhile_append_dropBlanks c.rest)
  rw [Text.byteSize_append] at hsize
  rw [nextOffset?, from?_offset h, Option.map_some, Cursor.skipBlanks, Cursor.advance]
  congr 2
  omega

theorem missed?_bytes (h : s.IsIn source) (e : Expectation) :
    missed? source e s.bytes = some ((none : Option α), (s.expect e).bytes) := by
  rw [missed?, State.bytes_position, nextOffset?_offset h.cursor, Option.map_some, State.expect,
    State.bytes_expectAt]

theorem token?_bytes (h : s.IsIn source) (e : Expectation) (accept : TokenKind → Option α) :
    token? source e accept s.bytes =
      some ((Reading.token e accept s).1, (Reading.token e accept s).2.bytes) := by
  simp only [token?, State.bytes_position, itemAt?_offset h.cursor, Option.bind_some, Reading.token]
  rcases hnext : s.cursor.next? with _ | ⟨⟨kind | text, span⟩, after⟩
  · exact missed?_bytes h e
  · have hstop : span.stop = after.offset := Cursor.stop_of_next? hnext
    simp only [Option.map_some]
    rcases accept kind with _ | a
    · exact missed?_bytes h e
    · rw [hstop]
      rfl
  · exact missed?_bytes h e

theorem adjacentAt?_offset (h : c.IsIn source) :
    adjacentAt? source c.offset =
      some (c.adjacent?.map fun (kind, after) => (kind, after.offset)) := by
  simp only [adjacentAt?, itemAt?_offset h, Option.map_some, Cursor.adjacent?]
  rcases hnext : c.next? with _ | ⟨⟨kind | text, span⟩, after⟩
  · rfl
  · have hstop : span.stop = after.offset := Cursor.stop_of_next? hnext
    simp only [Option.map_some, hstop]
    split <;> rfl
  · rfl

theorem adjacent?_bytes (h : s.IsIn source) (accept : TokenKind → Option α) :
    adjacent? source accept s.bytes =
      some ((Reading.adjacent accept s).1, (Reading.adjacent accept s).2.bytes) := by
  simp only [adjacent?, State.bytes_position, adjacentAt?_offset h.cursor, Option.map_some,
    Reading.adjacent]
  rcases s.cursor.adjacent? with _ | ⟨kind, after⟩
  · rfl
  · simp only [Option.map_some]
    rcases accept kind with _ | a <;> rfl

theorem arrow?_bytes (h : s.IsIn source) (e : Expectation) (first second : Symbol) :
    arrow? source e first second s.bytes =
      some ((Reading.arrow e first second s).1, (Reading.arrow e first second s).2.bytes) := by
  simp only [arrow?, State.bytes_position, itemAt?_offset h.cursor, Option.bind_some,
    Reading.arrow, Cursor.afterPair?]
  rcases hnext : s.cursor.next? with _ | ⟨⟨kind | text, span⟩, between⟩
  · exact missed?_bytes h e
  · have hstop : span.stop = between.offset := Cursor.stop_of_next? hnext
    have hadj : adjacentAt? source span.stop = _ :=
      hstop ▸ adjacentAt?_offset (h.cursor.next? hnext)
    simp only [Option.map_some, hadj, Option.bind_some]
    by_cases hfirst : kind = .symbol first
    · simp only [if_pos hfirst]
      rcases between.adjacent? with _ | ⟨kind', after⟩
      · exact missed?_bytes h e
      · simp only [Option.map_some]
        by_cases hsecond : kind' = .symbol second
        · simp only [if_pos hsecond]
          rfl
        · simp only [if_neg hsecond]
          exact missed?_bytes h e
    · simp only [if_neg hfirst]
      exact missed?_bytes h e
  · exact missed?_bytes h e

theorem endOfInput?_bytes (h : s.IsIn source) :
    endOfInput? source s.bytes =
      some ((Reading.endOfInput s).1, (Reading.endOfInput s).2.bytes) := by
  simp only [endOfInput?, State.bytes_position, itemAt?_offset h.cursor, Option.bind_some,
    Reading.endOfInput]
  rcases s.cursor.next? with _ | next
  · rfl
  · exact missed?_bytes h .endOfInput

theorem tooDeep?_bytes (h : s.IsIn source) (limit : Nat) :
    tooDeep? source limit s.bytes =
      some ((Reading.tooDeep limit s : Option α × State).1,
        (Reading.tooDeep limit s : Option α × State).2.bytes) := by
  rw [tooDeep?, State.bytes_position, nextOffset?_offset h.cursor, Option.map_some]
  rfl

/-! ## Verbatim parts by offsets -/

/-- The end of the query is as many bytes away as there are. -/
theorem offset_toEnd (h : c.IsIn source) : c.toEnd.offset = source.byteSize := by
  obtain ⟨before, hsource, hoffset⟩ := h
  rw [hsource, Text.byteSize_append, ← hoffset]
  rfl

theorem startBody?_bytes (h : s.IsIn source) :
    startBody? source s.bytes = some ((Reading.startBody s).1, (Reading.startBody s).2.bytes) := by
  simp only [startBody?, State.bytes_position, from?_offset h.cursor, Option.bind_some,
    Text.findClause?_eq, Reading.startBody]
  rcases hsplit : s.cursor.rest.splitAtClause? with _ | ⟨before, rest⟩
  · simp only [Option.map_none, State.bytes_expectAt, offset_toEnd h.cursor]
  · have hrest := (Text.splitAtStartFrom?_eq_some hsplit).1
    have hcursor := h.cursor.advance hrest
    simp only [Option.map_some, State.bytes_moveTo hcursor]
    rw [hrest, Text.upTo?_append]
    rfl

/-- The slice of a `CASE` expression begins where the word does which has just been read. -/
theorem caseRest?_bytes {word before : Text} (h : s.IsIn source)
    (hword : word.lower = Keyword.case_.written.lower)
    (hsource : source = before ++ (word ++ s.cursor.rest))
    (hoffset : s.cursor.offset = before.byteSize + word.byteSize) :
    caseRest? source word s.bytes =
      some ((Reading.caseRest word s).1, (Reading.caseRest word s).2.bytes) := by
  simp only [caseRest?, State.bytes_position, from?_offset h.cursor, Option.bind_some,
    Text.findWord?_eq, Reading.caseRest]
  rcases hsplit : Text.splitAtWord? Keyword.end_.written s.cursor.rest with _ | ⟨inner, rest⟩
  · simp only [Option.map_none, State.bytes_expectAt, offset_toEnd h.cursor]
  · obtain ⟨hrest, hstarts, -⟩ := Text.splitAtStartFrom?_eq_some hsplit
    obtain ⟨written, after, rfl, hlower, -⟩ := Text.startsWord_iff.1 hstarts
    have hsize : Keyword.end_.written.byteSize = written.byteSize :=
      (Text.byteSize_eq_of_lower_eq hlower).symm
    have hstop : s.cursor.offset + inner.byteSize + Keyword.end_.written.byteSize =
        (s.cursor.advance (inner ++ written) after).offset := by
      rw [hsize, Nat.add_assoc, ← Text.byteSize_append]
      rfl
    have hslice : source.slice? (s.cursor.offset - word.byteSize)
        (s.cursor.advance (inner ++ written) after).offset = some (word ++ (inner ++ written)) := by
      have hpart : Span.Covers source ⟨before.byteSize, before.byteSize +
          (word ++ (inner ++ written)).byteSize⟩ (word ++ (inner ++ written)) :=
        ⟨before, after, by rw [hsource, hrest]; simp, rfl⟩
      rw [Cursor.advance, hoffset, Nat.add_sub_cancel, Nat.add_assoc, ← Text.byteSize_append]
      exact Text.slice?_of_covers hpart
    have htrim : (word ++ (inner ++ written)).trim = word ++ (inner ++ written) :=
      Text.isTrimmed_iff.1 (Text.isTrimmed_of_words inner (Text.isWord_written .case_)
        (Text.isWord_written .end_) hword hlower)
    have htaken : s.cursor.rest = inner ++ written ++ after := by rw [hrest, List.append_assoc]
    have hcursor := h.cursor.advance htaken
    have hlength : Keyword.end_.written.length = written.length :=
      (Text.length_eq_of_lower_eq hlower).symm
    simp only [Option.map_some, hstop, hslice, htrim, hlength, List.take_left, List.drop_left,
      State.bytes_moveTo hcursor]
    rfl

end Bytewise

/-! ## Productions by offsets -/

namespace Production

variable {α β : Type} {source : Text} {p q : Production α} {f : α → Production β} {s : State}

/-- From the state, the production is read by offsets as it is with cursors: no slice is missing. -/
def ReadsBytewiseAt (source : Text) (s : State) (p : Production α) : Prop :=
  p.bytewise? source s.bytes = some ((p.run s).1, (p.run s).2.bytes)

/-- From all places of the text, the production is read by offsets as it is with cursors. -/
def ReadsBytewise (source : Text) (p : Production α) : Prop :=
  ∀ s, s.IsIn source → p.ReadsBytewiseAt source s

theorem ReadsBytewiseAt.bind (hp : p.ReadsBytewiseAt source s)
    (hf : ∀ a s', p.run s = (some a, s') → (f a).ReadsBytewiseAt source s') :
    (p >>= f).ReadsBytewiseAt source s := by
  unfold ReadsBytewiseAt at hp ⊢
  rw [run_bind]
  simp only [Bind.bind, bytewise?, hp, Option.bind_some]
  rcases hrun : p.run s with ⟨_ | a, s'⟩
  · rfl
  · exact hf a s' hrun

theorem ReadsBytewiseAt.attempt (hs : s.IsIn source) (hp : p.ReadsBytewiseAt source s) :
    (attempt p).ReadsBytewiseAt source s := by
  unfold ReadsBytewiseAt at hp ⊢
  simp only [bytewise?, run, Bytewise.attempt?, Reading.attempt, hp, State.bytes_fatal]
  split
  · rfl
  · rcases p.run s with ⟨_ | a, s'⟩
    · simp only [Option.map_some, State.bytes_moveTo hs.cursor]
      rfl
    · rfl

namespace ReadsBytewise

theorem pure (a : α) : (Pure.pure a : Production α).ReadsBytewise source :=
  fun _ _ => rfl

theorem token (e : Expectation) (accept : TokenKind → Option α) :
    (token e accept).ReadsBytewise source :=
  fun _ hs => Bytewise.token?_bytes hs e accept

theorem adjacent (accept : TokenKind → Option α) : (adjacent accept).ReadsBytewise source :=
  fun _ hs => Bytewise.adjacent?_bytes hs accept

theorem arrow (e : Expectation) (first second : Symbol) :
    (arrow e first second).ReadsBytewise source :=
  fun _ hs => Bytewise.arrow?_bytes hs e first second

theorem endOfInput : endOfInput.ReadsBytewise source :=
  fun _ hs => Bytewise.endOfInput?_bytes hs

theorem startBody : startBody.ReadsBytewise source :=
  fun _ hs => Bytewise.startBody?_bytes hs

theorem tooDeep (limit : Nat) : (tooDeep limit : Production α).ReadsBytewise source :=
  fun _ hs => Bytewise.tooDeep?_bytes hs limit

theorem bind (hp : p.ReadsBytewise source) (hf : ∀ a, (f a).ReadsBytewise source) :
    (p >>= f).ReadsBytewise source := by
  intro s hs
  refine (hp s hs).bind fun a s' hrun => hf a s' ?_
  have hs' := (p.keeps_isIn source).run hs
  rwa [hrun] at hs'

theorem map (g : α → β) (hp : p.ReadsBytewise source) : (g <$> p).ReadsBytewise source :=
  hp.bind fun a => .pure (g a)

theorem orElse (hp : p.ReadsBytewise source) (hq : q.ReadsBytewise source) :
    (p <|> q).ReadsBytewise source := by
  intro s hs
  have hs' := (p.keeps_isIn source).run hs
  have hfirst := hp s hs
  unfold ReadsBytewiseAt at hfirst ⊢
  rw [run_orElse]
  simp only [HOrElse.hOrElse, OrElse.orElse, bytewise?, hfirst, Option.bind_some]
  rcases hrun : p.run s with ⟨_ | a, s'⟩
  · rw [hrun] at hs'
    exact hq s' hs'
  · rfl

theorem attempt (hp : p.ReadsBytewise source) : (attempt p).ReadsBytewise source :=
  fun s hs => (hp s hs).attempt hs

theorem maybe (hp : p.ReadsBytewise source) : (maybe p).ReadsBytewise source := by
  intro s hs
  have hfirst := hp s hs
  unfold ReadsBytewiseAt at hfirst ⊢
  simp only [bytewise?, run, hfirst, Option.map_some]

theorem lookahead (hp : p.ReadsBytewise source) : (lookahead p).ReadsBytewise source := by
  intro s hs
  have hfirst := hp s hs
  unfold ReadsBytewiseAt at hfirst ⊢
  simp only [bytewise?, run, hfirst, Option.map_some, State.bytes_moveTo hs.cursor]
  rfl

/-- A match moves on by offsets if it leaves less text. -/
theorem many (hp : p.ReadsBytewise source) : (many p).ReadsBytewise source := by
  have hround (s : State) (hs : s.IsIn source) :
      Bytewise.attempt? source (p.bytewise? source) s.bytes =
        some ((Reading.attempt p.run s).1, (Reading.attempt p.run s).2.bytes) := hp.attempt s hs
  have hkeeps (s : State) (hs : s.IsIn source) : (Reading.attempt p.run s).2.IsIn source :=
    ((Production.attempt p).keeps_isIn source).run hs
  have hrepeated (s : State) (hs : s.IsIn source) :
      Bytewise.repeated? source (p.bytewise? source) s.bytes =
        some ((Reading.repeated p.run s).1, (Reading.repeated p.run s).2.bytes) := by
    fun_induction Reading.repeated p.run s with
    | case1 s s' heq =>
      rw [Bytewise.repeated?, hround s hs, heq]
    | case2 s a s' heq hlt as s'' hrep ih =>
      have hs' := hkeeps s hs
      rw [heq] at hs'
      have hmoves : s.bytes.position < s'.bytes.position ∧
          s'.bytes.position ≤ source.byteSize :=
        ⟨(hs.cursor.offset_lt_iff hs'.cursor).2 hlt, hs'.cursor.isBoundary.le⟩
      rw [Bytewise.repeated?, hround s hs, heq]
      simp only [if_pos hmoves, ih hs', hrep, Option.map_some]
    | case3 s a s' heq hlt =>
      have hs' := hkeeps s hs
      rw [heq] at hs'
      have hmoves : ¬(s.bytes.position < s'.bytes.position ∧
          s'.bytes.position ≤ source.byteSize) :=
        fun h => hlt ((hs.cursor.offset_lt_iff hs'.cursor).1 h.1)
      rw [Bytewise.repeated?, hround s hs, heq]
      simp only [if_neg hmoves]
  intro s hs
  unfold ReadsBytewiseAt
  simp only [bytewise?, run, hrepeated s hs, Option.map_some]

end ReadsBytewise

/-! ## The grammar by offsets -/

/-- A keyword that has been read stands directly before the cursor. -/
theorem exists_before_of_keyword {k : Keyword} {word : Text} {s' : State} (hs : s.IsIn source)
    (hrun : (keyword k).run s = (some word, s')) :
    word.lower = k.written.lower ∧ ∃ before, source = before ++ (word ++ s'.cursor.rest) ∧
      s'.cursor.offset = before.byteSize + word.byteSize := by
  simp only [keyword, run, Reading.token] at hrun
  split at hrun
  · rename_i kind span after hnext
    split at hrun
    · rename_i name haccept
      cases hrun
      obtain ⟨hkeyword, hname⟩ := Option.ite_none_right_eq_some.1 haccept
      obtain rfl : kind = .identifier word := by
        cases kind with
        | identifier name => cases hname; rfl
        | _ => cases hname
      obtain ⟨before, hsource, hoffset⟩ := hs.cursor.skipBlanks
      obtain ⟨hrest, -, -, hafter⟩ := Cursor.next?_eq_some hnext
      refine ⟨Text.eqIgnoringCase_iff.1 hkeyword, before, ?_, ?_⟩
      · rw [hsource, hrest]
        rfl
      · rw [← hoffset]
        exact hafter
    · cases hrun
  · cases hrun

theorem readsBytewise_caseExpression : caseExpression.ReadsBytewise source := by
  intro s hs
  have hkeyword : (keyword .case_).ReadsBytewise source := .token _ _
  refine (hkeyword s hs).bind fun word s' hrun => ?_
  obtain ⟨hword, before, hsource, hoffset⟩ := exists_before_of_keyword hs hrun
  have hs' := ((keyword .case_).keeps_isIn source).run hs
  rw [hrun] at hs'
  exact ReadsBytewiseAt.bind (Bytewise.caseRest?_bytes hs' hword hsource hoffset)
    fun _ _ _ => rfl

theorem readsBytewise_mark {e : Expectation} {first second : Symbol} {a b : α} :
    (mark e first second a b).ReadsBytewise source :=
  .orElse (.map _ (.arrow _ _ _)) (.map _ (.token _ _))

theorem readsBytewise_number : number.ReadsBytewise source := by
  have hnegative : negativeNumber.ReadsBytewise source :=
    .bind (.token _ _) fun _ => .bind (.adjacent _) fun _ => .pure _
  exact .orElse hnegative.attempt (.token _ _)

/-- What is composed as the grammar is can be read by offsets. -/
theorem Composed.readsBytewise {scope : Scope} {n : Nat} {γ : Type} {fold : α → γ}
    {p p' : Production α} (h : Composed scope n fold p p') (hfolds : scope.folds = false) :
    p.ReadsBytewise source := by
  induction h with
  | succeed _ => exact .pure _
  | andThen _ _ ihp ihf => exact .bind ihp fun a => ihf a a (.refl a)
  | orTry _ _ ihp ihq => exact .orElse ihp ihq
  | attempt _ ih => exact .attempt ih
  | maybe _ ih => exact .maybe ih
  | lookahead _ _ ih => exact .lookahead ih
  | many _ _ ih => exact .many ih
  | token _ _ _ => exact .token _ _
  | leftMark => exact readsBytewise_mark
  | rightMark => exact readsBytewise_mark
  | number => exact readsBytewise_number
  | caseExpression => exact readsBytewise_caseExpression
  | startBody _ => exact .startBody
  | endOfInput _ => exact .endOfInput
  | propertyOrPlain h => rw [hfolds] at h; cases h
  | parenthesis _ ih => exact .bind (.token _ _) fun _ => ih
  | tooDeep _ => exact .bind (.token _ _) fun _ => .tooDeep _
  | mono _ _ ih => exact ih

theorem readsBytewise_query (limit : Nat) : (query limit).ReadsBytewise source :=
  (Composed.query limit 0 false).readsBytewise rfl

end Production

/-! ## The result by offsets -/

/-- What is found at the furthest failure can be cut out of the query. -/
theorem State.error?_bytes {source : Text} {s : State} (h : s.IsIn source) :
    s.bytes.error? source = some s.error := by
  unfold ByteState.error? State.error
  rw [State.bytes_fatal]
  cases s.fatal with
  | some error => rfl
  | none =>
    simp only [State.bytes_furthest, Bytewise.itemAt?_offset h.furthest, Option.bind_some,
      Option.getD_none, Furthest.error]
    rcases hnext : s.furthest.cursor.next? with _ | ⟨⟨kind | text, span⟩, after⟩
    · rfl
    · have hslice : source.slice? span.start span.stop = some kind.written :=
        Text.slice?_of_covers (h.furthest.covers_of_next? hnext)
      simp only [Option.map_some, hslice]
      rfl
    · have hslice : source.slice? span.start span.stop = some text :=
        Text.slice?_of_covers (h.furthest.covers_of_next? hnext)
      simp only [Option.map_some, hslice, Option.getD_some]
      rfl

namespace Query

open Production

theorem parseBytewise?_eq_parse (limit : Nat) (source : Text) :
    parseBytewise? limit source = some (parse limit source) := by
  have hstart := State.isIn_start source
  have hrun := readsBytewise_query limit (State.start source) hstart
  have herror := State.error?_bytes (((query limit).keeps_isIn source).run hstart)
  unfold ReadsBytewiseAt at hrun
  rw [parseBytewise?, parse, show ByteState.start = (State.start source).bytes from rfl, hrun,
    Option.bind_some]
  rcases hend : (query limit).run (State.start source) with ⟨_ | query, s⟩ <;> rw [hend] at herror
  · simp only [herror, Option.map_some, result]
  · simp only [herror, Option.map_some, result, State.bytes_fatal]
    split <;> rfl

/-- While a query is read, no offset leaves the text or lies inside of a character: neither where
    the cursor is, nor where an expectation failed, nor where a slice begins or ends. So reading it
    by offsets has a result, and that is the one with cursors. -/
theorem parse_within_source (limit : Nat) (source : Text) :
    (∀ s ∈ (query limit).states (State.start source),
      (s.cursor.offset ≤ source.byteSize ∧ source.IsBoundary s.cursor.offset) ∧
        s.furthest.cursor.offset ≤ source.byteSize ∧
        source.IsBoundary s.furthest.cursor.offset) ∧
      parseBytewise? limit source = some (parse limit source) ∧
      ∀ offset, (Cursor.at? source offset).isSome = true ↔
        source.IsBoundary offset ∨ source.byteSize < offset := by
  have hstart := State.isIn_start source
  refine ⟨fun s hs => ?_, parseBytewise?_eq_parse limit source, fun _ => Cursor.isSome_at?_iff⟩
  have hin := (query limit).keeps_isIn source _ hstart s hs
  have hcursor := hin.cursor.isBoundary
  have hfurthest := hin.furthest.isBoundary
  exact ⟨⟨hcursor.le, hcursor⟩, hfurthest.le, hfurthest⟩

/-- Characters of two bytes stand around the words that end verbatim parts. Behind both parts the
    query is refused at one more, which the error cuts out. -/
theorem parse_within_source_verbatim :
    let source : Text := "START é MATCH (a) RETURN CASE éMATCHé END é".toList
    let refused : SyntaxError :=
      ⟨.unexpected ["operator".toList, Keyword.as_.written.inBackTicks,
        Symbol.comma.written.inBackTicks, "end of input".toList] (.unrecognized ['é']), ⟨45, 47⟩⟩
    (∃ s ∈ (query 0).states (State.start source), s.cursor.rest = " é".toList) ∧
      (∀ s ∈ (query 0).states (State.start source),
        (s.cursor.offset ≤ source.byteSize ∧ source.IsBoundary s.cursor.offset) ∧
          s.furthest.cursor.offset ≤ source.byteSize ∧
          source.IsBoundary s.furthest.cursor.offset) ∧
      parseBytewise? 0 source = some (parse 0 source) ∧ parse 0 source = .error refused := by
  intro source refused
  obtain ⟨hstates, hparse, -⟩ := parse_within_source 0 source
  exact ⟨by decide +kernel, hstates, hparse, by decide +kernel⟩

end Query

end Cypher
