/-
  Ledger — the furthest failure sums up all that was recorded.

  What was looked for in vain is recorded place by place, in whatever order the alternatives are
  tried. Nothing of this is kept but the furthest place and what was looked for there. A log keeps
  everything; here what is kept is read off the log of all calls.

  * `Ledger` is a position in a text with the furthest failure, by byte offsets and in plain words.
    `Ledger.Call` are the calls that change it, `Ledger.run?` makes one after the other;
  * `Ledger.log?` are the entries that calls record, `Ledger.Entry.furthest` and
    `Ledger.Entry.expectedAt` what matters of them;
  * `Ledger.run?_eq`: a ledger is at any time what its log says, by what one call does
    (`after?_ofLog`);
  * `State.Call` are the same calls with cursors. The states after them are ledgers
    (`State.foldlM_told`), and have the same error (`State.error?_ledger`);
  * `Ledger.keeps_log` puts this together.
-/
import Cypher.Proofs.Bytewise
import Cypher.Proofs.Pointing
import Mathlib.Data.List.Induction
import Mathlib.Order.Bounds.Basic

namespace Cypher

/-! ## Ledgers -/

/-- A position in a text, the furthest offset at which something was expected, what was expected
    there, and the error that has ended the reading. -/
structure Ledger where
  position : Nat
  furthest : Nat
  expected : List Text
  fatal : Option SyntaxError
  deriving DecidableEq, Repr

namespace Ledger

/-- The ledger of a text that has not been read. -/
def start : Ledger :=
  ⟨0, 0, [], none⟩

/-- Something that is done with a ledger. -/
inductive Call where
  /-- Records what would have been accepted at the next character that is not blank. -/
  | expect (what : Text)
  /-- Records what would have been accepted at an offset. -/
  | expectAt (offset : Nat) (what : Text)
  /-- Goes to an offset, to the end of the text if that is before it. -/
  | moveTo (offset : Nat)
  | advancePast (token : Token)
  /-- Gives up the whole text. -/
  | fail (error : SyntaxError)
  deriving DecidableEq, Repr

/-- Records what would have been accepted at an offset: one further on clears the list first, and
    then the list is that of the offset, or the offset is before it. -/
def expectAt (offset : Nat) (what : Text) (ledger : Ledger) : Ledger :=
  let cleared :=
    if ledger.furthest < offset then { ledger with furthest := offset, expected := [] } else ledger
  if offset = cleared.furthest ∧ what ∉ cleared.expected then
    { cleared with expected := cleared.expected ++ [what] }
  else cleared

/-- What a call makes of a ledger; nothing if that takes a slice which is not there. -/
def after? (source : Text) (ledger : Ledger) : Call → Option Ledger
  | .expect what => (Bytewise.nextOffset? source ledger.position).map fun offset =>
    ledger.expectAt offset what
  | .expectAt offset what => some (ledger.expectAt offset what)
  | .moveTo offset => some { ledger with position := min offset source.byteSize }
  | .advancePast token => some { ledger with position := token.span.stop }
  | .fail error => some { ledger with fatal := ledger.fatal.or (some error) }

/-- The ledger after the calls, one after the other. -/
def run? (source : Text) (calls : List Call) : Option Ledger :=
  calls.foldlM (after? source) start

/-- The error to report, with what stands at the furthest offset cut out of the text; nothing if
    the text cannot be read from there. -/
def error? (source : Text) (ledger : Ledger) : Option SyntaxError :=
  match ledger.fatal with
  | some error => some error
  | none => (Bytewise.itemAt? source ledger.furthest).bind fun
    | none => some ⟨.unexpected ledger.expected .endOfInput, ⟨ledger.furthest, ledger.furthest⟩⟩
    | some ⟨.token _, span⟩ => (source.slice? span.start span.stop).map fun text =>
      ⟨.unexpected ledger.expected (.token text), span⟩
    | some ⟨.unrecognized _, span⟩ =>
      some ⟨.unexpected ledger.expected
        (.unrecognized ((source.slice? span.start span.stop).getD [])), span⟩

/-! ## Logs -/

/-- A record that something would have been accepted at an offset. -/
structure Entry where
  offset : Nat
  what : Text
  deriving DecidableEq, Repr

namespace Entry

/-- The furthest offset of a log, `0` if it is empty. -/
def furthest (log : List Entry) : Nat :=
  (log.map offset).foldl max 0

/-- What was recorded at an offset, each text where it was first recorded. -/
def expectedAt (offset : Nat) (log : List Entry) : List Text :=
  ((log.filter (·.offset = offset)).map what).eraseDups

end Entry

namespace Call

/-- Where a call leaves the position. -/
def positionAfter (source : Text) (position : Nat) : Call → Nat
  | moveTo offset => min offset source.byteSize
  | advancePast token => token.span.stop
  | expect _ | expectAt .. | fail _ => position

/-- What a call records at a position. -/
def entries? (source : Text) (position : Nat) : Call → Option (List Entry)
  | expect what => (Bytewise.nextOffset? source position).map fun offset => [⟨offset, what⟩]
  | expectAt offset what => some [⟨offset, what⟩]
  | moveTo _ | advancePast _ | fail _ => some []

/-- The error with which a call gives up. -/
def error? : Call → Option SyntaxError
  | fail error => some error
  | expect _ | expectAt .. | moveTo _ | advancePast _ => none

end Call

/-- All that the calls record from a position on; nothing if a slice for it is not there. -/
def log? (source : Text) : (position : Nat) → List Call → Option (List Entry)
  | _, [] => some []
  | position, call :: calls => (call.entries? source position).bind fun entries =>
    (log? source (call.positionAfter source position) calls).map (entries ++ ·)

/-- The error at an offset where one of the alternatives was expected and `item` is read. -/
def unexpectedAt (offset : Nat) (alternatives : List Text) : (item : Option Item) → SyntaxError
  | none => ⟨.unexpected alternatives .endOfInput, ⟨offset, offset⟩⟩
  | some item => ⟨.unexpected alternatives (.ofLexeme item.lexeme), item.span⟩

/-- The ledger keeps of a log what is to be reported: `first` is the error with which the text was
    given up first. -/
structure Keeps (source : Text) (first : Option SyntaxError) (log : List Entry)
    (ledger : Ledger) : Prop where
  furthest : IsGreatest (insert 0 {offset | ∃ entry ∈ log, entry.offset = offset}) ledger.furthest
  expected : ledger.expected = Entry.expectedAt ledger.furthest log
  /-- A text that was given up is reported so. -/
  givenUp : ∀ error, first = some error → ledger.error? source = some error
  /-- Otherwise the item at the furthest offset is reported, and just what was recorded there. -/
  unexpected : first = none → ledger.error? source =
    (Bytewise.itemAt? source ledger.furthest).map (unexpectedAt ledger.furthest ledger.expected)

/-! ## What a log says -/

namespace Entry

variable {log : List Entry} {entry : Entry}

theorem furthest_append (log : List Entry) (entry : Entry) :
    furthest (log ++ [entry]) = max (furthest log) entry.offset := by
  simp [furthest]

theorem isGreatest_furthest (log : List Entry) :
    IsGreatest (insert 0 {offset | ∃ entry ∈ log, entry.offset = offset}) (furthest log) := by
  induction log using List.reverseRecOn with
  | nil => simp [furthest]
  | append_singleton log entry ih =>
    have hoffsets : insert 0 {offset | ∃ e ∈ log ++ [entry], e.offset = offset} =
        insert entry.offset (insert 0 {offset | ∃ e ∈ log, e.offset = offset}) := by
      ext offset
      simp only [List.mem_append, List.mem_singleton, Set.mem_insert_iff, Set.mem_ofPred_eq,
        or_and_right, exists_or, exists_eq_left, eq_comm (a := entry.offset)]
      exact or_rotate.symm
    rw [hoffsets, furthest_append, max_comm]
    exact ih.insert entry.offset

theorem offset_le_furthest (h : entry ∈ log) : entry.offset ≤ furthest log :=
  (isGreatest_furthest log).2 (Set.mem_insert_of_mem _ ⟨entry, h, rfl⟩)

theorem expectedAt_append_of_ne {offset : Nat} (log : List Entry) (h : entry.offset ≠ offset) :
    expectedAt offset (log ++ [entry]) = expectedAt offset log := by
  simp [expectedAt, h]

/-- A text is added at the end, unless it is known already. -/
theorem expectedAt_append (log : List Entry) (offset : Nat) (what : Text) :
    expectedAt offset (log ++ [⟨offset, what⟩]) =
      if what ∈ expectedAt offset log then expectedAt offset log
      else expectedAt offset log ++ [what] := by
  simp only [expectedAt, List.filter_append, List.filter_cons, decide_true, if_true,
    List.filter_nil, List.map_append, List.map_cons, List.map_nil, List.eraseDups_append,
    List.mem_eraseDups, List.removeAll]
  split <;> simp_all [List.eraseDups_cons]

/-- Beyond the furthest offset nothing was recorded. -/
theorem expectedAt_eq_nil {offset : Nat} (h : furthest log < offset) :
    expectedAt offset log = [] := by
  have hnone : log.filter (·.offset = offset) = [] := by
    refine List.filter_eq_nil_iff.2 fun entry hentry heq => ?_
    have := offset_le_furthest hentry
    rw [of_decide_eq_true heq] at this
    omega
  rw [expectedAt, hnone]
  rfl

end Entry

/-! ## One call after the other -/

/-- The ledger that stands for a log. -/
def ofLog (position : Nat) (log : List Entry) (fatal : Option SyntaxError) : Ledger :=
  ⟨position, Entry.furthest log, Entry.expectedAt (Entry.furthest log) log, fatal⟩

variable {source : Text} {ledger : Ledger} {call : Call}

theorem expectAt_of_lt {offset : Nat} (what : Text) (h : ledger.furthest < offset) :
    ledger.expectAt offset what = { ledger with furthest := offset, expected := [what] } := by
  simp [expectAt, h]

theorem expectAt_of_eq (ledger : Ledger) (what : Text) :
    ledger.expectAt ledger.furthest what =
      { ledger with expected :=
          if what ∈ ledger.expected then ledger.expected else ledger.expected ++ [what] } := by
  by_cases hknown : what ∈ ledger.expected <;> simp [expectAt, hknown]

theorem expectAt_of_gt {offset : Nat} (what : Text) (h : offset < ledger.furthest) :
    ledger.expectAt offset what = ledger := by
  simp [expectAt, h.ne, Nat.not_lt.2 h.le]

/-- Recording something is adding it to the log, wherever it was expected. -/
theorem expectAt_ofLog (position : Nat) (log : List Entry) (fatal : Option SyntaxError)
    (offset : Nat) (what : Text) :
    (ofLog position log fatal).expectAt offset what =
      ofLog position (log ++ [⟨offset, what⟩]) fatal := by
  have hfurthest := Entry.furthest_append log ⟨offset, what⟩
  rcases lt_trichotomy (Entry.furthest log) offset with hlt | rfl | hgt
  · -- nothing was recorded there before, so that a list with one text is right
    have hnil := Entry.expectedAt_append log offset what
    rw [Entry.expectedAt_eq_nil hlt] at hnil
    rw [max_eq_right hlt.le] at hfurthest
    rw [expectAt_of_lt what hlt, ofLog, ofLog, hfurthest, hnil]
    rfl
  · rw [max_self] at hfurthest
    rw [ofLog, ofLog, hfurthest, Entry.expectedAt_append]
    exact expectAt_of_eq (ofLog position log fatal) what
  · -- the entry is in the log, but not at its furthest offset
    rw [max_eq_left hgt.le] at hfurthest
    rw [expectAt_of_gt what hgt, ofLog, ofLog, hfurthest, Entry.expectedAt_append_of_ne log hgt.ne]

/-- What a call makes of the ledger of a log is the ledger of the longer log. -/
theorem after?_ofLog (position : Nat) (log : List Entry) (fatal : Option SyntaxError)
    (call : Call) :
    after? source (ofLog position log fatal) call =
      (call.entries? source position).map fun entries =>
        ofLog (call.positionAfter source position) (log ++ entries) (fatal.or call.error?) := by
  cases call with
  | expect what =>
    simp only [after?, Call.entries?, Call.positionAfter, Call.error?, Option.map_map,
      expectAt_ofLog, Option.or_none]
    rfl
  | expectAt offset what =>
    simp only [after?, Call.entries?, Call.positionAfter, Call.error?, Option.map_some,
      expectAt_ofLog, Option.or_none]
  | moveTo offset => simp [after?, Call.entries?, Call.positionAfter, Call.error?, ofLog]
  | advancePast token => simp [after?, Call.entries?, Call.positionAfter, Call.error?, ofLog]
  | fail error => simp [after?, Call.entries?, Call.positionAfter, Call.error?, ofLog]

theorem foldlM_ofLog (position : Nat) (log : List Entry) (fatal : Option SyntaxError)
    (calls : List Call) :
    calls.foldlM (after? source) (ofLog position log fatal) =
      (log? source position calls).map fun entries =>
        ofLog (calls.foldl (Call.positionAfter source) position) (log ++ entries)
          (fatal.or (calls.findSome? Call.error?)) := by
  induction calls generalizing position log fatal with
  | nil => simp [log?]
  | cons call calls ih =>
    have herror : List.findSome? Call.error? (call :: calls) =
        call.error?.or (calls.findSome? Call.error?) := by
      rw [List.findSome?_cons]
      cases call.error? <;> rfl
    rw [List.foldlM_cons, after?_ofLog, log?, herror, List.foldl_cons]
    cases call.entries? source position with
    | none => rfl
    | some entries =>
      simp only [Option.map_some, Option.bind_some, Option.bind_eq_bind, ih, Option.map_map,
        Function.comp_def, List.append_assoc, Option.or_assoc]

/-- After any calls the ledger is what their log says, if the slices for it are there. -/
theorem run?_eq (source : Text) (calls : List Call) :
    run? source calls = (log? source 0 calls).map fun log =>
      ofLog (calls.foldl (Call.positionAfter source) 0) log (calls.findSome? Call.error?) :=
  foldlM_ofLog 0 [] none calls

/-! ## The error of a ledger -/

/-- The text of an item is what its span cuts out. -/
theorem error?_of_none (source : Text) (h : ledger.fatal = none) :
    ledger.error? source = (Bytewise.itemAt? source ledger.furthest).map
      (unexpectedAt ledger.furthest ledger.expected) := by
  rw [error?, h, Bytewise.itemAt?]
  cases hat : Cursor.at? source ledger.furthest with
  | none => rfl
  | some c =>
    have hc := Cursor.isIn_of_at? hat
    simp only [Option.map_some, Option.bind_some]
    rcases hnext : c.next? with _ | ⟨⟨kind | text, span⟩, after⟩
    · rfl
    · have hslice : source.slice? span.start span.stop = some kind.written :=
        Text.slice?_of_covers (hc.covers_of_next? hnext)
      simp only [Option.map_some, hslice]
      rfl
    · have hslice : source.slice? span.start span.stop = some text :=
        Text.slice?_of_covers (hc.covers_of_next? hnext)
      simp only [Option.map_some, hslice, Option.getD_some]
      rfl

theorem keeps_ofLog (source : Text) (position : Nat) (log : List Entry)
    (first : Option SyntaxError) : Keeps source first log (ofLog position log first) where
  furthest := Entry.isGreatest_furthest log
  expected := rfl
  givenUp error herror := by rw [error?, ofLog, herror]
  unexpected hnone := error?_of_none source hnone

/-! ## Calls within the text -/

/-- The text can be read from the offset of the call. A token does not end beyond the text. -/
def Call.IsIn (source : Text) : Call → Prop
  | expectAt offset _ | moveTo offset => source.IsBoundary offset ∨ source.byteSize < offset
  | advancePast token => source.IsBoundary token.span.stop
  | expect _ | fail _ => True

/-- The text can be cut at the position, and read from the furthest failure. -/
structure IsIn (source : Text) (ledger : Ledger) : Prop where
  position : source.IsBoundary ledger.position
  furthest : source.IsBoundary ledger.furthest ∨ source.byteSize < ledger.furthest

theorem isIn_start (source : Text) : start.IsIn source := by
  have hzero : source.IsBoundary 0 := ⟨[], source, rfl, rfl⟩
  exact ⟨hzero, Or.inl hzero⟩

theorem IsIn.expectAt {offset : Nat} (h : ledger.IsIn source)
    (hoffset : source.IsBoundary offset ∨ source.byteSize < offset) (what : Text) :
    (ledger.expectAt offset what).IsIn source := by
  rcases lt_trichotomy ledger.furthest offset with hlt | rfl | hgt
  · rw [expectAt_of_lt what hlt]
    exact ⟨h.position, hoffset⟩
  · rw [expectAt_of_eq]
    exact ⟨h.position, h.furthest⟩
  · rwa [expectAt_of_gt what hgt]

/-- From a boundary on, the blanks can be skipped. -/
theorem exists_nextOffset? {position : Nat} (h : source.IsBoundary position) :
    ∃ offset, Bytewise.nextOffset? source position = some offset ∧ source.IsBoundary offset := by
  obtain ⟨before, rest, hsource, rfl⟩ := h
  have hc : Cursor.IsIn source ⟨before.byteSize, rest⟩ := ⟨before, hsource, rfl⟩
  exact ⟨_, Bytewise.nextOffset?_offset hc, hc.skipBlanks.isBoundary⟩

theorem IsIn.after? (h : ledger.IsIn source) (hcall : call.IsIn source) :
    ∃ ledger', Ledger.after? source ledger call = some ledger' ∧ ledger'.IsIn source := by
  cases call with
  | expect what =>
    obtain ⟨offset, hnext, hoffset⟩ := exists_nextOffset? h.position
    exact ⟨_, by rw [Ledger.after?, hnext, Option.map_some], h.expectAt (Or.inl hoffset) what⟩
  | expectAt offset what => exact ⟨_, rfl, h.expectAt hcall what⟩
  | moveTo offset =>
    refine ⟨_, rfl, ?_, h.furthest⟩
    rcases hcall with hin | hbeyond
    · rwa [Nat.min_eq_left hin.le]
    · rw [Nat.min_eq_right hbeyond.le]
      exact ⟨source, [], (List.append_nil source).symm, rfl⟩
  | advancePast token => exact ⟨_, rfl, hcall, h.furthest⟩
  | fail error => exact ⟨_, rfl, h.position, h.furthest⟩

theorem IsIn.foldlM {calls : List Call} (h : ledger.IsIn source)
    (hcalls : ∀ call ∈ calls, call.IsIn source) :
    ∃ ledger', calls.foldlM (Ledger.after? source) ledger = some ledger' ∧
      ledger'.IsIn source := by
  induction calls generalizing ledger with
  | nil => exact ⟨ledger, rfl, h⟩
  | cons call calls ih =>
    rw [List.forall_mem_cons] at hcalls
    obtain ⟨next, hnext, hin⟩ := h.after? hcalls.1
    rw [List.foldlM_cons, hnext]
    exact ih hin hcalls.2

theorem IsIn.exists_error? (h : ledger.IsIn source) :
    ∃ error, ledger.error? source = some error := by
  cases hfatal : ledger.fatal with
  | some error => exact ⟨error, by rw [error?, hfatal]⟩
  | none =>
    obtain ⟨c, hc⟩ := Option.isSome_iff_exists.1 (Cursor.isSome_at?_iff.2 h.furthest)
    exact ⟨_, by rw [error?_of_none source hfatal, Bytewise.itemAt?, hc]; rfl⟩

end Ledger

/-! ## The states of a query -/

/-- The state with the words of its expectations. -/
def ByteState.ledger (s : ByteState) : Ledger :=
  ⟨s.position, s.furthest, s.expected.map Expectation.describe, s.fatal⟩

/-- No two expectations are one and the same text, so that none is taken for a repetition. -/
theorem ByteState.ledger_expectAt (offset : Nat) (e : Expectation) (s : ByteState) :
    (s.expectAt offset e).ledger = s.ledger.expectAt offset e.describe := by
  have hmem : e.describe ∈ s.expected.map Expectation.describe ↔ e ∈ s.expected := by
    refine ⟨fun h => ?_, List.mem_map_of_mem⟩
    obtain ⟨e', he', heq⟩ := List.mem_map.1 h
    rwa [← Expectation.describe_injective heq]
  rcases lt_trichotomy s.furthest offset with hlt | rfl | hgt
  · rw [ByteState.expectAt, if_pos hlt, Ledger.expectAt_of_lt e.describe hlt]
    rfl
  · rw [ByteState.expectAt, if_neg (lt_irrefl _),
      show s.furthest = s.ledger.furthest from rfl, Ledger.expectAt_of_eq]
    by_cases hknown : e ∈ s.expected <;> simp [ledger, hmem, hknown]
  · rw [ByteState.expectAt, if_neg (Nat.not_lt.2 hgt.le), if_neg fun h => hgt.ne h.1,
      Ledger.expectAt_of_gt e.describe hgt]

namespace State

/-- The calls of a ledger, with cursors for offsets and expectations for texts. -/
inductive Call where
  | expect (e : Expectation)
  | expectAt (c : Cursor) (e : Expectation)
  | moveTo (c : Cursor)
  /-- The cursor stands behind the token. -/
  | advancePast (token : Token) (after : Cursor)
  | fail (error : SyntaxError)
  deriving DecidableEq, Repr

namespace Call

/-- What a call makes of a state. -/
def apply (s : State) : Call → State
  | expect e => s.expect e
  | expectAt c e => s.expectAt c e
  | moveTo c | advancePast _ c => s.moveTo c
  | fail error => s.fail error

/-- The call by offsets and texts. -/
def told : Call → Ledger.Call
  | expect e => .expect e.describe
  | expectAt c e => .expectAt c.offset e.describe
  | moveTo c => .moveTo c.offset
  | advancePast token _ => .advancePast token
  | fail error => .fail error

/-- The cursor of the call is a place of the text. -/
def IsIn (source : Text) : Call → Prop
  | expectAt c _ | moveTo c => c.IsIn source
  | advancePast token after => after.IsIn source ∧ token.span.stop = after.offset
  | expect _ | fail _ => True

end Call

/-- The state with offsets for cursors and texts for expectations. -/
def ledger (s : State) : Ledger :=
  s.bytes.ledger

variable {source : Text} {s : State} {call : Call}

theorem IsIn.apply (h : s.IsIn source) (hcall : call.IsIn source) : (call.apply s).IsIn source := by
  cases call with
  | expect e => exact h.expectAt h.cursor.skipBlanks e
  | expectAt c e => exact h.expectAt hcall e
  | moveTo c => exact ⟨hcall, h.furthest⟩
  | advancePast token after => exact ⟨hcall.1, h.furthest⟩
  | fail error => exact ⟨h.cursor, h.furthest⟩

theorem after?_told (h : s.IsIn source) (hcall : call.IsIn source) :
    s.ledger.after? source call.told = some (call.apply s).ledger := by
  cases call with
  | expect e =>
    rw [Call.told, Ledger.after?, show s.ledger.position = s.cursor.offset from rfl,
      Bytewise.nextOffset?_offset h.cursor, Option.map_some, ledger, ← ByteState.ledger_expectAt,
      ← bytes_expectAt]
    rfl
  | expectAt c e =>
    rw [Call.told, Ledger.after?, ledger, ← ByteState.ledger_expectAt, ← bytes_expectAt]
    rfl
  | moveTo c =>
    rw [Call.apply, ledger, ledger, bytes_moveTo hcall]
    rfl
  | advancePast token after =>
    rw [Call.told, Ledger.after?, hcall.2]
    rfl
  | fail error => rfl

theorem foldlM_told {calls : List Call} (h : s.IsIn source)
    (hcalls : ∀ call ∈ calls, call.IsIn source) :
    (calls.map Call.told).foldlM (Ledger.after? source) s.ledger =
        some (calls.foldl Call.apply s).ledger ∧
      (calls.foldl Call.apply s).IsIn source := by
  induction calls generalizing s with
  | nil => exact ⟨rfl, h⟩
  | cons call calls ih =>
    rw [List.forall_mem_cons] at hcalls
    rw [List.map_cons, List.foldlM_cons, after?_told h hcalls.1]
    exact ih (h.apply hcalls.1) hcalls.2

theorem error?_ledger (h : s.IsIn source) : s.ledger.error? source = some s.error :=
  error?_bytes h

end State

/-! ## Everything together -/

namespace Ledger

/-- However the calls follow each other, what is kept of them is what their log says: the furthest
    offset, what was recorded there in order, and so the error. The calls have a result if their
    offsets are in the text, and then there is an error to report. This is what the states of a
    query do, whose expectations are texts. -/
theorem keeps_log (source : Text) :
    (∀ calls : List Call, Option.Rel (Keeps source (calls.findSome? Call.error?))
      (log? source 0 calls) (run? source calls)) ∧
    (∀ calls : List Call, (∀ call ∈ calls, call.IsIn source) →
      ∃ ledger error, run? source calls = some ledger ∧ ledger.error? source = some error) ∧
    ∀ calls : List State.Call, (∀ call ∈ calls, call.IsIn source) →
      let s := calls.foldl State.Call.apply (State.start source)
      run? source (calls.map State.Call.told) = some s.ledger ∧
        s.ledger.error? source = some s.error := by
  refine ⟨fun calls => ?_, fun calls hcalls => ?_, fun calls hcalls => ?_⟩
  · rw [run?_eq]
    cases log? source 0 calls with
    | none => exact .none
    | some log => exact .some (keeps_ofLog source _ log _)
  · obtain ⟨ledger, hrun, hin⟩ := (isIn_start source).foldlM hcalls
    obtain ⟨error, herror⟩ := hin.exists_error?
    exact ⟨ledger, error, hrun, herror⟩
  · obtain ⟨hrun, hin⟩ := State.foldlM_told (State.isIn_start source) hcalls
    exact ⟨hrun, State.error?_ledger hin⟩

/-- A number is expected at the start, and again further on when the list has been cleared; an
    identifier and the operator arrive out of order. Beyond the end of the text there is nothing to
    read, and of two errors the first one stands. -/
theorem keeps_log_out_of_order :
    let source : Text := " é b".toList
    let last : Cursor := ⟨4, ['b']⟩
    let calls : List State.Call := [.expectAt (.start source) .number, .expect .identifier,
      .moveTo ⟨3, [' ', 'b']⟩, .expect .number, .moveTo (.start source), .expect .identifier,
      .expectAt last .operator, .expectAt last .number]
    let s := calls.foldl State.Call.apply (State.start source)
    let beyond : List Call := [.expectAt 4 ['x'], .expectAt 9 ['x'], .expect ['y'],
      .advancePast ⟨.identifier ['b'], ⟨4, 5⟩⟩, .expectAt 9 ['y'], .moveTo 9, .expectAt 9 ['x']]
    let error : SyntaxError := .nestingTooDeep 0 ⟨0, 1⟩
    let givenUp := beyond ++ [.fail error, .fail (.nestingTooDeep 1 ⟨0, 1⟩)]
    (∀ call ∈ calls, call.IsIn source) ∧
      (run? source (calls.map State.Call.told) = some s.ledger ∧
        s.ledger.error? source = some s.error) ∧
      s.error = ⟨.unexpected ["number".toList, "operator".toList] (.token ['b']), ⟨4, 5⟩⟩ ∧
      (∀ call ∈ beyond, call.IsIn source) ∧
      (∃ ledger error, run? source beyond = some ledger ∧ ledger.error? source = some error) ∧
      (run? source beyond).bind (error? source) =
        some ⟨.unexpected [['x'], ['y']] .endOfInput, ⟨9, 9⟩⟩ ∧
      Option.Rel (Keeps source (some error)) (log? source 0 givenUp) (run? source givenUp) := by
  intro source last calls s beyond error givenUp
  obtain ⟨hlog, hresult, hstates⟩ := keeps_log source
  have hstart := Cursor.isIn_start source
  have hlast : last.IsIn source := ⟨[' ', 'é', ' '], rfl, rfl⟩
  have hblank : Cursor.IsIn source ⟨3, [' ', 'b']⟩ := ⟨[' ', 'é'], rfl, rfl⟩
  have hcalls : ∀ call ∈ calls, call.IsIn source := by
    simp [calls, State.Call.IsIn, hstart, hlast, hblank]
  have hfour : source.IsBoundary 4 := hlast.isBoundary
  have hfive : source.IsBoundary 5 := ⟨source, [], rfl, rfl⟩
  have hnine : source.byteSize < 9 := by decide
  have hbeyond : ∀ call ∈ beyond, call.IsIn source := by
    simp [beyond, Call.IsIn, hfour, hfive, hnine]
  exact ⟨hcalls, hstates calls hcalls, by decide +kernel, hbeyond, hresult beyond hbeyond,
    by decide +kernel, hlog givenUp⟩

end Ledger

end Cypher
