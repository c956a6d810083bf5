/-
  Pointing — an error points exactly at what it reports.

  The place of an error is the furthest one where something was looked for in vain, and what
  stands there is read again for the report. Notes are made in many places of the grammar, some
  of them at the end of the text where a verbatim part finds no end.

  * `Note.expectedAt`: what was looked for at a place, in the order of the notes. It is what the
    furthest failure lists (`Furthest.Of.expected_eq`);
  * `Production.exists_expected_query`: a query that is refused was expected to go on somehow;
  * `Query.error_eq_of_parse`: an error that is not about nesting is the furthest failure;
  * `SyntaxError.PointsAt`: the span of an error, what it reports, and how it is worded;
  * `Query.pointsAt_of_parse`: so is every error that is not about nesting.
-/
import Cypher.Proofs.Alternatives
import Cypher.Proofs.Partition
import Mathlib.Data.List.Nodup

namespace Cypher

/-! ## Expectations in order -/

/-- What was expected with `place` ahead, if this is what the note says. -/
def Note.expectation? (place : Text) : Note → Option Expectation
  | expected e ahead => if ahead = place then some e else none
  | tooDeep .. | looked _ => none

/-- What was expected with `place` ahead, each expectation where it was first noted. -/
def Note.expectedAt (place : Text) (notes : List Note) : List Expectation :=
  (notes.filterMap (Note.expectation? place)).eraseDups

namespace Note

variable {place : Text} {notes : List Note} {e : Expectation}

theorem expectation?_eq_some_iff {note : Note} :
    note.expectation? place = some e ↔ note = .expected e place := by
  cases note with
  | expected e' ahead => simp [expectation?, and_comm]
  | tooDeep limit ahead => simp [expectation?]
  | looked ahead => simp [expectation?]

theorem mem_expectedAt : e ∈ expectedAt place notes ↔ .expected e place ∈ notes := by
  simp only [expectedAt, List.mem_eraseDups, List.mem_filterMap, expectation?_eq_some_iff,
    exists_eq_right]

theorem expectedAt_append_of_eq_none {note : Note} (h : note.expectation? place = none) :
    expectedAt place (notes ++ [note]) = expectedAt place notes := by
  simp [expectedAt, h]

/-- An expectation is added at the end, unless it is known already. -/
theorem expectedAt_append_expected (e : Expectation) :
    expectedAt place (notes ++ [.expected e place]) =
      if e ∈ expectedAt place notes then expectedAt place notes
      else expectedAt place notes ++ [e] := by
  have hsome : (Note.expected e place).expectation? place = some e :=
    expectation?_eq_some_iff.2 rfl
  simp only [expectedAt, List.filterMap_append, List.filterMap_cons, hsome, List.filterMap_nil,
    List.eraseDups_append, List.mem_eraseDups, List.removeAll]
  split <;> simp_all [List.eraseDups_cons]

theorem nodup_expectedAt (place : Text) (notes : List Note) : (expectedAt place notes).Nodup := by
  induction notes using List.reverseRecOn with
  | nil => exact List.nodup_nil
  | append_singleton notes note ih =>
    cases hnote : note.expectation? place with
    | none => rwa [expectedAt_append_of_eq_none hnote]
    | some e =>
      rw [expectation?_eq_some_iff.1 hnote, expectedAt_append_expected]
      split
      · exact ih
      · rename_i hnew
        refine List.nodup_append.2 ⟨ih, by simp, ?_⟩
        simp only [List.mem_singleton]
        rintro a ha b rfl rfl
        exact hnew ha

end Note

namespace Furthest

variable {source place : Text} {notes : List Note}

/-- If the failure lists what was expected at its place, it does so after one more expectation. -/
theorem Of.expected_record {f : Furthest} {e : Expectation} {ahead : Text}
    (h : Of source notes f place) (hexpected : f.expected = Note.expectedAt place notes)
    (hahead : ahead <:+ source) :
    (f.record (.before source.byteSize ahead) e).expected =
      Note.expectedAt (f.record (.before source.byteSize ahead) e).cursor.rest
        (notes ++ [.expected e ahead]) := by
  have hsize : ahead.byteSize ≤ source.byteSize := Text.byteSize_le_of_suffix hahead
  have hle := Text.byteSize_le_of_suffix h.suffix
  have hrest : f.cursor.rest = place := by rw [h.cursor]; rfl
  have hoffset : f.cursor.offset = source.byteSize - place.byteSize := by rw [h.cursor]; rfl
  simp only [record, hoffset, Cursor.before]
  split
  · -- the place is new, so that nothing was noted there before
    have hnil : Note.expectedAt ahead notes = [] := by
      refine List.eq_nil_iff_forall_not_mem.2 fun e' he' => ?_
      have := h.furthest e' ahead (Note.mem_expectedAt.1 he')
      omega
    simp only [Note.expectedAt_append_expected, hnil]
    rfl
  · split
    · -- the place is the same, and the expectation is new
      rename_i hsame
      obtain rfl : ahead = place := Text.eq_of_suffix_of_byteSize hahead h.suffix (by omega)
      rw [hrest, Note.expectedAt_append_expected, ← hexpected, if_neg hsame.2]
    · rename_i hsame
      rw [hrest]
      by_cases heq : ahead = place
      · have hknown : e ∈ f.expected := by
          by_contra hnew
          exact hsame ⟨by rw [heq], hnew⟩
        rw [heq, Note.expectedAt_append_expected, ← hexpected, if_pos hknown]
      · have hnone : (Note.expected e ahead).expectation? place = none := if_neg heq
        rw [Note.expectedAt_append_of_eq_none hnone, hexpected]

/-- The furthest failure lists what was expected at its place, in the order of the notes. -/
theorem Of.expected_eq (h : Of source notes (ofNotes source notes) place)
    (hsuffix : ∀ note ∈ notes, note.ahead <:+ source) :
    (ofNotes source notes).expected = Note.expectedAt place notes := by
  obtain rfl : (ofNotes source notes).cursor.rest = place := by rw [h.cursor]; rfl
  clear h
  induction notes using List.reverseRecOn with
  | nil => rfl
  | append_singleton notes note ih =>
    rw [List.forall_mem_append, List.forall_mem_singleton] at hsuffix
    obtain ⟨place, hplace⟩ := exists_of_notes hsuffix.1
    obtain rfl : (ofNotes source notes).cursor.rest = place := by rw [hplace.cursor]; rfl
    have hexpected := ih hsuffix.1
    have hfold : ofNotes source (notes ++ [note]) =
        (ofNotes source notes).note source.byteSize note := by
      rw [ofNotes, List.foldl_append]
      rfl
    rw [hfold]
    cases note with
    | expected e ahead => exact hplace.expected_record hexpected hsuffix.2
    | tooDeep limit ahead => exact hexpected.trans (Note.expectedAt_append_of_eq_none rfl).symm
    | looked ahead => exact hexpected.trans (Note.expectedAt_append_of_eq_none rfl).symm

end Furthest

/-! ## Errors that are not about nesting -/

namespace Production

variable {limit : Nat} {t u : Text}

theorem suffix_of_mem_notes {α : Type} (p : Production α) : ∀ n ∈ p.notes t, n.ahead <:+ t :=
  fun n hn => (ahead_of_mem_notes p n hn).1.trans (Text.dropBlanks_suffix t)

/-- A query that is refused was expected to go on somehow. -/
theorem exists_expected_query (h : (query limit).outcome t = .missed u) :
    ∃ e ahead, .expected e ahead ∈ (query limit).notes t := by
  rw [outcome_query_eq] at h
  rw [notes_query_eq]
  cases hstart : (optional startClause).outcome t with
  | missed v => exact absurd hstart outcome_maybe_ne_missed
  | gaveUp => rw [hstart] at h; cases h
  | matched start v =>
    simp only [hstart, Outcome.andThen] at h
    simp only [Outcome.onMatch, List.mem_append]
    cases hbody : (body limit).outcome v with
    | gaveUp => rw [hbody] at h; cases h
    | missed w =>
      obtain ⟨e, ahead, hnote, -⟩ := (Tokenwise.body limit).exists_expected hbody
      exact ⟨e, ahead, Or.inr (Or.inl hnote)⟩
    | matched parts w =>
      simp only [hbody] at h
      split at h
      · cases h
      · rename_i hne
        exact ⟨_, _, Or.inr (Or.inr (mem_notes_endOfInput.2 ⟨rfl, hne⟩))⟩

end Production

namespace Query

open Production

variable {limit : Nat} {source : Text} {error : SyntaxError}

/-- A text with an error that is not about nesting is missed. -/
theorem missed_of_parse (h : parse limit source = .error error)
    (hnesting : ∀ l, error.cause ≠ .nestingTooDeep l) :
    ∃ u, (Production.query limit).outcome source = .missed u := by
  cases ho : (Production.query limit).outcome source with
  | matched q u => rw [parse_eq, ho] at h; cases h
  | missed u => exact ⟨u, rfl⟩
  | gaveUp =>
    obtain ⟨_, _, hdeep⟩ := outcome_eq_gaveUp_iff.1 ho
    obtain ⟨l, v, -, hreport⟩ := Note.report_of_tooDeep source hdeep
    rw [parse_eq, ho] at h
    simp only [hreport, Except.error.injEq] at h
    exact absurd (congrArg SyntaxError.cause h.symm) (hnesting l)

/-- An error that is not about nesting is the furthest failure. Something was expected there. -/
theorem error_eq_of_parse (h : parse limit source = .error error)
    (hnesting : ∀ l, error.cause ≠ .nestingTooDeep l) :
    ∃ place e, error = (Furthest.ofNotes source ((Production.query limit).notes source)).error ∧
      (Furthest.ofNotes source ((Production.query limit).notes source)).Of source
        ((Production.query limit).notes source) place ∧
      .expected e place ∈ (Production.query limit).notes source := by
  obtain ⟨u, hmissed⟩ := missed_of_parse h hnesting
  obtain ⟨e, ahead, hnote⟩ := exists_expected_query hmissed
  have hsuffix := (Production.query limit).suffix_of_mem_notes (t := source)
  obtain ⟨place, hplace⟩ := Furthest.exists_of_notes hsuffix
  obtain ⟨e', he'⟩ := hplace.exists_expected hsuffix hnote
  refine ⟨place, e', ?_, hplace, he'⟩
  rw [parse_eq, hmissed] at h
  rw [← Note.report_of_not_tooDeep fun l v => Tidy.not_tooDeep_of_missed hmissed]
  exact (Except.error.inj h).symm

end Query

/-! ## What stands at a place -/

/-- The lexeme as what was found at a place. -/
def Found.ofLexeme : Lexeme → Found
  | .token kind => .token kind.written
  | .unrecognized text => .unrecognized text

namespace Furthest

/-- The error at a place where a lexeme stands. -/
theorem error_of_scan? {f : Furthest} {offset : Nat} {place rest : Text} {lexeme : Lexeme}
    (hcursor : f.cursor = ⟨offset, place⟩) (hplace : place.dropBlanks = place)
    (hscan : Lexeme.scan? place = some (lexeme, rest)) :
    f.error = ⟨.unexpected (f.expected.map Expectation.describe) (.ofLexeme lexeme),
      ⟨offset, offset + lexeme.written.byteSize⟩⟩ := by
  simp only [error, hcursor, Cursor.next?_of_scan? hplace hscan offset]
  cases lexeme <;> rfl

theorem message_error (f : Furthest) :
    f.error.message = SyntaxError.expectedMessage f.error.alternatives f.error.found := by
  rw [error]
  split <;> rfl

end Furthest

/-! ## What an error says -/

/-- In the text `before ++ here ++ after` the error points exactly at `here`, and reports it. -/
structure SyntaxError.PointsAt (error : SyntaxError) (before here after : Text) : Prop where
  span : error.span = ⟨before.byteSize, (before ++ here).byteSize⟩
  /-- What is reported is the item that is read first from there, and no blank stands before it. -/
  item : error.found ≠ .endOfInput → here ≠ [] ∧ Text.NotNext Text.isBlank here ∧
    ∃ cursor lexeme next, Cursor.at? (before ++ here ++ after) error.span.start = some cursor ∧
      cursor.next? = some (⟨lexeme, error.span⟩, next) ∧ lexeme.written = here ∧
      error.found = .ofLexeme lexeme
  /-- The end of the text is reported only there. -/
  ending : error.found = .endOfInput → here = [] ∧ after = []

/-- The error names at least one alternative and none of them twice, in the words for one or for
    several. -/
structure SyntaxError.IsWorded (error : SyntaxError) : Prop where
  ne_nil : error.alternatives ≠ []
  nodup : error.alternatives.Nodup
  one : ∀ only, error.alternatives = [only] →
    error.message = "expected ".toList ++ only ++ ", found ".toList ++ error.found.describe
  several : 2 ≤ error.alternatives.length →
    error.message = "expected one of ".toList ++ Text.commaJoined error.alternatives ++
      ", found ".toList ++ error.found.describe

namespace Furthest

variable {source place : Text} {notes : List Note} {f : Furthest} {e : Expectation}

/-- The furthest failure points at what stands at its place. -/
theorem Of.pointsAt (h : Of source notes f place) (hplace : place.dropBlanks = place) :
    ∃ before here after, source = before ++ here ++ after ∧ here ++ after = place ∧
      f.error.PointsAt before here after := by
  obtain ⟨before, hsource⟩ : ∃ before : Text, before ++ place = source := h.suffix
  have hcursor : f.cursor = ⟨before.byteSize, place⟩ := by
    rw [h.cursor, ← hsource, Cursor.before, Text.byteSize_append, Nat.add_sub_cancel]
  cases hscan : Lexeme.scan? place with
  | none =>
    obtain rfl := Lexeme.scan?_eq_none_iff.1 hscan
    have herror : f.error = ⟨.unexpected (f.expected.map Expectation.describe) .endOfInput,
        ⟨before.byteSize, before.byteSize⟩⟩ := by
      simp only [error, hcursor]
      rfl
    refine ⟨before, [], [], by simpa using hsource.symm, rfl, ?_, ?_, fun _ => ⟨rfl, rfl⟩⟩
    · rw [herror, List.append_nil]
    · rw [herror]
      exact fun hfound => absurd rfl hfound
  | some found =>
    obtain ⟨lexeme, rest⟩ := found
    obtain ⟨hwritten, hne⟩ := Lexeme.scan?_eq_some hscan
    have hnext := Cursor.next?_of_scan? hplace hscan before.byteSize
    have herror := error_of_scan? hcursor hplace hscan
    have hblank : Text.NotNext Text.isBlank place :=
      hplace ▸ Text.notNext_dropWhile Text.isBlank place
    refine ⟨before, lexeme.written, rest, ?_, hwritten.symm, ?_, fun _ => ⟨hne, ?_, ?_⟩, ?_⟩
    · rw [List.append_assoc, ← hwritten, hsource]
    · rw [herror, Text.byteSize_append]
    · rw [hwritten] at hblank
      exact fun c cs hc => hblank c (cs ++ rest) (by rw [hc]; rfl)
    · rw [herror, List.append_assoc, ← hwritten]
      exact ⟨_, lexeme, _, Cursor.at?_append before place, hnext, rfl, rfl⟩
    · rw [herror]
      intro hfound
      cases lexeme <;> cases hfound

/-- The furthest failure lists what was expected at its place. -/
theorem isWorded_error (hexpected : f.expected = Note.expectedAt place notes)
    (he : .expected e place ∈ notes) : f.error.IsWorded where
  ne_nil := by
    rw [f.alternatives_error, hexpected, ne_eq, List.map_eq_nil_iff]
    exact List.ne_nil_of_mem (Note.mem_expectedAt.2 he)
  nodup := by
    rw [f.alternatives_error, hexpected]
    exact (Note.nodup_expectedAt place notes).map fun _ _ => Expectation.describe_injective
  one only honly := by
    rw [f.message_error, honly]
    rfl
  several hlength := by
    rw [f.message_error]
    match f.error.alternatives, hlength with
    | _ :: _ :: _, _ => rfl

end Furthest

namespace Query

open Production

/-- Every error that is not about nesting points exactly at what it reports, and lists what was
    looked for there in the order in which it was first noted. -/
theorem pointsAt_of_parse {limit : Nat} {source : Text} {error : SyntaxError}
    (h : parse limit source = .error error) (hnesting : ∀ l, error.cause ≠ .nestingTooDeep l) :
    ∃ before here after, source = before ++ here ++ after ∧ error.PointsAt before here after ∧
      error.IsWorded ∧ error.alternatives = (Note.expectedAt (here ++ after)
        ((Production.query limit).notes source)).map Expectation.describe := by
  obtain ⟨place, e, rfl, hof, he⟩ := error_eq_of_parse h hnesting
  have hexpected := hof.expected_eq (Production.query limit).suffix_of_mem_notes
  obtain ⟨before, here, after, hsource, rfl, hpoints⟩ :=
    hof.pointsAt (ahead_of_mem_notes _ _ he).2
  exact ⟨before, here, after, hsource, hpoints, Furthest.isWorded_error hexpected he,
    by rw [Furthest.alternatives_error, hexpected]⟩

/-- After verbatim parts with characters of more than one byte, the error is at a quotation that
    does not end. -/
theorem pointsAt_of_parse_unrecognized :
    let source : Text := "START é RETURN CASE é END \x60ж".toList
    ∃ error, parse 0 source = .error error ∧
      error.found = .unrecognized ['\x60', 'ж'] ∧ error.span = ⟨28, 31⟩ ∧
      ∃ before here after, source = before ++ here ++ after ∧ error.PointsAt before here after ∧
        error.IsWorded ∧ error.alternatives = (Note.expectedAt (here ++ after)
          ((Production.query 0).notes source)).map Expectation.describe := by
  intro source
  let error : SyntaxError := ⟨.unexpected (["operator", "`AS`", "`,`",
    "end of input"].map String.toList) (.unrecognized ['\x60', 'ж']), ⟨28, 31⟩⟩
  have h : parse 0 source = .error error := by decide +kernel
  exact ⟨error, h, rfl, rfl, pointsAt_of_parse h nofun⟩

end Query

end Cypher
