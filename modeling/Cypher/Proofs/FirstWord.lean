/-
  First words — what the search for a word in arbitrary text finds.

  The search goes through the text once. It looks for the word where no alphanumeric character
  stands directly before, and takes the first place where it is. What it should find is said here by
  offsets and slices alone.

  * `Text.WholeWordAt`, `Text.ClauseAt`: a whole word stands at an offset of a text, and a clause
    opens there;
  * `Text.StartsAt`: a word may begin at an offset, and the text goes on from there as asked. Whole
    words and clauses are instances (`wholeWordAt_iff`, `clauseAt_iff`);
  * `FindsLeast`: of the offsets with a property the least one was found, or there is none;
  * `Text.findsLeast_splitAtStart?`: so does the search, whatever is looked for;
  * `Text.findsLeast_wholeWord`: the searches for words and for clauses.
-/
import Cypher.Proofs.Slices
import Mathlib.Data.List.Induction
import Mathlib.Order.Bounds.Defs

namespace Cypher

/-- Of the offsets with a property, the least one was found; nothing if there is none. -/
structure FindsLeast (found : Option Nat) (P : Nat → Prop) : Prop where
  some_iff : ∀ offset, found = some offset ↔ IsLeast {o | P o} offset
  none_iff : found = none ↔ ∀ offset, ¬P offset

theorem FindsLeast.of_sound {found : Option Nat} {P : Nat → Prop}
    (hsome : ∀ offset, found = some offset → IsLeast {o | P o} offset)
    (hnone : found = none → ∀ offset, ¬P offset) : FindsLeast found P := by
  cases found with
  | none =>
    have hno := hnone rfl
    exact ⟨fun offset => ⟨nofun, fun h => absurd h.1 (hno offset)⟩, fun _ => hno, fun _ => rfl⟩
  | some first =>
    have hfirst := hsome first rfl
    refine ⟨fun offset => ⟨hsome offset, fun h => ?_⟩, nofun, fun hno => ?_⟩
    · rw [Nat.le_antisymm (hfirst.2 h.1) (h.2 hfirst.1)]
    · exact absurd hfirst.1 (hno first)

namespace Text

variable {t before rest word : Text} {offset : Nat} {starts : Text → Bool}

/-! ## Words and clauses by their offsets -/

/-- The word stands at the offset, up to the case of its letters, and no alphanumeric character
    stands directly before or after it. -/
structure WholeWordAt (word t : Text) (offset : Nat) : Prop where
  written : ∃ s, t.slice? offset (offset + word.byteSize) = some s ∧ s.eqIgnoringCase word = true
  before : ∀ s c, t.upTo? offset = some (s ++ [c]) → isAlphanumeric c = false
  after : ∀ c s, t.from? (offset + word.byteSize) = some (c :: s) → isAlphanumeric c = false

/-- At the offset stands `MATCH`, `WHERE` or `RETURN`, or `OPTIONAL` and, after at least one blank
    and nothing else, `MATCH`. All of them are whole words. -/
def ClauseAt (t : Text) (offset : Nat) : Prop :=
  (∃ k ∈ [Keyword.match_, .where_, .return_], WholeWordAt k.written t offset) ∨
    WholeWordAt Keyword.optional.written t offset ∧
      ∃ stop blanks, t.slice? (offset + Keyword.optional.written.byteSize) stop = some blanks ∧
        blanks ≠ [] ∧ blanks.all isBlank = true ∧ WholeWordAt Keyword.match_.written t stop

/-- At the offset a word may begin, and the text from there on is as asked. -/
def StartsAt (starts : Text → Bool) (t : Text) (offset : Nat) : Prop :=
  ∃ before rest, t = before ++ rest ∧ offset = before.byteSize ∧
    inWordAfter false before = false ∧ starts rest = true

theorem startsAt_append_iff : StartsAt starts (before ++ rest) before.byteSize ↔
    inWordAfter false before = false ∧ starts rest = true := by
  refine ⟨?_, fun ⟨hbefore, hstarts⟩ => ⟨before, rest, rfl, rfl, hbefore, hstarts⟩⟩
  rintro ⟨before', rest', happ, hsize, hbefore, hstarts⟩
  obtain ⟨rfl, rfl⟩ := eq_of_append_eq happ hsize
  exact ⟨hbefore, hstarts⟩

/-! ## Slices -/

theorem upTo?_eq_some_iff {s : Text} :
    t.upTo? offset = some s ↔ ∃ after, t = s ++ after ∧ offset = s.byteSize := by
  simp [upTo?, cut?_eq_some_iff]

theorem from?_eq_some_iff {s : Text} :
    t.from? offset = some s ↔ ∃ before, t = before ++ s ∧ offset = before.byteSize := by
  simp [from?, cut?_eq_some_iff]

theorem slice?_eq_some_iff {start stop : Nat} {s : Text} :
    t.slice? start stop = some s ↔ ∃ before after, t = before ++ (s ++ after) ∧
      start = before.byteSize ∧ stop = before.byteSize + s.byteSize := by
  simp only [slice?, Option.bind_eq_some_iff, upTo?_eq_some_iff, from?_eq_some_iff]
  constructor
  · rintro ⟨_, ⟨after, rfl, rfl⟩, before, rfl, rfl⟩
    exact ⟨before, after, List.append_assoc .., rfl, byteSize_append ..⟩
  · rintro ⟨before, after, rfl, rfl, rfl⟩
    exact ⟨before ++ s, ⟨after, (List.append_assoc ..).symm, (byteSize_append ..).symm⟩, before,
      rfl, rfl⟩

theorem inWordAfter_false_iff : inWordAfter false before = false ↔
    ∀ s c, before = s ++ [c] → isAlphanumeric c = false := by
  cases before using List.reverseRecOn with
  | nil => simp
  | append_singleton s c =>
    rw [inWordAfter_append, inWordAfter_cons, inWordAfter_nil]
    refine ⟨fun hc s' c' happ => ?_, fun h => h s c rfl⟩
    rwa [← (List.append_inj' happ rfl).2 |> List.singleton_inj.1]

/-! ## Whole words -/

theorem wholeWordAt_iff : WholeWordAt word t offset ↔ StartsAt (startsWord word) t offset := by
  constructor
  · rintro ⟨⟨s, hslice, hword⟩, hbefore, hafter⟩
    obtain ⟨before, after, rfl, rfl, hstop⟩ := slice?_eq_some_iff.1 hslice
    have hsize : word.byteSize = s.byteSize := Nat.add_left_cancel hstop
    refine startsAt_append_iff.2 ⟨inWordAfter_false_iff.2 fun u c hu => ?_, ?_⟩
    · exact hbefore u c (by rw [upTo?_append, hu])
    · rw [startsWord_append_eq hsize, hword, Bool.true_and, endsWord_iff_notNext]
      refine fun c cs hcs => hafter c cs (from?_eq_some_iff.2 ⟨before ++ s, ?_, ?_⟩)
      · rw [List.append_assoc, hcs]
      · rw [byteSize_append, hsize]
  · rintro ⟨before, rest, rfl, rfl, hbefore, hstarts⟩
    obtain ⟨s, after, rfl, hlower, hends⟩ := startsWord_iff.1 hstarts
    have hsize := (byteSize_eq_of_lower_eq hlower).symm
    refine ⟨⟨s, ?_, eqIgnoringCase_iff.2 hlower⟩, fun u c hu => ?_, fun c cs hcs => ?_⟩
    · exact slice?_eq_some_iff.2 ⟨before, after, rfl, rfl, by rw [hsize]⟩
    · rw [upTo?_append] at hu
      exact inWordAfter_false_iff.1 hbefore u c (Option.some.inj hu)
    · rw [hsize, ← byteSize_append, ← List.append_assoc, from?_append] at hcs
      exact hends c cs (Option.some.inj hcs)

/-! ## Clauses -/

/-- `OPTIONAL`, and after some blanks the word `MATCH`. -/
theorem opensOptionalMatch_of_blanks {s blanks after : Text}
    (hlower : s.lower = Keyword.optional.written.lower) (hne : blanks ≠ [])
    (hblanks : blanks.all isBlank = true)
    (hmatch : startsWord Keyword.match_.written after = true) :
    opensOptionalMatch (s ++ (blanks ++ after)) = true := by
  cases blanks with
  | nil => exact absurd rfl hne
  | cons c cs =>
    rw [List.all_cons, Bool.and_eq_true] at hblanks
    refine opensOptionalMatch_iff.2 ⟨s, c, cs ++ after, rfl, hlower, hblanks.1, ?_⟩
    rwa [dropBlanks_blank_append _ hblanks.2,
      dropBlanks_of_notNext (notNext_isBlank_of_startsWord (isWord_written .match_) hmatch)]

theorem clauseAt_iff : ClauseAt t offset ↔ StartsAt opensClause t offset := by
  simp only [ClauseAt, wholeWordAt_iff]
  constructor
  · rintro (⟨k, hk, before, rest, rfl, rfl, hbefore, hstarts⟩ |
      ⟨⟨before, rest, rfl, rfl, hbefore, hstarts⟩, stop, blanks, hslice, hne, hblanks, hmatch⟩)
    · exact startsAt_append_iff.2 ⟨hbefore, opensClause_iff.2 (Or.inl ⟨k, hk, hstarts⟩)⟩
    · obtain ⟨s, after, rfl, hlower, -⟩ := startsWord_iff.1 hstarts
      obtain ⟨before', after', happ, hsize, rfl⟩ := slice?_eq_some_iff.1 hslice
      -- what is cut out begins where `OPTIONAL` ends
      rw [← byteSize_eq_of_lower_eq hlower, ← byteSize_append] at hsize
      rw [← List.append_assoc] at happ
      obtain ⟨rfl, rfl⟩ := eq_of_append_eq happ hsize
      rw [← byteSize_append, ← List.append_assoc, ← List.append_assoc (before ++ s),
        startsAt_append_iff] at hmatch
      exact startsAt_append_iff.2 ⟨hbefore, opensClause_iff.2
        (Or.inr (opensOptionalMatch_of_blanks hlower hne hblanks hmatch.2))⟩
  · rintro ⟨before, rest, rfl, rfl, hbefore, hopens⟩
    rcases opensClause_iff.1 hopens with ⟨k, hk, hstarts⟩ | hoptional
    · exact Or.inl ⟨k, hk, startsAt_append_iff.2 ⟨hbefore, hstarts⟩⟩
    · have hstarts := startsWord_of_opensOptionalMatch hoptional
      obtain ⟨s, c, after, rfl, hlower, hblank, hmatch⟩ := opensOptionalMatch_iff.1 hoptional
      let blanks : Text := c :: after.takeWhile isBlank
      have hblanks : blanks.all isBlank = true := by
        rw [List.all_cons, hblank, List.all_takeWhile, Bool.and_self]
      have happ : before ++ (s ++ c :: after) = before ++ s ++ (blanks ++ after.dropBlanks) := by
        rw [List.cons_append, takeWhile_append_dropBlanks, List.append_assoc]
      refine Or.inr ⟨startsAt_append_iff.2 ⟨hbefore, hstarts⟩, _, blanks,
        slice?_eq_some_iff.2 ⟨before ++ s, after.dropBlanks, happ, ?_, rfl⟩, by simp [blanks],
        hblanks, ?_⟩
      · rw [byteSize_append, byteSize_eq_of_lower_eq hlower]
      · rw [happ, ← byteSize_append, ← List.append_assoc, startsAt_append_iff, inWordAfter_append,
          inWordAfter_of_blank hblanks (by simp [blanks])]
        exact ⟨rfl, hmatch⟩

/-! ## The search -/

theorem findsLeast_splitAtStart? (hnil : starts [] = false) (t : Text) :
    FindsLeast ((splitAtStart? starts t).map fun cut => cut.1.byteSize) (StartsAt starts t) := by
  refine .of_sound (fun offset h => ?_) fun h offset => ?_
  · simp only [Option.map_eq_some_iff, Prod.exists] at h
    obtain ⟨before, rest, hsplit, rfl⟩ := h
    obtain ⟨rfl, -, hstarts, hbefore, hfirst⟩ := splitAtStartFrom?_eq_some_iff.1 hsplit
    refine ⟨startsAt_append_iff.2 ⟨hbefore, hstarts⟩, ?_⟩
    rintro _ ⟨before', rest', happ, rfl, hbefore', hstarts'⟩
    -- of two places, the earlier one leaves a part of the text before the later one
    rcases List.append_eq_append_iff.1 happ with ⟨part, rfl, -⟩ | ⟨part, rfl, rfl⟩
    · rw [byteSize_append]
      exact Nat.le_add_right _ _
    · cases part with
      | nil => simp
      | cons c cs =>
        rw [hfirst before' (c :: cs) rfl (by simp) hbefore'] at hstarts'
        cases hstarts'
  · rw [Option.map_eq_none_iff] at h
    rintro ⟨before, rest, rfl, rfl, hbefore, hstarts⟩
    have hrest : rest ≠ [] := by
      rintro rfl
      rw [hnil] at hstarts
      cases hstarts
    rw [splitAtStartFrom?_eq_none_iff.1 h before rest rfl hrest hbefore] at hstarts
    cases hstarts

theorem startsWord_nil (hword : word ≠ []) : startsWord word [] = false := by
  cases word with
  | nil => exact absurd rfl hword
  | cons w ws => rfl

/-- The search for a word finds the least offset at which it stands as a whole word, and the search
    for a clause the least one at which a clause opens. Nothing is found only where there is none.
    Searching by offsets gives the same, with no slice missing. -/
theorem findsLeast_wholeWord (t : Text) :
    (∀ word : Text, word ≠ [] →
      FindsLeast ((splitAtWord? word t).map fun cut => cut.1.byteSize) (WholeWordAt word t) ∧
        findWord? t word = some ((splitAtWord? word t).map fun cut => cut.1.byteSize)) ∧
      FindsLeast ((splitAtClause? t).map fun cut => cut.1.byteSize) (ClauseAt t) ∧
        findClause? t = some ((splitAtClause? t).map fun cut => cut.1.byteSize) := by
  have hclauses : ClauseAt t = StartsAt opensClause t := funext fun _ => propext clauseAt_iff
  refine ⟨fun word hword => ⟨?_, findWord?_eq t word⟩, ?_, findClause?_eq t⟩
  · have hwords : WholeWordAt word t = StartsAt (startsWord word) t :=
      funext fun _ => propext wholeWordAt_iff
    rw [hwords]
    exact findsLeast_splitAtStart? (startsWord_nil hword) t
  · rw [hclauses]
    exact findsLeast_splitAtStart? (opensClause_of_notNext (notNext_nil _)) t

/-- The word stands in other words first, and `OPTIONAL` before a word that only begins with
    `MATCH`. Characters of two bytes stand among them. -/
theorem findsLeast_wholeWord_inside :
    let t : Text := "éEND ends;eNd OPTIONAL MATCHé optional\u00a0 Match".toList
    let word : Text := "END".toList
    word ≠ [] ∧ FindsLeast (some 11) (WholeWordAt word t) ∧ FindsLeast (some 32) (ClauseAt t) := by
  intro t word
  have hne : word ≠ [] := by decide
  have hword : (splitAtWord? word t).map (fun cut => cut.1.byteSize) = some 11 := by decide +kernel
  have hclause : (splitAtClause? t).map (fun cut => cut.1.byteSize) = some 32 := by decide +kernel
  have h := findsLeast_wholeWord t
  exact ⟨hne, hword ▸ (h.1 word hne).1, hclause ▸ h.2.1⟩

end Text

end Cypher
