/-
  Slices — parts of a text by their byte offsets.

  A text can be cut between two of its characters, and nowhere else: an offset inside of a character
  or beyond the end has no text before and after it. Words are looked for by adding the number of
  their bytes to an offset, and that may well end inside of a character.

  * `Text.cut?`, `Text.from?`, `Text.upTo?`, `Text.slice?`: parts of a text, and nothing where an
    offset is no boundary (`cut?_eq_some_iff`);
  * `Text.wordAt?`, `Text.findWord?`, `Text.opensClauseAt?`, `Text.findClause?`: whole words by
    their offsets. All slices that this takes are there, and the words are those of `startsWord`
    and `splitAtStart?` (`wordAt?_append`, `findWord?_eq`, `findClause?_eq`);
  * `Cursor.isSome_at?_iff`: the offsets at which a text can be read.
-/
import Cypher.Proofs.Lowering
import Cypher.Proofs.Partition

namespace Cypher

namespace Text

variable {t before after word : Text} {offset : Nat}

/-! ## Cutting -/

/-- The text before and after a byte offset; nothing inside of a character or beyond the end. -/
def cut? : (t : Text) → (offset : Nat) → Option (Text × Text)
  | t, 0 => some ([], t)
  | [], _ + 1 => none
  | c :: cs, bytes + 1 =>
    if c.utf8Size ≤ bytes + 1 then
      (cut? cs (bytes + 1 - c.utf8Size)).map fun (before, after) => (c :: before, after)
    else none

/-- The text from a byte offset on. -/
def from? (t : Text) (offset : Nat) : Option Text :=
  (t.cut? offset).map Prod.snd

/-- The text up to a byte offset. -/
def upTo? (t : Text) (offset : Nat) : Option Text :=
  (t.cut? offset).map Prod.fst

/-- The text from one byte offset up to another one. -/
def slice? (t : Text) (start stop : Nat) : Option Text :=
  (t.upTo? stop).bind (from? · start)

theorem cut?_append (before after : Text) :
    (before ++ after).cut? before.byteSize = some (before, after) := by
  induction before with
  | nil => rw [List.nil_append, byteSize_nil, cut?]
  | cons c cs ih =>
    have hpos := c.utf8Size_pos
    obtain ⟨n, hn⟩ : ∃ n, byteSize (c :: cs) = n + 1 :=
      Nat.exists_eq_add_one.2 (by rw [byteSize_cons]; omega)
    have hrest : n + 1 - c.utf8Size = byteSize cs := by rw [← hn, byteSize_cons]; omega
    rw [hn, List.cons_append, cut?, if_pos (by rw [byteSize_cons] at hn; omega), hrest, ih,
      Option.map_some]

theorem cut?_eq_some_iff :
    t.cut? offset = some (before, after) ↔ t = before ++ after ∧ offset = before.byteSize := by
  refine ⟨fun h => ?_, fun ⟨ht, hoffset⟩ => by rw [ht, hoffset, cut?_append]⟩
  fun_induction cut? t offset generalizing before with
  | case1 t => cases h; exact ⟨rfl, rfl⟩
  | case2 => cases h
  | case3 c cs bytes hle ih =>
    simp only [Option.map_eq_some_iff, Prod.mk.injEq, Prod.exists] at h
    obtain ⟨before', after', hcut, rfl, rfl⟩ := h
    obtain ⟨hcs, hbytes⟩ := ih hcut
    exact ⟨by rw [hcs]; rfl, by rw [byteSize_cons, ← hbytes]; omega⟩
  | case4 => cases h

theorem isSome_cut?_iff : (t.cut? offset).isSome = true ↔ t.IsBoundary offset := by
  simp only [Option.isSome_iff_exists, Prod.exists, cut?_eq_some_iff, IsBoundary]

theorem IsBoundary.le (h : t.IsBoundary offset) : offset ≤ t.byteSize := by
  obtain ⟨before, after, rfl, rfl⟩ := h
  rw [byteSize_append]
  exact Nat.le_add_right _ _

theorem from?_append (before after : Text) :
    (before ++ after).from? before.byteSize = some after := by
  rw [from?, cut?_append, Option.map_some]

theorem upTo?_append (before after : Text) :
    (before ++ after).upTo? before.byteSize = some before := by
  rw [upTo?, cut?_append, Option.map_some]

theorem slice?_append (before part after : Text) :
    (before ++ part ++ after).slice? before.byteSize (before.byteSize + part.byteSize) =
      some part := by
  rw [slice?, ← byteSize_append, upTo?_append, Option.bind_some, from?_append]

example : slice? ['é', 'b'] 0 1 = none := by decide

/-- What stands at a span is what is cut out there. -/
theorem slice?_of_covers {span : Span} {part : Text} (h : span.Covers t part) :
    t.slice? span.start span.stop = some part := by
  obtain ⟨before, after, rfl, rfl⟩ := h
  exact slice?_append before part after

/-! ## Words at an offset -/

/-- Tells whether the whole word `word` stands at an offset; nothing if that takes a slice which
    is not there. The end of the word is looked at before anything is cut. -/
def wordAt? (t : Text) (offset : Nat) (word : Text) : Option Bool :=
  let stop := offset + word.byteSize
  if t.byteSize < stop ∨ (t.cut? stop).isSome = false then some false
  else (t.slice? offset stop).bind fun written =>
    if written.eqIgnoringCase word then (t.from? stop).map endsWord else some false

/-- Behind the start of a text, its boundaries are those of what follows. -/
theorem isBoundary_append_iff {rest : Text} {bytes : Nat} :
    (before ++ rest).IsBoundary (before.byteSize + bytes) ↔ rest.IsBoundary bytes := by
  constructor
  · rintro ⟨upTo, after, happ, hsize⟩
    rcases List.append_eq_append_iff.1 happ with ⟨part, rfl, rfl⟩ | ⟨part, rfl, rfl⟩
    · exact ⟨part, after, rfl, by rw [byteSize_append] at hsize; omega⟩
    · exact ⟨[], rest, rfl, by rw [byteSize_append] at hsize; rw [byteSize_nil]; omega⟩
  · rintro ⟨part, after, rfl, rfl⟩
    exact ⟨before ++ part, after, (List.append_assoc ..).symm, (byteSize_append ..).symm⟩

theorem byteSize_eq_of_lower_eq {s u : Text} (h : s.lower = u.lower) :
    s.byteSize = u.byteSize := by
  rw [← byteSize_lower s, h, byteSize_lower]

/-- Two texts of the same size at the start of a text are the same. -/
theorem eq_of_append_eq {s s' u u' : Text} (h : s ++ u = s' ++ u')
    (hsize : s.byteSize = s'.byteSize) : s = s' ∧ u = u' := by
  have hcut := cut?_append s u
  rw [h, hsize, cut?_append] at hcut
  cases hcut
  exact ⟨rfl, rfl⟩

/-- Whether a text begins with a word, by the first bytes of it, as many as the word has. -/
theorem startsWord_append_eq {written after : Text} (hsize : word.byteSize = written.byteSize) :
    startsWord word (written ++ after) = (written.eqIgnoringCase word && endsWord after) := by
  rw [Bool.eq_iff_iff, startsWord_iff, Bool.and_eq_true, eqIgnoringCase_iff, endsWord_iff_notNext]
  refine ⟨?_, fun ⟨hlower, hends⟩ => ⟨written, after, rfl, hlower, hends⟩⟩
  rintro ⟨written', after', happ, hlower, hends⟩
  have hsize' := byteSize_eq_of_lower_eq hlower
  obtain ⟨rfl, rfl⟩ := eq_of_append_eq happ (hsize.symm.trans hsize'.symm)
  exact ⟨hlower, hends⟩

theorem isBoundary_of_startsWord {rest : Text} (h : startsWord word rest = true) :
    rest.IsBoundary word.byteSize := by
  obtain ⟨written, after, happ, hlower, -⟩ := startsWord_iff.1 h
  exact ⟨written, after, happ, (byteSize_eq_of_lower_eq hlower).symm⟩

/-- No slice is missing where a character begins, whatever the text and the word are. -/
theorem wordAt?_append (before rest word : Text) :
    wordAt? (before ++ rest) before.byteSize word = some (startsWord word rest) := by
  by_cases hstop : rest.IsBoundary word.byteSize
  · obtain ⟨written, after, rfl, hsize⟩ := hstop
    have hcut : (before ++ (written ++ after)).cut? (before.byteSize + word.byteSize) =
        some (before ++ written, after) := by
      rw [hsize, ← byteSize_append, ← List.append_assoc, cut?_append]
    have hle : before.byteSize + word.byteSize ≤ (before ++ (written ++ after)).byteSize :=
      IsBoundary.le ⟨_, _, (cut?_eq_some_iff.1 hcut)⟩
    simp only [wordAt?, slice?, upTo?, from?, hcut, Option.isSome_some, Option.map_some,
      Option.bind_some, cut?_append, Bool.true_eq_false, or_false, Nat.not_lt.2 hle, if_false]
    rw [startsWord_append_eq hsize]
    cases written.eqIgnoringCase word <;> rfl
  · -- The word would end inside of a character, or beyond the text.
    have hnone : ((before ++ rest).cut? (before.byteSize + word.byteSize)).isSome = false := by
      rw [← Bool.not_eq_true, isSome_cut?_iff, isBoundary_append_iff]
      exact hstop
    have hstarts : startsWord word rest = false := by
      rw [← Bool.not_eq_true]
      exact fun h => hstop (isBoundary_of_startsWord h)
    rw [wordAt?, if_pos (Or.inr hnone), hstarts]

-- A word may end inside of a character, and must not start there.
example : wordAt? ['é', 'b'] 0 ['a'] = some false := by decide
example : wordAt? ['é', 'b'] 1 ['b'] = none := by decide

/-! ## Words anywhere -/

/-- The offsets at which a word may start, in order; the text begins at `offset`, and `inWord` tells
    whether an alphanumeric character stands directly before it. -/
def wordStartsFrom (offset : Nat) : (inWord : Bool) → Text → List Nat
  | _, [] => []
  | true, c :: cs => wordStartsFrom (offset + c.utf8Size) (isAlphanumeric c) cs
  | false, c :: cs => offset :: wordStartsFrom (offset + c.utf8Size) (isAlphanumeric c) cs

/-- The first member of a list that passes a test; nothing if a test before that has no result. -/
def firstWhere? {α : Type} (test : α → Option Bool) : List α → Option (Option α)
  | [] => some none
  | a :: as => (test a).bind fun passed => if passed then some (some a) else firstWhere? test as

/-- The offset of the first whole word `word`. -/
def findWord? (t word : Text) : Option (Option Nat) :=
  firstWhere? (wordAt? t · word) (wordStartsFrom 0 false t)

/-- Tells whether a clause opens at an offset. What follows `OPTIONAL` is cut off to look for
    `MATCH` in it. -/
def opensClauseAt? (t : Text) (offset : Nat) : Option Bool :=
  (firstWhere? (fun k => wordAt? t offset k.written) [Keyword.match_, .where_, .return_]).bind
    fun clause =>
      if clause.isSome then some true
      else (wordAt? t offset Keyword.optional.written).bind fun optional =>
        if optional then
          (t.from? (offset + Keyword.optional.written.byteSize)).bind fun rest =>
            let after := dropBlanks rest
            if after.byteSize < rest.byteSize then wordAt? after 0 Keyword.match_.written
            else some false
        else some false

/-- The offset of the first clause. -/
def findClause? (t : Text) : Option (Option Nat) :=
  firstWhere? (opensClauseAt? t) (wordStartsFrom 0 false t)

theorem firstWhere?_wordStartsFrom {test : Nat → Option Bool} {starts : Text → Bool}
    (offset : Nat) (inWord : Bool) (t : Text)
    (htest : ∀ before rest, t = before ++ rest → rest ≠ [] →
      test (offset + before.byteSize) = some (starts rest)) :
    firstWhere? test (wordStartsFrom offset inWord t) =
      some ((splitAtStartFrom? starts inWord t).map fun (before, _) =>
        offset + before.byteSize) := by
  induction t generalizing offset inWord with
  | nil => rfl
  | cons c cs ih =>
    have hhead : test offset = some (starts (c :: cs)) := htest [] _ rfl (by simp)
    have htail := ih (offset + c.utf8Size) (isAlphanumeric c) fun before rest happ hne => by
      rw [Nat.add_assoc, ← byteSize_cons]
      exact htest (c :: before) rest (by rw [happ]; rfl) hne
    have hmap : (fun x : Text × Text => offset + c.utf8Size + x.1.byteSize) =
        fun x => offset + byteSize (c :: x.1) := by
      funext x; rw [byteSize_cons, Nat.add_assoc]
    cases inWord with
    | true => simp only [wordStartsFrom, splitAtStartFrom?, htail, hmap]; simp [Function.comp_def]
    | false =>
      simp only [wordStartsFrom, splitAtStartFrom?, firstWhere?, hhead, htail, hmap]
      cases starts (c :: cs) <;> simp [Function.comp_def]

theorem firstWhere?_wordStarts {test : Nat → Option Bool} {starts : Text → Bool} (t : Text)
    (htest : ∀ before rest, t = before ++ rest → rest ≠ [] →
      test before.byteSize = some (starts rest)) :
    firstWhere? test (wordStartsFrom 0 false t) =
      some ((splitAtStart? starts t).map fun (before, _) => before.byteSize) := by
  have h := firstWhere?_wordStartsFrom 0 false t (by simpa using htest)
  rw [h, splitAtStart?]
  simp only [Nat.zero_add]

theorem findWord?_eq (t word : Text) :
    findWord? t word = some ((splitAtWord? word t).map fun (before, _) => before.byteSize) :=
  firstWhere?_wordStarts t fun before rest happ _ => by rw [happ, wordAt?_append]

theorem byteSize_dropBlanks_lt_iff {t : Text} :
    (dropBlanks t).byteSize < t.byteSize ↔ t.head?.any isBlank = true := by
  cases t with
  | nil => simp [dropBlanks]
  | cons c cs =>
    cases hc : isBlank c with
    | false => simp [dropBlanks_cons_of_not cs hc, hc]
    | true =>
      have hdrop : dropBlanks (c :: cs) = dropBlanks cs := by simp [dropBlanks, hc]
      have hsize := congrArg byteSize (takeWhile_append_dropBlanks cs)
      have hpos := c.utf8Size_pos
      rw [byteSize_append] at hsize
      simp only [hdrop, byteSize_cons, List.head?_cons, Option.any_some, hc, iff_true]
      omega

theorem startsWord_of_opensOptionalMatch {t : Text} (h : opensOptionalMatch t = true) :
    startsWord Keyword.optional.written t = true := by
  obtain ⟨written, c, after, rfl, hlower, hblank, -⟩ := opensOptionalMatch_iff.1 h
  refine startsWord_iff.2 ⟨written, c :: after, rfl, hlower, ?_⟩
  exact notNext_cons.2 (isAlphanumeric_eq_false_of_isBlank hblank)

theorem opensOptionalMatch_append {written after : Text}
    (hlower : written.lower = Keyword.optional.written.lower)
    (hends : NotNext isAlphanumeric after) :
    opensOptionalMatch (written ++ after) =
      (after.head?.any isBlank && startsWord Keyword.match_.written (dropBlanks after)) := by
  have hafter := afterWord?_append after (afterWord?_eq_some_of_lower hlower)
  rw [opensOptionalMatch, hafter, List.nil_append, Option.any_some, endsWord_iff_notNext.2 hends,
    Bool.true_and]

/-- Where `OPTIONAL` has been found, the text after it can be cut off. -/
theorem optionalAt?_append {before rest : Text}
    (h : startsWord Keyword.optional.written rest = true) :
    ((before ++ rest).from? (before.byteSize + Keyword.optional.written.byteSize)).bind
      (fun rest =>
        if (dropBlanks rest).byteSize < rest.byteSize then
          wordAt? (dropBlanks rest) 0 Keyword.match_.written
        else some false) = some (opensOptionalMatch rest) := by
  obtain ⟨written, after, rfl, hlower, hends⟩ := startsWord_iff.1 h
  have hfrom : (before ++ (written ++ after)).from?
      (before.byteSize + Keyword.optional.written.byteSize) = some after := by
    rw [← byteSize_eq_of_lower_eq hlower, ← byteSize_append, ← List.append_assoc, from?_append]
  have hmatch : wordAt? (dropBlanks after) 0 Keyword.match_.written =
      some (startsWord Keyword.match_.written (dropBlanks after)) := wordAt?_append [] _ _
  rw [hfrom, opensOptionalMatch_append hlower hends, Option.bind_some, hmatch]
  simp only [byteSize_dropBlanks_lt_iff]
  cases after.head?.any isBlank <;> rfl

theorem opensClauseAt?_append (before rest : Text) :
    opensClauseAt? (before ++ rest) before.byteSize = some (opensClause rest) := by
  simp only [opensClauseAt?, firstWhere?, wordAt?_append, Option.bind_some, opensClause]
  cases startsWord Keyword.match_.written rest with
  | true => rfl
  | false =>
  cases startsWord Keyword.where_.written rest with
  | true => rfl
  | false =>
  cases startsWord Keyword.return_.written rest with
  | true => rfl
  | false =>
    cases hstarts : startsWord Keyword.optional.written rest with
    | true => exact optionalAt?_append hstarts
    | false =>
      have hopens : opensOptionalMatch rest = false := by
        rw [← Bool.not_eq_true]
        intro h
        rw [startsWord_of_opensOptionalMatch h] at hstarts
        cases hstarts
      rw [hopens]
      rfl

theorem findClause?_eq (t : Text) :
    findClause? t = some ((splitAtClause? t).map fun (before, _) => before.byteSize) :=
  firstWhere?_wordStarts t fun before rest happ _ => by rw [happ, opensClauseAt?_append]

/-! ## Verbatim texts -/

theorem notNext_isBlank_append {s : Text} (u : Text) (hs : s.all Char.isAlpha = true)
    (hne : s ≠ []) : NotNext isBlank (s ++ u) := by
  cases s with
  | nil => exact absurd rfl hne
  | cons c cs =>
    rw [List.all_cons, Bool.and_eq_true] at hs
    exact notNext_cons.2 (isBlank_eq_false_of_isAlphanum (isAlphanum_of_isAlpha hs.1))

/-- A text that begins with a word and ends with one has no blanks at its ends. -/
theorem isTrimmed_of_words {word' first last : Text} (middle : Text) (hword : IsWord word)
    (hword' : IsWord word') (hfirst : first.lower = word.lower) (hlast : last.lower = word'.lower) :
    IsTrimmed (first ++ (middle ++ last)) := by
  have hne {s w : Text} (hw : IsWord w) (h : s.lower = w.lower) : s ≠ [] := by
    rintro rfl
    exact hw.ne_nil (List.length_eq_zero_iff.1 (length_eq_of_lower_eq h).symm)
  constructor
  · exact notNext_isBlank_append _ (all_isAlpha_of_lower_eq hword hfirst) (hne hword hfirst)
  · rw [← List.append_assoc, List.reverse_append]
    refine notNext_isBlank_append _ ?_ (by simpa using hne hword' hlast)
    rw [List.all_reverse]
    exact all_isAlpha_of_lower_eq hword' hlast

end Text

/-! ## Reading from an offset -/

namespace Cursor

variable {source : Text} {offset : Nat}

theorem isSome_forward?_iff {start : Nat} {rest : Text} {bytes : Nat} :
    (forward? start rest bytes).isSome = true ↔
      (rest.cut? bytes).isSome = true ∨ rest.byteSize < bytes := by
  fun_induction forward? start rest bytes with
  | case1 start rest => simp [Text.cut?]
  | case2 start bytes => simp
  | case3 start c cs bytes hle ih =>
    rw [ih, Text.cut?, if_pos hle, Option.isSome_map, Text.byteSize_cons]
    exact or_congr_right (by omega)
  | case4 start c cs bytes hle =>
    rw [Text.cut?, if_neg hle, Text.byteSize_cons]
    simp only [Option.isSome_none, Bool.false_eq_true, false_or, false_iff]
    omega

/-- Of two places in a text, the one with less to read is further on. -/
theorem IsIn.offset_lt_iff {c d : Cursor} (hc : c.IsIn source) (hd : d.IsIn source) :
    c.offset < d.offset ↔ d.rest.length < c.rest.length := by
  obtain ⟨before, hsource, hoffset⟩ := hc
  obtain ⟨before', hsource', hoffset'⟩ := hd
  rw [hoffset, hoffset']
  rcases List.append_eq_append_iff.1 (hsource.symm.trans hsource') with
    ⟨between, rfl, hrest⟩ | ⟨between, rfl, hrest⟩
  · have hpos : 0 < Text.byteSize between ↔ 0 < between.length := by
      rw [Nat.pos_iff_ne_zero, ne_eq, Text.byteSize_eq_zero_iff, List.length_pos_iff]
    rw [hrest, Text.byteSize_append, List.length_append]
    omega
  · rw [hrest, Text.byteSize_append, List.length_append]
    omega

theorem IsIn.isBoundary {c : Cursor} (h : c.IsIn source) : source.IsBoundary c.offset := by
  obtain ⟨before, hsource, hoffset⟩ := h
  exact ⟨before, c.rest, hsource, hoffset⟩

/-- A text can be read from every boundary, and beyond its end there is nothing to read. -/
theorem isSome_at?_iff :
    (at? source offset).isSome = true ↔ source.IsBoundary offset ∨ source.byteSize < offset := by
  rw [at?, isSome_forward?_iff, Text.isSome_cut?_iff]

end Cursor

end Cypher
