/-
  Partition — the items of a text are pieces of it, and only blanks stand between them.

  Items are read one after the other, each from the place where the one before it ended. A reader
  that goes back to such a place, by its byte offset alone, reads the same items again.

  * `Span.IsPiece`, `Span.Covers`: a span that can be cut out of a text, and the text it covers;
  * `Cursor.IsIn source`: the cursor is at a place of the text. Reading an item keeps it there
    (`IsIn.next?`), so does reading any number of them (`IsIn.reads`);
  * `Cursor.Reads`: items that are read in a row. Every part of the items of a cursor is
    (`exists_reads_of_items`);
  * `TokenKind.WellFormed.tokenize_written`: a token is the only one of its own characters;
  * `partitions_items`: the items of a text cut it into pieces.
-/
import Cypher.Proofs.Lexing
import Cypher.Token.Lexed

namespace Cypher

/-! ## Pieces of a text -/

/-- The offset lies between two characters of the text, or at one of its ends. -/
def Text.IsBoundary (source : Text) (offset : Nat) : Prop :=
  ∃ before after, source = before ++ after ∧ offset = before.byteSize

/-- The span can be cut out of the text, and is not empty. -/
structure Span.IsPiece (source : Text) (span : Span) : Prop where
  nonempty : span.start < span.stop
  stop_le : span.stop ≤ source.byteSize
  start : source.IsBoundary span.start
  stop : source.IsBoundary span.stop

/-- The part `text` of `source` stands at the span. -/
def Span.Covers (source : Text) (span : Span) (text : Text) : Prop :=
  ∃ before after, source = before ++ text ++ after ∧
    span = ⟨before.byteSize, before.byteSize + text.byteSize⟩

theorem Span.Covers.isPiece {source text : Text} {span : Span} (h : span.Covers source text)
    (hne : text ≠ []) : span.IsPiece source := by
  obtain ⟨before, after, rfl, rfl⟩ := h
  have hpos : text.byteSize ≠ 0 := fun hzero => hne (Text.byteSize_eq_zero_iff.1 hzero)
  refine ⟨by simp only; omega, by simp, ?_, ?_⟩
  · exact ⟨before, text ++ after, List.append_assoc .., rfl⟩
  · exact ⟨before ++ text, after, rfl, (Text.byteSize_append ..).symm⟩

namespace Text

/-- A character of two texts in a row stands in the first one or in the second one. -/
theorem append_eq_append_cons {s t before rest : Text} {x : Char}
    (h : s ++ t = before ++ x :: rest) :
    (∃ s', s = before ++ x :: s') ∨ ∃ t', before = s ++ t' ∧ t = t' ++ x :: rest := by
  rcases List.append_eq_append_iff.1 h with ⟨t', hbefore, ht⟩ | ⟨s', hs, hx⟩
  · exact Or.inr ⟨t', hbefore, ht⟩
  · cases s' with
    | nil => exact Or.inr ⟨[], by simpa using hs.symm, by simpa using hx.symm⟩
    | cons y s' =>
      cases hx
      exact Or.inl ⟨s', hs⟩

theorem isBlank_of_takeWhile {t before rest : Text} {x : Char}
    (h : t.takeWhile isBlank = before ++ x :: rest) : isBlank x = true := by
  have hall : (t.takeWhile isBlank).all isBlank = true := List.all_takeWhile
  rw [h, List.all_eq_true] at hall
  exact hall x (by simp)

end Text

namespace Cursor

variable {source : Text} {c d after : Cursor} {item : Item} {read following : List Item}

/-! ## Places of a text -/

theorem forward?_append (offset : Nat) (before after : Text) :
    forward? offset (before ++ after) before.byteSize = some ⟨offset + before.byteSize, after⟩ := by
  induction before generalizing offset with
  | nil => rw [List.nil_append, Text.byteSize_nil, forward?]; rfl
  | cons c cs ih =>
    have hpos := c.utf8Size_pos
    obtain ⟨n, hn⟩ : ∃ n, Text.byteSize (c :: cs) = n + 1 :=
      Nat.exists_eq_add_one.2 (by rw [Text.byteSize_cons]; omega)
    have hrest : n + 1 - c.utf8Size = Text.byteSize cs := by rw [← hn, Text.byteSize_cons]; omega
    rw [hn, List.cons_append, forward?, if_pos (by rw [Text.byteSize_cons] at hn; omega), hrest, ih,
      ← hn, Text.byteSize_cons, Nat.add_assoc]

/-- The cursor at the byte offset where a part of the text begins. -/
theorem at?_append (before after : Text) :
    at? (before ++ after) before.byteSize = some ⟨before.byteSize, after⟩ := by
  rw [at?, forward?_append, Nat.zero_add]

/-- The cursor is at a place of the text. -/
def IsIn (source : Text) (c : Cursor) : Prop :=
  ∃ before, source = before ++ c.rest ∧ c.offset = before.byteSize

theorem isIn_start (source : Text) : (start source).IsIn source :=
  ⟨[], rfl, rfl⟩

theorem IsIn.advance {taken rest : Text} (h : c.IsIn source) (hrest : c.rest = taken ++ rest) :
    (c.advance taken rest).IsIn source := by
  obtain ⟨before, hsource, hoffset⟩ := h
  refine ⟨before ++ taken, ?_, ?_⟩
  · rw [hsource, hrest, Cursor.advance, List.append_assoc]
  · rw [Cursor.advance, hoffset, Text.byteSize_append]

theorem IsIn.skipBlanks (h : c.IsIn source) : c.skipBlanks.IsIn source :=
  h.advance (Text.takeWhile_append_dropBlanks c.rest).symm

/-- A place of the text is found again by its offset. -/
theorem IsIn.at?_offset (h : c.IsIn source) : at? source c.offset = some c := by
  obtain ⟨before, rfl, hoffset⟩ := h
  rw [hoffset, at?_append, ← hoffset]

theorem exists_of_forward? {offset bytes : Nat} {rest : Text}
    (h : forward? offset rest bytes = some c) :
    ∃ taken, rest = taken ++ c.rest ∧ c.offset = offset + taken.byteSize := by
  fun_induction forward? offset rest bytes with
  | case1 offset rest =>
    cases h
    exact ⟨[], rfl, rfl⟩
  | case2 offset bytes =>
    cases h
    exact ⟨[], rfl, rfl⟩
  | case3 offset d ds bytes hle ih =>
    obtain ⟨taken, hrest, hoffset⟩ := ih h
    refine ⟨d :: taken, by rw [hrest]; rfl, ?_⟩
    rw [hoffset, Text.byteSize_cons, Nat.add_assoc]
  | case4 => cases h

/-- Every byte offset that has a cursor is a place of the text, and those beyond it are its end. -/
theorem isIn_of_at? {offset : Nat} (h : at? source offset = some c) : c.IsIn source := by
  obtain ⟨before, hsource, hoffset⟩ := exists_of_forward? h
  exact ⟨before, hsource, by rw [hoffset, Nat.zero_add]⟩

/-! ## Reading one item -/

/-- Where no blank stands, the first lexeme is read from there on. -/
theorem next?_of_scan? {place rest : Text} {lexeme : Lexeme}
    (hplace : place.dropBlanks = place) (hscan : Lexeme.scan? place = some (lexeme, rest))
    (offset : Nat) : next? ⟨offset, place⟩ = some
      (⟨lexeme, ⟨offset, offset + lexeme.written.byteSize⟩⟩,
        ⟨offset + lexeme.written.byteSize, rest⟩) := by
  have hskip : skipBlanks ⟨offset, place⟩ = ⟨offset, place⟩ := by
    have hoffset := (skipBlanks_offset_eq_iff ⟨offset, place⟩).2 hplace
    exact congrArg₂ Cursor.mk hoffset hplace
  simp only [next?, hskip, hscan, Option.map_some, Cursor.advance]

theorem scan?_of_next? (h : c.next? = some (item, after)) :
    Lexeme.scan? c.rest.dropBlanks = some (item.lexeme, after.rest) := by
  rw [Reading.next?_eq, Option.map_eq_some_iff] at h
  obtain ⟨⟨lexeme, rest⟩, hscan, heq⟩ := h
  cases heq
  exact hscan

theorem stop_of_next? (h : c.next? = some (item, after)) : item.span.stop = after.offset := by
  rw [(next?_eq_some h).2.2.1]

theorem after_eq_of_next? (h : c.next? = some (item, after)) :
    after = c.skipBlanks.advance item.lexeme.written after.rest := by
  obtain ⟨-, -, -, hoffset⟩ := next?_eq_some h
  cases after
  exact congrArg (Cursor.mk · _) hoffset

/-- Reading an item keeps the cursor in the text. -/
theorem IsIn.next? (h : c.IsIn source) (hnext : c.next? = some (item, after)) :
    after.IsIn source := by
  rw [after_eq_of_next? hnext]
  exact h.skipBlanks.advance (next?_eq_some hnext).1

theorem IsIn.covers_of_next? (h : c.IsIn source) (hnext : c.next? = some (item, after)) :
    item.span.Covers source item.lexeme.written := by
  obtain ⟨before, hsource, hoffset⟩ := h.skipBlanks
  obtain ⟨hrest, -, hspan, hafter⟩ := next?_eq_some hnext
  refine ⟨before, after.rest, ?_, ?_⟩
  · rw [hsource, hrest, List.append_assoc]
  · rw [hspan, hafter, hoffset]

theorem offset_le_of_next? (hnext : c.next? = some (item, after)) :
    c.offset ≤ item.span.start ∧ item.span.start < after.offset := by
  obtain ⟨-, hne, hspan, hafter⟩ := next?_eq_some hnext
  have hpos : item.lexeme.written.byteSize ≠ 0 := fun hzero =>
    hne (Text.byteSize_eq_zero_iff.1 hzero)
  rw [hspan]
  exact ⟨Nat.le_add_right _ _, by simp only; omega⟩

theorem notNext_of_next? (hnext : c.next? = some (item, after)) :
    Text.NotNext Text.isBlank item.lexeme.written := by
  obtain ⟨hrest, -⟩ := next?_eq_some hnext
  have hblank : Text.NotNext Text.isBlank c.skipBlanks.rest := Text.notNext_dropWhile _ c.rest
  rintro x xs hx
  rw [hrest, hx] at hblank
  exact Text.notNext_cons.1 hblank

/-! ## Reading items in a row -/

/-- The items are read one after the other from a cursor, up to another one. -/
inductive Reads : Cursor → List Item → Cursor → Prop
  | done (c : Cursor) : Reads c [] c
  | step {c after d : Cursor} {item : Item} {items : List Item} :
      c.next? = some (item, after) → Reads after items d → Reads c (item :: items) d

theorem IsIn.reads (h : c.IsIn source) (hread : Reads c read d) : d.IsIn source := by
  induction hread with
  | done c => exact h
  | step hnext _ ih => exact ih (h.next? hnext)

theorem Reads.offset_le (h : Reads c read d) : c.offset ≤ d.offset := by
  induction h with
  | done c => exact Nat.le_refl _
  | step hnext _ ih => have := offset_le_of_next? hnext; omega

theorem exists_next?_of_items_eq_cons (h : c.items = item :: following) :
    ∃ after, c.next? = some (item, after) ∧ after.items = following := by
  cases hnext : c.next? with
  | none => rw [items_eq_nil hnext] at h; cases h
  | some found =>
    obtain ⟨item', after⟩ := found
    rw [items_eq_cons hnext] at h
    cases h
    exact ⟨after, rfl, rfl⟩

/-- A beginning of the items is read in a row, and the others follow from there on. -/
theorem exists_reads_of_items (h : c.items = read ++ following) :
    ∃ d, Reads c read d ∧ d.items = following := by
  induction read generalizing c with
  | nil => exact ⟨c, .done c, h⟩
  | cons item read ih =>
    obtain ⟨after, hnext, hafter⟩ := exists_next?_of_items_eq_cons h
    obtain ⟨d, hread, hd⟩ := ih hafter
    exact ⟨d, .step hnext hread, hd⟩

/-- Every item is read from a place that the items before it lead to, and the items after it
    are read from where it ends. -/
theorem exists_next?_of_items (h : c.items = read ++ item :: following) :
    ∃ d after, Reads c read d ∧ d.next? = some (item, after) ∧ after.items = following := by
  obtain ⟨d, hread, hd⟩ := exists_reads_of_items h
  obtain ⟨after, hnext, hafter⟩ := exists_next?_of_items_eq_cons hd
  exact ⟨d, after, hread, hnext, hafter⟩

theorem exists_next?_of_mem_items (h : item ∈ c.items) :
    ∃ read d after, Reads c read d ∧ d.next? = some (item, after) := by
  obtain ⟨read, following, hitems⟩ := List.append_of_mem h
  obtain ⟨d, after, hread, hnext, -⟩ := exists_next?_of_items hitems
  exact ⟨read, d, after, hread, hnext⟩

/-- Every item is read from a place of the text. -/
theorem IsIn.exists_next? (h : c.IsIn source) (hmem : item ∈ c.items) :
    ∃ d after : Cursor, d.IsIn source ∧ d.next? = some (item, after) := by
  obtain ⟨read, d, after, hread, hnext⟩ := exists_next?_of_mem_items hmem
  exact ⟨d, after, h.reads hread, hnext⟩

theorem IsIn.covers_of_mem_items (h : c.IsIn source) (hmem : item ∈ c.items) :
    item.span.Covers source item.lexeme.written := by
  obtain ⟨d, after, hd, hnext⟩ := h.exists_next? hmem
  exact hd.covers_of_next? hnext

theorem IsIn.isPiece_of_mem_items (h : c.IsIn source) (hmem : item ∈ c.items) :
    item.span.IsPiece source := by
  obtain ⟨d, after, hd, hnext⟩ := h.exists_next? hmem
  exact (hd.covers_of_next? hnext).isPiece (next?_eq_some hnext).2.1

/-! ## Order and gaps -/

theorem offset_le_of_mem_items (h : item ∈ c.items) : c.offset ≤ item.span.start := by
  obtain ⟨read, d, after, hread, hnext⟩ := exists_next?_of_mem_items h
  exact Nat.le_trans hread.offset_le (offset_le_of_next? hnext).1

/-- Every item ends before the next ones begin. -/
theorem pairwise_items (c : Cursor) :
    c.items.Pairwise fun item next => item.span.stop ≤ next.span.start := by
  fun_induction items c with
  | case1 c hnext => exact .nil
  | case2 c item after hnext ih =>
    refine .cons (fun next hmem => ?_) ih
    rw [stop_of_next? hnext]
    exact offset_le_of_mem_items hmem

/-- A character that stands in no item is blank. -/
theorem isBlank_of_not_in_items {before rest : Text} {x : Char} (h : c.rest = before ++ x :: rest)
    (hout : ∀ item ∈ c.items, ¬(item.span.start ≤ c.offset + before.byteSize ∧
      c.offset + before.byteSize < item.span.stop)) : Text.isBlank x = true := by
  fun_induction items c generalizing before with
  | case1 c hnext =>
    have hnil : c.rest.dropBlanks = [] :=
      Lexeme.scan?_eq_none_iff.1 (Option.map_eq_none_iff.1 hnext)
    have happend := Text.takeWhile_append_dropBlanks c.rest
    rw [hnil, List.append_nil] at happend
    exact Text.isBlank_of_takeWhile (happend.trans h)
  | case2 c item after hnext ih =>
    obtain ⟨hrest, -, hspan, hoffset⟩ := next?_eq_some hnext
    have hblanks := (Text.takeWhile_append_dropBlanks c.rest).trans h
    rcases Text.append_eq_append_cons hblanks with ⟨s, hs⟩ | ⟨inside, hbefore, hinside⟩
    · exact Text.isBlank_of_takeWhile hs
    -- behind the blanks, the character stands in the item or behind it
    have hstart : c.offset + before.byteSize = c.skipBlanks.offset + inside.byteSize := by
      rw [hbefore, Text.byteSize_append, ← Nat.add_assoc]
      rfl
    rcases Text.append_eq_append_cons (hrest.symm.trans hinside) with
      ⟨s, hs⟩ | ⟨behind, rfl, hbehind⟩
    · have hlt : inside.byteSize < item.lexeme.written.byteSize := by
        have hpos := x.utf8Size_pos
        rw [hs, Text.byteSize_append, Text.byteSize_cons]
        omega
      refine absurd ⟨?_, ?_⟩ (hout item List.mem_cons_self)
      · rw [hspan, hstart]
        exact Nat.le_add_right _ _
      · rw [hspan, hstart, hoffset]
        exact Nat.add_lt_add_left hlt _
    · have hsame : c.offset + before.byteSize = after.offset + behind.byteSize := by
        rw [hstart, hoffset, Text.byteSize_append, Nat.add_assoc]
      refine ih hbehind fun next hmem => ?_
      rw [← hsame]
      exact hout next (List.mem_cons_of_mem _ hmem)

end Cursor

/-! ## Tokens on their own -/

/-- A token is read from its own characters. -/
theorem TokenKind.WellFormed.token?_written {kind : TokenKind} (h : kind.WellFormed) :
    kind.written.token? = some (kind, []) := by
  rw [← List.append_nil kind.written]
  cases kind with
  | symbol s => exact Text.token?_symbol (fun _ => Text.notNext_nil _) fun _ => Text.notNext_nil _
  | number text => exact Text.token?_number h (Text.notNext_nil _)
  | identifier name => exact Text.token?_identifier h (Text.notNext_nil _)
  | quoted text => exact Text.token?_quoted h

/-- A token is the only item of its own characters. -/
theorem TokenKind.WellFormed.tokenize_written {kind : TokenKind} (h : kind.WellFormed) :
    tokenize kind.written = ⟨[⟨kind, ⟨0, kind.written.byteSize⟩⟩], []⟩ := by
  have htoken := h.token?_written
  have hblank : kind.written.dropBlanks = kind.written := by
    rw [Text.dropBlanks_of_token? htoken, List.append_nil]
  have hscan : Lexeme.scan? kind.written = some (.token kind, []) :=
    hblank ▸ Text.token?_eq_some_iff.1 htoken
  rw [tokenize, Cursor.lexed, Cursor.start,
    Cursor.items_eq_cons (Cursor.next?_of_scan? hblank hscan 0), Cursor.items_eq_nil rfl]
  simp [Item.token?, Item.error?, Lexeme.written]

/-! ## The partition -/

/-- The items cut the text into pieces with blanks between them, and reading can be taken up again
    behind every one of them. -/
structure Partitions (source : Text) (items : List Item) : Prop where
  piece : ∀ item ∈ items, item.span.IsPiece source
  ordered : items.Pairwise fun item next =>
    item.span.start < next.span.start ∧ item.span.stop ≤ next.span.start
  /-- What stands at the span of an item are the characters of its lexeme. -/
  covers : ∀ item ∈ items, item.span.Covers source item.lexeme.written
  /-- Only blanks stand outside of the items, ... -/
  isBlank : ∀ before x after, source = before ++ x :: after →
    (∀ item ∈ items, ¬(item.span.start ≤ Text.byteSize before ∧
      Text.byteSize before < item.span.stop)) → Text.isBlank x = true
  /-- ... and none where an item begins. -/
  notNext : ∀ item ∈ items, Text.NotNext Text.isBlank item.lexeme.written
  alone : ∀ item ∈ items, ∀ kind, item.lexeme = .token kind →
    tokenize kind.written = ⟨[⟨kind, ⟨0, kind.written.byteSize⟩⟩], []⟩
  /-- From the offset where an item ends, the items that follow it are read. -/
  resumed : ∀ read item following, items = read ++ item :: following →
    ∃ c, Cursor.at? source item.span.stop = some c ∧ c.items = following

/-- The items of a text cut it into pieces. -/
theorem partitions_items (source : Text) :
    Partitions source (Cursor.start source).items where
  piece item hmem := (Cursor.isIn_start source).isPiece_of_mem_items hmem
  ordered := by
    refine (Cursor.pairwise_items (.start source)).imp_of_mem fun {item next} hmem _ hle =>
      ⟨?_, hle⟩
    have hpiece := (Cursor.isIn_start source).isPiece_of_mem_items hmem
    exact Nat.lt_of_lt_of_le hpiece.nonempty hle
  covers item hmem := (Cursor.isIn_start source).covers_of_mem_items hmem
  isBlank := by
    intro before x after hsource hout
    refine Cursor.isBlank_of_not_in_items (c := .start source) hsource ?_
    simpa [Cursor.start] using hout
  notNext := by
    intro item hmem
    obtain ⟨c, after, -, hnext⟩ := (Cursor.isIn_start source).exists_next? hmem
    exact Cursor.notNext_of_next? hnext
  alone := by
    intro item hmem kind hkind
    obtain ⟨c, after, -, hnext⟩ := (Cursor.isIn_start source).exists_next? hmem
    have hscan := Cursor.scan?_of_next? hnext
    rw [hkind] at hscan
    exact (TokenKind.wellFormed_of_scan? hscan).tokenize_written
  resumed := by
    intro read item following hitems
    obtain ⟨c, after, hread, hnext, hafter⟩ := Cursor.exists_next?_of_items hitems
    have hin := ((Cursor.isIn_start source).reads hread).next? hnext
    exact ⟨after, Cursor.stop_of_next? hnext ▸ hin.at?_offset, hafter⟩

end Cypher
