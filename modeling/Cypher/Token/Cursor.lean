/-
  Cursors — places in a query from which tokens are read.

  A cursor is a byte offset together with the text from there on. Tokens are
  read one at a time, so that a reader may also take raw text from a cursor, or
  go back to an earlier one.

  * `Cursor.next?` skips blanks and reads one item; `next?_eq_some` says where
    the item stands and that the new cursor is strictly further on;
  * `Cursor.items` are all the items from a cursor to the end of the query;
  * `Cursor.at?` is the cursor at a given byte offset.
-/
import Cypher.Token.Scan

namespace Cypher

/-- A place in a query: its byte offset and the text that follows. -/
structure Cursor where
  offset : Nat
  rest : Text
  deriving DecidableEq, Repr

namespace Cursor

/-- The start of a query. -/
def start (source : Text) : Cursor :=
  ⟨0, source⟩

/-- The cursor after `taken`, where `rest` is what follows it. -/
def advance (c : Cursor) (taken rest : Text) : Cursor :=
  ⟨c.offset + taken.byteSize, rest⟩

/-- The cursor at the next character that is not blank. -/
def skipBlanks (c : Cursor) : Cursor :=
  c.advance (c.rest.takeWhile Text.isBlank) c.rest.dropBlanks

/-- The end of the query. -/
def toEnd (c : Cursor) : Cursor :=
  c.advance c.rest []

/-- The next item and the cursor after it; nothing if only blanks are left. -/
def next? (c : Cursor) : Option (Item × Cursor) :=
  let here := c.skipBlanks
  (Lexeme.scan? here.rest).map fun (lexeme, rest) =>
    let after := here.advance lexeme.written rest
    (⟨lexeme, ⟨here.offset, after.offset⟩⟩, after)

/-- Where the next item stands: after the blanks, and up to the new cursor. -/
theorem next?_eq_some {c after : Cursor} {item : Item} (h : c.next? = some (item, after)) :
    c.skipBlanks.rest = item.lexeme.written ++ after.rest ∧ item.lexeme.written ≠ [] ∧
      item.span = ⟨c.skipBlanks.offset, after.offset⟩ ∧
      after.offset = c.skipBlanks.offset + item.lexeme.written.byteSize := by
  simp only [next?, Option.map_eq_some_iff, Prod.exists] at h
  obtain ⟨lexeme, rest, hscan, heq⟩ := h
  simp only [Prod.mk.injEq] at heq
  obtain ⟨rfl, rfl⟩ := heq
  obtain ⟨hrest, hne⟩ := Lexeme.scan?_eq_some hscan
  exact ⟨hrest, hne, rfl, rfl⟩

/-- Reading an item leaves less text to read. -/
theorem length_rest_lt_of_next? {c after : Cursor} {item : Item}
    (h : c.next? = some (item, after)) : after.rest.length < c.rest.length := by
  obtain ⟨hrest, hne, -, -⟩ := next?_eq_some h
  have hle := Text.length_dropBlanks_le c.rest
  have hlen := congrArg List.length hrest
  simp only [skipBlanks, advance, List.length_append] at hlen
  have := List.length_pos_iff.2 hne
  omega

/-- The items from the cursor to the end of the query, in order. -/
def items (c : Cursor) : List Item :=
  match _h : c.next? with
  | none => []
  | some (item, after) => item :: items after
termination_by c.rest.length
decreasing_by exact length_rest_lt_of_next? _h

/-- Reads `count` items; nothing stands for each one beyond the end. -/
def take : (count : Nat) → Cursor → List (Option Item) × Cursor
  | 0, c => ([], c)
  | count + 1, c =>
    match c.next? with
    | none => let (read, last) := take count c; (none :: read, last)
    | some (item, after) => let (read, last) := take count after; (some item :: read, last)

/-- The cursor a number of bytes after `offset`, where `rest` stands. -/
def forward? (offset : Nat) : (rest : Text) → (bytes : Nat) → Option Cursor
  | rest, 0 => some ⟨offset, rest⟩
  | [], _ + 1 => some ⟨offset, []⟩
  | c :: cs, bytes + 1 =>
    if c.utf8Size ≤ bytes + 1 then forward? (offset + c.utf8Size) cs (bytes + 1 - c.utf8Size)
    else none

/-- The cursor at a byte offset of a query: the end for an offset beyond it, and
    none inside a character. -/
def at? (source : Text) (offset : Nat) : Option Cursor :=
  forward? 0 source offset

theorem items_eq_nil {c : Cursor} (h : c.next? = none) : c.items = [] := by
  rw [items]; split <;> simp_all

theorem items_eq_cons {c after : Cursor} {item : Item} (h : c.next? = some (item, after)) :
    c.items = item :: after.items := by
  rw [items]; split <;> simp_all

end Cursor

end Cypher
