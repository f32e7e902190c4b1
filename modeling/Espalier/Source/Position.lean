/-!
# Places in a source

A cursor tells how far a source has been read. A span is a pair of byte offsets, the second one
excluded. Lines and columns count from one, columns in characters, and a range names its first and
its last character, as an editor decorates them.

Offsets, lines and columns are numbers here, which a syntax tree and a table of lines keep in words
of thirty-two bits. The two agree as long as the places of a source fit in such words. This is what
`IsAddressable` asks of a source: what depends on the places themselves is said of addressable
sources, together with the fact that the places it names are stored unchanged (`IsStored`).
-/

namespace Espalier

/-- A place in a source: how many bytes lie before it and the characters after it. -/
structure Cursor where
  pos : Nat
  rest : List Char
  deriving Repr, Inhabited

namespace Cursor

/-- The place before the first character. -/
def ofSource (source : String) : Cursor := ⟨0, source.toList⟩

/-- The place one character on, or one byte on where no character is left. -/
def step (c : Cursor) : Cursor :=
  match c.rest with
  | [] => ⟨c.pos + 1, []⟩
  | d :: ds => ⟨c.pos + d.utf8Size, ds⟩

end Cursor

/-- The sources of which all places fit in words of thirty-two bits. The one byte to spare is that
of the column behind the last character, which is one more than the bytes of a line can be. -/
def IsAddressable (source : String) : Prop := source.utf8ByteSize + 1 < UInt32.size

instance (source : String) : Decidable (IsAddressable source) :=
  inferInstanceAs (Decidable (source.utf8ByteSize + 1 < UInt32.size))

/-- The bytes from `start` up to `stop`, which is not included. Both ends are kept in words of
thirty-two bits, which leaves them as they are in addressable sources (`Span.IsStored`). -/
structure Span where
  start : Nat
  stop : Nat
  deriving DecidableEq, Repr, Inhabited, Hashable

namespace Span

/-- The span of no byte at `offset`. -/
def empty (offset : Nat) : Span := ⟨offset, offset⟩

/-- Both ends are the same in words of thirty-two bits. -/
def IsStored (s : Span) : Prop := s.start < UInt32.size ∧ s.stop < UInt32.size

/-- The number of bytes, modulo the size of a word: where the ends stand in the wrong order, it
wraps. -/
def length (s : Span) : Nat := (s.stop + Nat.pow 2 32 - s.start) % Nat.pow 2 32

def isEmpty (s : Span) : Bool := s.start == s.stop

/-- The least span that covers both. -/
def merge (s t : Span) : Span := ⟨min s.start t.start, max s.stop t.stop⟩

/-- Whether `t` lies inside `s`. -/
def encloses (s t : Span) : Bool := s.start ≤ t.start && t.stop ≤ s.stop

theorem encloses_iff {s t : Span} : s.encloses t ↔ s.start ≤ t.start ∧ t.stop ≤ s.stop := by
  simp [encloses]

/-- A span that is no later than the end of an addressable source is stored as it is. -/
theorem isStored_of_le {source : String} (hsmall : IsAddressable source) {s : Span}
    (hle : s.start ≤ s.stop) (hstop : s.stop ≤ source.utf8ByteSize) : s.IsStored := by
  unfold IsAddressable at hsmall
  exact ⟨by omega, by omega⟩

end Span

/-- A line and a column, both counted from one and kept in words of thirty-two bits. -/
structure Position where
  line : Nat
  column : Nat
  deriving DecidableEq, Repr, Inhabited

namespace Position

/-- Line and column are the same in words of thirty-two bits. -/
def IsStored (p : Position) : Prop := p.line < UInt32.size ∧ p.column < UInt32.size

/-- Reading order: by line, then by column. -/
def le (p q : Position) : Bool := p.line < q.line || (p.line == q.line && p.column ≤ q.column)

/-- The text `line:column`. -/
def text (p : Position) : String := s!"{p.line}:{p.column}"

end Position

/-- The characters from `first` to `last`, both included. -/
structure SourceRange where
  first : Position
  last : Position
  deriving DecidableEq, Repr, Inhabited

namespace SourceRange

/-- Both positions are the same in words of thirty-two bits. -/
def IsStored (r : SourceRange) : Prop := r.first.IsStored ∧ r.last.IsStored

/-- Whether `s` lies within `r`. -/
def contains (r s : SourceRange) : Bool := r.first.le s.first && s.last.le r.last

/-- The text `line:column-line:column`. -/
def text (r : SourceRange) : String := r.first.text ++ "-" ++ r.last.text

end SourceRange

end Espalier
