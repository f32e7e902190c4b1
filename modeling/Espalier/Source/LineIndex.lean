import Espalier.Source.Position
import Espalier.Text.Bytes

/-!
# Offsets and positions

`LineIndex` cuts a source into lines, each ended by a line feed, and converts byte offsets into
positions and back. An offset has a position when it lies on the border of a character; a position
past the end of its line stands for the end of the line.
-/

namespace Espalier

open Text

/-- A line with the offset of its first byte; the line feed that ends it is one of its
characters. -/
structure Line where
  start : Nat
  chars : List Char
  deriving Repr, Inhabited

namespace Line

/-- The lines of `cs`, of which the first starts at `start`. `seen` holds, last first, what the
first line has in front of `cs`. -/
def split (start : Nat) (seen : List Char) : List Char → List Line
  | [] => [⟨start, seen.reverse⟩]
  | c :: cs =>
    if c = '\n' then
      let chars := (c :: seen).reverse
      ⟨start, chars⟩ :: split (start + bytes chars) [] cs
    else split start (c :: seen) cs

/-- The number of characters among `cs` that fill exactly `n` bytes. -/
def charsIn? : List Char → Nat → Option Nat
  | _, 0 => some 0
  | [], _ + 1 => none
  | c :: cs, n + 1 =>
    if n + 1 < c.utf8Size then none else (charsIn? cs (n + 1 - c.utf8Size)).map (· + 1)

end Line

/-- A source with its lines, of which there is always one. The starts of lines are kept in words of
thirty-two bits, and so are the offsets that are looked up in them; `LineIndex.IsStored` tells when
this makes no difference. -/
structure LineIndex where
  lines : List Line
  length : Nat
  deriving Inhabited

namespace LineIndex

/-- The starts of all lines, and the end of the source, are the same in words of thirty-two bits. -/
def IsStored (index : LineIndex) : Prop :=
  index.length < UInt32.size ∧ ∀ line ∈ index.lines, line.start < UInt32.size

def ofSource (source : String) : LineIndex :=
  ⟨Line.split 0 [] source.toList, source.utf8ByteSize⟩

def lineCount (index : LineIndex) : Nat := index.lines.length

/-- The last of `lines` that starts at or before `offset`, with its number; `n` is the number of
the first one. -/
def lineAt? (offset : Nat) : Nat → List Line → Option (Nat × Line)
  | _, [] => none
  | n, line :: lines =>
    if line.start ≤ offset then (lineAt? offset (n + 1) lines).or (some (n, line)) else none

/-- The position of an offset, if it lies on the border of a character of the source. -/
def position? (index : LineIndex) (offset : Nat) : Option Position := do
  let (n, line) ← lineAt? offset 1 index.lines
  let column ← Line.charsIn? line.chars (offset - line.start)
  return ⟨n, column + 1⟩

/-- The position of the character that ends at `offset`, which is not zero. -/
def positionBefore? (index : LineIndex) (offset : Nat) : Option Position := do
  let (n, line) ← lineAt? (offset - 1) 1 index.lines
  let column ← Line.charsIn? line.chars (offset - line.start)
  return ⟨n, column⟩

/-- The range of a span, if both its ends lie on borders of characters and in the right order. The
range of an empty span starts and ends where the span does. -/
def range? (index : LineIndex) (span : Span) : Option SourceRange :=
  if span.stop < span.start then none
  else do
    let first ← index.position? span.start
    let last ← if span.isEmpty then some first else index.positionBefore? span.stop
    return ⟨first, last⟩

/-- The offset of a position. Line and column zero count as one; a column past the end of its line
stands for the end of the line, and a line past the last one for the end of the source. -/
def offset (index : LineIndex) (p : Position) : Nat :=
  match index.lines[p.line - 1]? with
  | none => index.length
  | some line => line.start + bytes ((line.chars.takeWhile (· ≠ '\n')).take (p.column - 1))

end LineIndex

end Espalier
