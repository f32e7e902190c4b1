import Espalier.Text.Digit

/-!
# Sets of characters in patterns

A set is a list of ranges of code points, in ascending order and with gaps between them
(`CharSet.ofRanges` brings any ranges into that form), so that its complement can be read off.
-/

namespace Espalier.Regex

/-- The code points from `first` to `last`. -/
structure CharRange where
  first : Nat
  last : Nat
  deriving DecidableEq, Repr, Inhabited

/-- A set of characters. -/
structure CharSet where
  ranges : List CharRange
  deriving DecidableEq, Repr, Inhabited

namespace CharSet

/-- The greatest code point. -/
def maxCode : Nat := 0x10FFFF

/-- Joins ascending ranges that meet or overlap, `r` being the one in front. -/
def joinFrom (r : CharRange) : List CharRange → List CharRange
  | [] => [r]
  | s :: rs =>
    if s.first ≤ r.last + 1 then joinFrom ⟨r.first, max r.last s.last⟩ rs else r :: joinFrom s rs

/-- The union of ranges. -/
def ofRanges (rs : List CharRange) : CharSet :=
  match rs.mergeSort fun r s => r.first < s.first || (r.first == s.first && r.last ≤ s.last) with
  | [] => ⟨[]⟩
  | r :: rs => ⟨joinFrom r rs⟩

/-- The code points from `least` on that lie in none of the ranges. -/
def gapsFrom (least : Nat) : List CharRange → List CharRange
  | [] => if least ≤ maxCode then [⟨least, maxCode⟩] else []
  | r :: rs => if least < r.first then ⟨least, r.first - 1⟩ :: gapsFrom (r.last + 1) rs
    else gapsFrom (r.last + 1) rs

/-- All other characters. -/
def complement (s : CharSet) : CharSet := ⟨gapsFrom 0 s.ranges⟩

def contains (s : CharSet) (c : Char) : Bool :=
  s.ranges.any fun r => r.first ≤ c.toNat && c.toNat ≤ r.last

/-- The range of all characters from `a` to `b`. -/
def span (a b : Char) : CharRange := ⟨a.toNat, b.toNat⟩

/-- The part of a range that lies among `low`, …, `high`, if any. -/
def clip? (low high : Char) (r : CharRange) : Option CharRange :=
  let first := max r.first low.toNat
  let last := min r.last high.toNat
  if first ≤ last then some ⟨first, last⟩ else none

/-- The letters of the other case: those of the small letters of a range or, where it has none,
those of its capital letters. Only the letters of ASCII have another case here. -/
def otherCase? (r : CharRange) : Option CharRange :=
  match clip? 'a' 'z' r with
  | some s => some ⟨s.first - 32, s.last - 32⟩
  | none => (clip? 'A' 'Z' r).map fun s => ⟨s.first + 32, s.last + 32⟩

/-- The set with the letters of the other case. -/
def foldCase (s : CharSet) : CharSet := ofRanges (s.ranges ++ s.ranges.filterMap otherCase?)

/-- The ranges of a named class. -/
def named? : String → Option (List CharRange)
  | "alnum" => some [span '0' '9', span 'A' 'Z', span 'a' 'z']
  | "alpha" => some [span 'A' 'Z', span 'a' 'z']
  | "ascii" => some [span '\x00' '\x7f']
  | "blank" => some [span '\t' '\t', span ' ' ' ']
  | "cntrl" => some [span '\x00' '\x1f', span '\x7f' '\x7f']
  | "digit" => some [span '0' '9']
  | "graph" => some [span '!' '~']
  | "lower" => some [span 'a' 'z']
  | "print" => some [span ' ' '~']
  | "punct" => some [span '!' '/', span ':' '@', span '[' '\x60', span '\x7b' '~']
  | "space" => some [span '\t' '\r', span ' ' ' ']
  | "upper" => some [span 'A' 'Z']
  | "word" => some [span '0' '9', span 'A' 'Z', span '_' '_', span 'a' 'z']
  | "xdigit" => some [span '0' '9', span 'A' 'F', span 'a' 'f']
  | _ => none

def digits : CharSet := ofRanges [span '0' '9']

def spaces : CharSet := ofRanges [span '\t' '\r', span ' ' ' ']

/-- Letters, digits and the underscore, of ASCII. -/
def wordChars : CharSet := ofRanges [span '0' '9', span 'A' 'Z', span '_' '_', span 'a' 'z']

/-- All characters but line feeds or, if `crlf`, but line feeds and carriage returns. -/
def notNewline (crlf : Bool) : CharSet :=
  (ofRanges (span '\n' '\n' :: if crlf then [span '\r' '\r'] else [])).complement

/-- All characters. -/
def all : CharSet := ⟨[⟨0, maxCode⟩]⟩

end CharSet

end Espalier.Regex
