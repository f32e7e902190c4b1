import Espalier.Script.Machine

/-!
# Regular expressions in scripts

How the flags of a regular expression are read, and how tests of one that looks for all matches go
on from where the one before ended.
-/

namespace Espalier.Script

/-- Reads a regular expression. The flags `i`, `m` and `s` change what it matches; `g`, `u`, `y` and
`d` are allowed. -/
def readRegex (engines : Engines) (source flags : String) :
    Except RegexFault Regex.Searcher := do
  let cs := flags.toList
  let changes (c : Char) : Bool := c == 'i' || c == 'm' || c == 's'
  let isAllowed (c : Char) : Bool := changes c || c == 'g' || c == 'u' || c == 'y' || c == 'd'
  match cs.find? fun c => !isAllowed c with
  | some c => throw (.flag c)
  | none =>
    let inline := cs.filter changes
    let pattern :=
      if inline.isEmpty then source.toList
      else ['(', '?'] ++ inline ++ ')' :: source.toList
    (engines.readRegex pattern).mapError (.pattern source)

/-- A new regular expression. -/
def newRegex (source flags : String) : Script Value := do
  match readRegex (← get).engines source flags with
  | .error fault => raise (.regex fault)
  | .ok searcher =>
    modifyGet fun m =>
      (.regex ⟨⟨m.lastIndices.size⟩, source, flags, searcher⟩,
        { m with lastIndices := m.lastIndices.push 0 })

/-- Where the next test of a regular expression starts, in bytes. -/
def lastIndex (r : RegexValue) : Script Nat := return (← get).lastIndices.getD r.id.place 0

def setLastIndex (r : RegexValue) (n : Nat) : Script Unit :=
  modify fun m => { m with lastIndices := m.lastIndices.setIfInBounds r.id.place n }

/-- The place `n` bytes on, if a character ends there or the text starts there. -/
def placeAtByte? (n : Nat) (p : Regex.Place) : Option Regex.Place :=
  go p.rest p.before p.pos n
where
  go : List Char → Option Char → Nat → Nat → Option Regex.Place
    | cs, before, pos, 0 => some ⟨before, pos, cs⟩
    | [], _, _, _ + 1 => none
    | c :: cs, _, pos, n + 1 =>
      if n + 1 < c.utf8Size then none else go cs (some c) (pos + 1) (n + 1 - c.utf8Size)

/-- Whether a regular expression matches a text. One that looks for all matches starts where the
last test found one, and from the start again after a test that found none. -/
def RegexValue.test (r : RegexValue) (subject : String) : Script Bool := do
  let start : Regex.Place := .ofSubject subject.toList
  if !r.isGlobal then return (r.searcher.find? start).isSome
  else
    match (placeAtByte? (← lastIndex r) start).bind r.searcher.find? with
    | some found =>
      setLastIndex r (Text.bytesFrom 0 (subject.toList.take found.stop))
      return true
    | none =>
      setLastIndex r 0
      return false

end Espalier.Script
