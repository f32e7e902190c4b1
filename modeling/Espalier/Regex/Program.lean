import Espalier.Regex.Pattern

/-!
# Programs for patterns

A pattern is run as a program of small instructions, each with the places of those that follow it.
`Program.ofPattern` writes the program of a pattern from its end to its start, so that every
instruction but the one that closes a loop knows its successors when it is written.
-/

namespace Espalier.Regex

/-- An instruction. Places of instructions are numbers. -/
inductive Instr
  | char (c : Char) (next : Nat)
  | set (s : CharSet) (next : Nat)
  /-- Goes on at several places, the first preferred. -/
  | split (next : List Nat)
  | look (l : Look) (next : Nat)
  /-- Notes the place of the subject. -/
  | save (slot next : Nat)
  | accept
  deriving Repr, Inhabited

/-- The program of a pattern. -/
structure Program where
  code : Array Instr
  start : Nat
  /-- How many groups it notes, the whole match being one. -/
  groups : Nat
  deriving Repr, Inhabited

namespace Program

/-- Writes instructions. -/
abbrev Writer := StateM (Array Instr)

/-- Writes an instruction and gives its place. -/
def emit (i : Instr) : Writer Nat := do
  let place := (← get).size
  modify (·.push i)
  return place

/-- Two ways to go on, the first preferred if `greedy`. -/
def either (greedy : Bool) (a b : Nat) : Instr := .split (if greedy then [a, b] else [b, a])

/-- Writes a loop: `body` writes what is repeated, given the place that it goes on at. Gives the
place of the body and that of the instruction that decides on another round. -/
def loop (greedy : Bool) (next : Nat) (body : Nat → Writer Nat) : Writer (Nat × Nat) := do
  let turn ← emit (.split [])
  let first ← body turn
  modify (·.setIfInBounds turn (either greedy first next))
  return (first, turn)

/-- Writes `body` a number of times. -/
def times (body : Nat → Writer Nat) : (count : Nat) → (next : Nat) → Writer Nat
  | 0, next => return next
  | count + 1, next => do times body count (← body next)

/-- Writes `body` up to a number of times, each time inside the one before. -/
def upTo (greedy : Bool) (body : Nat → Writer Nat) (stop : Nat) : (count : Nat) → (next : Nat) →
    Writer Nat
  | 0, next => return next
  | count + 1, next => do
    upTo greedy body stop count (← emit (either greedy (← body next) stop))

/-- Writes a repetition. Where the body can be empty, none of it at all is a choice of its own, made
before the loop. -/
def repeated (least : Nat) (most : Option Nat) (greedy canBeEmpty : Bool) (next : Nat)
    (body : Nat → Writer Nat) : Writer Nat := do
  match least, most with
  | least, some most => times body least (← upTo greedy body next (most - least) next)
  | 0, none =>
    let (first, turn) ← loop greedy next body
    if canBeEmpty then emit (either greedy first next) else return turn
  | least + 1, none => times body least (← loop greedy next body).1

mutual

/-- Writes a pattern that goes on at `next`, and gives the place where it starts. -/
def write (next : Nat) : Pattern → Writer Nat
  | .empty => return next
  | .char c => emit (.char c next)
  | .set s => emit (.set s next)
  | .look l => emit (.look l next)
  | .repetition least most greedy body =>
    repeated least most greedy body.canBeEmpty next fun next => write next body
  | .group index body => do
    emit (.save (2 * index) (← write (← emit (.save (2 * index + 1) next)) body))
  | .concat ps => writeAll next ps
  | .choice ps => do emit (.split (← writeEach next ps))

/-- Writes patterns one after the other. -/
def writeAll (next : Nat) : List Pattern → Writer Nat
  | [] => return next
  | p :: ps => do write (← writeAll next ps) p

/-- Writes patterns that all go on at `next`, and gives the place where each starts. -/
def writeEach (next : Nat) : List Pattern → Writer (List Nat)
  | [] => return []
  | p :: ps => return (← write next p) :: (← writeEach next ps)

end

/-- The program of a pattern. The whole match is noted as group zero. -/
def ofPattern (p : Pattern) : Program :=
  let (start, code) := (do write (← emit .accept) (.group 0 p) : Writer Nat).run #[]
  ⟨code, start, p.groupCount⟩

end Program

/-! ### Sizes -/

namespace Pattern

/-- How many bytes an instruction takes up. -/
def instrSize : Nat := 32

/-- How many bytes more a way to go on takes up. -/
def targetSize : Nat := 4

/-- How many bytes more a range of a set takes up. -/
def rangeSize : Nat := 8

/-- How many bytes more a group takes up. -/
def groupSize : Nat := 16

mutual

/-- How many bytes the program of a pattern takes up, where every choice, loop and repetition ends
in an instruction of its own. -/
def size : Pattern → Nat
  | .empty | .char _ | .look _ => instrSize
  | .set s => instrSize + rangeSize * s.ranges.length
  | .repetition least most _ body =>
    let n := body.size
    let fork := instrSize + 2 * targetSize
    match least, most with
    | 0, none => if body.canBeEmpty then n + 2 * fork + instrSize else n + fork
    | least, none => least * n + fork
    | 0, some 1 => n + fork + instrSize
    | least, some most =>
      (if least = 0 then instrSize else least * n) +
        (if most = least then 0 else instrSize + (most - least) * (n + fork))
  | .group _ body => body.size + 2 * instrSize + groupSize
  | .concat ps => sizeOfAll ps
  | .choice ps => sizeOfAll ps + 2 * instrSize + targetSize * ps.length

def sizeOfAll : List Pattern → Nat
  | [] => 0
  | p :: ps => p.size + sizeOfAll ps

end

/-- The size of the largest program that is run. -/
def maxSize : Nat := 10 * Nat.pow 2 20

end Pattern

end Espalier.Regex
