import Espalier.Regex.Program
import Espalier.Regex.Read
import Espalier.Text.Match

/-!
# Searching

A program is run on all ways through the pattern at once: `Threads` holds, in order of preference,
the instructions that are reached at a place of the subject, each with the places noted on the way
to it. Of two ways that reach the same instruction at the same place, only the preferred one goes
on, so a search takes no more steps than there are instructions for every character.

Places in the subject count characters.
-/

namespace Espalier.Regex

open Text (Match)

/-- A way through a program. -/
structure Thread where
  place : Nat
  slots : Array (Option Nat)
  deriving Repr, Inhabited

/-- The ways that reach a place of the subject, in order of preference, and the instructions that
have been reached there. -/
structure Threads where
  reached : Array Bool
  /-- The ways whose next instruction reads a character or accepts, the least preferred first. -/
  waiting : List Thread
  deriving Repr, Inhabited

namespace Threads

/-- No way at all through a program of the given size. -/
def none (size : Nat) : Threads := ⟨Array.replicate size false, []⟩

/-- Follows the ways on a stack until each reads a character or accepts. Every instruction is
followed once. -/
def follow (code : Array Instr) (here : Surroundings) (pos : Nat) :
    (fuel : Nat) → List Thread → Threads → Threads
  | 0, _, ts => ts
  | _ + 1, [], ts => ts
  | fuel + 1, t :: stack, ts =>
    if ts.reached.getD t.place true then follow code here pos fuel stack ts
    else
      let ts := { ts with reached := ts.reached.setIfInBounds t.place true }
      match code[t.place]? with
      | some (.split next) =>
        follow code here pos fuel (next.map (fun n => { t with place := n }) ++ stack) ts
      | some (.look l next) =>
        if l.holds here then follow code here pos fuel ({ t with place := next } :: stack) ts
        else follow code here pos fuel stack ts
      | some (.save slot next) =>
        follow code here pos fuel (⟨next, t.slots.setIfInBounds slot (some pos)⟩ :: stack) ts
      | some _ => follow code here pos fuel stack { ts with waiting := t :: ts.waiting }
      | Option.none => follow code here pos fuel stack ts

end Threads

namespace Instr

/-- How many ways lead on from an instruction. -/
def ways : Instr → Nat
  | split next => next.length
  | accept => 0
  | _ => 1

end Instr

/-- A regular expression that can be searched for. -/
structure Matcher where
  program : Program
  /-- A bound on the steps between two characters. -/
  fuel : Nat
  deriving Repr, Inhabited

namespace Matcher

/-- The matcher of a pattern. -/
def ofPattern (p : Pattern) : Matcher :=
  let program := Program.ofPattern p
  ⟨program, program.code.foldl (fun n i => n + i.ways + 1) 2⟩

/-- Reads a regular expression. -/
def read (flags : Flags) (source : List Char) : Except Error Matcher := do
  let p ← Pattern.read flags source
  -- the whole match is a group, and the end of the program an instruction
  if Pattern.maxSize < (Pattern.group 0 p).size + Pattern.instrSize then throw .tooLarge
  return ofPattern p

/-- Adds a way to those that reach a place. -/
def reach (m : Matcher) (here : Surroundings) (pos : Nat) (t : Thread) (ts : Threads) : Threads :=
  ts.follow m.program.code here pos m.fuel [t]

/-- Lets the ways read the character `c`, in order of preference, up to the first that accepts.
Gives the ways that go on and the places noted by the one that accepts. -/
def advance (m : Matcher) (c : Option Char) (after : Option Char) (pos : Nat) :
    List Thread → Threads → Threads × Option (Array (Option Nat))
  | [], next => (next, none)
  | t :: ts, next =>
    let goOn (place : Nat) : Threads := m.reach ⟨c, after⟩ (pos + 1) { t with place } next
    match m.program.code[t.place]?, c with
    | some .accept, _ => (next, some t.slots)
    | some (.char d place), some c =>
      m.advance (some c) after pos ts (if c == d then goOn place else next)
    | some (.set s place), some c =>
      m.advance (some c) after pos ts (if s.contains c then goOn place else next)
    | _, _ => m.advance c after pos ts next

/-- The places noted by the preferred way through the subject, of those that start first. `found` is
what the preferred way so far has noted. -/
def run (m : Matcher) (before : Option Char) (pos : Nat) (current : Threads)
    (found : Option (Array (Option Nat))) : (rest : List Char) → Option (Array (Option Nat))
  | [] =>
    let current := if found.isNone then start none current else current
    (m.advance none none pos current.waiting.reverse (.none 0)).2 <|> found
  | c :: rest =>
    if found.isSome && current.waiting.isEmpty then found
    else
      let current := if found.isNone then start (some c) current else current
      let (next, accepted) := m.advance (some c) rest.head? pos current.waiting.reverse
        (.none m.program.code.size)
      m.run (some c) (pos + 1) next (accepted <|> found) rest
where
  /-- Lets a match start here too, less preferred than one that started before. -/
  start (after : Option Char) (ts : Threads) : Threads :=
    m.reach ⟨before, after⟩ pos ⟨m.program.start, Array.replicate (2 * m.program.groups) none⟩ ts

end Matcher

/-- A place of the subject, with what is left of it. -/
structure Place where
  before : Option Char
  pos : Nat
  rest : List Char
  deriving Repr, Inhabited

namespace Place

/-- The start of a subject. -/
def ofSubject (subject : List Char) : Place := ⟨none, 0, subject⟩

/-- The place `n` characters on. -/
def advance (p : Place) : (n : Nat) → Place
  | 0 => p
  | n + 1 =>
    match p with
    | ⟨_, pos, c :: rest⟩ => advance ⟨some c, pos + 1, rest⟩ n
    | ⟨before, pos, []⟩ => ⟨before, pos, []⟩

end Place

/-- The match that places were noted for. -/
def matchOfSlots? (slots : Array (Option Nat)) : Option Match := do
  let pair (i : Nat) : Option (Nat × Nat) := do
    return ((← (← slots[2 * i]?)), (← (← slots[2 * i + 1]?)))
  let (start, stop) ← pair 0
  return ⟨start, stop, (List.range (slots.size / 2 - 1)).map fun i => pair (i + 1)⟩

namespace Matcher

/-- The first match at or after a place. -/
def find? (m : Matcher) (p : Place) : Option Match :=
  (m.run p.before p.pos (.none m.program.code.size) none p.rest).bind matchOfSlots?

end Matcher

/-! ### Where matches lie

Whatever a search notes are places between the one where it starts and the end of the subject.
-/

/-- All places that have been noted lie between two others. -/
def IsNotedWithin (lo hi : Nat) (slots : Array (Option Nat)) : Prop :=
  ∀ n, some n ∈ slots → lo ≤ n ∧ n ≤ hi

/-- All places that have been noted on some ways lie between two others. -/
def AreNotedWithin (lo hi : Nat) (ts : List Thread) : Prop :=
  ∀ t ∈ ts, IsNotedWithin lo hi t.slots

section

variable {lo hi pos : Nat} {slots : Array (Option Nat)} {ts : List Thread}

theorem isNotedWithin_replicate (n : Nat) : IsNotedWithin lo hi (Array.replicate n none) := by
  intro k hk
  cases (Array.mem_replicate.mp hk).2

theorem IsNotedWithin.setIfInBounds (h : IsNotedWithin lo hi slots) (slot : Nat)
    (hpos : lo ≤ pos ∧ pos ≤ hi) :
    IsNotedWithin lo hi (slots.setIfInBounds slot (some pos)) := by
  intro n hn
  rcases Array.mem_or_eq_of_mem_setIfInBounds hn with hmem | heq
  · exact h n hmem
  · cases heq
    exact hpos

theorem isNotedWithin_orElse {a? b? : Option (Array (Option Nat))}
    (hb : ∀ slots ∈ b?, IsNotedWithin lo hi slots) (ha : ∀ slots ∈ a?, IsNotedWithin lo hi slots) :
    ∀ slots ∈ (a? <|> b?), IsNotedWithin lo hi slots := by
  cases a? with
  | none => exact hb
  | some _ => exact ha

/-- Following ways notes the place where that is done, and no other. -/
theorem Threads.areNotedWithin_follow (code : Array Instr) (here : Surroundings)
    (hpos : lo ≤ pos ∧ pos ≤ hi) (fuel : Nat) (stack : List Thread) (ts : Threads)
    (hstack : AreNotedWithin lo hi stack) (hts : AreNotedWithin lo hi ts.waiting) :
    AreNotedWithin lo hi (ts.follow code here pos fuel stack).waiting := by
  induction fuel generalizing stack ts with
  | zero => exact hts
  | succ fuel ih =>
    cases stack with
    | nil => exact hts
    | cons t stack =>
      obtain ⟨ht, hstack⟩ := List.forall_mem_cons.mp hstack
      unfold follow
      split
      · exact ih stack ts hstack hts
      · dsimp only
        split
        · next next _ =>
          refine ih _ _ (List.forall_mem_append.mpr ⟨fun u hu => ?_, hstack⟩) hts
          obtain ⟨n, -, rfl⟩ := List.mem_map.mp hu
          exact ht
        · split
          · exact ih _ _ (List.forall_mem_cons.mpr ⟨ht, hstack⟩) hts
          · exact ih _ _ hstack hts
        · next slot next _ =>
          exact ih _ _ (List.forall_mem_cons.mpr ⟨ht.setIfInBounds slot hpos, hstack⟩) hts
        · exact ih _ _ hstack (List.forall_mem_cons.mpr ⟨ht, hts⟩)
        · exact ih _ _ hstack hts

namespace Matcher

variable (m : Matcher)

/-- Reading a character leads the ways to the place behind it. -/
theorem areNotedWithin_advance (c after : Option Char) (hts : AreNotedWithin lo hi ts)
    (next : Threads) (hnext : AreNotedWithin lo hi next.waiting)
    (hpos : c ≠ none → lo ≤ pos + 1 ∧ pos + 1 ≤ hi) :
    AreNotedWithin lo hi (m.advance c after pos ts next).1.waiting ∧
      ∀ slots ∈ (m.advance c after pos ts next).2, IsNotedWithin lo hi slots := by
  induction ts generalizing next with
  | nil => exact ⟨hnext, nofun⟩
  | cons t ts ih =>
    obtain ⟨ht, hts⟩ := List.forall_mem_cons.mp hts
    -- what a way becomes that has read the character
    have hgoes (hc : c ≠ none) (place : Nat) :
        AreNotedWithin lo hi
          (m.reach ⟨c, after⟩ (pos + 1) { t with place } next).waiting :=
      next.areNotedWithin_follow _ _ (hpos hc) _ _ (List.forall_mem_singleton.mpr ht) hnext
    unfold advance
    dsimp only
    split
    · exact ⟨hnext, fun slots hslots => Option.some.inj hslots ▸ ht⟩
    · refine ih hts _ ?_
      split
      · exact hgoes nofun _
      · exact hnext
    · refine ih hts _ ?_
      split
      · exact hgoes nofun _
      · exact hnext
    · exact ih hts next hnext

/-- Where a match may start as well, the place is noted. -/
theorem areNotedWithin_start (before after : Option Char) {current : Threads} (isFree : Bool)
    (hpos : lo ≤ pos ∧ pos ≤ hi) (hcurrent : AreNotedWithin lo hi current.waiting) :
    AreNotedWithin lo hi
      (if isFree then run.start m before pos after current else current).waiting.reverse := by
  intro t ht
  rw [List.mem_reverse] at ht
  cases isFree with
  | false => exact hcurrent t ht
  | true =>
    exact current.areNotedWithin_follow _ _ hpos _ _
      (List.forall_mem_singleton.mpr (isNotedWithin_replicate _)) hcurrent t ht

/-- What a search notes lies between the place where it starts and the end of the subject. -/
theorem isNotedWithin_run {before : Option Char} {current : Threads}
    {found : Option (Array (Option Nat))} {rest : List Char} (hlo : lo ≤ pos)
    (hhi : pos + rest.length = hi) (hcurrent : AreNotedWithin lo hi current.waiting)
    (hfound : ∀ slots ∈ found, IsNotedWithin lo hi slots) :
    ∀ slots ∈ m.run before pos current found rest, IsNotedWithin lo hi slots := by
  induction rest generalizing before pos current found with
  | nil =>
    have hwaiting :=
      m.areNotedWithin_start before none found.isNone ⟨hlo, Nat.le.intro hhi⟩ hcurrent
    exact isNotedWithin_orElse hfound
      (m.areNotedWithin_advance none none hwaiting (.none 0) (List.forall_mem_nil _) (absurd rfl)).2
  | cons c rest ih =>
    rw [List.length_cons] at hhi
    unfold run
    split
    · exact hfound
    · have hwaiting := m.areNotedWithin_start before (some c) found.isNone
        ⟨hlo, Nat.le.intro hhi⟩ hcurrent
      have hnext : lo ≤ pos + 1 ∧ pos + 1 ≤ hi := by omega
      obtain ⟨hwaits, haccepts⟩ := m.areNotedWithin_advance (some c) rest.head? hwaiting
        (.none m.program.code.size) (List.forall_mem_nil _) fun _ => hnext
      exact ih hnext.1 (by omega) hwaits (isNotedWithin_orElse hfound haccepts)

end Matcher

end

/-- What is noted of a match are places that have been noted. -/
theorem mem_of_matchOfSlots? {slots : Array (Option Nat)} {found : Match}
    (h : matchOfSlots? slots = some found) :
    some found.start ∈ slots ∧ some found.stop ∈ slots := by
  unfold matchOfSlots? at h
  obtain ⟨⟨start, stop⟩, hpair, hfound⟩ := Option.bind_eq_some_iff.mp h
  obtain ⟨a?, ha, hrest⟩ := Option.bind_eq_some_iff.mp hpair
  obtain ⟨a, ha', hrest⟩ := Option.bind_eq_some_iff.mp hrest
  obtain ⟨b?, hb, hrest⟩ := Option.bind_eq_some_iff.mp hrest
  obtain ⟨b, hb', hrest⟩ := Option.bind_eq_some_iff.mp hrest
  cases hrest
  cases hfound
  exact ⟨Array.mem_of_getElem? (ha' ▸ ha), Array.mem_of_getElem? (hb' ▸ hb)⟩

/-! ### Searchers -/

/-- A regular expression as those see it who search for it: a way to find the first match at or
after a place. -/
structure Searcher where
  find? : Place → Option Match
  /-- A match lies between the place and the end of the subject. -/
  find?_within : ∀ {p : Place} {found : Match}, find? p = some found →
    (p.pos ≤ found.start ∧ found.start ≤ p.pos + p.rest.length) ∧
      p.pos ≤ found.stop ∧ found.stop ≤ p.pos + p.rest.length

instance : Inhabited Searcher := ⟨fun _ => none, nofun⟩

/-- Searches by running the program of a pattern. -/
def Matcher.searcher (m : Matcher) : Searcher where
  find? := m.find?
  find?_within := by
    intro p found h
    obtain ⟨slots, hslots, hfound⟩ := Option.bind_eq_some_iff.mp h
    have hnoted : IsNotedWithin p.pos (p.pos + p.rest.length) slots := by
      refine m.isNotedWithin_run (Nat.le_refl p.pos) rfl ?_ ?_ slots hslots
      · exact List.forall_mem_nil _
      · exact fun _ h => nomatch h
    obtain ⟨hstart, hstop⟩ := mem_of_matchOfSlots? hfound
    exact ⟨hnoted _ hstart, hnoted _ hstop⟩

namespace Searcher

/-- The matches from a place on, none of which overlaps the one before. An empty match does not
stand directly after another one. -/
def findAllWithin (r : Searcher) (lastStop : Option Nat) (p : Place) : (fuel : Nat) → List Match
  | 0 => []
  | fuel + 1 =>
    match r.find? p with
    | none => []
    | some found =>
      let goOn (p : Place) (found : Match) : List Match :=
        found :: r.findAllWithin (some found.stop) (p.advance (found.stop - p.pos)) fuel
      if found.start == found.stop && lastStop == some found.stop then
        if p.rest.isEmpty then []
        else
          let p := p.advance 1
          match r.find? p with
          | none => []
          | some found => goOn p found
      else goOn p found

/-- All matches in a subject, none of which overlaps the one before. -/
def findAll (r : Searcher) (subject : List Char) : List Match :=
  r.findAllWithin none (.ofSubject subject) (subject.length + 2)

end Searcher

end Espalier.Regex
