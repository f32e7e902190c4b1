import Espalier.Script.Index
import Espalier.Script.Operator
import Espalier.Script.RegexValue
import Espalier.Text.CaseMap
import Espalier.Text.Match

/-!
# Methods of texts

Places in texts count characters. `callString` carries out a method; `replacing` puts other texts in
place of matches and may call functions of the script to get them.
-/

namespace Espalier.Script

/-- How a function is called: the function, its receiver and its arguments. -/
abbrev Caller := Value → Value → Array Value → Script Value

namespace Args

/-- An argument. -/
def item (args : Array Value) (i : Nat) : Value := args.getD i .undefined

/-- The text of an argument. -/
def text (args : Array Value) (i : Nat) : Script String := toText (item args i)

/-- An argument that is a place, found by `place`, or else the place `missing`. -/
def place (args : Array Value) (i : Nat) (missing : Nat) (place : Float → Nat) : Script Nat := do
  match item args i with
  | .undefined => return missing
  | v => return place (← toNumber v)

/-- The items that two arguments delimit, both of which may count from the end. -/
def range (args : Array Value) (length : Nat) : Script (Nat × Nat) := do
  let start ← place args 0 0 (relativeIndex length)
  let stop ← place args 1 length (relativeIndex length)
  return (start, stop)

end Args

def Value.ofChars (cs : List Char) : Value := .string (String.ofList cs)

/-- A place, or minus one. -/
def Value.placeOrNone : Option Nat → Value
  | some i => .nat i
  | none => .number (-1)

/-- A text `n` times in a row. -/
def repeated (n : Nat) (s : String) : String := if s.isEmpty then "" else Nat.repeat (· ++ s) n ""

/-- A text that is not longer than the bound. -/
def checkLength (bytes : Nat) : Script Unit := do
  if maxLength < bytes then raise .stringLength

/-! ### Replacing -/

/-- The matches of a pattern: all of them, or the first only. -/
def matchesIn (subject : List Char) (pattern : Value) (all : Bool) : Script (List Text.Match) := do
  match pattern with
  | .regex r =>
    return if all then r.searcher.findAll subject
      else (r.searcher.find? (.ofSubject subject)).toList
  | v =>
    let pat := (← toText v).toList
    return if all then Text.matchesOf pat subject
      else ((Text.find? pat subject).map fun i => ⟨i, i + pat.length, []⟩).toList

/-- What stands in place of a match. A function gets the match, its groups, its place and the
subject. -/
def replacementOf (call : Caller) (subject : String) (replacement : Value) (p : Text.Piece) :
    Script String := do
  if replacement.isCallable then
    let groups := p.groups.map fun g? => (g?.map Value.ofChars).getD .undefined
    let args := .ofChars p.text :: (groups ++ [.nat p.start, .string subject])
    toText (← call replacement .undefined args.toArray)
  else
    let template ← toText replacement
    if template.contains '$' then
      let cs := subject.toList
      let found : Text.Found :=
        { before := cs.take p.start
          text := p.text
          after := cs.drop (p.start + p.text.length)
          groups := p.groups }
      return String.ofList (Text.expand found template.toList)
    else return template

/-- A subject with other texts in place of the matches of a pattern. A regular expression tells
itself whether all of its matches are meant. -/
def replacing (call : Caller) (subject : String) (pattern replacement : Value) (all : Bool) :
    Script Value := do
  let all ←
    match pattern with
    | .regex r => if all && !r.isGlobal then raise .replaceAllNotGlobal else pure r.isGlobal
    | _ => pure all
  let cs := subject.toList
  let (pieces, rest) := Text.pieces cs (← matchesIn cs pattern all)
  let done ← pieces.foldlM (fun out p => do
    let out := out ++ String.ofList p.gap
    let out := out ++ (← replacementOf call subject replacement p)
    checkLength out.utf8ByteSize
    return out) ""
  return .string (done ++ String.ofList rest)

/-! ### Splitting and matching -/

/-- The parts of a text between the matches of a separator; the characters, if the separator is
empty. -/
def splitting (s : String) (separator : Value) : Script (List Value) := do
  let cs := s.toList
  match separator with
  | .undefined => return [.string s]
  | .regex r => return (Text.gaps cs (r.searcher.findAll cs)).map .ofChars
  | v =>
    let pat := (← toText v).toList
    return if pat.isEmpty then cs.map .char else (Text.gaps cs (Text.matchesOf pat cs)).map .ofChars

/-- The matches of a regular expression: all of them, or the groups of the first. -/
def matching (s : String) (pattern : Value) : Script Value := do
  let (isGlobal, searcher) ←
    match pattern with
    | .regex r => pure (r.isGlobal, r.searcher)
    | v =>
      let source ← toText v
      match readRegex (← get).engines source "" with
      | .ok searcher => pure (false, searcher)
      | .error fault => raise (.regex fault)
  let cs := s.toList
  if isGlobal then
    let (pieces, _) := Text.pieces cs (searcher.findAll cs)
    if pieces.isEmpty then return .null
    else newArray (pieces.map fun p => .ofChars p.text).toArray
  else
    match (Text.pieces cs (searcher.find? (.ofSubject cs)).toList).1 with
    | p :: _ =>
      newArray (.ofChars p.text :: p.groups.map fun g? => (g?.map .ofChars).getD .undefined).toArray
    | [] => return .null

/-- The filler that makes a text `length` characters long. -/
def padding (filler : String) (length : Nat) : String :=
  let whole := length / filler.length
  repeated whole filler ++ String.ofList (filler.toList.take (length - whole * filler.length))

/-! ### Calling -/

/-- A place that may be counted from the end, if it is not in front of the start. -/
def itemPlace? (length : Nat) (x : Float) : Option Nat :=
  if x.isNaN then some 0
  else if x.isInf then none
  else
    let n := Double.toIntTrunc x
    let i := if n < 0 then length + n else n
    if i < 0 then none else some i.toNat

/-- Carries out a method of a text. -/
def callString (call : Caller) (method : StringMethod) (s : String) (args : Array Value) :
    Script Value := do
  match method with
  | .toString => return .string s
  | .toUpperCase => return .string (Text.upper s)
  | .toLowerCase => return .string (Text.lower s)
  | .trim => return .ofChars (Text.trim s.toList)
  | .trimStart => return .ofChars (Text.trimStart s.toList)
  | .trimEnd => return .ofChars (Text.trimEnd s.toList)
  | .includes =>
    let start ← Args.place args 1 0 (clampedIndex s.length)
    let pat := (← Args.text args 0).toList
    return .bool (Text.find? pat (s.toList.drop start)).isSome
  | .startsWith =>
    let start ← Args.place args 1 0 (clampedIndex s.length)
    let pat := (← Args.text args 0).toList
    return .bool (pat.isPrefixOf (s.toList.drop start))
  | .endsWith =>
    let stop ← Args.place args 1 s.length (clampedIndex s.length)
    let pat := (← Args.text args 0).toList
    return .bool (pat.isSuffixOf (s.toList.take stop))
  | .indexOf =>
    let start ← Args.place args 1 0 (clampedIndex s.length)
    let pat := (← Args.text args 0).toList
    return .placeOrNone (Text.findFrom? pat start (s.toList.drop start))
  | .lastIndexOf =>
    let pat := (← Args.text args 0).toList
    return .placeOrNone (Text.findLast? pat s.toList)
  | .slice =>
    let (start, stop) ← Args.range args s.length
    return .ofChars (Text.slice s.toList start stop)
  | .substring =>
    let a ← Args.place args 0 0 (clampedIndex s.length)
    let b ← Args.place args 1 s.length (clampedIndex s.length)
    return .ofChars (Text.slice s.toList (min a b) (max a b))
  | .charAt =>
    let i ← Args.place args 0 0 (clampedIndex s.length)
    return (charAt? s i).elim (.string "") .char
  | .item =>
    let x ← toNumber (Args.item args 0)
    return ((itemPlace? s.length x).bind (charAt? s)).elim .undefined .char
  | .split =>
    let limit? ←
      match Args.item args 1 with
      | .undefined => pure none
      | v => do pure (some ((indexOfNumber? (Double.trunc (← toNumber v))).getD 0))
    let parts ← splitting s (Args.item args 0)
    newArray (limit?.elim parts parts.take).toArray
  | .replace => replacing call s (Args.item args 0) (Args.item args 1) false
  | .replaceAll => replacing call s (Args.item args 0) (Args.item args 1) true
  | .repeats =>
    let count ← toNumber (Args.item args 0)
    if count < 0 || count.isNaN || count.isInf then raise (.repeatCount count)
    let n := (Double.toIntTrunc count).toNat
    checkLength (s.utf8ByteSize * n)
    return .string (repeated n s)
  | .concat =>
    let out ← args.foldlM (fun out v => return out ++ (← toText v)) s
    checkLength out.utf8ByteSize
    return .string out
  | .padStart =>
    let (length, filler) ← target
    return .string (if length = 0 then s else padding filler length ++ s)
  | .padEnd =>
    let (length, filler) ← target
    return .string (if length = 0 then s else s ++ padding filler length)
  | .matching => matching s (Args.item args 0)
where
  /-- How many characters are to be added, and what they are taken from. -/
  target : Script (Nat × String) := do
    let length ← Args.place args 0 0 (clampedIndex maxLength)
    let filler ←
      match Args.item args 1 with
      | .undefined => pure " "
      | v => toText v
    return (if filler.isEmpty then 0 else length - s.length, filler)

end Espalier.Script
