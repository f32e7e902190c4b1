import Espalier.Text.Class.CaseRuns
import Espalier.Text.Class.Cased

/-!
# Upper and lower case

Texts in upper and in lower case, in all scripts. A character may turn into several. The form of a
character does not depend on its neighbours, with one exception: a capital sigma at the end of a
word has a lower case form of its own.
-/

namespace Espalier.Text

/-- The place of the last run that starts at or before `c`, in an ascending list of runs. -/
def CaseRun.search (runs : Array CaseRun) (c lo hi : Nat) : Nat :=
  if lo < hi then
    let mid := (lo + hi) / 2
    if (runs[mid]?.map (·.first)).all (· ≤ c) then search runs c (mid + 1) hi
    else search runs c lo mid
  else lo
termination_by hi - lo

/-- What a run makes of a character, if the character belongs to it. -/
def CaseRun.image? (run : CaseRun) (c : Char) : Option Char :=
  if run.first ≤ c.toNat && c.toNat ≤ run.last && (c.toNat - run.first) % run.step == 0 then
    some (Char.ofNat ((c.toNat : Int) + run.shift).toNat)
  else none

/-- The form of a character: its whole form if that is listed, else what its run makes of it. -/
def caseForm (special : List (Nat × List Nat)) (runs : Array CaseRun) (c : Char) : List Char :=
  match special.lookup c.toNat with
  | some form => form.map Char.ofNat
  | none =>
    let place := CaseRun.search runs c.toNat 0 runs.size
    match (runs[place - 1]?).bind (·.image? c) with
    | some d => [d]
    | none => [c]

/-- The upper case form of a character. -/
def upperForm (c : Char) : List Char :=
  if c.toNat < 128 then [c.toUpper] else caseForm upperSpecial upperRuns c

/-- The lower case form of a character away from the end of a word. -/
def lowerForm (c : Char) : List Char :=
  if c.toNat < 128 then [c.toLower] else caseForm lowerSpecial lowerRuns c

/-- Whether the first character that is not ignored in questions of case is a letter with case. -/
def startsCased (cs : List Char) : Bool :=
  ((cs.dropWhile CharClass.caseIgnorable.contains).head?).any CharClass.cased.contains

/-- A text in lower case, `seen` being what stands before it, in reverse. -/
def lowerAfter (seen : List Char) : List Char → List Char
  | [] => []
  | c :: cs =>
    let form :=
      if c == 'Σ' then (if startsCased seen && !startsCased cs then ['ς'] else ['σ'])
      else lowerForm c
    form ++ lowerAfter (c :: seen) cs

/-- A text in upper case. -/
def upper (s : String) : String := String.ofList (s.toList.flatMap upperForm)

/-- A text in lower case. -/
def lower (s : String) : String := String.ofList (lowerAfter [] s.toList)

end Espalier.Text
