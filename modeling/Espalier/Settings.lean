import Espalier.Json.Record
import Espalier.Keys
import Espalier.Outline
import Espalier.Transform

/-!
# Settings

How inputs are read, outlined and transformed, as it is written down in a JSON text. Every setting
may be left out.
-/

namespace Espalier

/-- What an outline shows. -/
structure OutlineSettings where
  maxDepth : Option Nat := none
  /-- The scalars to show. -/
  shown : Option (List String) := some ["name", "value", "kind", "operator"]
  showAll : Bool := false
  deriving DecidableEq, Repr, Inhabited

/-- How far a run of a transform may go. -/
structure BudgetSettings where
  maxSteps : Nat := 1000000
  maxCallDepth : Nat := 256
  /-- In milliseconds. -/
  timeLimit : Nat := 2000
  deriving DecidableEq, Repr, Inhabited

/-- All settings. -/
structure Settings where
  parser : ParserOptions := {}
  outline : OutlineSettings := {}
  /-- How long an input stays as it is before it is read, in milliseconds. -/
  delay : Nat := 500
  mode : TransformMode := .astMutation
  /-- What runs the transform at once. -/
  shortcut : KeyChord := {}
  budget : BudgetSettings := {}
  deriving DecidableEq, Repr

/-- Why there are no settings. -/
inductive SettingsError
  | unreadable
  | malformed (cause : Json.Error)
  deriving Repr

/-- The wording of the error, about settings with the given text. -/
def SettingsError.message (source : String) : SettingsError → String
  | unreadable => "failed to read settings"
  | malformed cause => cause.message source

namespace Settings

open Json.Read

/-- A combination of keys. -/
def readChord : Json.Read KeyChord :=
  record
    [field "code" string fun v c => { c with code := v },
      field "shift" bool fun v c => { c with shift := v },
      field "ctrl" bool fun v c => { c with ctrl := v },
      field "alt" bool fun v c => { c with alt := v },
      field "meta" bool fun v c => { c with metaKey := v }] {}

def readParser : Json.Read ParserOptions :=
  record
    [field "module" bool fun v o => { o with isModule := v },
      field "allow_return_outside_function" bool fun v o => { o with allowReturn := v }] {}

def readOutline : Json.Read OutlineSettings :=
  record
    [field "max_depth" (orNull natural) fun v o => { o with maxDepth := v },
      field "field_whitelist" (orNull (listOf string)) fun v o => { o with shown := v },
      field "show_all_fields" bool fun v o => { o with showAll := v }] {}

def readBudget : Json.Read BudgetSettings :=
  record
    [field "max_steps" natural fun v b => { b with maxSteps := v },
      field "max_call_depth" natural fun v b => { b with maxCallDepth := v },
      field "time_limit_ms" natural fun v b => { b with timeLimit := v }] {}

/-- All settings. -/
def readAll : Json.Read Settings :=
  record
    [field "parser" readParser fun v s => { s with parser := v },
      field "projector" readOutline fun v s => { s with outline := v },
      field "debounce_ms" natural fun v s => { s with delay := v },
      field "mode" (choice TransformMode.ofText?) fun v s => { s with mode := v },
      field "run_shortcut" readChord fun v s => { s with shortcut := v },
      field "budget" readBudget fun v s => { s with budget := v }] {}

/-- Reads settings. -/
def read (source : String) : Except SettingsError Settings :=
  (readAll.run source).mapError .malformed

/-- The file that holds settings unless another one is named. -/
def fileName : String := "astplay.config.json"

/-- The settings of a folder, given by the texts of its files. Where no file is named there need be
none. -/
def discover (files : List (String × String)) (named : Option String) :
    Except SettingsError Settings :=
  match files.lookup (named.getD fileName), named with
  | some source, _ => read source
  | none, some _ => .error .unreadable
  | none, none => .ok {}

/-- The scalars that outlines show, each once and in order. -/
def shown (s : Settings) : Option (List String) :=
  s.outline.shown.map fun names => (names.mergeSort fun a b => !(b < a)).eraseDups

def outlineOptions (s : Settings) : OutlineOptions :=
  { maxDepth := s.outline.maxDepth, shown := s.shown.getD [], showAll := s.outline.showAll }

def transformOptions (s : Settings) : TransformOptions :=
  { mode := s.mode
    parser := s.parser
    budget := { maxSteps := s.budget.maxSteps, maxCallDepth := s.budget.maxCallDepth } }

end Settings

end Espalier
