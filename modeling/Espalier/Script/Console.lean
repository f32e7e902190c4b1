import Espalier.Script.NodeValue

/-!
# The console

What is written to the console: texts as they are, other values in a form that shows what is in
them, down to the third level.
-/

namespace Espalier.Script

/-- How many levels of containers are shown. -/
def shownLevels : Nat := 3

namespace Machine

/-- A value with its items or properties, `levels` deep. -/
def shownWithin? (m : Machine) : (levels : Nat) → Value → Option String
  | _, .string s => some ("'" ++ s ++ "'")
  | levels, .array a =>
    match (m.items a).toList, levels with
    | [], _ => some "[]"
    | _, 0 => some "[Array]"
    | items, levels + 1 => do
      return "[ " ++ ", ".intercalate (← items.mapM (m.shownWithin? levels)) ++ " ]"
  | levels, .object o =>
    let object := m.object o
    if object.kind == .error then m.text? (.object o)
    else
      match object.properties, levels with
      | [], _ => some "\x7b\x7d"
      | _, 0 => some "[Object]"
      | properties, levels + 1 => do
        let parts ← properties.mapM fun (name, v) => do
          return name ++ ": " ++ (← m.shownWithin? levels v)
        return "\x7b " ++ ", ".intercalate parts ++ " \x7d"
  | _, .function f => some ("[Function: " ++ f.name ++ "]")
  | _, .native f => some ("[Function: " ++ f.name ++ "]")
  | _, .node steps =>
    match m.nodeAt? steps with
    | some node =>
      let place := s!"start: {node.span.start}, end: {node.span.stop}"
      some ("Node \x7b type: '" ++ node.type.text ++ "', " ++ place ++ " \x7d")
    | none => some "Node \x7b removed \x7d"
  | _, .path id => some ("NodePath \x7b type: '" ++ (m.path id).type.text ++ "' \x7d")
  | _, v => m.text? v

/-- A value as it is written to the console. -/
def shown? (m : Machine) : Value → Option String
  | .string s => some s
  | v => m.shownWithin? shownLevels v

end Machine

/-- Writes values to the console, in one line. -/
def log (level : Level) (values : Array Value) : Script Unit := do
  match values.toList.mapM (← get).shown? with
  | some parts => writeLine level (" ".intercalate parts)
  | none => giveUp .aborted

end Espalier.Script
