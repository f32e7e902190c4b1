import Espalier.Caret
import Espalier.Highlight
import Espalier.Json
import Espalier.Outline
import Espalier.Transform

/-!
# Reports

Outlines, highlights and runs of transforms as JSON values, for other programs to read.
-/

namespace Espalier

namespace Json

/-- A whole number. -/
def ofNat (n : Nat) : Json := .number n.toFloat

/-- A value, or `null`. -/
def ofOption {α : Type} (report : α → Json) : Option α → Json
  | none => .null
  | some a => report a

end Json

def SourceRange.report (r : SourceRange) : Json :=
  .object [("start_line", .ofNat r.first.line), ("start_column", .ofNat r.first.column),
    ("end_line", .ofNat r.last.line), ("end_column", .ofNat r.last.column)]

def Caret.report (c : Caret) : Json :=
  .object [("line", .ofNat c.line), ("column", .ofNat c.column)]

def OutlineLabel.report : OutlineLabel → Json
  | root => .object [("kind", .string "root")]
  | field name => .object [("kind", .string "field"), ("name", .string name)]
  | element list index =>
    .object [("kind", .string "element"), ("field", .string list), ("index", .ofNat index)]

namespace Outline

mutual

/-- A node of an outline with all that is below it. -/
def report : Outline → Json
  | ⟨label, type, range, isActive, values, children, truncated⟩ =>
    .object [("label", label.report), ("node_type", .string type.text),
      ("range", .ofOption SourceRange.report range), ("is_active", .bool isActive),
      ("values", .array (values.map fun (name, value) =>
        .object [("name", .string name), ("value", .string value)])),
      ("children", .array (reportList children)), ("truncated", .bool truncated)]

def reportList : List Outline → List Json
  | [] => []
  | o :: os => report o :: reportList os

end

end Outline

/-- What is highlighted for the name of a visitor. -/
def Highlight.report (name : String) (h : Highlight) : Json :=
  .object [("node_type", .string name), ("known", .bool (VisitorKey.ofText? name).isSome),
    ("ranges", .array (h.ranges.map SourceRange.report)), ("skipped", .ofNat h.skipped)]

def TransformResult.report : TransformResult → Json
  | output text => .object [("kind", .string "output"), ("text", .string text)]
  | failure text => .object [("kind", .string "failure"), ("text", .string text)]

/-- How a run in a mode ends. -/
def TransformRun.report (mode : TransformMode) (run : TransformRun) : Json :=
  let ok := match run.result with
    | .output _ => true
    | .failure _ => false
  .object [("ok", .bool ok), ("mode", .string mode.text), ("result", run.result.report)]

end Espalier
