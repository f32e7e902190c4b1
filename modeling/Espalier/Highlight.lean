import Espalier.Grammar
import Espalier.Node.Tree

/-!
# Highlighting

Where the nodes of a type, or of a group of types, stand in a source. The ranges come in the order
of their starts; nodes of which the span does not fit the source are only counted.
-/

namespace Espalier

/-- What a visitor may ask for: a type or a group of types. -/
inductive VisitorKey
  | type (type : NodeType)
  | group (group : Alias)
  deriving DecidableEq, Repr

namespace VisitorKey

/-- The key of a name. -/
def ofText? (name : String) : Option VisitorKey :=
  (NodeType.ofText? name).map type <|> (Alias.ofText? name).map group

/-- The name of a key. -/
def text : VisitorKey → String
  | type t => t.text
  | group a => a.text

/-- Whether a key asks for a type. -/
def covers : VisitorKey → NodeType → Bool
  | type t, u => t == u
  | group a, u => a.covers u

/-- The types that a key asks for. -/
def types (key : VisitorKey) : List NodeType := NodeType.all.filter key.covers

end VisitorKey

/-- An accepted source: its program, and its lines. -/
structure SyntaxTree where
  program : Program
  index : LineIndex

/-- Parses a source. -/
def SyntaxTree.parse (source : String) (options : ParserOptions) : Except ParseError SyntaxTree :=
  return { program := ← Program.parse source options, index := .ofSource source }

/-- The ranges to highlight, and the number of nodes that have none. -/
structure Highlight where
  ranges : List SourceRange
  skipped : Nat
  deriving DecidableEq, Repr, Inhabited

namespace Highlight

/-- Nothing to highlight. -/
def none : Highlight := ⟨[], 0⟩

/-- The ranges of the nodes that a key asks for. -/
def ofKey (ast : SyntaxTree) (key : VisitorKey) : Highlight :=
  let nodes := ast.program.tree.preorder.filter (key.covers ·.type)
  let ranges := nodes.map (ast.index.range? ·.span)
  { ranges := (ranges.filterMap id).mergeSort fun r s => r.first.le s.first
    skipped := ranges.countP (·.isNone) }

/-- The ranges of the nodes that a name asks for; unknown names ask for none. -/
def ofName (ast : SyntaxTree) (name : Option String) : Highlight :=
  match name.bind VisitorKey.ofText? with
  | some key => ofKey ast key
  | Option.none => none

end Highlight

end Espalier
