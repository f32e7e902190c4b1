import Espalier.Caret
import Espalier.Command
import Espalier.Decimal.Binary
import Espalier.Decimal.Digits
import Espalier.Decimal.Layout
import Espalier.Decimal.Read
import Espalier.Grammar
import Espalier.Grammar.Cover
import Espalier.Grammar.Error
import Espalier.Grammar.Expression
import Espalier.Grammar.Function
import Espalier.Grammar.Parse
import Espalier.Grammar.Pattern
import Espalier.Grammar.Statement
import Espalier.Highlight
import Espalier.Json
import Espalier.Json.Read
import Espalier.Json.Record
import Espalier.Keys
import Espalier.Main
import Espalier.Node
import Espalier.Node.Edit
import Espalier.Node.Kind
import Espalier.Node.Tree
import Espalier.Node.Type
import Espalier.Outline
import Espalier.Plugin.Module
import Espalier.Plugin.Traversal
import Espalier.Plugin.Visitor
import Espalier.Print
import Espalier.Print.Level
import Espalier.Print.Literal
import Espalier.Proofs.Node.View
import Espalier.Regex.CharSet
import Espalier.Regex.Error
import Espalier.Regex.Pattern
import Espalier.Regex.Program
import Espalier.Regex.Read
import Espalier.Regex.Search
import Espalier.Report
import Espalier.Script.ArrayCall
import Espalier.Script.Binding
import Espalier.Script.Console
import Espalier.Script.Convert
import Espalier.Script.Evaluator
import Espalier.Script.Expression
import Espalier.Script.Fault
import Espalier.Script.Global
import Espalier.Script.Index
import Espalier.Script.Interpreter
import Espalier.Script.JsonValue
import Espalier.Script.Machine
import Espalier.Script.NativeCall
import Espalier.Script.NodeValue
import Espalier.Script.NumberCall
import Espalier.Script.Operator
import Espalier.Script.PathValue
import Espalier.Script.Property
import Espalier.Script.RegexValue
import Espalier.Script.Statement
import Espalier.Script.StringCall
import Espalier.Script.Value
import Espalier.Session
import Espalier.Session.Timer
import Espalier.Settings
import Espalier.Source.Position
import Espalier.Source.LineIndex
import Espalier.Syntax
import Espalier.Syntax.Operator
import Espalier.Text.Letter
import Espalier.Text.Bytes
import Espalier.Text.CaseMap
import Espalier.Text.Class
import Espalier.Text.Class.Alphabetic
import Espalier.Text.Class.CaseRuns
import Espalier.Text.Class.Cased
import Espalier.Text.Class.Hidden
import Espalier.Text.Class.Numeric
import Espalier.Text.Digit
import Espalier.Text.Find
import Espalier.Text.Match
import Espalier.Text.Quoted
import Espalier.Token
import Espalier.Token.Keyword
import Espalier.Token.Punct
import Espalier.Token.Scan
import Espalier.Transform
import Espalier.Proofs.Script.Builtin
import Espalier.Proofs.Script.Evaluation
import Espalier.Proofs.Transform.Congruence
import Espalier.Proofs.Script.Finalizer
import Espalier.Proofs.Script.Conversion
import Espalier.Proofs.Script.Length
import Espalier.Proofs.Transform.Failure
import Espalier.Proofs.Transform.Halting
import Espalier.Proofs.Source.Cursor
import Espalier.Proofs.Token.Scan
import Espalier.Proofs.Source.LineIndex
import Espalier.Proofs.Grammar.Reading
import Espalier.Proofs.Grammar.Function
import Espalier.Proofs.Grammar.Cover
import Espalier.Proofs.Grammar.Literal
import Espalier.Proofs.Grammar.Expression
import Espalier.Proofs.Grammar.Statement
import Espalier.Proofs.Grammar.Span
import Espalier.Proofs.Node.Change
import Espalier.Proofs.Node.Departure
import Espalier.Proofs.Node.Frame
import Espalier.Proofs.Script.Removal
import Espalier.Proofs.Session.Course
import Espalier.Proofs.Session.Waiting
import Espalier.Proofs.Token.Lexeme
import Espalier.Proofs.Token.Sequence
import Espalier.Proofs.Grammar.Finding
import Espalier.Proofs.Node.SameTree
import Espalier.Proofs.Grammar.Link
import Espalier.Proofs.Grammar.Operator
import Espalier.Proofs.Grammar.Formula
import Espalier.Proofs.Print.Rank
import Espalier.Proofs.Print.Formula
import Espalier.Proofs.Node.Walk
import Espalier.Proofs.Plugin.Told
import Espalier.Proofs.Script.Leaving
import Espalier.Proofs.Plugin.Course
import Espalier.Proofs.Plugin.Visit
import Espalier.Proofs.Plugin.Dispatch
import Espalier.Proofs.Grammar.Making
import Espalier.Proofs.Grammar.Binding
import Espalier.Proofs.Grammar.Grouping
import Espalier.Proofs.Grammar.Specifier
import Espalier.Proofs.Growth.Function
import Espalier.Proofs.Growth.Expression
import Espalier.Proofs.Growth.Statement
import Espalier.Proofs.Node.Nesting
import Espalier.Proofs.Depth
import Espalier.Proofs.Pattern
import Espalier.Proofs.Owner
import Espalier.Proofs.Source.Conversion
import Espalier.Proofs.Source.Word
import Espalier.Proofs.Outline
import Espalier.Proofs.Outline.Shape
import Espalier.Proofs.Transform.Edits
import Espalier.Proofs.Token.Spacing.Text
import Espalier.Proofs.Token.Spacing.Number
import Espalier.Proofs.Token.Spacing.Literal
import Espalier.Proofs.Token.Spacing.Token
import Espalier.Proofs.Spacing.Bare
import Espalier.Proofs.Spacing.Function
import Espalier.Proofs.Spacing.Twin
import Espalier.Proofs.Spacing.Follow
import Espalier.Proofs.Spacing.Expression
import Espalier.Proofs.Spacing.Statement
import Espalier.Proofs.Spacing.Source
import Espalier.Proofs.Spacing
import Espalier.Proofs.Print.Layout
import Espalier.Proofs.Print.Flow
import Espalier.Proofs.Print.Indentation
import Espalier.Proofs.Node.Effect
import Espalier.Proofs.Script.Target
import Espalier.Proofs.Meter.Statement
import Espalier.Proofs.Print.Quoted
import Espalier.Proofs.Print.Template
import Espalier.Proofs.Script.Jump
import Espalier.Proofs.Script.Loop
import Espalier.Proofs.Closure.Literal
import Espalier.Proofs.Closure.Stretch
import Espalier.Proofs.Closure.Expression
import Espalier.Proofs.Closure.Place
import Espalier.Proofs.Closure.Origin
import Espalier.Proofs.Closure.Builtin
import Espalier.Proofs.Closure.Evaluation
import Espalier.Proofs.Closure.Call
import Espalier.Proofs.Closure.Run
import Espalier.Proofs.Blame.Statement
import Espalier.Proofs.Decimal.Whole
import Espalier.Proofs.Text.Search
import Espalier.Proofs.Script.Search
import Espalier.Proofs.Text.Substitution
import Espalier.Proofs.Decimal.Layout
import Espalier.Proofs.Node.InPlace
import Espalier.Proofs.Node.Pairing
import Espalier.Proofs.Template
