import Espalier.Source.LineIndex
import Espalier.Token

/-!
# Syntax errors

Why a source is refused. A `SyntaxError` is a cause at a span; a `ParseError` also knows where in
the source the span starts.
-/

namespace Espalier

/-- Why a source is refused. -/
inductive SyntaxCause
  | lexical (error : LexicalError)
  | unexpectedToken
  | expectedSign (sign : Punct)
  | expectedWord (word : String)
  | expectedKeyword (word : Keyword)
  | keywordAsName (word : String)
  | missingSemicolon
  | tooDeep
  | withStatement
  | repeatedDefault
  | severalDeclarations
  | returnOutsideFunction
  | newlineAfterThrow
  | missingHandler
  | moduleOnly
  | functionNameRequired
  | classNameRequired
  | privateMember
  | privateName
  | updateTarget
  | taggedOptionalChain
  | newMetaProperty
  | importMetaProperty
  | constructorInOptionalChain
  | strayRest
  | strayClosingParen
  | destructuringTarget
  | assignmentTarget
  | memberBinding
  /-- A reading that should move on in the source does not. -/
  | stalled
  deriving DecidableEq, Repr, Inhabited

/-- The wording of a cause. A keyword that is missing goes unnamed. -/
def SyntaxCause.message : SyntaxCause → String
  | lexical error => error.message
  | unexpectedToken => "Unexpected token"
  | expectedSign sign => s!"Unexpected token, expected \"{sign.text}\""
  | expectedWord word => s!"Unexpected token, expected \"{word}\""
  | expectedKeyword _ => "Unexpected token, expected \"\""
  | keywordAsName word => s!"Unexpected keyword '{word}'"
  | missingSemicolon => "Missing semicolon."
  | tooDeep => "Maximum nesting depth exceeded"
  | withStatement => "'with' statements are not supported"
  | repeatedDefault => "Multiple default clauses"
  | severalDeclarations =>
    "Only a single variable declaration is allowed in a for-in/for-of statement"
  | returnOutsideFunction => "'return' outside of function."
  | newlineAfterThrow => "Illegal newline after throw"
  | missingHandler => "Missing catch or finally clause"
  | moduleOnly => "'import' and 'export' may appear only with 'sourceType: \"module\"'"
  | functionNameRequired => "A function name is required"
  | classNameRequired => "A class name is required"
  | privateMember => "Private class members are not supported"
  | privateName => "Private names are not supported"
  | updateTarget => "Invalid left-hand side in postfix operation"
  | taggedOptionalChain => "Tagged template cannot be used in optional chain"
  | newMetaProperty => "The only valid meta property for new is new.target"
  | importMetaProperty => "The only valid meta property for import is import.meta"
  | constructorInOptionalChain => "Constructors in/after an Optional Chain are not allowed."
  | strayRest => "Unexpected token '...'"
  | strayClosingParen => "Unexpected token ')'"
  | destructuringTarget => "Invalid destructuring assignment target"
  | assignmentTarget => "Invalid left-hand side in assignment expression"
  | memberBinding => "Binding member expression"
  | stalled => "Unexpected token"

/-- A cause at its place. -/
structure SyntaxError where
  cause : SyntaxCause
  span : Span
  deriving DecidableEq, Repr, Inhabited

/-- A syntax error of a source, with the position where its span starts. -/
structure ParseError where
  cause : SyntaxCause
  span : Span
  position : Position
  deriving Repr

namespace ParseError

/-- Places a syntax error in its source. -/
def ofSyntaxError (index : LineIndex) (e : SyntaxError) : ParseError :=
  ⟨e.cause, e.span, (index.position? e.span.start).getD ⟨1, 1⟩⟩

/-- The wording, with the position. -/
def message (e : ParseError) : String := s!"{e.cause.message} ({e.position.text})"

end ParseError

end Espalier
