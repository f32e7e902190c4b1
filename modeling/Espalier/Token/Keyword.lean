/-!
# Keywords

The reserved words. Words with a meaning only in some places (`let`, `async`, `of`, `get`, …) are
not among them: they are read as names, so that they stay usable as names.
-/

namespace Espalier

/-- A reserved word. -/
inductive Keyword
  | varKw | constKw | functionKw | classKw
  | ifKw | elseKw | switchKw | caseKw | defaultKw | forKw | whileKw | doKw
  | breakKw | continueKw | returnKw
  | tryKw | catchKw | finallyKw | throwKw
  | newKw | deleteKw | typeofKw | voidKw | inKw | instanceofKw
  | thisKw | superKw | nullKw | trueKw | falseKw
  | importKw | exportKw | extendsKw | withKw | debuggerKw
  deriving DecidableEq, Repr, Inhabited

namespace Keyword

/-- The word itself. -/
def text : Keyword → String
  | varKw => "var" | constKw => "const" | functionKw => "function" | classKw => "class"
  | ifKw => "if" | elseKw => "else" | switchKw => "switch" | caseKw => "case"
  | defaultKw => "default" | forKw => "for" | whileKw => "while" | doKw => "do"
  | breakKw => "break" | continueKw => "continue" | returnKw => "return"
  | tryKw => "try" | catchKw => "catch" | finallyKw => "finally" | throwKw => "throw"
  | newKw => "new" | deleteKw => "delete" | typeofKw => "typeof" | voidKw => "void"
  | inKw => "in" | instanceofKw => "instanceof"
  | thisKw => "this" | superKw => "super" | nullKw => "null" | trueKw => "true"
  | falseKw => "false"
  | importKw => "import" | exportKw => "export" | extendsKw => "extends" | withKw => "with"
  | debuggerKw => "debugger"

/-- All reserved words. -/
def all : List Keyword :=
  [varKw, constKw, functionKw, classKw, ifKw, elseKw, switchKw, caseKw, defaultKw, forKw, whileKw,
    doKw, breakKw, continueKw, returnKw, tryKw, catchKw, finallyKw, throwKw, newKw, deleteKw,
    typeofKw, voidKw, inKw, instanceofKw, thisKw, superKw, nullKw, trueKw, falseKw, importKw,
    exportKw, extendsKw, withKw, debuggerKw]

/-- The reserved word that a text spells, if any. -/
def ofText? (word : String) : Option Keyword := all.find? (·.text == word)

theorem ofText?_text (k : Keyword) : ofText? k.text = some k := by cases k <;> decide

theorem text_of_ofText? {word : String} {k : Keyword} (h : ofText? word = some k) :
    k.text = word := by
  simpa using List.find?_some h

end Keyword

end Espalier
