import Espalier.Highlight
import Espalier.Regex.Search
import Espalier.Script.Global

/-!
# Values of scripts

Arrays, objects, regular expressions and paths change while a script runs, so a value of one of
these kinds only says where the machine keeps it. A node of the program under work is the path of
steps that leads to it. Functions carry a number of their own, by which two of them are told apart.
-/

namespace Espalier.Script

/-- Where the machine keeps an array. -/
structure ArrayId where
  place : Nat
  deriving DecidableEq, Repr, Inhabited

/-- Where the machine keeps an object. -/
structure ObjectId where
  place : Nat
  deriving DecidableEq, Repr, Inhabited

/-- Where the machine keeps the variables of a scope. -/
structure ScopeId where
  place : Nat
  deriving DecidableEq, Repr, Inhabited

/-- Where the machine keeps a path. -/
structure PathId where
  place : Nat
  deriving DecidableEq, Repr, Inhabited

/-- Where the machine keeps the progress of a regular expression. -/
structure RegexId where
  place : Nat
  deriving DecidableEq, Repr, Inhabited

/-- The scopes that are in reach, the innermost first. -/
abbrev Env := List ScopeId

/-- The code of a function. -/
structure Code where
  params : List Pattern
  body : ArrowBody
  isArrow : Bool
  isAsync : Bool
  isGenerator : Bool

/-- The code of a function written with a word, or of a method. -/
def Code.ofFunction (f : Func) : Code := ⟨f.params, .block f.body, false, f.isAsync, f.isGenerator⟩

/-- The code of a function written with an arrow. -/
def Code.ofArrow (a : Arrow) : Code := ⟨a.params, a.body, true, a.isAsync, false⟩

/-- A function of the script, with the scopes that it was made in. -/
structure Closure where
  id : Nat
  name : String
  code : Code
  env : Env

/-- A regular expression. -/
structure RegexValue where
  id : RegexId
  source : String
  flags : String
  searcher : Regex.Searcher

/-- Whether a regular expression looks for all matches. -/
def RegexValue.isGlobal (r : RegexValue) : Bool := r.flags.toList.contains 'g'

/-- A regular expression as it is written. -/
def RegexValue.text (r : RegexValue) : String := s!"/{r.source}/{r.flags}"

/-- A method with its receiver. -/
inductive Method
  | string (method : StringMethod) (this : String)
  | array (method : ArrayMethod) (this : ArrayId)
  | number (method : NumberMethod) (this : Float)
  | regex (method : RegexMethod) (this : RegexValue)
  | path (method : PathMethod) (this : PathId)
  /-- Asks whether a node, or the node of a path, is of a type. -/
  | is (key : VisitorKey) (this : Option PathId)

/-- A function that is not code of the script. -/
inductive Native
  | global (f : Global)
  | bound (id : Nat) (method : Method)

/-- A value. -/
inductive Value
  | undefined
  | null
  | bool (value : Bool)
  | number (value : Float)
  | string (value : String)
  | array (id : ArrayId)
  | object (id : ObjectId)
  | function (closure : Closure)
  | native (native : Native)
  | regex (regex : RegexValue)
  | node (steps : List Step)
  | path (id : PathId)

instance : Inhabited Value := ⟨.undefined⟩

/-- The name of a method. -/
def Method.name : Method → String
  | string m _ => m.text
  | array m _ => m.text
  | number m _ => m.text
  | regex m _ => m.text
  | path m _ => m.text
  | is key _ => key.text

namespace Native

/-- The name of a function. -/
def name : Native → String
  | global f => f.text
  | bound _ method => method.name

/-- Functions without a receiver are the same if they do the same; a method is the same only as
itself. -/
def same : Native → Native → Bool
  | global f, global g => f == g
  | bound i _, bound j _ => i == j
  | _, _ => false

end Native

namespace Value

/-- A whole number. -/
def nat (n : Nat) : Value := .number (Double.ofNat n)

/-- The text of a character. -/
def char (c : Char) : Value := .string c.toString

def isNullish : Value → Bool
  | undefined | null => true
  | _ => false

def isCallable : Value → Bool
  | function _ | native _ => true
  | _ => false

/-- Whether a condition holds that has this value. -/
def truthy : Value → Bool
  | undefined | null => false
  | bool b => b
  | number x => x != 0 && !x.isNaN
  | string s => !s.isEmpty
  | _ => true

/-- The kind of a value, as scripts tell kinds apart. -/
def typeName : Value → String
  | undefined => "undefined"
  | bool _ => "boolean"
  | number _ => "number"
  | string _ => "string"
  | function _ | native _ => "function"
  | null | array _ | object _ | regex _ | node _ | path _ => "object"

/-- Equality of kind and value. Containers are equal only to themselves. -/
def strictEqual : Value → Value → Bool
  | undefined, undefined => true
  | null, null => true
  | bool a, bool b => a == b
  | number x, number y => x == y
  | string s, string t => s == t
  | array a, array b => a == b
  | object a, object b => a == b
  | function f, function g => f.id == g.id
  | native f, native g => f.same g
  | regex r, regex s => r.id == s.id
  | node a, node b => a == b
  | path p, path q => p == q
  | _, _ => false

end Value

end Espalier.Script
