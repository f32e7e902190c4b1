/-!
# Functions that every script sees

The functions that a script finds by a name, alone (`parseInt`) or in a namespace (`Math.max`), and
the methods of texts, arrays, numbers, regular expressions and paths. Each has the name under which
scripts know it.
-/

namespace Espalier.Script

/-- The kinds of errors that scripts can tell apart. -/
inductive ErrorKind
  | error | typeError | rangeError | syntaxError | referenceError
  deriving DecidableEq, Repr, Inhabited

def ErrorKind.text : ErrorKind → String
  | error => "Error" | typeError => "TypeError" | rangeError => "RangeError"
  | syntaxError => "SyntaxError" | referenceError => "ReferenceError"

/-- How urgent a line of the console is. -/
inductive Level
  | debug | info | warn | error
  deriving DecidableEq, Repr, Inhabited

def Level.text : Level → String
  | debug => "debug" | info => "info" | warn => "warn" | error => "error"

/-- The functions that write to the console. -/
inductive ConsoleFunction
  | log | info | debug | warn | error
  deriving DecidableEq, Repr, Inhabited

namespace ConsoleFunction

def text : ConsoleFunction → String
  | log => "log" | info => "info" | debug => "debug" | warn => "warn" | error => "error"

/-- What is logged is an information. -/
def level : ConsoleFunction → Level
  | log | info => .info
  | debug => .debug
  | warn => .warn
  | error => .error

end ConsoleFunction

/-- The functions on numbers. -/
inductive MathFunction
  | max | min | floor | ceil | round | trunc | sign | abs | pow | sqrt
  deriving DecidableEq, Repr, Inhabited

def MathFunction.text : MathFunction → String
  | max => "max" | min => "min" | floor => "floor" | ceil => "ceil" | round => "round"
  | trunc => "trunc" | sign => "sign" | abs => "abs" | pow => "pow" | sqrt => "sqrt"

/-- The functions on the properties of objects. -/
inductive ObjectFunction
  | keys | values | entries | assign | freeze
  deriving DecidableEq, Repr, Inhabited

def ObjectFunction.text : ObjectFunction → String
  | keys => "keys" | values => "values" | entries => "entries" | assign => "assign"
  | freeze => "freeze"

/-- A function that needs no receiver. -/
inductive Global
  | string | number | boolean | parseInt | parseFloat | isNaN | isFinite
  | error (kind : ErrorKind)
  | console (f : ConsoleFunction)
  | stringify | parseJson
  | math (f : MathFunction)
  | object (f : ObjectFunction)
  | isArray | arrayFrom
  /-- Offered to plugins; it accepts every version. -/
  | assertVersion
  deriving DecidableEq, Repr, Inhabited

namespace Global

/-- The name of a function, without its namespace. -/
def text : Global → String
  | string => "String" | number => "Number" | boolean => "Boolean" | parseInt => "parseInt"
  | parseFloat => "parseFloat" | isNaN => "isNaN" | isFinite => "isFinite"
  | error kind => kind.text
  | console f => f.text
  | stringify => "stringify" | parseJson => "parse"
  | math f => f.text
  | object f => f.text
  | isArray => "isArray" | arrayFrom => "from" | assertVersion => "assertVersion"

/-- The functions that stand for themselves. -/
def alone : List Global :=
  [string, number, boolean, parseInt, parseFloat, isNaN, isFinite, error .error, error .typeError,
    error .rangeError, error .syntaxError, error .referenceError]

/-- The namespaces, with their members in order. -/
def namespaces : List (String × List Global) :=
  [("console", [.log, .info, .debug, .warn, .error].map console),
    ("JSON", [stringify, parseJson]),
    ("Math",
      [.max, .min, .floor, .ceil, .round, .trunc, .sign, .abs, .pow, .sqrt].map math),
    ("Object", [.keys, .values, .entries, .assign, .freeze].map object),
    ("Array", [isArray, arrayFrom])]

end Global

/-- The methods of texts. -/
inductive StringMethod
  | toString | toUpperCase | toLowerCase | trim | trimStart | trimEnd | includes | startsWith
  | endsWith | indexOf | lastIndexOf | slice | substring | split | replace | replaceAll | repeats
  | concat | charAt | item | padStart | padEnd | matching
  deriving DecidableEq, Repr, Inhabited

namespace StringMethod

def text : StringMethod → String
  | toString => "toString" | toUpperCase => "toUpperCase" | toLowerCase => "toLowerCase"
  | trim => "trim" | trimStart => "trimStart" | trimEnd => "trimEnd" | includes => "includes"
  | startsWith => "startsWith" | endsWith => "endsWith" | indexOf => "indexOf"
  | lastIndexOf => "lastIndexOf" | slice => "slice" | substring => "substring" | split => "split"
  | replace => "replace" | replaceAll => "replaceAll" | repeats => "repeat" | concat => "concat"
  | charAt => "charAt" | item => "at" | padStart => "padStart" | padEnd => "padEnd"
  | matching => "match"

def all : List StringMethod :=
  [toString, toUpperCase, toLowerCase, trim, trimStart, trimEnd, includes, startsWith, endsWith,
    indexOf, lastIndexOf, slice, substring, split, replace, replaceAll, repeats, concat, charAt,
    item, padStart, padEnd, matching]

def ofText? (name : String) : Option StringMethod := all.find? (·.text == name)

end StringMethod

/-- The methods of arrays that call a function for the items in turn. -/
inductive IterationMethod
  | map | filter | forEach | find | findIndex | some | every
  deriving DecidableEq, Repr, Inhabited

/-- The methods of arrays. -/
inductive ArrayMethod
  | toString | push | pop | shift | unshift | join
  | iterate (method : IterationMethod)
  | reduce | includes | indexOf | slice | concat | reverse
  deriving DecidableEq, Repr, Inhabited

namespace ArrayMethod

def text : ArrayMethod → String
  | toString => "toString" | push => "push" | pop => "pop" | shift => "shift"
  | unshift => "unshift" | join => "join"
  | iterate .map => "map" | iterate .filter => "filter" | iterate .forEach => "forEach"
  | iterate .find => "find" | iterate .findIndex => "findIndex" | iterate .some => "some"
  | iterate .every => "every"
  | reduce => "reduce" | includes => "includes" | indexOf => "indexOf" | slice => "slice"
  | concat => "concat" | reverse => "reverse"

def all : List ArrayMethod :=
  [toString, push, pop, shift, unshift, join] ++
    [.map, .filter, .forEach, .find, .findIndex, .some, .every].map iterate ++
    [reduce, includes, indexOf, slice, concat, reverse]

def ofText? (name : String) : Option ArrayMethod := all.find? (·.text == name)

end ArrayMethod

/-- The methods of numbers. -/
inductive NumberMethod
  | toString | toFixed
  deriving DecidableEq, Repr, Inhabited

namespace NumberMethod

def text : NumberMethod → String
  | toString => "toString" | toFixed => "toFixed"

def all : List NumberMethod := [toString, toFixed]

def ofText? (name : String) : Option NumberMethod := all.find? (·.text == name)

end NumberMethod

/-- The methods of regular expressions. -/
inductive RegexMethod
  | test | toString
  deriving DecidableEq, Repr, Inhabited

namespace RegexMethod

def text : RegexMethod → String
  | test => "test" | toString => "toString"

def all : List RegexMethod := [test, toString]

def ofText? (name : String) : Option RegexMethod := all.find? (·.text == name)

end RegexMethod

/-- The methods of paths. -/
inductive PathMethod
  | skip | stop | remove | replaceWithSource
  deriving DecidableEq, Repr, Inhabited

namespace PathMethod

def text : PathMethod → String
  | skip => "skip" | stop => "stop" | remove => "remove"
  | replaceWithSource => "replaceWithSourceString"

def all : List PathMethod := [skip, stop, remove, replaceWithSource]

def ofText? (name : String) : Option PathMethod := all.find? (·.text == name)

end PathMethod

end Espalier.Script
