import Espalier.Decimal.Layout
import Espalier.Print.Level
import Espalier.Print.Literal

/-!
# Printing

The normal form of a program: one statement a line, indented by its nesting, strings in double
quotes, and parentheses only where the tree needs them. `Program.print` is made of functions on the
tree, each of which takes the text of one indentation step (`unit`), the number of steps (`depth`)
and, for an expression, the least level that its place admits.
-/

namespace Espalier

namespace Print

/-! ### Pieces of text -/

/-- A new line with its indentation. -/
def newline (unit : String) (depth : Nat) : String :=
  "\n" ++ String.join (List.replicate depth unit)

/-- Text between parentheses, if they are needed. -/
def parens (needed : Bool) (text : String) : String :=
  if needed then "(" ++ text ++ ")" else text

/-- Texts with commas between them. -/
def commaList (texts : List String) : String := ", ".intercalate texts

/-- Texts with commas between them, between braces. -/
def braced (texts : List String) : String :=
  if texts.isEmpty then "\x7b\x7d" else "\x7b " ++ commaList texts ++ " \x7d"

/-- Elements with commas between them. A hole is nothing at all, and one at the end has a comma
after it. -/
def elements : List (Option String) → String
  | [] => ""
  | [some text] => text
  | [none] => ","
  | text? :: next? :: rest =>
    text?.getD "" ++ (if next?.isSome then ", " else ",") ++ elements (next? :: rest)

/-- Lines between braces. -/
def bracedLines (unit : String) (depth : Nat) (lines : List String) : String :=
  if lines.isEmpty then "\x7b\x7d"
  else
    "\x7b" ++ String.join (lines.map (newline unit (depth + 1) ++ ·)) ++ newline unit depth ++
      "\x7d"

/-- A number. Where an operator in front would take a minus sign for its own, or a point after it
would be read as its decimal point, it stands between parentheses. -/
def number (least : Nat) (value : Float) : String :=
  let text := Number.text value
  let isNegative := text.toList.head? == some '-'
  let hidesPoint := !text.toList.any (['.', 'e', 'N', 'I'].contains ·)
  parens ((isNegative && Level.unary ≤ least) || (hidesPoint && Level.member ≤ least)) text

/-- An operator in front of an operand. A word has a blank after it, and so has a sign that would
fuse with the operand. -/
def unaryText (op : UnaryOp) (operand : String) : String :=
  let isWord := op == .typeof || op == .void || op == .delete
  let fuses := (op == .minus || op == .plus) && op.text.toList.isPrefixOf operand.toList
  op.text ++ (if isWord || fuses then " " else "") ++ operand

/-- A name under another one, if that is a different one. -/
def renamed (name asName : String) : String :=
  if name == asName then name else name ++ " as " ++ asName

/-- What an import binds, in front of `from`. -/
def importClause (specifiers : List ImportSpecifier) : String :=
  let single := specifiers.filterMap fun
    | .default _ binding => some binding.name
    | .star _ binding => some ("* as " ++ binding.name)
    | .named _ _ _ => none
  let named := specifiers.filterMap fun
    | .named _ imported binding => some (renamed imported.name binding.name)
    | _ => none
  let parts := if named.isEmpty then single else single ++ [braced named]
  if parts.isEmpty then "" else commaList parts ++ " from "

/-- The body of a loop, of which the text is known, after its head. -/
def loopBody (body : Stmt) (text : String) : String :=
  match body with
  | .empty _ => ";"
  | _ => " " ++ text

/-- What stands in front of the key of a method. -/
def methodModifiers (kind : MethodKind) (func : Func) : String :=
  match kind with
  | .getter => "get "
  | .setter => "set "
  | .method | .constructor =>
    (if func.isAsync then "async " else "") ++ (if func.isGenerator then "*" else "")

/-! ### The tree -/

mutual

def expr (unit : String) (depth least : Nat) : Expr → String
  | .null _ => "null"
  | .bool _ value => if value then "true" else "false"
  | .number _ value => number least value
  | .bigint _ digits => digits ++ "n"
  | .string _ value => quoted value
  | .regex _ pattern flags => "/" ++ pattern ++ "/" ++ flags
  | .template t => template unit depth t
  | .tagged _ tag quasi => expr unit depth Level.member tag ++ template unit depth quasi
  | .ident i => i.name
  | .this _ => "this"
  | .super _ => "super"
  | .importWord _ => "import"
  | .metaProperty _ object property => object.name ++ "." ++ property.name
  | .array _ es => "[" ++ elements (optionalExprs unit depth es) ++ "]"
  | .object _ ps => braced (properties unit depth ps)
  | .function f => function unit depth f
  | .arrow a => parens (Level.assignment < least) (arrow unit depth a)
  | .classExpr c => classDef unit depth c
  | .unary _ op e => parens (Level.unary < least) (unaryText op (expr unit depth Level.unary e))
  | .update _ op true e =>
    parens (Level.unary < least) (op.text ++ expr unit depth Level.unary e)
  | .update _ op false e =>
    parens (Level.unary < least) (expr unit depth Level.postfixOperand e ++ op.text)
  | .binary _ .pow l r =>
    let level := (InfixOp.binary .pow).level
    parens (level < least)
      (expr unit depth Level.postfixOperand l ++ " ** " ++ expr unit depth level r)
  | .binary _ op l r =>
    let level := (InfixOp.binary op).level
    parens (level < least)
      (expr unit depth level l ++ " " ++ op.text ++ " " ++ expr unit depth (level + 1) r)
  | .logical _ op l r =>
    let level := (InfixOp.logical op).level
    parens (level < least)
      (expr unit depth (op.operandLevel level l) l ++ " " ++ op.text ++ " " ++
        expr unit depth (op.operandLevel (level + 1) r) r)
  | .assign _ op l r =>
    parens (Level.assignment < least)
      (pattern unit depth l ++ " " ++ op.text ++ " " ++ expr unit depth Level.assignment r)
  | .conditional _ t c a =>
    parens (Level.conditional < least)
      (expr unit depth Level.test t ++ " ? " ++ expr unit depth Level.assignment c ++ " : " ++
        expr unit depth Level.assignment a)
  | .sequence _ es => parens (Level.sequence < least) (commaList (exprs unit depth es))
  | .member _ e (.ident i) optional =>
    expr unit depth Level.member e ++ (if optional then "?." else ".") ++ i.name
  | .member _ e (.computed k) optional =>
    expr unit depth Level.member e ++ (if optional then "?.[" else "[") ++
      expr unit depth 0 k ++ "]"
  | .call _ f args optional =>
    expr unit depth Level.member f ++ (if optional then "?.(" else "(") ++
      commaList (exprs unit depth args) ++ ")"
  | .new _ f args =>
    "new " ++
      (if f.containsCall then "(" ++ expr unit depth 0 f ++ ")"
        else expr unit depth Level.creation f) ++
      "(" ++ commaList (exprs unit depth args) ++ ")"
  | .spread _ e => "..." ++ expr unit depth Level.assignment e
  | .yield _ none delegate =>
    parens (Level.assignment < least) (if delegate then "yield*" else "yield")
  | .yield _ (some e) delegate =>
    parens (Level.assignment < least)
      ((if delegate then "yield* " else "yield ") ++ expr unit depth Level.assignment e)
  | .await _ e => parens (Level.unary < least) ("await " ++ expr unit depth Level.unary e)

/-- Arguments and other expressions that commas divide. -/
def exprs (unit : String) (depth : Nat) : List Expr → List String
  | [] => []
  | e :: es => expr unit depth Level.assignment e :: exprs unit depth es

def optionalExprs (unit : String) (depth : Nat) : List (Option Expr) → List (Option String)
  | [] => []
  | none :: es => none :: optionalExprs unit depth es
  | some e :: es => some (expr unit depth Level.assignment e) :: optionalExprs unit depth es

def template (unit : String) (depth : Nat) : Template → String
  | ⟨quasis, es, _⟩ =>
    "\x60" ++ templateBody (quasis.map (·.cooked)) (substitutions unit depth es) ++ "\x60"

def substitutions (unit : String) (depth : Nat) : List Expr → List String
  | [] => []
  | e :: es => expr unit depth 0 e :: substitutions unit depth es

def key (unit : String) (depth : Nat) : PropertyKey → String
  | .ident i => i.name
  | .literal e => expr unit depth 0 e
  | .computed e => "[" ++ expr unit depth Level.assignment e ++ "]"

def property (unit : String) (depth : Nat) : Property → String
  | .init _ k value shorthand =>
    match if shorthand then Expr.shorthandName? k value else none with
    | some name => name
    | none => key unit depth k ++ ": " ++ expr unit depth Level.assignment value
  | .method _ k kind f => methodModifiers kind f ++ key unit depth k ++ methodRest unit depth f
  | .spread _ e => "..." ++ expr unit depth Level.assignment e

def properties (unit : String) (depth : Nat) : List Property → List String
  | [] => []
  | p :: ps => property unit depth p :: properties unit depth ps

/-- The parameters and the body of a method. -/
def methodRest (unit : String) (depth : Nat) : Func → String
  | ⟨_, params, body, _, _, _⟩ =>
    "(" ++ commaList (patterns unit depth params) ++ ") " ++ block unit depth body

def function (unit : String) (depth : Nat) : Func → String
  | ⟨id, params, body, isAsync, isGenerator, _⟩ =>
    (if isAsync then "async function" else "function") ++ (if isGenerator then "*" else "") ++
      " " ++ (id.elim "" Ident.name) ++
      "(" ++ commaList (patterns unit depth params) ++ ") " ++ block unit depth body

/-- An arrow function. A parameter that is a mere name needs no parentheses. -/
def arrow (unit : String) (depth : Nat) : Arrow → String
  | ⟨[.ident i], body, isAsync, _⟩ =>
    (if isAsync then "async " else "") ++ i.name ++ " => " ++ arrowBody unit depth body
  | ⟨params, body, isAsync, _⟩ =>
    (if isAsync then "async " else "") ++
      "(" ++ commaList (patterns unit depth params) ++ ") => " ++ arrowBody unit depth body

def arrowBody (unit : String) (depth : Nat) : ArrowBody → String
  | .expr e => parens e.startsAmbiguously (expr unit depth Level.assignment e)
  | .block b => block unit depth b

def classDef (unit : String) (depth : Nat) : Class → String
  | ⟨id, superClass, ⟨ms, _⟩, _⟩ =>
    "class" ++ id.elim "" (" " ++ ·.name) ++ heritage unit depth superClass ++ " " ++
      bracedLines unit depth (members unit (depth + 1) ms)

def heritage (unit : String) (depth : Nat) : Option Expr → String
  | none => ""
  | some e => " extends " ++ expr unit depth Level.member e

def member (unit : String) (depth : Nat) : ClassMember → String
  | .method _ k kind isStatic f =>
    (if isStatic then "static " else "") ++ methodModifiers kind f ++ key unit depth k ++
      methodRest unit depth f
  | .property _ k value isStatic =>
    (if isStatic then "static " else "") ++ key unit depth k ++ initializer unit depth value ++ ";"

def members (unit : String) (depth : Nat) : List ClassMember → List String
  | [] => []
  | m :: ms => member unit depth m :: members unit depth ms

/-- What something is initialized with. -/
def initializer (unit : String) (depth : Nat) : Option Expr → String
  | none => ""
  | some e => " = " ++ expr unit depth Level.assignment e

def pattern (unit : String) (depth : Nat) : Pattern → String
  | .ident i => i.name
  | .array _ es => "[" ++ elements (optionalPatterns unit depth es) ++ "]"
  | .object _ ps => braced (patternProperties unit depth ps)
  | .default _ l r => pattern unit depth l ++ " = " ++ expr unit depth Level.assignment r
  | .rest _ p => "..." ++ pattern unit depth p
  | .target e => expr unit depth Level.member e

def patterns (unit : String) (depth : Nat) : List Pattern → List String
  | [] => []
  | p :: ps => pattern unit depth p :: patterns unit depth ps

def optionalPatterns (unit : String) (depth : Nat) : List (Option Pattern) → List (Option String)
  | [] => []
  | none :: ps => none :: optionalPatterns unit depth ps
  | some p :: ps => some (pattern unit depth p) :: optionalPatterns unit depth ps

def patternProperty (unit : String) (depth : Nat) : PatternProperty → String
  | .entry _ k value shorthand =>
    if shorthand && value.isShorthandFor k then pattern unit depth value
    else key unit depth k ++ ": " ++ pattern unit depth value
  | .rest _ p => "..." ++ pattern unit depth p

def patternProperties (unit : String) (depth : Nat) : List PatternProperty → List String
  | [] => []
  | p :: ps => patternProperty unit depth p :: patternProperties unit depth ps

def block (unit : String) (depth : Nat) : Block → String
  | ⟨body, _⟩ => bracedLines unit depth (stmts unit (depth + 1) body)

/-- A declaration without its semicolon. -/
def declaration (unit : String) (depth : Nat) : VarDecl → String
  | ⟨kind, ds, _⟩ => kind.text ++ " " ++ commaList (declarators unit depth ds)

def declarators (unit : String) (depth : Nat) : List VarDeclarator → List String
  | [] => []
  | ⟨id, init, _⟩ :: ds =>
    (pattern unit depth id ++ initializer unit depth init) :: declarators unit depth ds

def forInit (unit : String) (depth : Nat) : ForInit → String
  | .decl d => declaration unit depth d
  | .expr e => expr unit depth 0 e

def forHead (unit : String) (depth : Nat) : ForHead → String
  | .decl d => declaration unit depth d
  | .pattern p => pattern unit depth p

/-- An expression that may be missing, with a text in front of it. -/
def optionalExpr (unit : String) (depth : Nat) (before : String) : Option Expr → String
  | none => ""
  | some e => before ++ expr unit depth 0 e

/-- A case of a switch; its own depth is `depth`. -/
def switchCase (unit : String) (depth : Nat) : SwitchCase → String
  | ⟨none, body, _⟩ =>
    "default:" ++ String.join ((stmts unit (depth + 1) body).map (newline unit (depth + 1) ++ ·))
  | ⟨some e, body, _⟩ =>
    "case " ++ expr unit depth 0 e ++ ":" ++
      String.join ((stmts unit (depth + 1) body).map (newline unit (depth + 1) ++ ·))

def switchCases (unit : String) (depth : Nat) : List SwitchCase → List String
  | [] => []
  | c :: cs => switchCase unit depth c :: switchCases unit depth cs

def handler (unit : String) (depth : Nat) : Option CatchClause → String
  | none => ""
  | some ⟨none, body, _⟩ => " catch " ++ block unit depth body
  | some ⟨some p, body, _⟩ => " catch (" ++ pattern unit depth p ++ ") " ++ block unit depth body

def finalizer (unit : String) (depth : Nat) : Option Block → String
  | none => ""
  | some body => " finally " ++ block unit depth body

def exported (unit : String) (depth : Nat) : ExportDefault → String
  | .function f => function unit depth f
  | .classDecl c => classDef unit depth c
  | .expr e => parens e.startsAmbiguously (expr unit depth Level.assignment e) ++ ";"

/-- A statement. An `if` without `else` in front of an `else` stands between braces, or it would
capture that. -/
def stmt (unit : String) (depth : Nat) : Stmt → String
  | .var d => declaration unit depth d ++ ";"
  | .function f => function unit depth f
  | .classDecl c => classDef unit depth c
  | .block b => block unit depth b
  | .expr _ e => parens e.startsAmbiguously (expr unit depth 0 e) ++ ";"
  | .empty _ => ";"
  | .debugger _ => "debugger;"
  | .ifThen _ test consequent none =>
    "if (" ++ expr unit depth 0 test ++ ") " ++ stmt unit depth consequent
  | .ifThen _ test consequent (some alternate) =>
    "if (" ++ expr unit depth 0 test ++ ") " ++
      (if consequent.isOpenIf then
        bracedLines unit depth [stmt unit (depth + 1) consequent] ++ " "
      else
        stmt unit depth consequent ++ if consequent.isBlock then " " else newline unit depth) ++
      "else " ++ stmt unit depth alternate
  | .switch _ e cases =>
    "switch (" ++ expr unit depth 0 e ++ ") " ++
      bracedLines unit depth (switchCases unit (depth + 1) cases)
  | .forLoop _ none test update body =>
    "for (;" ++ optionalExpr unit depth " " test ++ ";" ++ optionalExpr unit depth " " update ++
      ")" ++ loopBody body (stmt unit depth body)
  | .forLoop _ (some init) test update body =>
    "for (" ++ forInit unit depth init ++ ";" ++ optionalExpr unit depth " " test ++ ";" ++
      optionalExpr unit depth " " update ++ ")" ++ loopBody body (stmt unit depth body)
  | .forIn _ left right body =>
    "for (" ++ forHead unit depth left ++ " in " ++ expr unit depth 0 right ++ ")" ++
      loopBody body (stmt unit depth body)
  | .forOf _ left right body isAwait =>
    (if isAwait then "for await (" else "for (") ++ forHead unit depth left ++ " of " ++
      expr unit depth Level.assignment right ++ ")" ++ loopBody body (stmt unit depth body)
  | .whileLoop _ test body =>
    "while (" ++ expr unit depth 0 test ++ ")" ++ loopBody body (stmt unit depth body)
  | .doWhile _ body test =>
    "do " ++ stmt unit depth body ++ " while (" ++ expr unit depth 0 test ++ ");"
  | .breakTo _ label => "break" ++ label.elim "" (" " ++ ·.name) ++ ";"
  | .continueTo _ label => "continue" ++ label.elim "" (" " ++ ·.name) ++ ";"
  | .returns _ e => "return" ++ optionalExpr unit depth " " e ++ ";"
  | .throws _ e => "throw " ++ expr unit depth 0 e ++ ";"
  | .tryCatch _ b h f =>
    "try " ++ block unit depth b ++ handler unit depth h ++ finalizer unit depth f
  | .labeled _ label body => label.name ++ ": " ++ stmt unit depth body
  | .importDecl _ specifiers source =>
    "import " ++ importClause specifiers ++ expr unit depth 0 source ++ ";"
  | .exportNamed _ (some d) _ _ => "export " ++ stmt unit depth d
  | .exportNamed _ none specifiers source =>
    "export " ++ braced (specifiers.map fun s => renamed s.binding.name s.exported.name) ++
      optionalExpr unit depth " from " source ++ ";"
  | .exportDefault _ d => "export default " ++ exported unit depth d
  | .exportAll _ name source =>
    "export *" ++ name.elim "" (" as " ++ ·.name) ++ " from " ++ expr unit depth 0 source ++ ";"

def stmts (unit : String) (depth : Nat) : List Stmt → List String
  | [] => []
  | s :: ss => stmt unit depth s :: stmts unit depth ss

end

end Print

/-- The text of a program in which `unit` indents by one step. -/
def Program.print (unit : String) (p : Program) : String :=
  "\n".intercalate (Print.stmts unit 0 p.body)

/-- The text by which a program is indented where nothing else is asked for. -/
def Program.defaultUnit : String := "  "

end Espalier
