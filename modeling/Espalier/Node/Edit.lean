import Espalier.Node.Tree

/-!
# Edit errors

Why an edit of a node is refused, and the checks of a new value of a field that need nothing but the
value. Edits are carried out in place: one that is refused half-way leaves what it has made until
then, so it has to put back what it has taken apart.
-/

namespace Espalier

/-- Why an edit is refused. -/
inductive EditError
  | notInContainer
  | templatePart
  | notAPattern
  | notAName
  | notAnExpressionPlace (type : String)
  | expected (field what : String) (found : Scalar)
  | invalidValue (field value : String)
  | keyMustStayComputed
  | memberMustStayComputed
  | noOperator
  | readOnly (type field : String)
  deriving Repr

/-- The wording of a refusal. -/
def EditError.message : EditError → String
  | notInContainer => "Cannot remove a node that is no longer in its container"
  | templatePart => "Template literal parts cannot be removed"
  | notAPattern => "Invalid left-hand side in replacement"
  | notAName => "Only an identifier can replace an identifier in this position"
  | notAnExpressionPlace type => s!"Cannot replace a {type} with an expression"
  | expected field what found => s!"Property {field} expected a {what}, got {found.text}"
  | invalidValue field value => s!"Property {field} of value \"{value}\" is not valid here"
  | keyMustStayComputed =>
    "A computed key that is not an identifier or literal must stay computed"
  | memberMustStayComputed => "A computed property that is not an identifier must stay computed"
  | noOperator => "Cannot assign to operator"
  | readOnly type field => s!"Cannot assign to {type}.{field}"

/-- An edit of a `σ` in place. What it leaves there stays, also if it is refused. -/
abbrev InPlace (σ : Type) : Type → Type := ExceptT EditError (StateM σ)

namespace InPlace

variable {σ τ α : Type}

/-- What an edit gives and what it leaves. -/
def leaves (edit : InPlace σ α) (x : σ) : Except EditError α × σ := edit.run.run x

/-- An edit of a part of a `τ`, which is put back as the edit leaves it. -/
def within (put : σ → τ) (part : σ) (edit : InPlace σ α) : InPlace τ α := fun _ =>
  let (given, left) := edit.leaves part
  (given, put left)

/-- An edit that makes what it will leave, or is refused, before it writes. -/
def write (make : σ → Except EditError σ) : InPlace σ Unit := do
  let made ← make (← get)
  set made

end InPlace

namespace Scalar

/-- The truth value that a field needs. -/
def expectBool (field : String) : Scalar → Except EditError Bool
  | .bool b => .ok b
  | other => .error (.expected field "boolean" other)

/-- The text that a field needs. -/
def expectString (field : String) : Scalar → Except EditError String
  | .string s => .ok s
  | other => .error (.expected field "string" other)

/-- The number that a field needs. -/
def expectNumber (field : String) : Scalar → Except EditError Float
  | .number n => .ok n
  | other => .error (.expected field "number" other)

/-- The text that a field needs, read as one of the words that it may hold. -/
def expectWord {α : Type} (field : String) (ofText? : String → Option α) (v : Scalar) :
    Except EditError α := do
  let s ← v.expectString field
  match ofText? s with
  | some a => .ok a
  | none => .error (.invalidValue field s)

end Scalar

/-- The role of a method of an object, which has no constructor. -/
def MethodKind.ofObjectText? (s : String) : Option MethodKind :=
  (MethodKind.ofText? s).filter (· != .constructor)

/-- The operator that a text spells. -/
def InfixOp.ofText? (s : String) : Option InfixOp :=
  (BinaryOp.ofText? s).map .binary <|> (LogicalOp.ofText? s).map .logical

/-- Whether an expression has an operator between two operands. -/
def Expr.isOperation : Expr → Bool
  | .binary _ _ _ _ | .logical _ _ _ _ => true
  | _ => false

/-- Changes the operator between two operands, which may make another kind of expression of it. For
this it is taken apart, with `null` in its place; what has no such operator is put back. -/
def Expr.setOperator (v : Scalar) : InPlace Expr Unit := do
  let op ← v.expectWord "operator" InfixOp.ofText?
  let whole ← getModify fun e => .null e.span
  match whole with
  | .binary s _ l r | .logical s _ l r => set (Expr.operation s op l r)
  | other =>
    set other
    throw .noOperator

/-- A key put between brackets or taken out of them. Only a name or a literal can be taken out. -/
def PropertyKey.setComputed (computed : Bool) : PropertyKey → Except EditError PropertyKey
  | .ident i => .ok (if computed then .computed (.ident i) else .ident i)
  | .literal e => .ok (if computed then .computed e else .literal e)
  | .computed e =>
    if computed then .ok (.computed e)
    else
      match e with
      | .ident i => .ok (.ident i)
      | .string _ _ | .number _ _ => .ok (.literal e)
      | _ => .error .keyMustStayComputed

/-- The name of a member put between brackets or taken out of them. Only a name can be taken out. -/
def MemberName.setComputed (computed : Bool) : MemberName → Except EditError MemberName
  | .ident i => .ok (if computed then .computed (.ident i) else .ident i)
  | .computed e =>
    if computed then .ok (.computed e)
    else
      match e with
      | .ident i => .ok (.ident i)
      | _ => .error .memberMustStayComputed

/-- What an expression becomes in place of a pattern: a name or a member. -/
def Expr.toReplacedPattern : Expr → Except EditError Pattern
  | .ident i => .ok (.ident i)
  | .member s e p optional =>
    if (Expr.member s e p optional).isOptionalChain then .error .notAPattern
    else .ok (.target (.member s e p optional))
  | _ => .error .notAPattern

/-- What an expression becomes in place of a name. -/
def Expr.toReplacedName : Expr → Except EditError Ident
  | .ident i => .ok i
  | _ => .error .notAName

end Espalier
