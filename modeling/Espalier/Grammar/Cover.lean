import Espalier.Grammar.Error
import Espalier.Syntax

/-!
# Expressions read as patterns

What stands left of `=` or `=>` is read as an expression before the sign shows what it is.
`Expr.toPattern` turns it into the pattern that it spells, `Expr.toSimpleTarget` into the target of
a compound assignment, and `Pattern.checkBinding` tells whether a pattern binds nothing but names.
-/

namespace Espalier

mutual

/-- The pattern that an expression spells. -/
def Expr.toPattern : Expr → Except SyntaxError Pattern
  | .ident i => .ok (.ident i)
  | .array s es => return .array s (← elementsToPatterns es)
  | .object s ps => return .object s (← propertiesToPatterns ps)
  | .assign s .plain l r => .ok (.default s l r)
  | .member s o p optional =>
    if (Expr.member s o p optional).isOptionalChain then .error ⟨.assignmentTarget, s⟩
    else .ok (.target (.member s o p optional))
  | e => .error ⟨.assignmentTarget, e.span⟩

/-- The patterns that the elements of an array literal spell; a spread becomes a rest. -/
def elementsToPatterns : List (Option Expr) → Except SyntaxError (List (Option Pattern))
  | [] => .ok []
  | none :: es => return none :: (← elementsToPatterns es)
  | some (.spread s e) :: es => do
    let p ← e.toPattern
    return some (.rest s p) :: (← elementsToPatterns es)
  | some e :: es => do
    let p ← e.toPattern
    return some p :: (← elementsToPatterns es)

/-- The pattern properties that the properties of an object literal spell. -/
def propertiesToPatterns : List Property → Except SyntaxError (List PatternProperty)
  | [] => .ok []
  | .init s key value shorthand :: ps => do
    let p ← value.toPattern
    return .entry s key p shorthand :: (← propertiesToPatterns ps)
  | .spread s e :: ps => do
    let p ← e.toPattern
    return .rest s p :: (← propertiesToPatterns ps)
  | .method s _ _ _ :: _ => .error ⟨.destructuringTarget, s⟩

end

/-- The target of a compound assignment that an expression spells. -/
def Expr.toSimpleTarget : Expr → Except SyntaxError Pattern
  | .ident i => .ok (.ident i)
  | .member s o p optional =>
    if (Expr.member s o p optional).isOptionalChain then .error ⟨.assignmentTarget, s⟩
    else .ok (.target (.member s o p optional))
  | e => .error ⟨.assignmentTarget, e.span⟩

mutual

/-- Fails where a pattern assigns to a member, which a parameter cannot do. -/
def Pattern.checkBinding : Pattern → Except SyntaxError Unit
  | .ident _ => .ok ()
  | .target e => .error ⟨.memberBinding, e.span⟩
  | .array _ es => checkBindingElements es
  | .object _ ps => checkBindingProperties ps
  | .default _ p _ => p.checkBinding
  | .rest _ p => p.checkBinding

def checkBindingElements : List (Option Pattern) → Except SyntaxError Unit
  | [] => .ok ()
  | none :: es => checkBindingElements es
  | some p :: es => do
    p.checkBinding
    checkBindingElements es

def checkBindingProperties : List PatternProperty → Except SyntaxError Unit
  | [] => .ok ()
  | .entry _ _ p _ :: ps => do
    p.checkBinding
    checkBindingProperties ps
  | .rest _ p :: ps => do
    p.checkBinding
    checkBindingProperties ps

end

end Espalier
