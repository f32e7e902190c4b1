import Espalier.Grammar.Parse

/-!
# Reading binding patterns

The patterns of declarations, parameters and catch clauses, and the keys of properties.
-/

namespace Espalier.Grammar

open Parse

/-- The key of a property or of a member. -/
def propertyKey (g : Grammar) : Parse PropertyKey := do
  let t ← token
  match t.kind with
  | .string value =>
    let _ ← advance
    return .literal (.string t.span value)
  | .number value =>
    let _ ← advance
    return .literal (.number t.span value)
  | .punct .leftBracket =>
    let _ ← advance
    let key ← withIn true g.assignment
    expect .rightBracket
    return .computed key
  | _ => return .ident (← identifierName)

/-- What follows `...`: a rest that started at `start`. -/
def restPattern (g : Grammar) (start : Nat) : Parse Pattern := do
  let argument ← g.pattern
  return .rest (← finish start) argument

/-- A pattern with or without a default. -/
def bindingElement (g : Grammar) : Parse Pattern := do
  let start ← start
  let pattern ← g.pattern
  if ← eat .assign then
    let right ← withIn true g.assignment
    return .default (← finish start) pattern right
  else return pattern

/-- An array pattern. Commas with nothing between them leave holes. -/
def arrayPattern (g : Grammar) : Parse Pattern := do
  let start ← start
  expect .leftBracket
  let elements ← repeatFrom (fun elements => do
    if ← isPunct .rightBracket then return .last elements
    else if ← eat .comma then return .again (none :: elements)
    else
      let elementStart ← Parse.start
      if ← eat .ellipsis then return .last (some (← restPattern g elementStart) :: elements)
      else
        let element ← bindingElement g
        unless ← isPunct .rightBracket do expect .comma
        return .again (some element :: elements)) []
  expect .rightBracket
  return .array (← finish start) elements.reverse

/-- A part of an object pattern, and whether it has to be the last one. -/
def patternProperty (g : Grammar) : Parse (PatternProperty × Bool) := do
  let start ← start
  if ← eat .ellipsis then
    let argument ← g.pattern
    return (.rest (← finish start) argument, true)
  else
    let key ← propertyKey g
    if ← eat .colon then
      let value ← bindingElement g
      return (.entry (← finish start) key value false, false)
    else
      match key with
      | .ident name =>
        if (Keyword.ofText? name.name).isSome then fail (.keywordAsName name.name) name.span
        else if ← eat .assign then
          let right ← withIn true g.assignment
          let span ← finish start
          return (.entry span key (.default span (.ident name) right) true, false)
        else return (.entry (← finish start) key (.ident name) true, false)
      | _ => unexpected

def objectPattern (g : Grammar) : Parse Pattern := do
  let start ← start
  expect .leftBrace
  let properties ← itemsBefore .rightBrace (patternProperty g)
  expect .rightBrace
  return .object (← finish start) properties

/-- A pattern that binds names. -/
def bindingPattern (g : Grammar) : Parse Pattern := do
  match ← kind with
  | .punct .leftBracket => arrayPattern g
  | .punct .leftBrace => objectPattern g
  | _ => return .ident (← bindingName)

end Espalier.Grammar
