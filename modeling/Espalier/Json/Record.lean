import Espalier.Json.Read

/-!
# Typed values in JSON texts

Readers that give a value of a type or fail. A record may be written as an object, in which each
field occurs at most once and unknown ones are passed over, or as an array of its fields in their
order, of which the last ones may be missing.
-/

namespace Espalier.Json.Read

variable {α σ : Type}

/-- A truth value. -/
def bool : Read Bool := do
  match ← value true 0 with
  | .bool b => return b
  | _ => fail .unfitting

/-- A text. -/
def string : Read String := do
  match ← value true 0 with
  | .string s => return s
  | _ => fail .unfitting

/-- A whole number that is not negative, of at most sixty-four bits, written without point and
exponent. -/
def natural : Read Nat := do
  match ← peekPastBlanks with
  | some c =>
    if c.isDigit then
      match ← numeral false with
      | .whole _ n => return n
      | .double _ => fail .unfitting
    else fail .unfitting
  | none => fail .unfitting

/-- A value, or `null`. -/
def orNull (r : Read α) : Read (Option α) := do
  if (← peekPastBlanks) == some 'n' then
    bump
    word "ull".toList
    return none
  else return some (← r)

/-- A list of values. -/
def listOf (r : Read α) : Read (List α) := do
  if (← peekPastBlanks) != some '[' then fail .unfitting
  bump
  return (← items (fun xs => return (← r) :: xs) []).reverse

/-- One of some words. It may also stand as the only member of an object, with `null` as its
value. -/
def choice (ofText? : String → Option α) : Read α := do
  let known (s : String) : Read α :=
    match ofText? s with
    | some a => return a
    | none => fail .unfitting
  if (← peekPastBlanks) == some '\x7b' then
    bump
    let found ← members true (fun name found => do
      if found.isSome then fail .unfitting
      let a ← known name
      match ← value true 0 with
      | .null => return some a
      | _ => fail .unfitting) none
    match found with
    | some a => return a
    | none => fail .unfitting
  else known (← string)

/-- A field of a record: its name, and how its value is read and put into the record. -/
structure RecordField (σ : Type) where
  name : String
  change : Read (σ → σ)

/-- A field whose value is read by `r`. -/
def field (name : String) (r : Read α) (put : α → σ → σ) : RecordField σ := ⟨name, return put (← r)⟩

/-- A record. What is not written stays as it is in `start`. -/
def record (fields : List (RecordField σ)) (start : σ) : Read σ := do
  match ← peekPastBlanks with
  | some '[' =>
    bump
    let (s, _) ← items (fun (s, fields) => do
      match fields with
      | [] => fail .unfitting
      | f :: fields => return ((← f.change) s, fields)) (start, fields)
    return s
  | some '\x7b' =>
    bump
    let (s, _) ← members true (fun name (s, seen) => do
      match fields.find? (·.name == name) with
      | none =>
        skip
        return (s, seen)
      | some f =>
        if seen.contains name then fail .unfitting
        return ((← f.change) s, name :: seen)) (start, ([] : List String))
    return s
  | _ => fail .unfitting

end Espalier.Json.Read
