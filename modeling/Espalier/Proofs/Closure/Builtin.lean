import Espalier.Proofs.Closure.Origin
import Espalier.Script.Interpreter

/-!
# What is not code of the script makes no functions

Conversions, operators, nodes, paths, and the methods and functions that every script sees hand on
the values that they get or find in the machine, and make none that are functions of the script. So
all of them stay with the functions that a script is written with, if the functions that they call
do.
-/

namespace Espalier.Script

variable {L : List FunctionLiteral}

section

variable {α β : Type} [Carries β]

/-- A value that is chosen between two ways of making one. -/
theorem isFrom_elim {a? : Option α} {b : β} {f : α → β} (hb : IsFrom L b)
    (hf : ∀ a, IsFrom L (f a)) : IsFrom L (a?.elim b f) := by
  cases a? with
  | none => exact hb
  | some a => exact hf a

/-- A value with another one in its stead. -/
theorem isFrom_optionGetD {b? : Option β} {b : β} (h : IsFrom L b?) (hb : IsFrom L b) :
    IsFrom L (b?.getD b) := by
  cases b? with
  | none => exact hb
  | some c => exact h c rfl

/-- Values that are made of others. -/
theorem isFrom_map {as : List α} {f : α → β} (hf : ∀ a, IsFrom L (f a)) : IsFrom L (as.map f) :=
  List.forall_mem_map.mpr fun a _ => hf a

end

/-! ### Conversions and operators -/

theorem stays_toNumber (v : Value) : Stays L (toNumber v) := by
  unfold toNumber
  split
  · exact .pure trivial
  · refine .read (fun m => by rw [m.number?_informed]) fun m _ => ?_
    split
    · exact .pure trivial
    · exact .abort

theorem stays_toTextLocking (locked : Option Container) (v : Value) :
    Stays L (toTextLocking locked v) := by
  unfold toTextLocking
  split
  · exact .pure trivial
  · refine .read (fun m => by rw [m.text?_informed]) fun m _ => ?_
    split
    · exact .pure trivial
    · exact .abort

theorem stays_toText (v : Value) : Stays L (toText v) := stays_toTextLocking none v

theorem stays_caughtValue {e : Failure} (he : IsFrom L e) : Stays L (caughtValue e) := by
  unfold caughtValue
  split
  · exact .pure he
  · exact stays_newError _ _
  · exact .giveUp he

theorem stays_boundedText (s : String) : Stays L (boundedText s) := .ite (.raise _) (.pure trivial)

theorem stays_add (v w : Value) : Stays L (add v w) := by
  refine .ite ?_ ?_
  · exact .bind (stays_toNumber v) fun _ _ => .bind (stays_toNumber w) fun _ _ => .pure trivial
  · exact .bind (stays_toText v) fun _ _ => .bind (stays_toText w) fun _ _ => stays_boundedText _

theorem stays_compareWith (texts : String → String → Bool) (numbers : Float → Float → Bool)
    (v w : Value) : Stays L (compareWith texts numbers v w) := by
  unfold compareWith
  split
  · exact .pure trivial
  · exact .bind (stays_toNumber v) fun _ _ => .bind (stays_toNumber w) fun _ _ => .pure trivial

theorem stays_withNumbers (f : Float → Float → Float) (v w : Value) : Stays L (withNumbers f v w) :=
  .bind (stays_toNumber v) fun _ _ => .bind (stays_toNumber w) fun _ _ => .pure trivial

theorem stays_withWords (f : Int32 → Int32 → Int) (v w : Value) : Stays L (withWords f v w) :=
  .bind (stays_toNumber v) fun _ _ => .bind (stays_toNumber w) fun _ _ => .pure trivial

theorem stays_instanceOf (v type : Value) : Stays L (instanceOf v type) := by
  unfold instanceOf
  split
  · split
    · refine .read (fun _ => rfl) fun m _ => .ite (.pure trivial) (.ite (.pure trivial) ?_)
      split
      · exact .bind (stays_toText _) fun _ _ => .pure trivial
      · exact .pure trivial
    · exact .pure trivial
  · exact .pure trivial
  · exact .pure trivial
  · exact .raise _

/-- Of the operators only `in` asks for a property, and so for what an operation does with values.
-/
theorem stays_binary (op : BinaryOp) {hasProperty : Value → Value → Script Bool} {v w : Value}
    (h : Stays L (hasProperty v w)) : Stays L (binary op hasProperty v w) := by
  cases op with
  | add => exact stays_add v w
  | sub | mul | div | mod | pow => exact stays_withNumbers _ v w
  | equal | notEqual | strictEqual | strictNotEqual => exact .pure trivial
  | less | lessEqual | greater | greaterEqual => exact stays_compareWith _ _ v w
  | shiftLeft | shiftRight | shiftRightZero | bitOr | bitXor | bitAnd =>
    simp only [binary]
    exact stays_withWords _ v w
  | isIn => exact .bind h fun _ _ => .pure trivial
  | instanceOf => exact .bind (stays_instanceOf v w) fun _ _ => .pure trivial

theorem stays_unary (op : UnaryOp) (v : Value) : Stays L (unary op v) := by
  cases op with
  | minus | plus | bitNot => exact .bind (stays_toNumber v) fun _ _ => .pure trivial
  | not | typeof | void | delete => exact .pure trivial

/-! ### Nodes and paths -/

theorem stays_nodeAt (steps : List Step) (key : String) : Stays L (nodeAt steps key) :=
  .read (fun _ => rfl) fun _ _ => .orRaise _ fun _ _ => trivial

theorem isFrom_ofScalar (s : Scalar) : IsFrom L (Value.ofScalar s) := by
  cases s <;> exact trivial

theorem stays_nodeProperty (steps : List Step) (key : String) :
    Stays L (nodeProperty steps key) := by
  refine .bind (stays_nodeAt steps key) fun node _ => ?_
  split
  · exact .pure trivial
  · exact .pure trivial
  · exact .pure trivial
  · split
    · exact .pure trivial
    · refine stays_newArray fun v hv => ?_
      obtain ⟨i, -, rfl⟩ := Array.mem_map.mp hv
      exact trivial
    · exact .pure (isFrom_ofScalar _)
    · exact .pure (isFrom_ofScalar _)
    · exact .pure trivial
    · exact .pure trivial

theorem stays_nodeKeys (steps : List Step) : Stays L (nodeKeys steps) :=
  .bind (stays_nodeAt steps "keys") fun _ _ => .pure fun _ _ => trivial

theorem stays_nodeIs (key : VisitorKey) (steps : List Step) (expected : Value) :
    Stays L (nodeIs key steps expected) := by
  refine .read (fun _ => rfl) fun m _ => .ite (.pure trivial) ?_
  split
  · exact .read (fun _ => rfl) fun m _ =>
      .allM fun _ _ => .bind (stays_nodeProperty _ _) fun _ _ => .pure trivial
  · exact .pure trivial

theorem stays_pathProperty (id : PathId) (key : String) : Stays L (pathProperty id key) := by
  refine .read (fun _ => rfl) fun m _ => ?_
  dsimp only
  split
  · exact .pure (by split <;> exact trivial)
  · exact .pure trivial
  · exact .pure (by split <;> exact trivial)
  · split <;> exact .pure trivial
  · split <;> exact .pure trivial
  · exact .pure trivial
  · exact .pure trivial
  · exact .read (fun _ => rfl) fun _ _ => .pure trivial
  · split
    · exact stays_newMethod _
    · split
      · exact stays_newMethod _
      · exact .pure trivial

theorem stays_isOfType (key : VisitorKey) (this : Option PathId) (args : Array Value) :
    Stays L (isOfType key this args) := by
  unfold isOfType
  split
  · exact .read (fun _ => rfl) fun m _ => .ite (.pure trivial) (stays_nodeIs _ _ _)
  · split
    · exact stays_nodeIs _ _ _
    · exact .pure trivial

/-! ### Edits -/

theorem stays_editProgram (fault : Fault)
    (edit : Program → Option (Except EditError Unit × Program)) :
    Stays L (editProgram fault edit) := by
  refine .read (fun _ => rfl) fun m _ => ?_
  have hedit : IsFrom L (m.target.bind edit) := by
    rintro ⟨given, left⟩ -
    cases given <;> exact ⟨trivial, trivial⟩
  refine .bind (.orRaise _ hedit) fun (given, left) _ => ?_
  refine .bind (.alter (fun _ => rfl) fun _ => rfl) fun _ _ => ?_
  cases given with
  | ok => exact .pure trivial
  | error cause => exact .raise _

theorem stays_setNodeProperty (steps : List Step) (key : String) (v : Value) :
    Stays L (setNodeProperty steps key v) := by
  refine .bind (stays_nodeAt steps key) fun node _ => .when (.raise _) fun _ => ?_
  split
  · exact .bind (.pure trivial) fun _ _ => stays_editProgram _ _
  · exact .bind (.pure trivial) fun _ _ => stays_editProgram _ _
  · exact .bind (.pure trivial) fun _ _ => stays_editProgram _ _
  · exact .bind (.raise _) fun _ _ => stays_editProgram _ _

theorem stays_removeNode (steps : List Step) : Stays L (removeNode steps) := by
  induction steps with
  | nil => exact .raise _
  | cons last above ih =>
    unfold removeNode
    refine .bind (stays_nodeAt _ _) fun node _ => .bind (stays_nodeAt _ _) fun parent _ => ?_
    dsimp only
    split
    · refine .bind (stays_editProgram _ _) fun _ _ => .read (fun _ => rfl) fun m _ => ?_
      exact .ite ih (.pure trivial)
    · exact .ite ih (.raise _)

theorem stays_removePath (id : PathId) : Stays L (removePath id) :=
  .read (fun _ => rfl) fun _ _ => .when (.raise _) fun _ =>
    .bind (stays_removeNode _) fun _ _ => stays_modifyPath _ _

theorem stays_replacePath (id : PathId) (source : String) : Stays L (replacePath id source) := by
  refine .read (fun _ => rfl) fun m _ => .when (.raise _) fun _ => ?_
  split
  · exact .raise _
  · refine .bind (stays_editProgram _ _) fun _ _ => ?_
    exact .bind (stays_nodeAt _ _) fun node _ => stays_modifyPath _ _

theorem stays_callPathMethod (method : PathMethod) (id : PathId) (args : Array Value) :
    Stays L (callPathMethod method id args) := by
  cases method with
  | skip => exact .bind (stays_modifyPath _ _) fun _ _ => .pure trivial
  | stop =>
    exact .bind (.alter (fun _ => rfl) fun _ => rfl) fun _ _ => .pure trivial
  | remove => exact .bind (stays_removePath id) fun _ _ => .pure trivial
  | replaceWithSource =>
    have replaces (source : String) :
        Stays L (replacePath id source >>= fun _ => pure Value.undefined) :=
      .bind (stays_replacePath id source) fun _ _ => .pure trivial
    unfold callPathMethod
    dsimp only
    split
    · exact .bind (stays_toText _) fun source _ => replaces source
    · exact .bind (.pure trivial) fun source _ => replaces source

/-! ### Regular expressions -/

theorem stays_newRegex (source flags : String) : Stays L (newRegex source flags) := by
  refine .read (fun _ => rfl) fun m _ => ?_
  split
  · exact .raise _
  · exact .modifyGet (fun _ => rfl) fun _ hm => ⟨trivial, hm.of_stores_eq rfl⟩

theorem stays_lastIndex (r : RegexValue) : Stays L (lastIndex r) :=
  .read (fun _ => rfl) fun _ _ => .pure trivial

theorem stays_setLastIndex (r : RegexValue) (n : Nat) : Stays L (setLastIndex r n) :=
  .alter (fun _ => rfl) fun _ => rfl

theorem stays_test (r : RegexValue) (subject : String) : Stays L (r.test subject) := by
  refine .ite (.pure trivial) (.bind (stays_lastIndex r) fun n _ => ?_)
  split
  · exact .bind (stays_setLastIndex r _) fun _ _ => .pure trivial
  · exact .bind (stays_setLastIndex r 0) fun _ _ => .pure trivial

/-! ### Properties -/

theorem stays_methodOr (method : Option Method) : Stays L (methodOr method) := by
  cases method with
  | none => exact .pure trivial
  | some method => exact stays_newMethod method

theorem stays_objectProperty (o : ObjectId) (name : String) : Stays L (objectProperty o name) := by
  refine .read (fun _ => rfl) fun m hm => ?_
  dsimp only
  split
  · next v hv => exact .pure (isFrom_get? (hm.object o) name v hv)
  · exact stays_methodOr _
  · exact .pure trivial

theorem stays_getProperty (v key : Value) : Stays L (getProperty v key) := by
  unfold getProperty
  -- Only arrays and objects hold values of a script; all else is made up on the spot.
  cases v with
  | undefined => exact .bind (stays_toText key) fun _ _ => .raise _
  | null => exact .bind (stays_toText key) fun _ _ => .raise _
  | bool b => exact .bind (stays_toText key) fun _ _ => .pure trivial
  | number x => exact .bind (stays_toText key) fun _ _ => stays_methodOr _
  | string s =>
    dsimp only
    split
    · exact .pure (isFrom_elim trivial fun _ => trivial)
    · exact .bind (stays_toText key) fun _ _ => .ite (.pure trivial) (stays_methodOr _)
  | array a =>
    dsimp only
    split
    · exact .read (fun _ => rfl) fun m hm => .pure (isFrom_getD (hm.items a) _ trivial)
    · exact .bind (stays_toText key) fun _ _ =>
        .ite (.read (fun _ => rfl) fun _ _ => .pure trivial) (stays_methodOr _)
  | object o => exact .bind (stays_toText key) fun _ _ => stays_objectProperty o _
  | function f =>
    refine .bind (stays_toText key) fun name _ => ?_
    split <;> exact .pure trivial
  | native f =>
    refine .bind (stays_toText key) fun name _ => .pure ?_
    split <;> exact trivial
  | regex r =>
    refine .bind (stays_toText key) fun name _ => ?_
    split
    · exact .pure trivial
    · exact .pure trivial
    · exact .pure trivial
    · exact .bind (stays_lastIndex r) fun _ _ => .pure trivial
    · exact stays_methodOr _
  | node steps => exact .bind (stays_toText key) fun _ _ => stays_nodeProperty steps _
  | path id => exact .bind (stays_toText key) fun _ _ => stays_pathProperty id _

/-- An array grows by nothings, and shrinks to its first items. -/
theorem isFrom_resize (n : Nat) {items : Array Value} (h : IsFrom L items) :
    IsFrom L (resize n items) := by
  unfold resize
  split
  · refine isFrom_append h fun v hv => ?_
    obtain ⟨-, rfl⟩ := Array.mem_replicate.mp hv
    exact trivial
  · rw [Array.take_eq_extract]
    exact isFrom_extract h 0 n

/-- An item of an array is replaced by a value of the same functions. -/
theorem isFrom_setIfInBounds {items : Array Value} (h : IsFrom L items) (i : Nat) {v : Value}
    (hv : IsFrom L v) : IsFrom L (items.setIfInBounds i v) := by
  intro w hw
  rcases Array.mem_or_eq_of_mem_setIfInBounds hw with hw | rfl
  · exact h w hw
  · exact hv

/-- What is put into an object or array is a value at hand. -/
theorem stays_setProperty (v key : Value) {value : Value} (hvalue : IsFrom L value) :
    Stays L (setProperty v key value) := by
  unfold setProperty
  -- A key names a place of an array or a property; other containers hold no values.
  split
  · exact .bind (stays_toTextLocking _ key) fun name _ =>
      stays_modifyObject _ fun o ho => isFrom_set ho name hvalue
  · split
    · refine .when (.raise _) fun _ => stays_modifyItems _ fun items hitems => ?_
      refine isFrom_setIfInBounds ?_ _ hvalue
      split
      · exact isFrom_resize _ hitems
      · exact hitems
    · refine .bind (stays_toTextLocking _ key) fun _ _ => .ite ?_ (.pure trivial)
      split
      · exact stays_modifyItems _ fun items hitems => isFrom_resize _ hitems
      · exact .raise _
  · exact .bind (stays_toText key) fun name _ => .editing (stays_setNodeProperty _ name value)
  · exact .bind (stays_toText key) fun _ _ => .raise _
  · exact .bind (stays_toText key) fun _ _ => .raise _
  · exact .bind (stays_toText key) fun _ _ => .raise _
  · exact .pure trivial

theorem stays_deleteProperty (v key : Value) : Stays L (deleteProperty v key) := by
  refine .bind (stays_toText key) fun name _ => ?_
  split
  · exact stays_modifyObject _ fun o ho => isFrom_remove ho name
  · exact .raise _
  · exact .pure trivial

theorem stays_hasProperty (key v : Value) : Stays L (hasProperty key v) := by
  refine .bind (stays_toText key) fun name _ => ?_
  split
  case h_1 | h_2 => exact .read (fun _ => rfl) fun _ _ => .pure trivial
  case h_5 => exact .bind (stays_toText _) fun _ _ => .raise _
  all_goals
    refine .bind (stays_getProperty _ key) fun found _ => ?_
    split <;> exact .pure trivial

theorem stays_ownKeys (v : Value) : Stays L (ownKeys v) := by
  unfold ownKeys
  dsimp only
  split
  · exact stays_nodeKeys _
  · exact .read (fun _ => rfl) fun _ _ => .pure fun _ _ => trivial
  · exact .read (fun _ => rfl) fun _ _ => .pure fun _ _ => trivial
  · exact .pure fun _ _ => trivial
  · exact .pure fun _ _ => trivial

theorem stays_iterate (v : Value) : Stays L (iterate v) := by
  unfold iterate
  split
  · next a => exact .read (fun _ => rfl) fun m hm => .pure (hm.items a)
  · exact .pure (isFrom_toArray (isFrom_map fun _ => trivial))
  · exact .raise _
  · exact .raise _
  · exact .raise _

/-! ### The console and JSON texts -/

theorem stays_log (level : Level) (values : Array Value) : Stays L (log level values) := by
  refine .read (fun m => by rw [m.shown?_informed]) fun m _ => ?_
  split
  · exact stays_writeLine _ _
  · exact .abort

theorem stays_stringify (v space : Value) : Stays L (stringify v space) := by
  refine .read (fun m => by rw [m.json_informed]) fun m _ => ?_
  split
  · exact .raise _
  · exact .pure trivial
  · exact .pure trivial

mutual

/-- A JSON text has no functions. -/
theorem stays_ofJson (j : Json) : Stays L (ofJson j) := by
  unfold ofJson
  split
  · exact .pure trivial
  · exact .pure trivial
  · exact .pure trivial
  · exact .pure trivial
  · exact .bind (stays_itemsOfJson (isFrom_toArray isFrom_nil) _) fun _ hitems =>
      stays_newArray hitems
  · exact .bind (stays_membersOfJson isFrom_nil _) fun _ hmembers =>
      stays_newObject (isFrom_ofList hmembers)

theorem stays_itemsOfJson {done : Array Value} (hdone : IsFrom L done) (js : List Json) :
    Stays L (itemsOfJson done js) := by
  cases js with
  | nil => exact .pure hdone
  | cons j js =>
    exact .bind (stays_ofJson j) fun v hv => stays_itemsOfJson (isFrom_push hdone hv) js

theorem stays_membersOfJson {done : List (String × Value)} (hdone : IsFrom L done)
    (js : List (String × Json)) : Stays L (membersOfJson done js) := by
  cases js with
  | nil => exact .pure fun p hp => hdone p (List.mem_reverse.mp hp)
  | cons j js =>
    obtain ⟨name, j⟩ := j
    exact .bind (stays_ofJson j) fun v hv =>
      stays_membersOfJson (isFrom_cons ⟨trivial, hv⟩ hdone) js

end

theorem stays_parseJson (source : String) : Stays L (parseJson source) := by
  refine .read (fun _ => rfl) fun m _ => ?_
  split
  · exact .raise _
  · exact stays_ofJson _

/-! ### Numbers -/

theorem stays_callNumber (method : NumberMethod) (x : Float) (args : Array Value) :
    Stays L (callNumber method x args) := by
  unfold callNumber
  cases method with
  | toString =>
    dsimp only
    split
    · exact .pure trivial
    · exact .bind (stays_toNumber _) fun _ _ => .ite (.raise _) (.pure trivial)
  | toFixed =>
    have fixes (places : Float) : Stays L
        (if 0 ≤ places && places ≤ 100 then
          pure (Value.string (Number.fixedText (Double.toIntTrunc places).toNat x))
        else raise .fixedDigits) :=
      .ite (.pure trivial) (.raise _)
    dsimp only
    split
    · exact .bind (stays_toNumber _) fun places _ => fixes places
    · exact .bind (.pure trivial) fun places _ => fixes places

theorem stays_callMath (f : MathFunction) (args : Array Value) : Stays L (callMath f args) := by
  have first {k : Float → Script Value} (hk : ∀ x, Stays L (k x)) :
      Stays L (toNumber (Args.item args 0) >>= k) :=
    .bind (stays_toNumber _) fun x _ => hk x
  have all {k : Float → Script Value} (g : Array Float → Float) (hk : ∀ x, Stays L (k x)) :
      Stays L ((do return g (← args.mapM toNumber)) >>= k) :=
    .bind (.bind (.arrayMapM fun v _ => stays_toNumber v) fun _ _ => .pure trivial) fun x _ => hk x
  unfold callMath
  cases f with
  | max => exact all _ fun _ => .pure trivial
  | min => exact all _ fun _ => .pure trivial
  | pow => exact first fun _ => .bind (stays_toNumber _) fun _ _ => .pure trivial
  | floor | ceil | round | trunc | sign | abs | sqrt => exact first fun _ => .pure trivial

/-! ### Texts -/

/-- An argument, or nothing. -/
theorem isFrom_item {args : Array Value} (h : IsFrom L args) (i : Nat) :
    IsFrom L (Args.item args i) :=
  isFrom_getD h i trivial

theorem stays_place (args : Array Value) (i missing : Nat) (place : Float → Nat) :
    Stays L (Args.place args i missing place) := by
  unfold Args.place
  split
  · exact .pure trivial
  · exact .bind (stays_toNumber _) fun _ _ => .pure trivial

theorem stays_range (args : Array Value) (length : Nat) : Stays L (Args.range args length) :=
  .bind (stays_place _ _ _ _) fun _ _ => .bind (stays_place _ _ _ _) fun _ _ =>
    .pure ⟨trivial, trivial⟩

theorem stays_checkLength (bytes : Nat) : Stays L (checkLength bytes) :=
  .ite (.raise _) (.pure trivial)

theorem stays_matchesIn (subject : List Char) (pattern : Value) (all : Bool) :
    Stays L (matchesIn subject pattern all) := by
  unfold matchesIn
  split
  · exact .pure fun _ _ => trivial
  · exact .bind (stays_toText _) fun _ _ => .pure fun _ _ => trivial

theorem stays_splitting (s : String) (separator : Value) : Stays L (splitting s separator) := by
  unfold splitting
  dsimp only
  split
  · exact .pure (isFrom_cons trivial isFrom_nil)
  · exact .pure (isFrom_map fun _ => trivial)
  · refine .bind (stays_toText _) fun _ _ => .pure ?_
    split
    · exact isFrom_map fun _ => trivial
    · exact isFrom_map fun _ => trivial

theorem isFrom_placeOrNone (i? : Option Nat) : IsFrom L (Value.placeOrNone i?) := by
  cases i? <;> exact trivial

/-- The group of a match, if it takes part in it. -/
theorem isFrom_group (g? : Option (List Char)) :
    IsFrom L ((g?.map Value.ofChars).getD .undefined) := by
  cases g? <;> exact trivial

theorem stays_matching (s : String) (pattern : Value) : Stays L (matching s pattern) := by
  have hhow (how : Bool × Regex.Searcher) : Stays L (pure how : Script (Bool × Regex.Searcher)) :=
    .pure ⟨trivial, trivial⟩
  unfold matching
  split
  case' h_1 => refine .bind (hhow _) fun how _ => ?_
  case' h_2 =>
    refine .bind (stays_toText _) fun source _ => .read (fun _ => rfl) fun m _ => ?_
    split
    case' h_1 => refine .bind (hhow _) fun how _ => ?_
    case' h_2 => refine .bind (.raise _) fun how _ => ?_
  all_goals
    refine .ite (.ite (.pure trivial) (stays_newArray ?_)) ?_
    · exact isFrom_toArray (isFrom_map fun _ => trivial)
    · split
      · refine stays_newArray (isFrom_toArray ?_)
        exact isFrom_cons trivial (isFrom_map isFrom_group)
      · exact .pure trivial

theorem stays_target (s : String) (args : Array Value) : Stays L (callString.target s args) := by
  have fills (length : Nat) (filler : String) : Stays L
      (pure (if filler.isEmpty then 0 else length - s.length, filler) : Script (Nat × String)) :=
    .pure ⟨trivial, trivial⟩
  refine .bind (stays_place _ _ _ _) fun length _ => ?_
  split
  · exact .bind (.pure trivial) fun filler _ => fills length filler
  · exact .bind (stays_toText _) fun filler _ => fills length filler

/-- Calls stay with the functions `L`, if what is called, the receiver and the arguments do. -/
def Caller.Stays (L : List FunctionLiteral) (call : Caller) : Prop :=
  ∀ f this args, IsFrom L f → IsFrom L this → IsFrom L args → Script.Stays L (call f this args)

section Calls

variable {call : Caller} (hcall : call.Stays L)

include hcall

theorem stays_replacementOf (subject : String) {replacement : Value}
    (hreplacement : IsFrom L replacement) (p : Text.Piece) :
    Stays L (replacementOf call subject replacement p) := by
  refine .ite ?_ ?_
  · refine .bind (hcall _ _ _ hreplacement trivial (isFrom_toArray ?_)) fun _ _ => stays_toText _
    refine isFrom_cons trivial (List.forall_mem_append.mpr ⟨isFrom_map isFrom_group, ?_⟩)
    exact isFrom_cons trivial (isFrom_cons trivial isFrom_nil)
  · exact .bind (stays_toText _) fun _ _ => .ite (.pure trivial) (.pure trivial)

theorem stays_replacing (subject : String) (pattern : Value) {replacement : Value}
    (hreplacement : IsFrom L replacement) (all : Bool) :
    Stays L (replacing call subject pattern replacement all) := by
  unfold replacing
  split
  case' h_1 =>
    refine .ite (.bind (.raise _) fun all _ => ?_) (.bind (.pure trivial) fun all _ => ?_)
  case' h_2 => refine .bind (.pure trivial) fun all _ => ?_
  all_goals
    refine .bind (stays_matchesIn _ _ _) fun found _ => ?_
    refine .bind (.foldlM (fun out _ p _ => ?_) trivial) ?_
    · exact .bind (stays_replacementOf hcall _ hreplacement p) fun _ _ =>
        .bind (stays_checkLength _) fun _ _ => .pure trivial
    · exact fun _ _ => .pure trivial

/-- The methods of texts. Those that call a function get it as an argument. -/
theorem stays_callString (method : StringMethod) (s : String) {args : Array Value}
    (hargs : IsFrom L args) : Stays L (callString call method s args) := by
  unfold callString
  cases method with
  | toString | toUpperCase | toLowerCase | trim | trimStart | trimEnd => exact .pure trivial
  | includes | startsWith | endsWith =>
    exact .bind (stays_place _ _ _ _) fun _ _ => .bind (stays_toText _) fun _ _ => .pure trivial
  | indexOf =>
    exact .bind (stays_place _ _ _ _) fun _ _ => .bind (stays_toText _) fun _ _ =>
      .pure (isFrom_placeOrNone _)
  | lastIndexOf => exact .bind (stays_toText _) fun _ _ => .pure (isFrom_placeOrNone _)
  | slice => exact .bind (stays_range _ _) fun _ _ => .pure trivial
  | substring =>
    exact .bind (stays_place _ _ _ _) fun _ _ => .bind (stays_place _ _ _ _) fun _ _ =>
      .pure trivial
  | charAt =>
    exact .bind (stays_place _ _ _ _) fun _ _ => .pure (isFrom_elim trivial fun _ => trivial)
  | item => exact .bind (stays_toNumber _) fun _ _ => .pure (isFrom_elim trivial fun _ => trivial)
  | split =>
    -- The parts of a text are texts, however many of them are asked for.
    have splits (limit? : Option Nat) : Stays L (do
        let parts ← splitting s (Args.item args 0)
        newArray (limit?.elim parts parts.take).toArray) := by
      refine .bind (stays_splitting _ _) fun parts hparts => stays_newArray (isFrom_toArray ?_)
      exact isFrom_elim hparts fun n v hv => hparts v (List.mem_of_mem_take hv)
    dsimp only
    split
    · exact .bind (.pure isFrom_none) fun limit? _ => splits limit?
    · exact .bind (stays_toNumber _) fun _ _ =>
        .bind (.pure fun _ _ => trivial) fun limit? _ => splits limit?
  | replace | replaceAll => exact stays_replacing hcall _ _ (isFrom_item hargs 1) _
  | repeats =>
    exact .bind (stays_toNumber _) fun _ _ => .when (.raise _) fun _ =>
      .bind (stays_checkLength _) fun _ _ => .pure trivial
  | concat =>
    refine .bind (.arrayFoldlM (fun _ _ v _ => ?_) trivial) fun _ _ =>
      .bind (stays_checkLength _) fun _ _ => .pure trivial
    exact .bind (stays_toText v) fun _ _ => .pure trivial
  | padStart => exact .bind (stays_target _ _) fun _ _ => .pure trivial
  | padEnd => exact .bind (stays_target _ _) fun _ _ => .pure trivial
  | matching => exact stays_matching _ _

/-! ### Arrays -/

omit hcall in
theorem stays_callable (v : Value) : Stays L (callable v) :=
  .ite (.bind (stays_toText v) fun _ _ => .raise _) (.pure trivial)

omit hcall in
/-- What a method gives at the end are items that it has kept. -/
theorem stays_atEnd (method : IterationMethod) {kept : Array Value} (hkept : IsFrom L kept) :
    Stays L (method.atEnd kept) := by
  cases method with
  | map | filter => exact stays_newArray hkept
  | forEach | find | findIndex | some | every => exact .pure trivial

omit hcall in
/-- What a method keeps of an item is the item, or what was answered for it. -/
theorem isFrom_take (method : IterationMethod) (i : Nat) {item answer : Value}
    (hitem : IsFrom L item) (hanswer : IsFrom L answer) :
    IsFrom L (method.take i item answer) := by
  cases method with
  | map => exact isFrom_some hanswer
  | filter =>
    show IsFrom L (if answer.truthy then some item else none)
    split
    · exact isFrom_some hitem
    · exact isFrom_none
  | forEach => exact isFrom_none
  | find | findIndex | some | every =>
    simp only [IterationMethod.take]
    split
    · first | exact hitem | exact trivial
    · exact isFrom_none

omit hcall in
theorem stays_joining (separator : String) (items : Array Value) :
    Stays L (joining separator items) :=
  .bind (.mapM fun _ _ => .ite (.pure trivial) (stays_toText _)) fun _ _ => .pure trivial

/-- The function is called for each item, and what it answers is kept or not. -/
theorem stays_iterating (method : IterationMethod) {callback array : Value}
    (hcallback : IsFrom L callback) (harray : IsFrom L array) {kept : Array Value}
    (hkept : IsFrom L kept) (i : Nat) {items : List Value} (hitems : IsFrom L items) :
    Stays L (iterating call method callback array kept i items) := by
  induction items generalizing kept i with
  | nil => exact stays_atEnd method hkept
  | cons item rest ih =>
    obtain ⟨hitem, hrest⟩ := List.forall_mem_cons.mp hitems
    -- A callback gets the item, its place and the array.
    have hargs : IsFrom L #[item, .nat i, array] :=
      isFrom_toArray (isFrom_cons hitem (isFrom_cons trivial (isFrom_cons harray isFrom_nil)))
    unfold iterating
    refine .bind (hcall _ _ _ hcallback trivial hargs) fun answer hanswer => ?_
    have htake := isFrom_take method i hitem hanswer
    split
    · next result heq =>
      rw [heq] at htake
      exact .pure htake
    · next v? heq =>
      rw [heq] at htake
      refine ih ?_ _ hrest
      cases v? with
      | none => exact hkept
      | some v => exact isFrom_push hkept (htake v rfl)

theorem stays_reducing {callback array acc : Value} (hcallback : IsFrom L callback)
    (harray : IsFrom L array) (hacc : IsFrom L acc) (i : Nat) {items : List Value}
    (hitems : IsFrom L items) : Stays L (reducing call callback array acc i items) := by
  induction items generalizing acc i with
  | nil => exact .pure hacc
  | cons item rest ih =>
    obtain ⟨hitem, hrest⟩ := List.forall_mem_cons.mp hitems
    have hargs : IsFrom L #[acc, item, .nat i, array] :=
      isFrom_toArray (isFrom_cons hacc
        (isFrom_cons hitem (isFrom_cons trivial (isFrom_cons harray isFrom_nil))))
    exact .bind (hcall _ _ _ hcallback trivial hargs) fun acc hacc => ih hacc _ hrest

/-- The methods of arrays. What they give and keep are items of arrays and arguments. -/
theorem stays_callArray (method : ArrayMethod) (a : ArrayId) {args : Array Value}
    (hargs : IsFrom L args) : Stays L (callArray call method a args) := by
  -- The array itself is handed on to callbacks.
  have harray : IsFrom L (Value.array a) := trivial
  have items : Stays L (do return (← get).items a : Script (Array Value)) :=
    .read (fun _ => rfl) fun m hm => .pure (hm.items a)
  unfold callArray
  cases method with
  | toString => exact .bind (stays_toText _) fun _ _ => .pure trivial
  | push =>
    exact .bind items fun _ _ => .when (.raise _) fun _ =>
      .bind (stays_modifyItems _ fun _ hitems => isFrom_append hitems hargs) fun _ _ =>
        .pure trivial
  | pop =>
    refine .bind items fun all hall => .bind (stays_modifyItems _ fun _ hitems => ?_) fun _ _ =>
      .pure (isFrom_optionGetD ?_ trivial)
    · exact isFrom_pop hitems
    · exact fun v hv => hall v (Array.mem_of_back? hv)
  | shift =>
    refine .bind items fun all hall => .bind (stays_modifyItems _ fun _ hitems => ?_) fun _ _ =>
      .pure (isFrom_optionGetD ?_ trivial)
    · exact isFrom_eraseIdxIfInBounds hitems 0
    · exact fun v hv => hall v (Array.mem_of_getElem? hv)
  | unshift =>
    exact .bind (stays_modifyItems _ fun _ hitems => isFrom_append hargs hitems) fun _ _ =>
      .bind items fun _ _ => .pure trivial
  | join =>
    have joins (separator : String) : Stays L (do
        return Value.string (← joining separator (← (do return (← get).items a)))) :=
      .bind items fun _ _ => .bind (stays_joining _ _) fun _ _ => .pure trivial
    dsimp only
    split
    · exact .bind (.pure trivial) fun separator _ => joins separator
    · exact .bind (stays_toText _) fun separator _ => joins separator
  | iterate method =>
    refine .bind (stays_callable _) fun _ _ => .bind items fun all hall => ?_
    exact stays_iterating hcall method (isFrom_item hargs 0) harray (isFrom_toArray isFrom_nil) 0
      (isFrom_toList hall)
  | reduce =>
    have hcallback := isFrom_item hargs 0
    refine .bind (stays_callable _) fun _ _ => .bind items fun all hall => ?_
    have hlist : IsFrom L all.toList := isFrom_toList hall
    split
    · next start hstart =>
      have hacc := hargs start (Array.mem_of_getElem? hstart)
      exact stays_reducing hcall hcallback harray hacc _ hlist
    · next first rest _ heq =>
      rw [heq] at hlist
      obtain ⟨hfirst, hrest⟩ := List.forall_mem_cons.mp hlist
      exact stays_reducing hcall hcallback harray hfirst _ hrest
    · exact .raise _
  | includes => exact .bind items fun _ _ => .pure trivial
  | indexOf => exact .bind items fun _ _ => .pure (isFrom_placeOrNone _)
  | slice =>
    exact .bind items fun _ hall => .bind (stays_range _ _) fun _ _ =>
      stays_newArray (isFrom_extract hall _ _)
  | concat =>
    refine .bind items fun all hall => .bind (.arrayFoldlM (fun done hdone v hv => ?_) hall)
      fun all hall => stays_newArray hall
    split
    · next b => exact .read (fun _ => rfl) fun m hm => .pure (isFrom_append hdone (hm.items b))
    · exact .pure (isFrom_push hdone (hargs v hv))
  | reverse =>
    refine .bind (stays_modifyItems _ fun _ hitems => ?_) fun _ _ => .pure trivial
    exact fun v hv => hitems v (Array.mem_reverse.mp hv)

end Calls

/-! ### Functions without a receiver -/

theorem stays_makeError (kind : ErrorKind) (args : Array Value) :
    Stays L (makeError kind args) := by
  unfold makeError
  split
  · exact .bind (.pure trivial) fun _ _ => stays_newError _ _
  · exact .bind (stays_toText _) fun _ _ => stays_newError _ _

theorem stays_collect (f : ObjectFunction) (v : Value) (key : String) :
    Stays L (f.collect v key) := by
  unfold ObjectFunction.collect
  split
  · exact .pure trivial
  · exact stays_getProperty _ _
  · exact .bind (stays_getProperty _ _) fun _ hv =>
      stays_newArray (isFrom_toArray (isFrom_cons trivial (isFrom_cons hv isFrom_nil)))

theorem stays_assignFrom (target source : Value) : Stays L (assignFrom target source) :=
  .bind (stays_ownKeys _) fun _ _ =>
    .forM fun _ _ => .bind (stays_getProperty _ _) fun _ hv => stays_setProperty _ _ hv

theorem stays_callObject (f : ObjectFunction) {args : Array Value} (hargs : IsFrom L args) :
    Stays L (callObject f args) := by
  have collects : Stays L (do
      newArray (← (← ownKeys (Args.item args 0)).mapM (f.collect (Args.item args 0))).toArray) :=
    .bind (stays_ownKeys _) fun _ _ => .bind (.mapM fun key _ => stays_collect _ _ key) fun _ hvs =>
      stays_newArray (isFrom_toArray hvs)
  unfold callObject
  cases f with
  | keys => exact .when (.raise _) fun _ => collects
  | values => exact .when (.raise _) fun _ => collects
  | entries => exact .when (.raise _) fun _ => collects
  | assign =>
    exact .bind (.forM fun source _ => stays_assignFrom _ source) fun _ _ =>
      .pure (isFrom_item hargs 0)
  | freeze => exact .pure (isFrom_item hargs 0)

/-- The functions that every script sees. None of them makes a function. -/
theorem stays_callGlobal (f : Global) {args : Array Value} (hargs : IsFrom L args) :
    Stays L (callGlobal f args) := by
  unfold callGlobal
  cases f with
  | string =>
    dsimp only
    split
    · exact .pure trivial
    · exact .bind (stays_toText _) fun _ _ => .pure trivial
  | number =>
    dsimp only
    split
    · exact .pure trivial
    · exact .bind (stays_toNumber _) fun _ _ => .pure trivial
  | boolean => exact .pure trivial
  | parseInt =>
    refine .bind (stays_toText _) fun text _ => ?_
    split
    · exact .bind (.pure trivial) fun _ _ => .pure trivial
    · exact .bind (stays_toNumber _) fun _ _ => .bind (.pure trivial) fun _ _ => .pure trivial
  | parseFloat => exact .bind (stays_toText _) fun _ _ => .pure trivial
  | isNaN => exact .bind (stays_toNumber _) fun _ _ => .pure trivial
  | isFinite => exact .bind (stays_toNumber _) fun _ _ => .pure trivial
  | error kind => exact stays_makeError kind args
  | console f => exact .bind (stays_log _ _) fun _ _ => .pure trivial
  | stringify => exact stays_stringify _ _
  | parseJson => exact .bind (stays_toText _) fun _ _ => stays_parseJson _
  | math f => exact stays_callMath f args
  | object f => exact stays_callObject f hargs
  | isArray =>
    dsimp only
    split <;> exact .pure trivial
  | arrayFrom => exact .bind (stays_iterate _) fun _ hitems => stays_newArray hitems
  | assertVersion => exact .pure trivial

theorem stays_callRegex (method : RegexMethod) (r : RegexValue) (args : Array Value) :
    Stays L (callRegex method r args) := by
  unfold callRegex
  cases method with
  | toString => exact .pure trivial
  | test =>
    dsimp only
    split
    · exact .bind (stays_toText _) fun _ _ => .bind (stays_test _ _) fun _ _ => .pure trivial
    · exact .bind (.pure trivial) fun _ _ => .bind (stays_test _ _) fun _ _ => .pure trivial

/-- Functions that are not code of the script stay with the functions `L`, if those that they call
do. -/
theorem stays_callNative {call : Caller} (hcall : call.Stays L) (f : Native) {args : Array Value}
    (hargs : IsFrom L args) : Stays L (callNative call f args) := by
  unfold callNative
  split
  · exact stays_callGlobal _ hargs
  · exact stays_callString hcall _ _ hargs
  · exact stays_callArray hcall _ _ hargs
  · exact stays_callNumber _ _ args
  · exact stays_callRegex _ _ args
  · split
    · exact .editing (stays_callPathMethod _ _ args)
    · exact stays_callPathMethod _ _ args
  · exact .bind (stays_isOfType _ _ _) fun _ _ => .pure trivial

end Espalier.Script
