import Espalier.Proofs.Script.Primitive

/-!
# Relations between operations on values

Everything else that a script can call but has not written itself: regular expressions, properties,
and the methods and functions that every script sees. Each is related to itself by every congruence;
those that call functions of the script are related if the functions are.
-/

namespace Espalier.Script

variable {C : Congruence}

/-! ### Regular expressions -/

@[simp]
theorem keeps_newRegex (source flags : String) : C.Keeps (newRegex source flags) := by
  refine .read (fun _ _ => rfl) fun m => ?_
  split
  · exact .raise _
  · exact .modifyGet (fun _ _ => rfl) fun _ => rfl

@[simp]
theorem keeps_lastIndex (r : RegexValue) : C.Keeps (lastIndex r) :=
  .read (fun _ _ => rfl) fun _ => .pure _

@[simp]
theorem keeps_setLastIndex (r : RegexValue) (n : Nat) : C.Keeps (setLastIndex r n) :=
  .modify (fun _ _ => rfl) fun _ => rfl

@[simp]
theorem keeps_test (r : RegexValue) (subject : String) : C.Keeps (r.test subject) := by
  refine .ite (.pure _) (.bind (keeps_lastIndex r) fun n => ?_)
  split
  · exact .bind (keeps_setLastIndex r _) fun _ => .pure _
  · exact .bind (keeps_setLastIndex r 0) fun _ => .pure _

/-! ### Properties -/

@[simp]
theorem keeps_methodOr (method : Option Method) : C.Keeps (methodOr method) := by
  cases method with
  | none => exact .pure _
  | some method => exact keeps_newMethod method

@[simp]
theorem keeps_objectProperty (o : ObjectId) (name : String) : C.Keeps (objectProperty o name) := by
  refine .read (fun _ _ => rfl) fun m => ?_
  dsimp only
  split
  · exact .pure _
  · exact keeps_methodOr _
  · exact .pure _

/-- Reading a property keeps to the rules, whatever the value is. -/
@[simp]
theorem keeps_getProperty (v key : Value) : C.Keeps (getProperty v key) := by
  unfold getProperty
  cases v with
  | undefined => exact .bind (keeps_toText key) fun _ => .raise _
  | null => exact .bind (keeps_toText key) fun _ => .raise _
  | bool b => exact .bind (keeps_toText key) fun _ => .pure _
  | number x => exact .bind (keeps_toText key) fun _ => keeps_methodOr _
  | string s =>
    dsimp only
    split
    · exact .pure _
    · exact .bind (keeps_toText key) fun _ => .ite (.pure _) (keeps_methodOr _)
  | array a =>
    dsimp only
    split
    · exact .read (fun _ _ => rfl) fun _ => .pure _
    · exact .bind (keeps_toText key) fun _ =>
        .ite (.read (fun _ _ => rfl) fun _ => .pure _) (keeps_methodOr _)
  | object o => exact .bind (keeps_toText key) fun _ => keeps_objectProperty o _
  | function f =>
    refine .bind (keeps_toText key) fun name => ?_
    split <;> exact .pure _
  | native f => exact .bind (keeps_toText key) fun _ => .pure _
  | regex r =>
    refine .bind (keeps_toText key) fun name => ?_
    split
    · exact .pure _
    · exact .pure _
    · exact .pure _
    · exact .bind (keeps_lastIndex r) fun _ => .pure _
    · exact keeps_methodOr _
  | node steps => exact .bind (keeps_toText key) fun _ => keeps_nodeProperty steps _
  | path id => exact .bind (keeps_toText key) fun _ => keeps_pathProperty id _

@[simp]
theorem keeps_setProperty (v key value : Value) : C.Keeps (setProperty v key value) := by
  unfold setProperty
  split
  · exact .bind (keeps_toTextLocking _ key) fun _ => keeps_modifyObject _ _
  · split
    · exact .when (.raise _) fun _ => keeps_modifyItems _ _
    · refine .bind (keeps_toTextLocking _ key) fun _ => .ite ?_ (.pure _)
      split
      · exact keeps_modifyItems _ _
      · exact .raise _
  · exact .bind (keeps_toText key) fun name => C.of_assignment _ name value
  · exact .bind (keeps_toText key) fun _ => .raise _
  · exact .bind (keeps_toText key) fun _ => .raise _
  · exact .bind (keeps_toText key) fun _ => .raise _
  · exact .pure _

@[simp]
theorem keeps_deleteProperty (v key : Value) : C.Keeps (deleteProperty v key) := by
  refine .bind (keeps_toText key) fun name => ?_
  split
  · exact keeps_modifyObject _ _
  · exact .raise _
  · exact .pure _

@[simp]
theorem keeps_hasProperty (key v : Value) : C.Keeps (hasProperty key v) := by
  refine .bind (keeps_toText key) fun name => ?_
  split
  case h_1 | h_2 => exact .read (fun _ _ => rfl) fun _ => .pure _
  case h_5 => exact .bind (keeps_toText _) fun _ => .raise _
  all_goals
    refine .bind (keeps_getProperty _ key) fun found => ?_
    split <;> exact .pure _

@[simp]
theorem keeps_ownKeys (v : Value) : C.Keeps (ownKeys v) := by
  unfold ownKeys
  dsimp only
  split
  · exact keeps_nodeKeys _
  · exact .read (fun _ _ => rfl) fun _ => .pure _
  · exact .read (fun _ _ => rfl) fun _ => .pure _
  · exact .pure _
  · exact .pure _

@[simp]
theorem keeps_iterate (v : Value) : C.Keeps (iterate v) := by
  unfold iterate
  split
  · exact .read (fun _ _ => rfl) fun _ => .pure _
  · exact .pure _
  · exact .raise _
  · exact .raise _
  · exact .raise _

/-! ### The console and JSON texts -/

@[simp]
theorem keeps_log (level : Level) (values : Array Value) : C.Keeps (log level values) := by
  refine .read (fun m l => by rw [m.shown?_withLedger]) fun m => ?_
  split
  · exact keeps_writeLine _ _
  · exact .abort

@[simp]
theorem keeps_stringify (v space : Value) : C.Keeps (stringify v space) := by
  refine .read (fun m l => by rw [m.json_withLedger]) fun m => ?_
  split
  · exact .raise _
  · exact .pure _
  · exact .pure _

mutual

@[simp]
theorem keeps_ofJson (j : Json) : C.Keeps (ofJson j) := by
  unfold ofJson
  split
  · exact .pure _
  · exact .pure _
  · exact .pure _
  · exact .pure _
  · exact .bind (keeps_itemsOfJson _ _) fun _ => keeps_newArray _
  · exact .bind (keeps_membersOfJson _ _) fun _ => keeps_newObject _

theorem keeps_itemsOfJson (done : Array Value) (js : List Json) :
    C.Keeps (itemsOfJson done js) := by
  cases js with
  | nil => exact .pure _
  | cons j js => exact .bind (keeps_ofJson j) fun v => keeps_itemsOfJson _ js

theorem keeps_membersOfJson (done : List (String × Value)) (js : List (String × Json)) :
    C.Keeps (membersOfJson done js) := by
  cases js with
  | nil => exact .pure _
  | cons j js =>
    obtain ⟨name, j⟩ := j
    exact .bind (keeps_ofJson j) fun v => keeps_membersOfJson _ js

end

@[simp]
theorem keeps_parseJson (source : String) : C.Keeps (parseJson source) := by
  refine .read (fun _ _ => rfl) fun m => ?_
  split
  · exact .raise _
  · exact keeps_ofJson _

/-! ### Numbers -/

@[simp]
theorem keeps_callNumber (method : NumberMethod) (x : Float) (args : Array Value) :
    C.Keeps (callNumber method x args) := by
  unfold callNumber
  cases method with
  | toString =>
    dsimp only
    split
    · exact .pure _
    · exact .bind (keeps_toNumber _) fun _ => .ite (.raise _) (.pure _)
  | toFixed =>
    have fixes (places : Float) : C.Keeps
        (if 0 ≤ places && places ≤ 100 then
          pure (Value.string (Number.fixedText (Double.toIntTrunc places).toNat x))
        else raise .fixedDigits) :=
      .ite (.pure _) (.raise _)
    dsimp only
    split
    · exact .bind (keeps_toNumber _) fixes
    · exact .bind (.pure _) fixes

@[simp]
theorem keeps_callMath (f : MathFunction) (args : Array Value) : C.Keeps (callMath f args) := by
  have first {k : Float → Script Value} (hk : ∀ x, C.Keeps (k x)) :
      C.Keeps (toNumber (Args.item args 0) >>= k) :=
    .bind (keeps_toNumber _) hk
  have all {k : Float → Script Value} (g : Array Float → Float) (hk : ∀ x, C.Keeps (k x)) :
      C.Keeps ((do return g (← args.mapM toNumber)) >>= k) :=
    .bind (.bind (.arrayMapM keeps_toNumber args) fun _ => .pure _) hk
  unfold callMath
  cases f with
  | max => exact all _ fun _ => .pure _
  | min => exact all _ fun _ => .pure _
  | pow => exact first fun _ => .bind (keeps_toNumber _) fun _ => .pure _
  | floor => exact first fun _ => .pure _
  | ceil => exact first fun _ => .pure _
  | round => exact first fun _ => .pure _
  | trunc => exact first fun _ => .pure _
  | sign => exact first fun _ => .pure _
  | abs => exact first fun _ => .pure _
  | sqrt => exact first fun _ => .pure _

/-! ### Texts -/

@[simp]
theorem keeps_text (args : Array Value) (i : Nat) : C.Keeps (Args.text args i) := keeps_toText _

@[simp]
theorem keeps_place (args : Array Value) (i missing : Nat) (place : Float → Nat) :
    C.Keeps (Args.place args i missing place) := by
  unfold Args.place
  split
  · exact .pure _
  · exact .bind (keeps_toNumber _) fun _ => .pure _

@[simp]
theorem keeps_range (args : Array Value) (length : Nat) : C.Keeps (Args.range args length) :=
  .bind (keeps_place _ _ _ _) fun _ => .bind (keeps_place _ _ _ _) fun _ => .pure _

@[simp]
theorem keeps_checkLength (bytes : Nat) : C.Keeps (checkLength bytes) := .ite (.raise _) (.pure _)

@[simp]
theorem keeps_matchesIn (subject : List Char) (pattern : Value) (all : Bool) :
    C.Keeps (matchesIn subject pattern all) := by
  unfold matchesIn
  split
  · exact .pure _
  · exact .bind (keeps_toText _) fun _ => .pure _

@[simp]
theorem keeps_splitting (s : String) (separator : Value) : C.Keeps (splitting s separator) := by
  unfold splitting
  dsimp only
  split
  · exact .pure _
  · exact .pure _
  · exact .bind (keeps_toText _) fun _ => .pure _

@[simp]
theorem keeps_matching (s : String) (pattern : Value) : C.Keeps (matching s pattern) := by
  unfold matching
  split
  case' h_1 => refine .bind (.pure _) fun how => ?_
  case' h_2 =>
    refine .bind (keeps_toText _) fun source => .read (fun _ _ => rfl) fun m => ?_
    split
    case' h_1 => refine .bind (.pure _) fun how => ?_
    case' h_2 => refine .bind (.raise _) fun how => ?_
  all_goals
    refine .ite (.ite (.pure _) (keeps_newArray _)) ?_
    split
    · exact keeps_newArray _
    · exact .pure _

@[simp]
theorem keeps_target (s : String) (args : Array Value) : C.Keeps (callString.target s args) := by
  have fills (length : Nat) (filler : String) : C.Keeps
      (pure (if filler.isEmpty then 0 else length - s.length, filler) : Script (Nat × String)) :=
    .pure _
  refine .bind (keeps_place _ _ _ _) fun length => ?_
  split
  · exact .bind (.pure _) (fills length)
  · exact .bind (keeps_toText _) (fills length)

section Calls

variable {call call' : Caller}
  (hcall : ∀ f this args, C.Relates (call f this args) (call' f this args))

include hcall

theorem relates_replacementOf (subject : String) (replacement : Value) (p : Text.Piece) :
    C.Relates (replacementOf call subject replacement p)
      (replacementOf call' subject replacement p) := by
  refine .ite ?_ ?_
  · exact .bind (hcall _ _ _) fun _ => keeps_toText _
  · exact .bind (keeps_toText _) fun _ => .ite (.pure _) (.pure _)

theorem relates_replacing (subject : String) (pattern replacement : Value) (all : Bool) :
    C.Relates (replacing call subject pattern replacement all)
      (replacing call' subject pattern replacement all) := by
  unfold replacing
  split
  case' h_1 => refine .ite (.bind (.raise _) fun all => ?_) (.bind (.pure _) fun all => ?_)
  case' h_2 => refine .bind (.pure _) fun all => ?_
  all_goals
    refine .bind (keeps_matchesIn _ _ _) fun found => .bind (.foldlM (fun out p => ?_) _ _) ?_
    · exact .bind (relates_replacementOf hcall _ _ _) fun _ =>
        .bind (keeps_checkLength _) fun _ => .pure _
    · exact fun _ => .pure _

/-- The methods of texts: those with a function as an argument call it on both sides. -/
theorem relates_callString (method : StringMethod) (s : String) (args : Array Value) :
    C.Relates (callString call method s args) (callString call' method s args) := by
  unfold callString
  cases method with
  | toString => exact .pure _
  | toUpperCase => exact .pure _
  | toLowerCase => exact .pure _
  | trim => exact .pure _
  | trimStart => exact .pure _
  | trimEnd => exact .pure _
  | includes => exact .bind (keeps_place _ _ _ _) fun _ => .bind (keeps_text _ _) fun _ => .pure _
  | startsWith => exact .bind (keeps_place _ _ _ _) fun _ => .bind (keeps_text _ _) fun _ => .pure _
  | endsWith => exact .bind (keeps_place _ _ _ _) fun _ => .bind (keeps_text _ _) fun _ => .pure _
  | indexOf => exact .bind (keeps_place _ _ _ _) fun _ => .bind (keeps_text _ _) fun _ => .pure _
  | lastIndexOf => exact .bind (keeps_text _ _) fun _ => .pure _
  | slice => exact .bind (keeps_range _ _) fun _ => .pure _
  | substring =>
    exact .bind (keeps_place _ _ _ _) fun _ => .bind (keeps_place _ _ _ _) fun _ => .pure _
  | charAt => exact .bind (keeps_place _ _ _ _) fun _ => .pure _
  | item => exact .bind (keeps_toNumber _) fun _ => .pure _
  | split =>
    have splits (limit? : Option Nat) : C.Keeps (do
        let parts ← splitting s (Args.item args 0)
        newArray (limit?.elim parts parts.take).toArray) :=
      .bind (keeps_splitting _ _) fun _ => keeps_newArray _
    dsimp only
    split
    · exact .bind (.pure _) splits
    · exact .bind (keeps_toNumber _) fun _ => .bind (.pure _) splits
  | replace => exact relates_replacing hcall _ _ _ _
  | replaceAll => exact relates_replacing hcall _ _ _ _
  | repeats =>
    exact .bind (keeps_toNumber _) fun _ => .when (.raise _) fun _ =>
      .bind (keeps_checkLength _) fun _ => .pure _
  | concat =>
    exact .bind (.arrayFoldlM (fun _ _ => .bind (keeps_toText _) fun _ => .pure _) _ _) fun _ =>
      .bind (keeps_checkLength _) fun _ => .pure _
  | padStart => exact .bind (keeps_target _ _) fun _ => .pure _
  | padEnd => exact .bind (keeps_target _ _) fun _ => .pure _
  | matching => exact keeps_matching _ _

/-! ### Arrays -/

omit hcall in
@[simp]
theorem keeps_callable (v : Value) : C.Keeps (callable v) :=
  .ite (.bind (keeps_toText v) fun _ => .raise _) (.pure _)

omit hcall in
@[simp]
theorem keeps_atEnd (method : IterationMethod) (kept : Array Value) :
    C.Keeps (method.atEnd kept) := by
  cases method with
  | map => exact keeps_newArray kept
  | filter => exact keeps_newArray kept
  | forEach => exact .pure _
  | find => exact .pure _
  | findIndex => exact .pure _
  | some => exact .pure _
  | every => exact .pure _

omit hcall in
@[simp]
theorem keeps_joining (separator : String) (items : Array Value) :
    C.Keeps (joining separator items) :=
  .bind (.mapM (fun _ => .ite (.pure _) (keeps_toText _)) _) fun _ => .pure _

theorem relates_iterating (method : IterationMethod) (callback array : Value) (kept : Array Value)
    (i : Nat) (items : List Value) :
    C.Relates (iterating call method callback array kept i items)
      (iterating call' method callback array kept i items) := by
  induction items generalizing kept i with
  | nil => exact keeps_atEnd method kept
  | cons item rest ih =>
    unfold iterating
    refine .bind (hcall _ _ _) fun answer => ?_
    split
    · exact .pure _
    · exact ih _ _

theorem relates_reducing (callback array acc : Value) (i : Nat) (items : List Value) :
    C.Relates (reducing call callback array acc i items)
      (reducing call' callback array acc i items) := by
  induction items generalizing acc i with
  | nil => exact .pure _
  | cons item rest ih => exact .bind (hcall _ _ _) fun acc => ih acc _

/-- The methods of arrays: those with a function as an argument call it on both sides. -/
theorem relates_callArray (method : ArrayMethod) (a : ArrayId) (args : Array Value) :
    C.Relates (callArray call method a args) (callArray call' method a args) := by
  -- the items are looked up again after each call, which may change them
  have items : C.Keeps (do return (← get).items a : Script (Array Value)) :=
    .read (fun _ _ => rfl) fun _ => .pure _
  unfold callArray
  cases method with
  | toString => exact .bind (keeps_toText _) fun _ => .pure _
  | push =>
    exact .bind items fun _ => .when (.raise _) fun _ =>
      .bind (keeps_modifyItems _ _) fun _ => .pure _
  | pop => exact .bind items fun _ => .bind (keeps_modifyItems _ _) fun _ => .pure _
  | shift => exact .bind items fun _ => .bind (keeps_modifyItems _ _) fun _ => .pure _
  | unshift => exact .bind (keeps_modifyItems _ _) fun _ => .bind items fun _ => .pure _
  | join =>
    have joins (separator : String) : C.Keeps (do
        return Value.string (← joining separator (← (do return (← get).items a)))) :=
      .bind items fun _ => .bind (keeps_joining _ _) fun _ => .pure _
    dsimp only
    split
    · exact .bind (.pure _) joins
    · exact .bind (keeps_toText _) joins
  | iterate method =>
    exact .bind (keeps_callable _) fun _ => .bind items fun _ => relates_iterating hcall _ _ _ _ _ _
  | reduce =>
    refine .bind (keeps_callable _) fun _ => .bind items fun all => ?_
    split
    · exact relates_reducing hcall _ _ _ _ _
    · exact relates_reducing hcall _ _ _ _ _
    · exact .raise _
  | includes => exact .bind items fun _ => .pure _
  | indexOf => exact .bind items fun _ => .pure _
  | slice => exact .bind items fun _ => .bind (keeps_range _ _) fun _ => keeps_newArray _
  | concat =>
    refine .bind items fun all => .bind (.arrayFoldlM (fun all v => ?_) _ _) fun all =>
      keeps_newArray _
    split
    · exact .read (fun _ _ => rfl) fun _ => .pure _
    · exact .pure _
  | reverse => exact .bind (keeps_modifyItems _ _) fun _ => .pure _

end Calls

/-! ### Functions without a receiver -/

@[simp]
theorem keeps_makeError (kind : ErrorKind) (args : Array Value) :
    C.Keeps (makeError kind args) := by
  unfold makeError
  split
  · exact .bind (.pure _) fun _ => keeps_newError _ _
  · exact .bind (keeps_toText _) fun _ => keeps_newError _ _

@[simp]
theorem keeps_collect (f : ObjectFunction) (v : Value) (key : String) :
    C.Keeps (f.collect v key) := by
  unfold ObjectFunction.collect
  split
  · exact .pure _
  · exact keeps_getProperty _ _
  · exact .bind (keeps_getProperty _ _) fun _ => keeps_newArray _

@[simp]
theorem keeps_assignFrom (target source : Value) : C.Keeps (assignFrom target source) :=
  .bind (keeps_ownKeys _) fun _ =>
    .forM (fun _ => .bind (keeps_getProperty _ _) fun _ => keeps_setProperty _ _ _) _

@[simp]
theorem keeps_callObject (f : ObjectFunction) (args : Array Value) :
    C.Keeps (callObject f args) := by
  have collects : C.Keeps (do
      newArray (← (← ownKeys (Args.item args 0)).mapM (f.collect (Args.item args 0))).toArray) :=
    .bind (keeps_ownKeys _) fun _ => .bind (.mapM (keeps_collect _ _) _) fun _ => keeps_newArray _
  unfold callObject
  cases f with
  | keys => exact .when (.raise _) fun _ => collects
  | values => exact .when (.raise _) fun _ => collects
  | entries => exact .when (.raise _) fun _ => collects
  | assign => exact .bind (.forM (keeps_assignFrom _) _) fun _ => .pure _
  | freeze => exact .pure _

/-- The global functions call no function of the script. -/
@[simp]
theorem keeps_callGlobal (f : Global) (args : Array Value) : C.Keeps (callGlobal f args) := by
  unfold callGlobal
  cases f with
  | string =>
    dsimp only
    split
    · exact .pure _
    · exact .bind (keeps_toText _) fun _ => .pure _
  | number =>
    dsimp only
    split
    · exact .pure _
    · exact .bind (keeps_toNumber _) fun _ => .pure _
  | boolean => exact .pure _
  | parseInt =>
    refine .bind (keeps_toText _) fun text => ?_
    split
    · exact .bind (.pure _) fun _ => .pure _
    · exact .bind (keeps_toNumber _) fun _ => .bind (.pure _) fun _ => .pure _
  | parseFloat => exact .bind (keeps_toText _) fun _ => .pure _
  | isNaN => exact .bind (keeps_toNumber _) fun _ => .pure _
  | isFinite => exact .bind (keeps_toNumber _) fun _ => .pure _
  | error kind => exact keeps_makeError kind args
  | console f => exact .bind (keeps_log _ _) fun _ => .pure _
  | stringify => exact keeps_stringify _ _
  | parseJson => exact .bind (keeps_toText _) fun _ => keeps_parseJson _
  | math f => exact keeps_callMath f args
  | object f => exact keeps_callObject f args
  | isArray =>
    dsimp only
    split <;> exact .pure _
  | arrayFrom => exact .bind (keeps_iterate _) fun _ => keeps_newArray _
  | assertVersion => exact .pure _

@[simp]
theorem keeps_callRegex (method : RegexMethod) (r : RegexValue) (args : Array Value) :
    C.Keeps (callRegex method r args) := by
  unfold callRegex
  cases method with
  | toString => exact .pure _
  | test =>
    dsimp only
    split
    · exact .bind (keeps_toText _) fun _ => .bind (keeps_test _ _) fun _ => .pure _
    · exact .bind (.pure _) fun _ => .bind (keeps_test _ _) fun _ => .pure _

/-- Functions that are not code of the script are related if the functions that they call are. -/
theorem relates_callNative {call call' : Caller}
    (hcall : ∀ f this args, C.Relates (call f this args) (call' f this args)) (f : Native)
    (args : Array Value) : C.Relates (callNative call f args) (callNative call' f args) := by
  unfold callNative
  split
  · exact keeps_callGlobal _ args
  · exact relates_callString hcall _ _ args
  · exact relates_callArray hcall _ _ args
  · exact keeps_callNumber _ _ args
  · exact keeps_callRegex _ _ args
  · split
    · next h => exact C.of_pathEdit args h
    · next h => exact keeps_callPathMethod_of_edit? h args
  · exact .bind (keeps_isOfType _ _ _) fun _ => .pure _

end Espalier.Script
