import Espalier.Decimal.Read
import Espalier.Json
import Espalier.Source.Position

/-!
# Reading JSON texts

`Json.read` reads a value that fills a text. Its parts (`Read.value`, `Read.string`, `Read.members`,
…) serve readers of typed data too, for which `Read.skip` passes over a value that nobody asks for.

The number that a numeral denotes is computed in doubles, the digits first and the power of ten
after them, so that it may be off by a unit in the last place. What is read nests no deeper than
`Json.maxDepth` (`nestsWithin_of_read`).
-/

namespace Espalier.Json

/-- Why a text is refused. -/
inductive ErrorCause
  | unfinishedList
  | unfinishedObject
  | unfinishedString
  | unfinishedValue
  | expectedColon
  | expectedListCommaOrEnd
  | expectedObjectCommaOrEnd
  | expectedWord
  | expectedValue
  | invalidEscape
  | invalidNumber
  | numberOutOfRange
  | controlCharacter
  | nameNotAString
  | loneSurrogate
  | trailingComma
  | trailingCharacters
  | unfinishedHexEscape
  | tooDeep
  /-- A value of another type than asked for. -/
  | unfitting
  deriving DecidableEq, Repr, Inhabited

/-- The wording of a cause. -/
def ErrorCause.message : ErrorCause → String
  | unfinishedList => "EOF while parsing a list"
  | unfinishedObject => "EOF while parsing an object"
  | unfinishedString => "EOF while parsing a string"
  | unfinishedValue => "EOF while parsing a value"
  | expectedColon => "expected \x60:\x60"
  | expectedListCommaOrEnd => "expected \x60,\x60 or \x60]\x60"
  | expectedObjectCommaOrEnd => "expected \x60,\x60 or \x60\x7d\x60"
  | expectedWord => "expected ident"
  | expectedValue => "expected value"
  | invalidEscape => "invalid escape"
  | invalidNumber => "invalid number"
  | numberOutOfRange => "number out of range"
  | controlCharacter =>
    "control character (\\u0000-\\u001F) found while parsing a string"
  | nameNotAString => "key must be a string"
  | loneSurrogate => "lone leading surrogate in hex escape"
  | trailingComma => "trailing comma"
  | trailingCharacters => "trailing characters"
  | unfinishedHexEscape => "unexpected end of hex escape"
  | tooDeep => "recursion limit exceeded"
  | unfitting => "invalid type"

/-- A cause and the number of bytes in front of the place where it shows. -/
structure Error where
  cause : ErrorCause
  offset : Nat
  deriving DecidableEq, Repr, Inhabited

/-- The line, from one, and the bytes of it that lie among the first `offset` bytes. -/
def place (line column : Nat) : List Char → (offset : Nat) → Nat × Nat
  | [], _ => (line, column)
  | c :: cs, offset =>
    if offset < c.utf8Size then (line, column + offset)
    else if c == '\n' then place (line + 1) 0 cs (offset - 1)
    else place line (column + c.utf8Size) cs (offset - c.utf8Size)

/-- The wording of an error in a text. -/
def Error.message (source : String) (e : Error) : String :=
  let (line, column) := place 1 0 source.toList e.offset
  s!"{e.cause.message} at line {line} column {column}"

/-- A reader of an `α`. -/
abbrev Read := StateT Cursor (Except Error)

namespace Read

variable {α σ : Type}

/-! ### Characters -/

/-- Fails here. -/
def fail (cause : ErrorCause) : Read α := do throw ⟨cause, (← get).pos⟩

/-- Fails at the next byte, if there is one. -/
def failNext (cause : ErrorCause) : Read α := do
  let c ← get
  throw ⟨cause, if c.rest.isEmpty then c.pos else c.pos + 1⟩

def peek : Read (Option Char) := return (← get).rest.head?

def bump : Read Unit := modify Cursor.step

def isBlank (c : Char) : Bool := c == ' ' || c == '\n' || c == '\t' || c == '\r'

/-- Drops the leading characters that satisfy `p`. -/
def dropWhile (p : Char → Bool) : Cursor → Cursor
  | ⟨pos, c :: cs⟩ => if p c then dropWhile p ⟨pos + c.utf8Size, cs⟩ else ⟨pos, c :: cs⟩
  | ⟨pos, []⟩ => ⟨pos, []⟩
termination_by c => c.rest.length

/-- The next character that is no blank. -/
def peekPastBlanks : Read (Option Char) := do
  modify (dropWhile isBlank)
  peek

/-- What follows a round of a repetition: another one, or the end. -/
inductive Round (σ : Type)
  | again (s : σ)
  | last (s : σ)

/-- Repeats `round` at most `room` times. -/
def repeatWithin (round : σ → Read (Round σ)) : (room : Nat) → σ → Read σ
  | 0, s => return s
  | room + 1, s => do
    match ← round s with
    | .again s => repeatWithin round room s
    | .last s => return s

/-- Repeats `round`, every round of which but the last drops a character. -/
def repeatFrom (round : σ → Read (Round σ)) (s : σ) : Read σ := do
  repeatWithin round ((← get).rest.length + 1) s

/-- The rest of a word whose first letter has been seen. -/
def word : List Char → Read Unit
  | [] => return
  | c :: cs => do
    match ← peek with
    | none => fail .unfinishedValue
    | some d =>
      if d != c then failNext .expectedWord
      bump
      word cs

/-! ### Strings -/

/-- The value of four hexadecimal digits. -/
def hexValue? (ds : List Char) : Option Nat :=
  ds.foldlM (fun n d => (Text.digitValue? 16 d).map (16 * n + ·)) 0

/-- Four hexadecimal digits. -/
def hexEscape : Read Nat := do
  let c ← get
  let left := (c.rest.take 4).foldl (fun n d => n + d.utf8Size) 0
  if left < 4 then throw ⟨.unfinishedString, c.pos + left⟩
  match hexValue? (c.rest.take 4) with
  | some n =>
    set (⟨c.pos + 4, c.rest.drop 4⟩ : Cursor)
    return n
  | none => throw ⟨.invalidEscape, c.pos + 4⟩

/-- Drops `c`, without which an escape is not finished. -/
def expectInEscape (c : Char) : Read Unit := do
  match ← peek with
  | none => fail .unfinishedString
  | some d =>
    if d != c then failNext .unfinishedHexEscape
    bump

/-- What stands in for a surrogate without its partner, where that is let through. -/
def loneSurrogate (strict : Bool) : Read Char :=
  if strict then fail .loneSurrogate else return '\ufffd'

/-- The character of a code point after `\u`. Those above U+FFFF are written as two surrogates. -/
def unicodeEscape (strict : Bool) : Read Char := do
  let n ← hexEscape
  if !strict || n < 0xD800 || 0xDFFF < n then return Char.ofNat n
  else if 0xDC00 ≤ n then fail .loneSurrogate
  else
    expectInEscape '\\'
    expectInEscape 'u'
    let m ← hexEscape
    if m < 0xDC00 || 0xDFFF < m then fail .loneSurrogate
    else return Char.ofNat (0x10000 + (n - 0xD800) * 0x400 + (m - 0xDC00))

/-- What follows a backslash. -/
def escape (strict : Bool) : Read Char := do
  match ← peek with
  | none => fail .unfinishedString
  | some c =>
    let plain (d : Char) : Read Char := do
      bump
      return d
    match c with
    | '"' => plain '"'
    | '\\' => plain '\\'
    | '/' => plain '/'
    | 'b' => plain '\x08'
    | 'f' => plain '\x0c'
    | 'n' => plain '\n'
    | 'r' => plain '\r'
    | 't' => plain '\t'
    | 'u' =>
      bump
      unicodeEscape strict
    | _ => failNext .invalidEscape

/-- A string after its opening quote. Surrogates need a partner if `strict`. -/
def stringRest (strict : Bool) : Read String := do
  let cs ← repeatFrom (fun cs => do
    match ← peek with
    | none => fail .unfinishedString
    | some '"' =>
      bump
      return .last cs
    | some '\\' =>
      bump
      return .again ((← escape strict) :: cs)
    | some c =>
      if c.toNat < 32 then failNext .controlCharacter
      bump
      return .again (c :: cs)) []
  return String.ofList cs.reverse

/-! ### Numbers -/

/-- A number as it is written: a whole number of at most sixty-four bits, or a double. -/
inductive Numeral
  | whole (negative : Bool) (n : Nat)
  | double (x : Float)

/-- The greatest whole number of sixty-four bits. -/
def maxWhole : Nat := Nat.pow 2 64 - 1

/-- The power of ten with the greatest exponent. -/
def greatestPower : Float := Number.ofScientific false 1 308

/-- `x * 10 ^ e` in doubles, by one factor or divisor of at most `10 ^ 308` at a time. -/
def scale : (room : Nat) → Float → Int → Option Float
  | 0, x, _ => some x
  | room + 1, x, e =>
    if e.natAbs ≤ 308 then
      let power := Number.ofScientific false 1 e.natAbs
      if 0 ≤ e then
        let x := x * power
        if x.isInf then none else some x
      else some (x / power)
    else if x == 0 then some x
    else if 0 ≤ e then none
    else scale room (x / greatestPower) (e + 308)

/-- The double of some digits and an exponent. -/
def doubleOf (negative : Bool) (digits : Nat) (e : Int) : Read Float := do
  match scale 4 (Double.ofNat digits) e with
  | some x => return if negative then -x else x
  | none => fail .numberOutOfRange

/-- The digits of an exponent after its first, up to the first with which it leaves the range of 32
bits, and whether there is such a one. -/
def exponentDigits (first : Nat) : Read (Nat × Bool) :=
  repeatFrom (fun (n, _) => do
    match (← peek).bind (Text.digitValue? 10) with
    | none => return .last (n, false)
    | some d =>
      bump
      let n := 10 * n + d
      return if Nat.pow 2 31 - 1 < n then .last (n, true) else .again (n, false)) (first, false)

/-- A numeral from its exponent on, the mark of which is next. -/
def exponent (negative : Bool) (digits : Nat) (e : Int) : Read Float := do
  bump
  let down := (← peek) == some '-'
  if down || (← peek) == some '+' then bump
  match ← peek with
  | none => fail .unfinishedValue
  | some c =>
    match Text.digitValue? 10 c with
    | none => failNext .invalidNumber
    | some first =>
      bump
      let (n, beyond) ← exponentDigits first
      if beyond then
        if digits != 0 && !down then fail .numberOutOfRange
        else
          modify (dropWhile Char.isDigit)
          return if negative then -0.0 else 0.0
      else doubleOf negative digits (if down then e - n else e + n)

/-- A numeral from its end or its exponent on. -/
def afterDigits (negative : Bool) (digits : Nat) (e : Int) : Read Float := do
  match ← peek with
  | some 'e' | some 'E' => exponent negative digits e
  | _ => doubleOf negative digits e

/-- The digits after a point, as far as the number of all digits stays in range; the rest of them is
dropped. -/
def fractionDigits (digits : Nat) (e : Int) : Read (Nat × Int × Bool) :=
  repeatFrom (fun (n, e, _) => do
    match (← peek).bind (Text.digitValue? 10) with
    | none => return .last (n, e, false)
    | some d =>
      if maxWhole < 10 * n + d then
        modify (dropWhile Char.isDigit)
        return .last (n, e, true)
      else
        bump
        return .again (10 * n + d, e - 1, false)) (digits, e, false)

/-- A numeral from its point on, which is next. -/
def fraction (negative : Bool) (digits : Nat) (e : Int) : Read Float := do
  bump
  let (n, e', cut) ← fractionDigits digits e
  if e' == e && !cut then
    if (← peek).isNone then fail .unfinishedValue else failNext .invalidNumber
  else afterDigits negative n e'

/-- The first digits of a numeral, as far as their number stays in range, and how many are dropped
after them. -/
def wholeDigits (first : Nat) : Read (Nat × Nat) :=
  repeatFrom (fun (n, dropped) => do
    match (← peek).bind (Text.digitValue? 10) with
    | none => return .last (n, dropped)
    | some d =>
      bump
      if dropped == 0 && 10 * n + d ≤ maxWhole then return .again (10 * n + d, 0)
      else return .again (n, dropped + 1)) (first, 0)

/-- A numeral after its sign. -/
def numeral (negative : Bool) : Read Numeral := do
  match (← peek) with
  | none => fail .unfinishedValue
  | some c =>
    match Text.digitValue? 10 c with
    | none => failNext .invalidNumber
    | some first =>
      bump
      let (n, dropped) ←
        if first == 0 then do
          if (← peek).any Char.isDigit then failNext .invalidNumber
          pure (0, 0)
        else wholeDigits first
      match ← peek with
      | some '.' => return .double (← fraction negative n dropped)
      | some 'e' | some 'E' => return .double (← exponent negative n dropped)
      | _ =>
        if dropped == 0 then return .whole negative n
        else return .double (← doubleOf negative n dropped)

/-- The value of a numeral. -/
def Numeral.value : Numeral → Float
  | whole negative n => if negative then -Double.ofNat n else Double.ofNat n
  | double x => x

/-- Drops digits, of which there has to be one. -/
def skipDigits : Read Unit := do
  if !(← peek).any Char.isDigit then failNext .invalidNumber
  modify (dropWhile Char.isDigit)

/-- Passes over a numeral after its sign, whatever its value. -/
def skipNumeral : Read Unit := do
  if (← peek) == some '0' then
    bump
    if (← peek).any Char.isDigit then failNext .invalidNumber
  else skipDigits
  if (← peek) == some '.' then
    bump
    skipDigits
  if (← peek) == some 'e' || (← peek) == some 'E' then
    bump
    if (← peek) == some '+' || (← peek) == some '-' then bump
    skipDigits

/-! ### Arrays, objects and values -/

/-- The items of an array after its opening bracket, up to the closing one, which is dropped. -/
def items (item : σ → Read σ) (start : σ) : Read σ := do
  let (s, _) ← repeatFrom (fun (s, first) => do
    match ← peekPastBlanks with
    | none => fail .unfinishedList
    | some ']' =>
      bump
      return .last (s, first)
    | some c =>
      if !first then
        if c != ',' then failNext .expectedListCommaOrEnd
        bump
        match ← peekPastBlanks with
        | none => fail .unfinishedValue
        | some ']' => failNext .trailingComma
        | some _ => pure ()
      return .again (← item s, false)) (start, true)
  return s

/-- The members of an object after its opening brace, up to the closing one, which is dropped. -/
def members (strict : Bool) (member : String → σ → Read σ) (start : σ) : Read σ := do
  let (s, _) ← repeatFrom (fun (s, first) => do
    match ← peekPastBlanks with
    | none => fail .unfinishedObject
    | some '\x7d' =>
      bump
      return .last (s, first)
    | some c =>
      if !first then
        if c != ',' then failNext .expectedObjectCommaOrEnd
        bump
        match ← peekPastBlanks with
        | none => fail .unfinishedValue
        | some '\x7d' => failNext .trailingComma
        | some _ => pure ()
      if (← peek) != some '"' then failNext .nameNotAString
      bump
      let name ← stringRest strict
      match ← peekPastBlanks with
      | none => fail .unfinishedObject
      | some ':' =>
        bump
        return .again (← member name s, false)
      | some _ => failNext .expectedColon) (start, true)
  return s

/-- A value whose parts `part` reads; without it there is no room for arrays and objects. If not
`strict`, numbers of any magnitude and surrogates without a partner are let through, though not with
their value. -/
def valueOf (strict : Bool) (part : Option (Read Json)) : Read Json := do
  match ← peekPastBlanks with
  | none => fail .unfinishedValue
  | some c =>
    let known (w : String) (j : Json) : Read Json := do
      bump
      word w.toList
      return j
    let number (negative : Bool) : Read Json := do
      if strict then return .number (← numeral negative).value
      else
        skipNumeral
        return .number 0
    match c, part with
    | 'n', _ => known "ull" .null
    | 't', _ => known "rue" (.bool true)
    | 'f', _ => known "alse" (.bool false)
    | '-', _ =>
      bump
      number true
    | '"', _ =>
      bump
      return .string (← stringRest strict)
    | '[', some part =>
      bump
      return .array (← items (fun vs => return (← part) :: vs) []).reverse
    | '\x7b', some part =>
      bump
      return .object (← members strict (fun name vs => return (name, ← part) :: vs) []).reverse
    | '[', none | '\x7b', none => failNext .tooDeep
    | c, _ => if c.isDigit then number false else failNext .expectedValue

/-- A value in which arrays and objects nest at most `room` levels deep. -/
def value (strict : Bool) : (room : Nat) → Read Json
  | 0 => valueOf strict none
  | room + 1 => valueOf strict (some (value strict room))

/-- Passes over a value, however deep it nests. -/
def skip : Read Unit := do
  let _ ← value false (← get).rest.length

/-- Runs a reader on a text that holds nothing else. -/
def run (r : Read α) (source : String) : Except Error α := do
  let (a, c) ← StateT.run (do
    let a ← r
    if (← peekPastBlanks).isSome then failNext .trailingCharacters
    return a : Read α) (Cursor.ofSource source)
  let _ := c
  return a

end Read

/-- How deep arrays and objects may nest. -/
def maxDepth : Nat := 127

/-- Reads a text that is one value. -/
def read (source : String) : Except Error Json := (Read.value true maxDepth).run source

/-! ### What is read -/

namespace Read

variable {α β σ : Type}

/-- What a round has come to. -/
def Round.state : Round σ → σ
  | again s | last s => s

/-- Whatever a reader gives is as said. -/
def Gives (P : α → Prop) (r : Read α) : Prop := ∀ c a c', r c = .ok (a, c') → P a

section

variable {P : α → Prop} {Q : β → Prop}

theorem gives_pure {a : α} (h : P a) : Gives P (pure a) := by
  intro c b c' hb
  cases hb
  exact h

theorem gives_bind {x : Read α} {f : α → Read β} (hx : Gives P x)
    (hf : ∀ a, P a → Gives Q (f a)) : Gives Q (x >>= f) := by
  intro c b c' hb
  change (x c >>= fun (a, c₁) => f a c₁) = _ at hb
  cases hread : x c with
  | error e =>
    rw [hread] at hb
    cases hb
  | ok read =>
    rw [hread] at hb
    exact hf read.1 (hx c _ _ hread) read.2 b c' hb

/-- What is read first may be anything. -/
theorem gives_then {x : Read α} {f : α → Read β} (hf : ∀ a, Gives Q (f a)) : Gives Q (x >>= f) :=
  gives_bind (fun _ _ _ _ => trivial : Gives (fun _ => True) x) fun a _ => hf a

theorem gives_fail (cause : ErrorCause) : Gives P (fail cause) := nofun

theorem gives_failNext (cause : ErrorCause) : Gives P (failNext cause) := nofun

/-- What the rounds of a repetition preserve is true in the end. -/
theorem gives_repeatWithin {round : σ → Read (Round σ)} {R : σ → Prop}
    (hround : ∀ s, R s → Gives (R ·.state) (round s)) (room : Nat) {s : σ}
    (hs : R s) : Gives R (repeatWithin round room s) := by
  induction room generalizing s with
  | zero => exact gives_pure hs
  | succ room ih =>
    refine gives_bind (hround s hs) fun next hnext => ?_
    cases next with
    | again s => exact ih hnext
    | last s => exact gives_pure hnext

theorem gives_repeatFrom {round : σ → Read (Round σ)} {R : σ → Prop}
    (hround : ∀ s, R s → Gives (R ·.state) (round s)) {s : σ} (hs : R s) :
    Gives R (repeatFrom round s) :=
  gives_then fun _ => gives_repeatWithin hround _ hs

theorem gives_items {item : σ → Read σ} {R : σ → Prop} (hitem : ∀ s, R s → Gives R (item s))
    {start : σ} (hstart : R start) : Gives R (items item start) := by
  refine gives_bind (P := fun s => R s.1) (gives_repeatFrom (fun s hs => ?_) hstart)
    fun s hs => gives_pure hs
  refine gives_then fun c? => ?_
  split
  · exact gives_fail _
  · exact gives_then fun _ => gives_pure hs
  · -- whatever is looked at before the item, or refused, the rest of the round is to read it
    have hread : Gives (R ·.state.1)
        (do return .again (← item s.1, false) : Read (Round (σ × Bool))) :=
      gives_bind (hitem _ hs) fun _ h => gives_pure h
    dsimp only
    repeat' first | exact hread | refine gives_then fun _ => ?_ | split

theorem gives_members {strict : Bool} {member : String → σ → Read σ} {R : σ → Prop}
    (hmember : ∀ name s, R s → Gives R (member name s)) {start : σ} (hstart : R start) :
    Gives R (members strict member start) := by
  refine gives_bind (P := fun s => R s.1) (gives_repeatFrom (fun s hs => ?_) hstart)
    fun s hs => gives_pure hs
  refine gives_then fun c? => ?_
  split
  · exact gives_fail _
  · exact gives_then fun _ => gives_pure hs
  · have hread (name : String) : Gives (R ·.state.1)
        (do return .again (← member name s.1, false) : Read (Round (σ × Bool))) :=
      gives_bind (hmember name _ hs) fun _ h => gives_pure h
    dsimp only
    repeat' first
      | exact hread _ | exact gives_fail _ | exact gives_failNext _ | refine gives_then fun _ => ?_
      | split

/-- A numeral does not nest, whether it has its value or not. -/
theorem gives_number {n : Nat} {strict negative : Bool} :
    Gives (NestsWithin n)
      (if strict then do return .number (← numeral negative).value
      else do
        skipNumeral
        return .number 0) := by
  split <;> exact gives_then fun _ => gives_pure (.number _)

/-- Arrays and objects nest one level deeper than their parts. -/
theorem gives_valueOf {strict : Bool} {n : Nat} {part? : Option (Read Json)}
    (hpart : ∀ part ∈ part?, ∃ k, k + 1 = n ∧ Gives (NestsWithin k) part) :
    Gives (NestsWithin n) (valueOf strict part?) := by
  refine gives_then fun c? => ?_
  split
  · exact gives_fail _
  · dsimp only
    split
    · exact gives_then fun _ => gives_then fun _ => gives_pure .null
    · exact gives_then fun _ => gives_then fun _ => gives_pure (.bool _)
    · exact gives_then fun _ => gives_then fun _ => gives_pure (.bool _)
    · exact gives_then fun _ => gives_number
    · exact gives_then fun _ => gives_then fun _ => gives_pure (.string _)
    · next part =>
      obtain ⟨k, rfl, hgives⟩ := hpart part rfl
      refine gives_then fun _ => gives_bind (P := fun vs => ∀ j ∈ vs, NestsWithin k j)
        (gives_items (fun vs hvs => ?_) (List.forall_mem_nil _))
        fun vs hvs => gives_pure (.array ?_)
      · exact gives_bind hgives fun j hj => gives_pure (List.forall_mem_cons.mpr ⟨hj, hvs⟩)
      · exact fun j hj => hvs j (List.mem_reverse.mp hj)
    · next part =>
      obtain ⟨k, rfl, hgives⟩ := hpart part rfl
      refine gives_then fun _ => gives_bind (P := fun ms => ∀ m ∈ ms, NestsWithin k m.2)
        (gives_members (fun name ms hms => ?_) (List.forall_mem_nil _))
        fun ms hms => gives_pure (.object ?_)
      · exact gives_bind hgives fun j hj => gives_pure (List.forall_mem_cons.mpr ⟨hj, hms⟩)
      · exact fun m hm => hms m (List.mem_reverse.mp hm)
    · exact gives_failNext _
    · exact gives_failNext _
    · split
      · exact gives_number
      · exact gives_failNext _

/-- Within so many levels of arrays and objects, a value nests no deeper. -/
theorem gives_value (strict : Bool) (room : Nat) :
    Gives (NestsWithin room) (value strict room) := by
  induction room with
  | zero => exact gives_valueOf nofun
  | succ room ih => exact gives_valueOf fun part hpart => ⟨room, rfl, Option.some.inj hpart ▸ ih⟩

theorem of_run {r : Read α} (h : Gives P r) {source : String} {a : α}
    (hrun : r.run source = .ok a) : P a := by
  let whole : Read α := do
    let a ← r
    if (← peekPastBlanks).isSome then failNext .trailingCharacters
    return a
  have hwhole : Gives P whole := by
    refine gives_bind h fun a ha => gives_then fun next? => ?_
    split
    · exact gives_then fun _ => gives_pure ha
    · exact gives_pure ha
  change (whole (Cursor.ofSource source) >>= fun (a, _) => pure a) = _ at hrun
  cases hend : whole (Cursor.ofSource source) with
  | error e =>
    rw [hend] at hrun
    cases hrun
  | ok read =>
    rw [hend] at hrun
    cases hrun
    exact hwhole _ _ _ hend

end

end Read

/-- No value that is read nests deeper than it may. -/
theorem nestsWithin_of_read {source : String} {j : Json} (h : read source = .ok j) :
    j.NestsWithin maxDepth :=
  Read.of_run (Read.gives_value true maxDepth) h

end Espalier.Json
