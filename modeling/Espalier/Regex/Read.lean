import Espalier.Regex.Error
import Espalier.Regex.Pattern
import Espalier.Text.Letter

/-!
# Reading regular expressions

`Pattern.read` reads the source of a regular expression. Flags may be switched inside the source;
they hold up to the end of the group around them. Groups nest at most `Pattern.maxDepth` levels
deep, and so does what the source says.
-/

namespace Espalier.Regex

/-- How the source is understood from a place on. -/
structure Flags where
  ignoreCase : Bool := false
  multiLine : Bool := false
  dotAll : Bool := false
  swapGreed : Bool := false
  crlf : Bool := false
  /-- Whether blanks and comments are skipped. -/
  verbose : Bool := false
  deriving DecidableEq, Repr, Inhabited

namespace Read

/-- What is left of the source, and what the part before it has settled. -/
structure State where
  rest : List Char
  flags : Flags
  /-- The index of the next group. -/
  nextGroup : Nat
  names : List String

end Read

/-- A reader of an `α`. -/
abbrev Read := StateT Read.State (Except Error)

namespace Read

/-! ### Characters, blanks and repetition -/

/-- The next character. -/
def peek : Read (Option Char) := return (← get).rest.head?

/-- The character after the next one. -/
def peekSecond : Read (Option Char) := return (← get).rest.tail.head?

/-- Drops the next character, and tells whether there is one after it. -/
def bump : Read Bool := do
  modify fun s => { s with rest := s.rest.tail }
  return (← get).rest ≠ []

/-- The text after its leading blanks and comments. A comment runs from `#` to the end of the
line. -/
def dropBlanks (inComment : Bool) : List Char → List Char
  | [] => []
  | c :: cs =>
    if inComment then dropBlanks (c != '\n') cs
    else if Text.isWhite c then dropBlanks false cs
    else if c == '#' then dropBlanks true cs
    else c :: cs

/-- Skips blanks and comments where they do not count. -/
def skipBlanks : Read Unit :=
  modify fun s => if s.flags.verbose then { s with rest := dropBlanks false s.rest } else s

/-- Drops the next character and the blanks after it, and tells whether anything is left. -/
def bumpBlanks : Read Bool := do
  let _ ← bump
  skipBlanks
  return (← get).rest ≠ []

/-- Drops `text` if it comes next, and tells whether it did. -/
def bumpText (text : String) : Read Bool := do
  let s ← get
  if text.toList.isPrefixOf s.rest then
    set { s with rest := s.rest.drop text.length }
    return true
  else return false

/-- The first character that is no blank, past at most one `#`. -/
def firstPastBlanks (inComment : Bool) : List Char → Option Char
  | [] => none
  | c :: cs =>
    if Text.isWhite c then firstPastBlanks inComment cs
    else if !inComment && c == '#' then firstPastBlanks true cs
    else some c

/-- The character after the next one, blanks not counted where they do not count. -/
def peekSecondBlanks : Read (Option Char) := do
  let s ← get
  let after := s.rest.tail
  if s.flags.verbose then return firstPastBlanks false after <|> after.head? else return after.head?

/-- What follows a round of a repetition: another one, or the end. -/
inductive Round (σ : Type)
  | again (s : σ)
  | last (s : σ)

/-- Repeats `round` at most `room` times. -/
def repeatWithin {σ : Type} (round : σ → Read (Round σ)) : (room : Nat) → σ → Read σ
  | 0, s => return s
  | room + 1, s => do
    match ← round s with
    | .again s => repeatWithin round room s
    | .last s => return s

/-- Repeats `round`, every round of which but the last drops a character. -/
def repeatFrom {σ : Type} (round : σ → Read (Round σ)) (s : σ) : Read σ := do
  repeatWithin round ((← get).rest.length + 1) s

/-- The characters up to the first that does not satisfy `p`, which are dropped together with the
blanks after each of them. -/
def takeChars (p : Char → Bool) : Read (List Char) := do
  let cs ← repeatFrom (fun cs => do
    match ← peek with
    | some c =>
      if p c then
        let _ ← bumpBlanks
        return .again (c :: cs)
      else return .last cs
    | none => return .last cs) []
  return cs.reverse

/-! ### Characters and escapes -/

/-- A character, in both cases if case is ignored. -/
def charPattern (c : Char) : Read Pattern := do
  if (← get).flags.ignoreCase then
    match CharSet.otherCase? (CharSet.span c c) with
    | some other => return .set (.ofRanges [CharSet.span c c, other])
    | none => return .char c
  else return .char c

def isHex (c : Char) : Bool := (Text.digitValue? 16 c).isSome

/-- The character of a code point written in hexadecimal. -/
def codePoint? (digits : List Char) : Option Char :=
  let n := digits.foldl (fun n d => 16 * n + (Text.digitValue? 16 d).getD 0) 0
  if h : n.isValidChar then some (Char.ofNatAux n h) else none

/-- A code point in braces, the opening brace being next. -/
def hexBrace : Read Pattern := do
  let _ ← bumpBlanks
  let digits ← takeChars fun c => c != '\x7d' && isHex c
  match ← peek with
  | none => throw .hexBraceOpen
  | some c => if c != '\x7d' then throw .hexBraceDigit
  let _ ← bumpBlanks
  if digits.isEmpty then throw .hexBraceEmpty
  match codePoint? digits with
  | some c => charPattern c
  | none => throw .hexBraceInvalid

/-- `count` hexadecimal digits, after those already `seen`. -/
def hexDigits (seen : List Char) : (count : Nat) → Read (List Char)
  | 0 => return seen.reverse
  | count + 1 => do
    match ← peek with
    | none => throw .hexFixedOpen
    | some c =>
      if !isHex c then throw .hexFixedDigit
      let _ ← bumpBlanks
      hexDigits (c :: seen) count

/-- A code point, the letter that announces it being next. -/
def hexEscape (count : Nat) : Read Pattern := do
  unless ← bumpBlanks do throw .hexOpen
  if (← peek) == some '\x7b' then hexBrace
  else
    match codePoint? (← hexDigits [] count) with
    | some c => charPattern c
    | none => throw .hexFixedInvalid

/-- A word boundary of a special kind, the opening brace being next. Gives nothing if it is the
brace of a count. -/
def specialBoundary? : Read (Option Look) := do
  let here ← get
  unless ← bumpBlanks do throw .openBoundaryOrCount
  let isNameChar (c : Char) : Bool := c.isAlpha || c == '-'
  if !(← peek).any isNameChar then
    set here
    return none
  let name ← takeChars isNameChar
  if (← peek) != some '\x7d' then throw .openWordBoundary
  let _ ← bump
  match String.ofList name with
  | "start" => return some .wordStart
  | "end" => return some .wordStop
  | "start-half" => return some .wordStartHalf
  | "end-half" => return some .wordStopHalf
  | _ => throw .unknownWordBoundary

/-- Whether an escaped character stands for itself. -/
def isEscapable (c : Char) : Bool :=
  c.toNat < 128 && !c.isAlphanum && c != '<' && c != '>'

/-- The set that an escaped letter names, a capital letter naming the complement. -/
def classEscape? : Char → Option CharSet
  | 'd' => some .digits
  | 'D' => some CharSet.digits.complement
  | 's' => some .spaces
  | 'S' => some CharSet.spaces.complement
  | 'w' => some .wordChars
  | 'W' => some CharSet.wordChars.complement
  | _ => none

/-- What an escaped character stands for that is not a code point, a class or a reference. -/
def plainEscape (c : Char) : Read Pattern := do
  if isEscapable c then charPattern c
  else
    match c with
    | 'a' => charPattern '\x07'
    | 'f' => charPattern '\x0c'
    | 't' => charPattern '\t'
    | 'n' => charPattern '\n'
    | 'r' => charPattern '\r'
    | 'v' => charPattern '\x0b'
    | 'A' => return .look .start
    | 'z' => return .look .stop
    | 'b' =>
      if (← peek) == some '\x7b' then return .look ((← specialBoundary?).getD .wordBoundary)
      else return .look .wordBoundary
    | 'B' => return .look .noWordBoundary
    | '<' => return .look .wordStart
    | '>' => return .look .wordStop
    | _ => throw .unknownEscape

/-- An escape, the backslash being next. -/
def escape : Read Pattern := do
  let _ ← bump
  match ← peek with
  | none => throw .openEscape
  | some c =>
    if c.isDigit then throw .backReference
    else if c == 'p' || c == 'P' then throw .unicodeClass
    else if c == 'x' then hexEscape 2
    else if c == 'u' then hexEscape 4
    else if c == 'U' then hexEscape 8
    else
      let _ ← bump
      match classEscape? c with
      | some s => return .set s
      | none => plainEscape c

/-- A single character, escape or sign. -/
def primitive (c : Char) : Read Pattern := do
  let flags := (← get).flags
  match c with
  | '\\' => escape
  | '.' =>
    let _ ← bump
    return .set (if flags.dotAll then .all else .notNewline flags.crlf)
  | '^' =>
    let _ ← bump
    return .look
      (if !flags.multiLine then .start else if flags.crlf then .crlfLineStart else .lineStart)
  | '$' =>
    let _ ← bump
    return .look
      (if !flags.multiLine then .stop else if flags.crlf then .crlfLineStop else .lineStop)
  | c =>
    let _ ← bump
    charPattern c

/-! ### Classes between brackets -/

/-- A class such as `[:alpha:]`, the inner bracket being next. Gives nothing, and stays where it is,
if there is none. -/
def namedClass? : Read (Option CharSet) := do
  let here ← get
  let giveUp : Read (Option CharSet) := do
    set here
    return none
  if !(← bumpText "[:") then return none
  let negated ← bumpText "^"
  let (name, rest) := (← get).rest.span (· != ':')
  modify fun s => { s with rest }
  if !(← bumpText ":]") then giveUp
  else
    match CharSet.named? (String.ofList name) with
    | none => giveUp
    | some ranges =>
      let s := CharSet.ofRanges ranges
      return some (if negated then s.complement else s)

/-- An item of a class: a character or an escape. -/
def classItem : Read Pattern := do
  match ← peek with
  | some '\\' => escape
  | some c =>
    let _ ← bump
    return .char c
  | none => throw .openClass

/-- The ranges that an item adds to a class. -/
def itemRanges : Pattern → Read (List CharRange)
  | .char c => return [CharSet.span c c]
  | .set s => return s.ranges
  | _ => throw .badClassItem

/-- The end of a range that an item is. -/
def itemChar : Pattern → Read Char
  | .char c => return c
  | _ => throw .badRangeEnd

/-- An item of a class, or a range. -/
def classRange : Read (List CharRange) := do
  let first ← classItem
  skipBlanks
  match ← peek with
  | none => throw .openClassAfterItem
  | some c =>
    let second ← peekSecondBlanks
    if c != '-' || second == some ']' || second == some '-' then itemRanges first
    else
      unless ← bumpBlanks do throw .openClassAfterDash
      let last ← classItem
      let a ← itemChar first
      let b ← itemChar last
      if b < a then throw .rangeOutOfOrder
      return [CharSet.span a b]

/-- The dashes at the start of a class, which stand for themselves. -/
def leadingDashes : Read (List CharRange) :=
  repeatFrom (fun rs => do
    if (← peek) == some '-' then
      unless ← bumpBlanks do throw .openClassAfterDash
      return .again (CharSet.span '-' '-' :: rs)
    else return .last rs) []

/-- The rest of a class up to its closing bracket, which is dropped. -/
def classItems (rs : List CharRange) : Read (List CharRange) :=
  repeatFrom (fun rs => do
    skipBlanks
    match ← peek with
    | none => throw .openClass
    | some '[' =>
      match ← namedClass? with
      | some s => return .again (rs ++ s.ranges)
      | none => throw .nestedClass
    | some ']' =>
      let _ ← bump
      return .last rs
    | some c =>
      if (← peekSecond) == some c then
        if c == '&' then throw .classIntersection
        if c == '-' then throw .classDifference
        if c == '~' then throw .classSymmetricDifference
      return .again (rs ++ (← classRange))) rs

/-- A class, the opening bracket being next. -/
def characterClass : Read Pattern := do
  unless ← bumpBlanks do throw .openClass
  let negated := (← peek) == some '^'
  if negated then
    unless ← bumpBlanks do throw .openClassAfterNegation
  let dashes ← leadingDashes
  let start ←
    if dashes.isEmpty && (← peek) == some ']' then do
      unless ← bumpBlanks do throw .openClassAfterBracket
      pure [CharSet.span ']' ']']
    else pure dashes
  let s := CharSet.ofRanges (← classItems start)
  let s := if (← get).flags.ignoreCase then s.foldCase else s
  return .set (if negated then s.complement else s)

/-! ### Repetitions -/

/-- Whether a repetition prefers more rounds; a question mark after it turns that around. -/
def greediness : Read Bool := do
  let lazy := (← peek) == some '?'
  if lazy then
    let _ ← bump
  return lazy == (← get).flags.swapGreed

/-- A repetition written with one sign, which is next. -/
def repeatSign (least : Nat) (most : Option Nat) : List Pattern → Read (List Pattern)
  | [] => throw .nothingToRepeat
  | body :: before => do
    let _ ← bump
    return .ofRepetition least most (← greediness) body :: before

/-- A number of a count. -/
def decimal : Read Nat := do
  modify fun s => { s with rest := s.rest.dropWhile Text.isWhite }
  let digits ← takeChars Char.isDigit
  let _ ← takeChars Text.isWhite
  if digits.isEmpty then throw .missingDecimal
  let n := Text.natOfDigits digits
  if n < Nat.pow 2 32 then return n else throw .decimalTooLarge

/-- A counted repetition, the opening brace being next. -/
def repeatCount : List Pattern → Read (List Pattern)
  | [] => throw .nothingToCount
  | body :: before => do
    unless ← bumpBlanks do throw .openCount
    let least ← decimal
    if (← peek).isNone then throw .openCountLeast
    let most ←
      if (← peek) == some ',' then do
        unless ← bumpBlanks do throw .openCountComma
        let most ← if (← peek) == some '\x7d' then pure none else some <$> decimal
        if (← peek).isNone then throw .openCountMost
        pure most
      else pure (some least)
    if (← peek) != some '\x7d' then throw .badCount
    let _ ← bumpBlanks
    let greedy ← greediness
    if most.any (· < least) then throw .countOutOfOrder
    return .ofRepetition least most greedy body :: before

/-! ### Groups -/

/-- A flag switched on or off. -/
def switchFlag (flags : Flags) (on : Bool) : Char → Read Flags
  | 'i' => return { flags with ignoreCase := on }
  | 'm' => return { flags with multiLine := on }
  | 's' => return { flags with dotAll := on }
  | 'U' => return { flags with swapGreed := on }
  | 'R' => return { flags with crlf := on }
  | 'x' => return { flags with verbose := on }
  | 'u' => return flags
  | _ => throw .unknownFlag

/-- The flags read so far in front of a colon or a closing parenthesis. -/
structure FlagList where
  flags : Flags
  negated : Bool
  /-- Whether the dash that negates came last. -/
  dangling : Bool
  seen : List Char

/-- The flags in front of a colon or a closing parenthesis, and whether there are none. -/
def flagList : Read (Flags × Bool) := do
  let start : FlagList := ⟨(← get).flags, false, false, []⟩
  let found ← repeatFrom (fun (l : FlagList) => do
    match ← peek with
    | none => throw .openFlags
    | some c =>
      if c == ':' || c == ')' then return .last l
      let l ←
        if c == '-' then do
          if l.negated then throw .repeatedNegation
          pure { l with negated := true, dangling := true }
        else do
          let flags ← switchFlag l.flags (!l.negated) c
          if l.seen.contains c then throw .duplicateFlag
          pure { l with flags, dangling := false, seen := c :: l.seen }
      unless ← bump do throw .openFlags
      return .again l) start
  if found.dangling then throw .danglingNegation
  return (found.flags, found.seen.isEmpty && !found.negated)

/-- The name of a group, up to and without the sign that closes it. -/
def groupName : Read String := do
  if (← peek).isNone then throw .missingGroupName
  let name ← repeatFrom (fun (name : List Char) => do
    match ← peek with
    | none => throw .openGroupName
    | some '>' => return .last name
    | some c =>
      let fits :=
        if name.isEmpty then c == '_' || Text.isLetter c
        else c == '_' || c == '.' || c == '[' || c == ']' || Text.isLetterOrNumeral c
      if !fits then throw .invalidGroupName
      let _ ← bump
      return .again (c :: name)) []
  let _ ← bump
  if name.isEmpty then throw .emptyGroupName
  let name := String.ofList name.reverse
  if (← get).names.contains name then throw .duplicateGroupName
  modify fun s => { s with names := name :: s.names }
  return name

/-- The index of a new group. -/
def newGroup : Read Nat := do
  let index := (← get).nextGroup
  modify fun s => { s with nextGroup := index + 1 }
  return index

/-- What stands between parentheses, the opening one being next; `inner` reads what a group holds.
Flags alone are nothing. -/
def group (inner : Read Pattern) : Read (Option Pattern) := do
  let _ ← bumpBlanks
  let around (text : String) : Read Bool := return text.toList.isPrefixOf (← get).rest
  if (← around "?=") || (← around "?!") || (← around "?<=") || (← around "?<!") then
    throw .lookAround
  if (← bumpText "?P<") || (← bumpText "?<") then
    let index ← newGroup
    let _ ← groupName
    return some (.group index (← inner))
  else if ← bumpText "?" then
    if (← peek).isNone then throw .openGroupQuestion
    let (flags, noFlags) ← flagList
    modify fun s => { s with flags }
    if (← peek) == some ')' then
      if noFlags then throw .noFlags
      return none
    else
      let _ ← bump
      return some (← inner)
  else
    let index ← newGroup
    return some (.group index (← inner))

/-! ### Whole patterns -/

/-- The branches read so far, and the parts of the current one, both in reverse. -/
structure Branches where
  done : List Pattern
  parts : List Pattern

/-- Branches up to the end of the source or of a group. At the top there is no group to end. -/
def branches (top : Bool) : (room : Nat) → Read Pattern
  | 0 => throw .tooMuchNesting
  | room + 1 => do
    let found ← repeatFrom (fun (b : Branches) => do
      skipBlanks
      match ← peek with
      | none => return .last b
      | some '(' =>
        let flags := (← get).flags
        let sub ← group (branches false room)
        if sub.isSome then modify fun s => { s with flags }
        if (← peek) != some ')' then throw .openGroup
        let _ ← bump
        return .again { b with parts := sub.toList ++ b.parts }
      | some ')' => if top then throw .strayClosingParen else return .last b
      | some '|' =>
        let _ ← bump
        return .again ⟨.ofParts b.parts.reverse :: b.done, []⟩
      | some '[' => return .again { b with parts := (← characterClass) :: b.parts }
      | some '?' => return .again { b with parts := ← repeatSign 0 (some 1) b.parts }
      | some '*' => return .again { b with parts := ← repeatSign 0 none b.parts }
      | some '+' => return .again { b with parts := ← repeatSign 1 none b.parts }
      | some '\x7b' => return .again { b with parts := ← repeatCount b.parts }
      | some c => return .again { b with parts := (← primitive c) :: b.parts }) ⟨[], []⟩
    return .ofBranches (.ofParts found.parts.reverse :: found.done).reverse

end Read

/-- How deep groups nest, and patterns too. -/
def Pattern.maxDepth : Nat := 50

/-- Reads the source of a regular expression. -/
def Pattern.read (flags : Flags) (source : List Char) : Except Error Pattern := do
  let start : Read.State := { rest := source, flags, nextGroup := 1, names := [] }
  let (pattern, _) ← (Read.branches true (maxDepth + 1)).run start
  if maxDepth < pattern.depth then throw .tooMuchNesting
  return pattern

end Espalier.Regex
