import Espalier.Print.Literal
import Espalier.Proofs.Token.Lexeme
import Espalier.Proofs.Token.Spacing.Literal

/-!
# Printed strings read again

Behind its opening quote, a printed string is read character by character: what stands for a
character (`stringChar`) is read as that character, whatever follows it, with one exception. The
text `\0` in front of a digit is the start of an octal escape, of which only the zero is read. So a
NUL directly in front of a digit comes back as the digit zero (`reread`), and everything else comes
back as it was.

**Main result**: `scan_quoted`. A printed string is one token, which spans all of the literal, and
its value is the printed one if and only if no NUL stands directly in front of a digit.
-/

namespace Espalier

open Text Token

/-! ### Hexadecimal digits -/

namespace Text

/-- A digit is read back as its value. -/
theorem digitValue?_digitChar {d : Nat} (h : d < 16) :
    digitValue? 16 (digitChar d) = some d := by
  have hall : ∀ d < 16, digitValue? 16 (digitChar d) = some d := by decide
  exact hall d h

theorem digitChar_ne_brace {d : Nat} (h : d < 16) : digitChar d ≠ '\x7b' := by
  have hall : ∀ d < 16, digitChar d ≠ '\x7b' := by decide
  exact hall d h

theorem utf8Size_digitChar {d : Nat} (h : d < 16) : (digitChar d).utf8Size = 1 := by
  have hall : ∀ d < 16, (digitChar d).utf8Size = 1 := by decide
  exact hall d h

theorem digitsOf_of_lt {n : Nat} (h : n < 16) : digitsOf 16 n = [digitChar n] := by
  rw [digitsOf, if_pos (.inr h)]

/-- A number of several digits ends with the digit of its remainder. -/
theorem digitsOf_of_le {n : Nat} (h : 16 ≤ n) :
    digitsOf 16 n = digitsOf 16 (n / 16) ++ [digitChar (n % 16)] := by
  rw [digitsOf, if_neg (by omega)]

/-- The four digits of a number that needs no more. -/
theorem toList_hex4 {n : Nat} (h : n < 65536) :
    (hex4 n).toList =
      [digitChar (n / 4096), digitChar (n / 256 % 16), digitChar (n / 16 % 16),
        digitChar (n % 16)] := by
  have hzero : digitChar 0 = '0' := rfl
  unfold hex4
  rw [String.toList_ofList]
  -- One case for each number of digits that `digitsOf` may give.
  by_cases h1 : n < 16
  · have h4 : n / 4096 = 0 := by omega
    have h3 : n / 256 % 16 = 0 := by omega
    have h2 : n / 16 % 16 = 0 := by omega
    rw [digitsOf_of_lt h1, h4, h3, h2, Nat.mod_eq_of_lt h1]
    rfl
  by_cases h2 : n < 256
  · have hdigits : digitsOf 16 n = [digitChar (n / 16), digitChar (n % 16)] := by
      rw [digitsOf_of_le (by omega), digitsOf_of_lt (by omega)]
      rfl
    have h4 : n / 4096 = 0 := by omega
    have h3 : n / 256 % 16 = 0 := by omega
    rw [hdigits, h4, h3, Nat.mod_eq_of_lt (show n / 16 < 16 by omega)]
    rfl
  by_cases h3 : n < 4096
  · have hdigits : digitsOf 16 n =
        [digitChar (n / 16 / 16), digitChar (n / 16 % 16), digitChar (n % 16)] := by
      rw [digitsOf_of_le (by omega), digitsOf_of_le (by omega), digitsOf_of_lt (by omega)]
      rfl
    have h4 : n / 4096 = 0 := by omega
    have h3 : n / 16 / 16 = n / 256 % 16 := by omega
    rw [hdigits, h4, h3]
    rfl
  · have hdigits : digitsOf 16 n =
        [digitChar (n / 16 / 16 / 16), digitChar (n / 16 / 16 % 16), digitChar (n / 16 % 16),
          digitChar (n % 16)] := by
      rw [digitsOf_of_le (by omega), digitsOf_of_le (by omega), digitsOf_of_le (by omega),
        digitsOf_of_lt (by omega)]
      rfl
    have h4 : n / 16 / 16 / 16 = n / 4096 := by omega
    have h3 : n / 16 / 16 = n / 256 := by omega
    rw [hdigits, h4, h3]
    rfl

/-- Four digits are four bytes. -/
theorem bytes_hex4 {n : Nat} (h : n < 65536) : bytes (hex4 n).toList = 4 := by
  rw [toList_hex4 h]
  simp only [bytes_cons, bytes_nil]
  rw [utf8Size_digitChar (by omega), utf8Size_digitChar (by omega), utf8Size_digitChar (by omega),
    utf8Size_digitChar (by omega)]

end Text

namespace Token

/-- A digit of a code point that is not too large. -/
theorem hexRun_digitChar {value d : Nat} (hd : d < 16) (hvalue : 16 * value + d < 0x110000)
    (pos limit : Nat) (cs : List Char) :
    hexRun value pos (limit + 1) (digitChar d :: cs) =
      hexRun (16 * value + d) (pos + 1) limit cs := by
  rw [hexRun, digitValue?_digitChar hd]
  dsimp only
  rw [Nat.min_eq_left hvalue.le]

/-- Four printed digits are read as the number that they were printed for. -/
theorem hexRun_hex4 {n : Nat} (h : n < 65536) (pos : Nat) (more : List Char) :
    hexRun 0 pos 4 ((hex4 n).toList ++ more) = (n, ⟨pos + 4, more⟩) := by
  have hvalue :
      16 * (16 * (16 * (16 * 0 + n / 4096) + n / 256 % 16) + n / 16 % 16) + n % 16 = n := by
    omega
  rw [toList_hex4 h]
  dsimp only [List.cons_append, List.nil_append]
  rw [hexRun_digitChar (by omega) (by omega), hexRun_digitChar (by omega) (by omega),
    hexRun_digitChar (by omega) (by omega), hexRun_digitChar (by omega) (by omega), hvalue,
    hexRun_of_head? (.inl rfl)]

/-- A character is read back from its own code. -/
theorem charOfCode_toNat (c : Char) : charOfCode c.toNat = c := by
  unfold charOfCode
  rw [if_pos (show c.toNat.isValidChar from c.valid), Char.ofNat_toNat]

/-- The escape for the code point of a character. -/
theorem scanEscape_hex4 {c : Char} (h : c.toNat < 65536) (pos : Nat) (more : List Char) :
    scanEscape pos ('u' :: ((hex4 c.toNat).toList ++ more)) = (some c, ⟨pos + 5, more⟩) := by
  have hbrace : ((hex4 c.toNat).toList ++ more).head? ≠ some '\x7b' := by
    rw [toList_hex4 h]
    intro heq
    exact digitChar_ne_brace (by omega) (Option.some.inj heq)
  rw [scanEscape_unicode hbrace, hexRun_hex4 h]
  dsimp only
  rw [charOfCode_toNat]

end Token

/-! ### One character after the other -/

/-- An escape adds the one character it stands for. -/
theorem Token.scanString_escape {quote c : Char} {cs more : List Char} {pos pos' : Nat}
    (hquote : quote ≠ '\\') (h : scanEscape (pos + 1) cs = (some c, ⟨pos', more⟩))
    (acc : List Char) :
    scanString quote acc pos ('\\' :: cs) = scanString quote (c :: acc) pos' more := by
  rw [scanString, if_neg (by simpa using hquote.symm), if_neg (by decide), if_pos (by decide)]
  dsimp only
  rw [h]
  rfl

/-- Any other character adds itself. -/
theorem Token.scanString_plain {c : Char} (hquote : c ≠ '"') (hslash : c ≠ '\\') (hline : c ≠ '\n')
    (hreturn : c ≠ '\r') (acc : List Char) (pos : Nat) (more : List Char) :
    scanString '"' acc pos (c :: more) = scanString '"' (c :: acc) (pos + c.utf8Size) more := by
  rw [scanString, if_neg (by simpa using hquote), if_neg (by simp [hline, hreturn]),
    if_neg (by simpa using hslash)]

namespace Print

/-- The characters for which there is a hexadecimal escape. -/
theorem toNat_lt_of_escaped {c : Char}
    (h : (isControl c || c == '\u2028' || c == '\u2029') = true) : c.toNat < 65536 := by
  unfold isControl at h
  simp only [Bool.or_eq_true, Bool.and_eq_true, decide_eq_true_eq, beq_iff_eq] at h
  rcases h with (hcontrol | rfl) | rfl
  · omega
  · decide
  · decide

/-- What stands for a character is read as that character, but for a NUL in front of a digit. -/
theorem scanString_stringChar (c : Char) (acc : List Char) (pos : Nat) (more : List Char) :
    scanString '"' acc pos (stringChar c ++ more) =
      scanString '"' ((if c == '\x00' && more.head?.any Char.isDigit then '0' else c) :: acc)
        (pos + bytes (stringChar c)) more := by
  by_cases hslash : c = '\\'
  · subst hslash
    exact scanString_escape (by decide) (by rfl) acc
  by_cases hquote : c = '"'
  · subst hquote
    exact scanString_escape (by decide) (by rfl) acc
  by_cases hline : c = '\n'
  · subst hline
    exact scanString_escape (by decide) (by rfl) acc
  by_cases hreturn : c = '\r'
  · subst hreturn
    exact scanString_escape (by decide) (by rfl) acc
  by_cases htab : c = '\t'
  · subst htab
    exact scanString_escape (by decide) (by rfl) acc
  -- the one case that is not read back: with a digit behind it, another digit is read
  by_cases hnul : c = '\x00'
  · subst hnul
    exact scanString_escape (by decide) (by rfl) acc
  have hkept : (if c == '\x00' && more.head?.any Char.isDigit then '0' else c) = c := by
    rw [beq_false_of_ne hnul]
    rfl
  rw [hkept]
  unfold stringChar
  simp only [beq_false_of_ne hslash, beq_false_of_ne hquote, beq_false_of_ne hline,
    beq_false_of_ne hreturn, beq_false_of_ne htab, beq_false_of_ne hnul, Bool.false_eq_true,
    if_false]
  split
  · -- other control characters are written with four digits
    next hescaped =>
    have hlt := toNat_lt_of_escaped hescaped
    have hbytes : bytes (['\\', 'u'] ++ (hex4 c.toNat).toList) = 6 := by
      rw [bytes_append, bytes_hex4 hlt]
      rfl
    rw [hbytes]
    exact scanString_escape (by decide) (scanEscape_hex4 hlt (pos + 1) more) acc
  · exact scanString_plain hquote hslash hline hreturn acc pos more

/-- What is read where the given text has been printed: a NUL directly in front of a digit becomes
the digit zero. -/
def reread : List Char → List Char
  | [] => []
  | c :: cs => (if c == '\x00' && cs.head?.any Char.isDigit then '0' else c) :: reread cs

/-- A digit stands for itself. -/
theorem stringChar_digit {c : Char} (h : c.isDigit = true) : stringChar c = [c] := by
  have hrange : 48 ≤ c.toNat ∧ c.toNat ≤ 57 := by
    unfold Char.isDigit at h
    rw [Bool.and_eq_true, decide_eq_true_iff, decide_eq_true_iff] at h
    exact h
  have hall : ∀ n < 58, 48 ≤ n → stringChar (Char.ofNat n) = [Char.ofNat n] := by decide
  have hself := hall c.toNat (by omega) hrange.1
  rwa [Char.ofNat_toNat] at hself

/-- What stands for a character starts with that character or with a backslash, and with a
backslash for no digit. -/
theorem stringChar_head (c : Char) :
    stringChar c = [c] ∨ c.isDigit = false ∧ ∃ more, stringChar c = '\\' :: more := by
  by_cases hkept : stringChar c = [c]
  · exact .inl hkept
  -- Every other text that `stringChar` gives is an escape, and no digit is a control character.
  have hescaped : ∃ more, stringChar c = '\\' :: more := by
    unfold stringChar at hkept ⊢
    split_ifs at hkept ⊢ <;> first | exact ⟨_, rfl⟩ | exact absurd rfl hkept
  have hdigit : c.isDigit = false := by
    rw [← Bool.not_eq_true]
    intro hdigit
    exact hkept (stringChar_digit hdigit)
  exact .inr ⟨hdigit, hescaped⟩

/-- A printed text starts with a digit just if the text itself does. -/
theorem any_isDigit_head?_flatMap (cs more : List Char) :
    (cs.flatMap stringChar ++ '"' :: more).head?.any Char.isDigit = cs.head?.any Char.isDigit := by
  cases cs with
  | nil => rfl
  | cons c cs =>
    rw [List.flatMap_cons]
    rcases stringChar_head c with heq | ⟨hdigit, tail, heq⟩
    · rw [heq]
      rfl
    · rw [heq]
      exact hdigit.symm

/-- The rest of a printed string behind its opening quote. -/
theorem scanString_flatMap (cs acc : List Char) (pos : Nat) (rest : List Char) :
    scanString '"' acc pos (cs.flatMap stringChar ++ '"' :: rest) =
      (.string (String.ofList (acc.reverse ++ reread cs)),
        ⟨pos + bytes (cs.flatMap stringChar) + 1, rest⟩) := by
  induction cs generalizing acc pos with
  | nil =>
    rw [List.flatMap_nil, List.nil_append, scanString, if_pos (by decide), reread, List.append_nil]
    rfl
  | cons c cs ih =>
    rw [List.flatMap_cons, List.append_assoc, scanString_stringChar, ih,
      any_isDigit_head?_flatMap, bytes_append, List.reverse_cons, List.append_assoc, reread,
      Nat.add_assoc pos]
    rfl

/-- The value that is read is the printed one if no NUL stands directly in front of a digit, and
only then. -/
theorem reread_eq_self_iff (cs : List Char) :
    reread cs = cs ↔
      ∀ before d after, cs = before ++ '\x00' :: d :: after → d.isDigit = false := by
  induction cs with
  | nil =>
    have hnone : ∀ (before : List Char) (d : Char) (after : List Char),
        [] = before ++ '\x00' :: d :: after → d.isDigit = false := by
      intro before d after heq
      exact absurd heq.symm (List.append_ne_nil_of_right_ne_nil _ (List.cons_ne_nil _ _))
    exact iff_of_true rfl hnone
  | cons c cs ih =>
    rw [reread, List.cons.injEq, ih]
    constructor
    · -- the pair stands at the front or further on
      rintro ⟨hfirst, hlater⟩ before d after heq
      cases before with
      | nil =>
        obtain ⟨rfl, rfl⟩ := List.cons.inj heq
        rw [← Bool.not_eq_true]
        intro hdigit
        rw [if_pos (by simpa using hdigit)] at hfirst
        exact absurd hfirst (by decide)
      | cons b before => exact hlater before d after (List.cons.inj heq).2
    · intro hno
      have hfirst : ¬(c == '\x00' && cs.head?.any Char.isDigit) = true := by
        intro hboth
        obtain ⟨hnul, hdigit⟩ := (Bool.and_eq_true _ _).mp hboth
        obtain ⟨d, hd, hdigit⟩ := (Option.any_eq_true _ _).mp hdigit
        obtain ⟨after, hcs⟩ := List.head?_eq_some_iff.mp hd
        have hno := hno [] d after (by rw [eq_of_beq hnul, hcs]; rfl)
        rw [hno] at hdigit
        cases hdigit
      refine ⟨if_neg hfirst, fun before d after heq => ?_⟩
      exact hno (c :: before) d after (by rw [heq]; rfl)

/-- A printed string is one token, which spans all of the literal. Its value is the printed one if
and only if no NUL stands directly in front of a digit: such a NUL comes back as the digit zero. -/
theorem scan_quoted (s : String) (pos : Nat) (rest : List Char) :
    scan ⟨pos, (quoted s).toList ++ rest⟩ =
        ⟨⟨.string (String.ofList (reread s.toList)),
            ⟨pos, pos + (quoted s).utf8ByteSize⟩, false⟩,
          ⟨pos, (quoted s).toList ++ rest⟩, ⟨pos + (quoted s).utf8ByteSize, rest⟩⟩ ∧
      (String.ofList (reread s.toList) = s ↔
        ∀ before d after, s.toList = before ++ '\x00' :: d :: after → d.isDigit = false) := by
  have hsize : (quoted s).utf8ByteSize = 1 + bytes (s.toList.flatMap stringChar) + 1 := by
    unfold quoted
    simp only [String.utf8ByteSize_append, utf8ByteSize_ofList]
    rfl
  have htext : (quoted s).toList ++ rest = '"' :: (s.toList.flatMap stringChar ++ '"' :: rest) := by
    unfold quoted
    simp only [String.toList_append, String.toList_ofList, List.append_assoc]
    rfl
  constructor
  · -- what is read is what was written, character by character
    have hkind : scanKind ⟨pos, '"' :: (s.toList.flatMap stringChar ++ '"' :: rest)⟩ =
        scanString '"' [] (pos + 1) (s.toList.flatMap stringChar ++ '"' :: rest) := by
      rfl
    rw [htext, hsize, scan_of_scanKind (by decide) (absurd · (by decide)), hkind,
      scanString_flatMap]
    simp only [Scanned.ofKind, List.reverse_nil, List.nil_append, Nat.add_assoc]
  · rw [← reread_eq_self_iff]
    constructor
    · intro heq
      rw [← String.toList_ofList (l := reread s.toList), heq]
    · intro heq
      rw [heq, String.ofList_toList]

end Print

end Espalier
