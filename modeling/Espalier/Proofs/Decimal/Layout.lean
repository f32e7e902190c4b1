import Espalier.Decimal.Layout
import Espalier.Proofs.Token.Spacing.Number
import Mathlib.Data.List.Induction
import Mathlib.Data.Rat.Defs
import Mathlib.Tactic.FieldSimp
import Mathlib.Tactic.NormNum
import Mathlib.Tactic.Ring

/-!
# Numbers as scripts write them

A number is written by its digits, with zeros where they do not reach its point, or with an exponent
if they would have to be many. `Decimal.ScriptText` tells for each place of the point which form is
prescribed, and a number is laid out in that form (`scriptText_iff`). Each form is a numeral
(`Number.Numeral.IsWritten`) that denotes the number, exactly, whatever its digits are
(`ScriptText.exists_numeral`). A numeral is read as one token that goes up to its end
(`scan_of_isWritten`), and it is read back as a decimal (`readNumeral?_of_isWritten`), so the text
of a number keeps what it denotes (`layOut_script_reads`).
-/

namespace Espalier

open Text Token

variable {digits ds cs : List Char} {c : Char} {point : Int}

/-! ### Numbers written by digits -/

/-- Digits in front of others count for as many places more. -/
theorem Text.natOfDigits_append (ds es : List Char) :
    natOfDigits (ds ++ es) = natOfDigits ds * 10 ^ es.length + natOfDigits es := by
  induction es using List.reverseRecOn with
  | nil => simp [natOfDigits]
  | append_singleton es c ih =>
    have hlast (ds : List Char) : natOfDigits (ds ++ [c]) =
        10 * natOfDigits ds + (c.toNat - '0'.toNat) := by
      unfold natOfDigits
      rw [List.foldl_append]
      rfl
    rw [← List.append_assoc, hlast, hlast, ih, List.length_append, List.length_singleton, pow_succ]
    ring

/-- Zeros denote zero, however many. -/
theorem Text.natOfDigits_zeros (n : Nat) : natOfDigits (List.replicate n '0') = 0 := by
  induction n with
  | zero => rfl
  | succ n ih =>
    rw [List.replicate_succ', natOfDigits_append, ih, Nat.zero_mul]
    rfl

/-- The digits of a number denote it. -/
theorem Text.natOfDigits_toDigits (n : Nat) : natOfDigits (Nat.toDigits 10 n) = n := by
  calc natOfDigits (Nat.toDigits 10 n)
    _ = Nat.ofDigitChars 10 (Nat.toDigits 10 n) 0 := Nat.ofDigitChars_eq_foldl.symm
    _ = n := Nat.ofDigitChars_ten_toDigits

theorem Text.isDigit_of_mem_zeros {n : Nat} (h : c ∈ List.replicate n '0') : c.isDigit = true := by
  rw [List.eq_of_mem_replicate h]
  rfl

namespace Number

/-- Digits behind a point, if there are any. -/
def pointed : List Char → List Char
  | [] => []
  | c :: cs => '.' :: c :: cs

/-- A point stands in front of digits if there are any. -/
theorem pointed_of_ne_nil (h : cs ≠ []) : pointed cs = '.' :: cs := by
  obtain ⟨c, cs, rfl⟩ := List.exists_cons_of_ne_nil h
  rfl

/-- The number that a numeral denotes. -/
def Numeral.rat (n : Numeral) : ℚ :=
  (natOfDigits n.whole + natOfDigits n.fraction / 10 ^ n.fraction.length) * 10 ^ n.exponent

/-- Without the point, all digits count units of the last one. -/
theorem Numeral.rat_eq (n : Numeral) :
    n.rat = natOfDigits (n.whole ++ n.fraction) * 10 ^ (n.exponent - n.fraction.length) := by
  unfold rat
  rw [natOfDigits_append, zpow_sub₀ (by norm_num), zpow_natCast]
  push_cast
  field_simp

end Number

/-- The number that a decimal denotes. -/
def Decimal.rat (d : Decimal) : ℚ := natOfDigits d.digits * 10 ^ (d.point - d.digits.length)

/-! ### The layout that is prescribed -/

namespace Decimal

open Number

/-- How the digits of a number are written whose point stands behind `point` of them. Zeros are
counted and digits are divided by natural numbers that are what the form says, neither cut off at
nothing nor at the last digit.

Points up to the twenty-first place are reached by digits and zeros (`whole`, `point`), and up to
five zeros are put between the point and the digits (`small`). Otherwise the point stands behind the
first digit, unless that is the last one, and an exponent follows (`large`, `tiny`). -/
inductive ScriptText (digits : List Char) : Int → List Char → Prop
  | whole {zeros : Nat} (h : digits.length + zeros ≤ 21) :
    ScriptText digits (digits.length + zeros : Nat) (digits ++ List.replicate zeros '0')
  | point {front back : List Char} (hdigits : digits = front ++ back) (hfront : front ≠ [])
      (hback : back ≠ []) (h : front.length ≤ 21) :
    ScriptText digits front.length (front ++ '.' :: back)
  | small {zeros : Nat} (h : zeros < 6) :
    ScriptText digits (-zeros) ('0' :: '.' :: (List.replicate zeros '0' ++ digits))
  | large {first : Char} {rest : List Char} (hdigits : digits = first :: rest) {e : Nat}
      (h : 21 ≤ e) :
    ScriptText digits (e + 1) (first :: (pointed rest ++ 'e' :: '+' :: Nat.toDigits 10 e))
  | tiny {first : Char} {rest : List Char} (hdigits : digits = first :: rest) {e : Nat}
      (h : 7 ≤ e) :
    ScriptText digits (1 - e) (first :: (pointed rest ++ 'e' :: '-' :: Nat.toDigits 10 e))

/-- Between the two bounds a number is written without an exponent. -/
theorem layOut_positional (hlow : -6 < point) (hhigh : point ≤ 21) :
    (layOut .script ⟨digits, point⟩).toList =
      if (digits.length : Int) ≤ point then digits ++ Decimal.zeros (point - digits.length)
      else if 0 < point then digits.take point.toNat ++ '.' :: digits.drop point.toNat
      else '0' :: '.' :: (Decimal.zeros (-point) ++ digits) := by
  have hboth : (Layout.script.minPoint.all (· < point) && Layout.script.maxPoint.all (point ≤ ·)) =
      true := by
    simp [Layout.script, hlow, hhigh]
  unfold layOut
  dsimp only
  rw [if_pos hboth]
  split
  · simp [Layout.script]
  · split
    · simp
    · simp

/-- Outside of them it is written with one digit in front of the point, and an exponent. -/
theorem layOut_scientific (h : point ≤ -6 ∨ 21 < point) (first : Char) (rest : List Char) :
    (layOut .script ⟨first :: rest, point⟩).toList =
      first :: (pointed rest ++ (exponentText .script (point - 1)).toList) := by
  have hboth : (Layout.script.minPoint.all (· < point) && Layout.script.maxPoint.all (point ≤ ·)) =
      false := by
    simp [Layout.script]
    omega
  unfold layOut
  dsimp only
  rw [hboth, if_neg Bool.false_ne_true]
  cases rest with
  | nil => simp [pointed]
  | cons c cs => simp [pointed]

/-- An exponent has a sign if it is positive. -/
theorem exponentText_plus (e : Nat) :
    (exponentText .script e).toList = 'e' :: '+' :: Nat.toDigits 10 e := by
  have hsign : ¬(e : Int) < 0 := by omega
  unfold exponentText
  rw [if_neg hsign]
  simp [Layout.script]

/-- It has a minus if it is negative. -/
theorem exponentText_minus {e : Nat} (h : 0 < e) :
    (exponentText .script (-e)).toList = 'e' :: '-' :: Nat.toDigits 10 e := by
  have hsign : -(e : Int) < 0 := by omega
  unfold exponentText
  rw [if_pos hsign]
  simp

/-- No other text is prescribed than what is laid out. -/
theorem ScriptText.eq_layOut {t : List Char} (h : ScriptText digits point t) (hne : digits ≠ []) :
    t = (layOut .script ⟨digits, point⟩).toList := by
  -- The forms differ in where the point lies, relative to the digits.
  cases h with
  | @whole zeros h =>
    have hzeros : ((digits.length + zeros : Nat) : Int) - digits.length = (zeros : Int) := by omega
    rw [layOut_positional (by omega) (by omega), if_pos (by omega), hzeros]
    rfl
  | @point front back hdigits hfront hback h =>
    have hpos := List.length_pos_iff.mpr hfront
    have hlength := congrArg List.length hdigits
    have hrest := List.length_pos_iff.mpr hback
    rw [List.length_append] at hlength
    rw [layOut_positional (by omega) (by omega), if_neg (by omega), if_pos (by omega),
      Int.toNat_natCast, hdigits, List.take_left, List.drop_left]
  | @small zeros h =>
    have hpos := List.length_pos_iff.mpr hne
    rw [layOut_positional (by omega) (by omega), if_neg (by omega), if_neg (by omega), Int.neg_neg]
    rfl
  | @large first rest hdigits e h =>
    have hexponent : (e : Int) + 1 - 1 = e := by omega
    rw [hdigits, layOut_scientific (by omega), hexponent, exponentText_plus]
  | @tiny first rest hdigits e h =>
    have hexponent : 1 - (e : Int) - 1 = -e := by omega
    rw [hdigits, layOut_scientific (by omega), hexponent, exponentText_minus (by omega)]

/-- Every number has one of the forms. -/
theorem exists_scriptText (hne : digits ≠ []) (point : Int) : ∃ t, ScriptText digits point t := by
  obtain ⟨first, rest, hdigits⟩ := List.exists_cons_of_ne_nil hne
  -- The bounds and the sign of the point are gone through from the largest numbers to the smallest.
  rcases Int.lt_or_le 21 point with hlarge | hhigh
  · obtain ⟨e, rfl⟩ : ∃ e : Nat, point = e + 1 := ⟨(point - 1).toNat, by omega⟩
    exact ⟨_, .large hdigits (by omega)⟩
  rcases Int.lt_or_le (-6) point with hlow | htiny
  · rcases Int.lt_or_le 0 point with hpos | hsmall
    · obtain ⟨n, rfl⟩ := Int.eq_ofNat_of_zero_le (Int.le_of_lt hpos)
      by_cases hcount : digits.length ≤ n
      · obtain ⟨zeros, rfl⟩ := Nat.exists_eq_add_of_le hcount
        exact ⟨_, .whole (by omega)⟩
      · have hfront : (digits.take n).length = n := List.length_take_of_le (by omega)
        have hback : digits.drop n ≠ [] := by
          rw [Ne, List.drop_eq_nil_iff]
          exact hcount
        have htext := ScriptText.point (List.take_append_drop n digits).symm
          (List.ne_nil_of_length_pos (by omega)) hback (by omega)
        rw [hfront] at htext
        exact ⟨_, htext⟩
    · obtain ⟨zeros, rfl⟩ : ∃ zeros : Nat, point = -zeros := ⟨(-point).toNat, by omega⟩
      exact ⟨_, .small (by omega)⟩
  · obtain ⟨e, rfl⟩ : ∃ e : Nat, point = 1 - e := ⟨(1 - point).toNat, by omega⟩
    exact ⟨_, .tiny hdigits (by omega)⟩

/-- The text that is laid out is the one that is prescribed. -/
theorem scriptText_iff (hne : digits ≠ []) (t : List Char) :
    ScriptText digits point t ↔ t = (layOut .script ⟨digits, point⟩).toList := by
  constructor
  · exact fun h => h.eq_layOut hne
  · rintro rfl
    obtain ⟨t, ht⟩ := exists_scriptText hne point
    exact ht.eq_layOut hne ▸ ht

end Decimal

/-! ### Numerals as they are written -/

namespace Number

/-- An exponent as it is written. Nothing is written for an exponent of zero. -/
inductive IsExponent : List Char → Int → Prop
  | none : IsExponent [] 0
  | plus (n : Nat) : IsExponent ('e' :: '+' :: Nat.toDigits 10 n) n
  | minus (n : Nat) : IsExponent ('e' :: '-' :: Nat.toDigits 10 n) (-n)

/-- A text of digits, with a point in front of those of the fraction, and an exponent. -/
structure Numeral.IsWritten (n : Numeral) (text : List Char) : Prop where
  whole_ne_nil : n.whole ≠ []
  isDigit_whole : ∀ c ∈ n.whole, c.isDigit = true
  isDigit_fraction : ∀ c ∈ n.fraction, c.isDigit = true
  eq_append : ∃ tail, IsExponent tail n.exponent ∧ text = n.whole ++ (pointed n.fraction ++ tail)

variable {n : Numeral} {text tail : List Char} {e : Int}

/-- Digits end here. -/
def EndsDigits (cs : List Char) : Prop := ∀ c ∈ cs.head?, c = '.' ∨ c = 'e'

/-- No exponent begins with a digit. -/
theorem IsExponent.endsDigits (h : IsExponent tail e) : EndsDigits tail := by
  cases h with
  | none => nofun
  | plus | minus => exact fun c hc => .inr (Option.some.inj hc).symm

/-- Nor does a point. -/
theorem EndsDigits.pointed (h : EndsDigits tail) (fraction : List Char) :
    EndsDigits (pointed fraction ++ tail) := by
  cases fraction with
  | nil => exact h
  | cons => exact fun c hc => .inl (Option.some.inj hc).symm

/-- What ends digits is no digit. -/
theorem EndsDigits.isDigit (h : EndsDigits cs) : ∀ c ∈ cs.head?, c.isDigit = false := by
  intro c hc
  rcases h c hc with rfl | rfl <;> rfl

/-- A run of digits goes on up to what ends it. -/
theorem digitRun_append (h : ∀ c ∈ ds, c.isDigit = true) (hcs : EndsDigits cs) (acc : List Char)
    (pos : Nat) :
    digitRun Char.isDigit acc pos (ds ++ cs) = (acc.reverse ++ ds, ⟨pos + ds.length, cs⟩) := by
  induction ds generalizing acc pos with
  | nil =>
    have hstop : cs.head?.any Char.isDigit = false := by
      cases cs with
      | nil => rfl
      | cons c cs => exact hcs.isDigit c rfl
    -- A separator would go on with the run if a digit came after it; what ends digits is none.
    have hjoin : joinsDigits Char.isDigit cs = false := by
      cases cs with
      | nil => rfl
      | cons c cs => rcases hcs c rfl with rfl | rfl <;> rfl
    rw [List.nil_append, List.append_nil, digitRun_of_head? hstop hjoin]
    rfl
  | cons c ds ih =>
    obtain ⟨hc, hds⟩ := List.forall_mem_cons.mp h
    rw [List.cons_append, digitRun, if_pos hc, ih hds, utf8Size_of_isDigit hc, List.reverse_cons,
      List.append_assoc, List.length_cons, Nat.add_assoc, Nat.add_comm 1]
    rfl

/-- The digits of a number are digits. -/
theorem isDigit_toDigits (n : Nat) : ∀ c ∈ Nat.toDigits 10 n, c.isDigit = true :=
  fun _ hc => Nat.isDigit_of_mem_toDigits (by decide) (by decide) hc

/-- An exponent is read as the number that it denotes. -/
theorem scanExponent_of_isExponent (h : IsExponent tail e) (pos : Nat) :
    scanExponent ⟨pos, tail⟩ = (e, ⟨pos + tail.length, []⟩) := by
  have hrun (n pos : Nat) : digitRun Char.isDigit [] pos (Nat.toDigits 10 n) =
      (Nat.toDigits 10 n, ⟨pos + (Nat.toDigits 10 n).length, []⟩) := by
    have hend : EndsDigits [] := nofun
    have happend := digitRun_append (isDigit_toDigits n) hend [] pos
    rw [List.append_nil] at happend
    exact happend
  have hne (n : Nat) : (Nat.toDigits 10 n).isEmpty = false :=
    List.isEmpty_eq_false_iff.mpr Nat.toDigits_ne_nil
  cases h with
  | none => rfl
  | plus n =>
    unfold scanExponent
    simp [hrun, hne, natOfDigits_toDigits]
    omega
  | minus n =>
    unfold scanExponent
    simp [hrun, hne, natOfDigits_toDigits]
    omega

/-- A number in one of the forms is read as one token, from its first digit to its end. -/
theorem scanNumber_of_isWritten (h : n.IsWritten text) (pos : Nat) :
    scanNumber ⟨pos, text⟩ = (.number (n.value false), ⟨pos + text.length, []⟩) := by
  obtain ⟨tail, htail, rfl⟩ := h.eq_append
  obtain ⟨whole, fraction, e⟩ := n
  have hstop := htail.endsDigits
  have hwhole := digitRun_append h.isDigit_whole (hstop.pointed fraction) [] pos
  -- What comes after the digits is no mark of a whole number of any size.
  have hbig : ((pointed fraction ++ tail).head? == some 'n') = false := by
    rw [beq_eq_false_iff_ne]
    intro hn
    rcases hstop.pointed fraction 'n' hn with h | h <;> cases h
  dsimp only at hwhole htail hstop
  unfold scanNumber
  rw [hwhole]
  dsimp only
  rw [hbig, if_neg Bool.false_ne_true]
  have hexponent := scanExponent_of_isExponent htail
  cases fraction with
  | nil =>
    cases htail with
    | none => simp [pointed, scanExponent]
    | plus n => simp [pointed, hexponent, Nat.add_assoc]
    | minus n => simp [pointed, hexponent, Nat.add_assoc]
  | cons d ds =>
    have hfraction := digitRun_append h.isDigit_fraction hstop [] (pos + whole.length + 1)
    dsimp only [pointed, List.cons_append] at hfraction ⊢
    simp [hfraction, hexponent]
    omega

/-- No base is announced by a digit. -/
theorem radixOf?_of_isDigit (h : c.isDigit = true) : radixOf? c = none := by
  have hne (d : Char) (hd : d.isDigit = false) : (c == d) = false := by
    rw [beq_eq_false_iff_ne]
    rintro rfl
    rw [h] at hd
    cases hd
  unfold radixOf?
  simp only [hne 'x' rfl, hne 'X' rfl, hne 'b' rfl, hne 'B' rfl, hne 'o' rfl, hne 'O' rfl]
  rfl

/-- None of the forms begins like a number to another base. -/
theorem announced?_of_isWritten (h : n.IsWritten text) : announced? text = none := by
  obtain ⟨tail, htail, rfl⟩ := h.eq_append
  obtain ⟨c, ws, hwhole⟩ := List.exists_cons_of_ne_nil h.whole_ne_nil
  have hdigits := h.isDigit_whole
  rw [hwhole] at hdigits ⊢
  have hnext : (ws ++ (pointed n.fraction ++ tail)).head?.bind radixOf? = none := by
    rw [Option.bind_eq_none_iff]
    intro d hd
    cases ws with
    | nil => rcases htail.endsDigits.pointed n.fraction d hd with rfl | rfl <;> rfl
    | cons w ws =>
      obtain rfl : w = d := Option.some.inj hd
      exact radixOf?_of_isDigit (hdigits w (List.mem_cons_of_mem _ List.mem_cons_self))
  rw [List.cons_append, announced?_cons, hnext, ite_self]

/-- A numeral is read as one token that goes up to its end. -/
theorem scan_of_isWritten (h : n.IsWritten text) (pos : Nat) :
    scan ⟨pos, text⟩ =
      ⟨⟨.number (n.value false), ⟨pos, pos + text.length⟩, false⟩, ⟨pos, text⟩,
        ⟨pos + text.length, []⟩⟩ := by
  obtain ⟨c, cs, htext, hc⟩ : ∃ c cs, text = c :: cs ∧ c.isDigit = true := by
    obtain ⟨tail, -, rfl⟩ := h.eq_append
    obtain ⟨c, ws, hwhole⟩ := List.exists_cons_of_ne_nil h.whole_ne_nil
    rw [hwhole]
    exact ⟨c, _, rfl, h.isDigit_whole c (hwhole ▸ List.mem_cons_self)⟩
  -- The first digit settles that this is no blank, no comment and no name.
  have hblank : isBlank c = false := by
    rw [← Bool.not_eq_true]
    intro hblank
    rw [(continuesName_of_isBlank hblank).2] at hc
    cases hc
  have hslash : c = '/' → ∀ d ∈ cs.head?, d ≠ '/' ∧ d ≠ '*' := by
    rintro rfl
    cases hc
  have hname : ¬startsName c = true := by
    intro hname
    rw [isDigit_of_startsName hname] at hc
    cases hc
  have hkind : scanKind ⟨pos, c :: cs⟩ = scanNumber ⟨pos, c :: cs⟩ := by
    unfold scanKind
    dsimp only
    rw [if_neg hname, if_pos hc, scanNumeral_of_none (htext ▸ announced?_of_isWritten h)]
  rw [htext, scan_of_scanKind hblank hslash, hkind, ← htext, scanNumber_of_isWritten h]
  rfl

/-- Digits are read as far as they go. -/
theorem span_append (h : ∀ c ∈ ds, c.isDigit = true) (hcs : EndsDigits cs) :
    (ds ++ cs).span Char.isDigit = (ds, cs) := by
  have hstop : cs.takeWhile Char.isDigit = [] ∧ cs.dropWhile Char.isDigit = cs := by
    cases cs with
    | nil => exact ⟨rfl, rfl⟩
    | cons c cs =>
      have hc : ¬c.isDigit = true := by rw [hcs.isDigit c rfl]; exact Bool.false_ne_true
      exact ⟨List.takeWhile_cons_of_neg hc, List.dropWhile_cons_of_neg hc⟩
  rw [List.span_eq_takeWhile_dropWhile, List.takeWhile_append_of_pos h,
    List.dropWhile_append_of_pos h, hstop.1, hstop.2, List.append_nil]

/-- An exponent is missing, or a mark with an exponent behind it. -/
theorem IsExponent.cases_read (h : IsExponent tail e) :
    tail = [] ∧ e = 0 ∨ ∃ rest, tail = 'e' :: rest ∧ readExponent? rest = some e := by
  have hall (n : Nat) : (Nat.toDigits 10 n).all Char.isDigit = true :=
    List.all_eq_true.mpr (isDigit_toDigits n)
  have hne (n : Nat) : (Nat.toDigits 10 n).isEmpty = false :=
    List.isEmpty_eq_false_iff.mpr Nat.toDigits_ne_nil
  cases h with
  | none => exact .inl ⟨rfl, rfl⟩
  | plus n =>
    refine .inr ⟨_, rfl, ?_⟩
    simp [readExponent?, hall, hne, natOfDigits_toDigits]
  | minus n =>
    refine .inr ⟨_, rfl, ?_⟩
    simp [readExponent?, hall, hne, natOfDigits_toDigits]

/-- A numeral is read back. -/
theorem readNumeral?_of_isWritten (h : n.IsWritten text) : readNumeral? text = some n := by
  obtain ⟨tail, htail, rfl⟩ := h.eq_append
  obtain ⟨whole, fraction, e⟩ := n
  have hstop := htail.endsDigits
  have hwhole := span_append h.isDigit_whole (hstop.pointed fraction)
  have hne : whole ≠ [] := h.whole_ne_nil
  have hread := htail.cases_read
  dsimp only at hwhole hread ⊢
  unfold readNumeral?
  rw [hwhole]
  -- Without a fraction there is no point either, so the exponent follows the first digits.
  cases fraction with
  | nil =>
    rcases hread with ⟨rfl, rfl⟩ | ⟨rest, rfl, hrest⟩
    · simp [hne, pointed]
    · simp [hne, hrest, pointed]
  | cons d ds =>
    have hfraction := span_append h.isDigit_fraction hstop
    dsimp only [pointed, List.cons_append] at hfraction ⊢
    rcases hread with ⟨rfl, rfl⟩ | ⟨rest, rfl, hrest⟩
    · rw [List.append_nil] at hfraction
      simp [hfraction, -List.span_eq_takeWhile_dropWhile]
    · simp [hfraction, hrest, -List.span_eq_takeWhile_dropWhile]

end Number

namespace Decimal

open Number

/-- The digits with the point somewhere else, and an exponent that makes up for it. -/
theorem rat_of_shift {n : Numeral}
    (hdigits : natOfDigits (n.whole ++ n.fraction) = natOfDigits digits)
    (hexponent : n.exponent - n.fraction.length = point - digits.length) :
    n.rat = rat ⟨digits, point⟩ := by
  rw [n.rat_eq, rat, hdigits, hexponent]

/-- What is prescribed is a numeral of the same value. -/
theorem ScriptText.exists_numeral {t : List Char} (h : ScriptText digits point t)
    (hne : digits ≠ []) (hdigits : ∀ c ∈ digits, c.isDigit = true) :
    ∃ n : Numeral, n.IsWritten t ∧ n.rat = rat ⟨digits, point⟩ := by
  -- For each of the forms: the numeral, why it is written so, and why it has the value.
  cases h with
  | @whole zeros h =>
    refine ⟨⟨digits ++ List.replicate zeros '0', [], 0⟩, ⟨?_, ?_, nofun, [], .none, ?_⟩, ?_⟩
    · exact List.append_ne_nil_of_left_ne_nil hne _
    · exact List.forall_mem_append.mpr ⟨hdigits, fun c => isDigit_of_mem_zeros⟩
    · rw [pointed, List.append_nil, List.append_nil]
    · have hpoint : ((digits.length + zeros : Nat) : Int) - digits.length = zeros := by omega
      rw [Numeral.rat_eq, rat, List.append_nil, natOfDigits_append, natOfDigits_zeros,
        List.length_replicate, hpoint, zpow_natCast]
      simp
  | @point front back hsplit hfront hback h =>
    rw [hsplit, List.forall_mem_append] at hdigits
    refine ⟨⟨front, back, 0⟩, ⟨hfront, hdigits.1, hdigits.2, [], .none, ?_⟩, ?_⟩
    · rw [pointed_of_ne_nil hback, List.append_nil]
    · apply rat_of_shift
      · rw [hsplit]
      · rw [hsplit, List.length_append]
        push_cast
        ring
  | @small zeros h =>
    have hback : List.replicate zeros '0' ++ digits ≠ [] :=
      List.append_ne_nil_of_right_ne_nil _ hne
    refine ⟨⟨['0'], List.replicate zeros '0' ++ digits, 0⟩,
      ⟨List.cons_ne_nil _ _, List.forall_mem_singleton.mpr rfl, ?_, [], .none, ?_⟩, ?_⟩
    · exact List.forall_mem_append.mpr ⟨fun c => isDigit_of_mem_zeros, hdigits⟩
    · rw [pointed_of_ne_nil hback, List.append_nil]
      rfl
    · apply rat_of_shift
      · rw [natOfDigits_append, natOfDigits_append, natOfDigits_zeros]
        simp [natOfDigits]
      · rw [List.length_append, List.length_replicate]
        push_cast
        ring
  | @large first rest hsplit e h =>
    rw [hsplit, List.forall_mem_cons] at hdigits
    refine ⟨⟨[first], rest, e⟩, ⟨List.cons_ne_nil _ _, ?_, hdigits.2, _, .plus e, rfl⟩, ?_⟩
    · exact List.forall_mem_singleton.mpr hdigits.1
    · apply rat_of_shift
      · rw [hsplit]
        rfl
      · rw [hsplit, List.length_cons]
        push_cast
        ring
  | @tiny first rest hsplit e h =>
    rw [hsplit, List.forall_mem_cons] at hdigits
    refine ⟨⟨[first], rest, -e⟩, ⟨List.cons_ne_nil _ _, ?_, hdigits.2, _, .minus e, rfl⟩, ?_⟩
    · exact List.forall_mem_singleton.mpr hdigits.1
    · apply rat_of_shift
      · rw [hsplit]
        rfl
      · rw [hsplit, List.length_cons]
        push_cast
        ring

/-- **Numbers are laid out as prescribed**, and read back as one token over the whole text, of the
numeral that denotes the same number. -/
theorem layOut_script_reads (d : Decimal) (hne : d.digits ≠ [])
    (hdigits : ∀ c ∈ d.digits, c.isDigit = true) :
    (∀ t, ScriptText d.digits d.point t ↔ t = (d.layOut .script).toList) ∧
      (∃ n : Numeral, readNumeral? (d.layOut .script).toList = some n ∧ n.rat = d.rat ∧
        ∀ pos, scan ⟨pos, (d.layOut .script).toList⟩ =
          { token :=
              { kind := .number (n.value false)
                span := ⟨pos, pos + (d.layOut .script).length⟩
                newlineBefore := false }
            first := ⟨pos, (d.layOut .script).toList⟩
            after := ⟨pos + (d.layOut .script).length, []⟩ }) ∧
      ∀ x : Float, x.isNaN = false → x.isInf = false → (x == 0) = false → ¬x < 0 →
        shortest .up x.abs = d → Number.text x = d.layOut .script := by
  have hiff := @scriptText_iff d.digits d.point hne
  obtain ⟨n, hwritten, hrat⟩ := ((hiff _).mpr rfl).exists_numeral hne hdigits
  refine ⟨hiff, ⟨n, readNumeral?_of_isWritten hwritten, hrat, fun pos => ?_⟩, ?_⟩
  · rw [← String.length_toList]
    exact scan_of_isWritten hwritten pos
  · intro x hnan hinf hzero hpos hd
    have hd : shortest Layout.script.tie x.abs = d := hd
    unfold Number.text finiteText
    rw [hnan, hzero, hinf, hd]
    simp [hpos]

/-- One more zero than may stand behind the point. -/
theorem layOut_script_reads_tiny :
    "125".toList ≠ [] ∧ (∀ c ∈ "125".toList, c.isDigit = true) ∧
      layOut .script ⟨"125".toList, -6⟩ = "1.25e-7" := by
  have hne : "125".toList ≠ [] := by decide
  have hdigits : ∀ c ∈ "125".toList, c.isDigit = true := List.all_eq_true.mp (by decide)
  have htext : ScriptText "125".toList (-6) "1.25e-7".toList :=
    @ScriptText.tiny "125".toList '1' "25".toList rfl 7 (by decide)
  exact ⟨hne, hdigits,
    String.toList_inj.mp (((layOut_script_reads ⟨"125".toList, -6⟩ hne hdigits).1 _).mp htext).symm⟩

end Decimal

end Espalier
