import Espalier.Decimal.Binary
import Mathlib.Algebra.Group.Nat.Defs

/-!
# Whole numbers as doubles

A double denotes a natural number if it is finite and has no other value (`Double.Denotes`). Natural
numbers of up to fifty-three bits are denoted by the doubles nearest to them (`denotes_ofNat`), and
no natural number has a double with the bit of the sign (`toBits_ofNat_lt`). Both come down to
what a double is made of and taken apart into: bits that are unpacked and packed again are the same
(`pack_unpack`), and so are a mantissa of fifty-three bits and an exponent (`split_ofParts`).
-/

namespace Espalier.Double

open Float.Model Float.Model.UnpackedFloat

/-! ### Bits -/

/-- A sign is one bit, and nothing else. -/
theorem toBitVec_ofBitVec (v : BitVec 1) : (Sign.ofBitVec v).toBitVec = v := by
  revert v
  decide

/-- The bits are those of their sign, exponent and fraction. -/
theorem packComponents_unpack (v : BitVec Format.binary64.numBits) :
    packComponents .binary64 (Sign.ofBitVec (unpackSign v)) (unpackExponent v) (unpackMantissa v) =
      v := by
  unfold packComponents
  rw [toBitVec_ofBitVec]
  have hhigh : BitVec.extractLsb' 63 1 v ++ BitVec.extractLsb' 52 11 v =
      BitVec.extractLsb' 52 12 v := BitVec.extractLsb'_append_extractLsb'_eq_extractLsb' rfl
  have hwhole : BitVec.extractLsb' 52 12 v ++ BitVec.extractLsb' 0 52 v =
      BitVec.extractLsb' 0 64 v := BitVec.extractLsb'_append_extractLsb'_eq_extractLsb' rfl
  calc BitVec.extractLsb' 63 1 v ++ BitVec.extractLsb' 52 11 v ++ BitVec.extractLsb' 0 52 v
    _ = BitVec.extractLsb' 52 12 v ++ BitVec.extractLsb' 0 52 v := by rw [hhigh]
    _ = BitVec.extractLsb' 0 64 v := hwhole
    _ = v := BitVec.extractLsb'_eq_self

/-- A magnitude with the least exponent has less than fifty-three bits. -/
theorem pack_least (s : Sign) (m : BitVec 52) {e : Int} (he : e = -1074) (hpos : 0 < m.toNat) :
    UnpackedFloat.pack .binary64 (.finite s m.toNat e hpos) =
      packComponents .binary64 s 0#11 m := by
  subst he
  have hlog : m.toNat.log2 < 52 := (Nat.log2_lt (by omega)).mpr m.isLt
  have hshort : ¬m.toNat.log2 + 1 = Format.binary64.mantissaBits := by
    show ¬_ = 53
    omega
  unfold UnpackedFloat.pack
  dsimp only
  rw [if_neg (by decide), if_neg hshort, BitVec.ofNat_toNat, BitVec.setWidth_eq]

/-- Any other magnitude has fifty-three bits, of which the first is left out. -/
theorem pack_other (s : Sign) (e : BitVec 11) (m : BitVec 52) (he : e ≠ -1#11)
    (hpos : 0 < (1#1 ++ m).toNat) :
    UnpackedFloat.pack .binary64 (.finite s (1#1 ++ m).toNat (e.toNat - 1075) hpos) =
      packComponents .binary64 s e m := by
  have hmantissa : (1#1 ++ m).toNat = 2 ^ 52 + m.toNat := by
    rw [BitVec.toNat_append, ← Nat.shiftLeft_add_eq_or_of_lt m.isLt]
    rfl
  have hm : m.toNat < 2 ^ 52 := m.isLt
  -- The leading one stands above the mantissa, so it is where the logarithm says.
  have hlog : (1#1 ++ m).toNat.log2 = 52 := (Nat.log2_eq_iff (by omega)).mpr (by omega)
  have hfull : (1#1 ++ m).toNat.log2 + 1 = Format.binary64.mantissaBits := by
    rw [hlog]
    rfl
  have hfraction : BitVec.ofNat 52 (1#1 ++ m).toNat = m := by
    apply BitVec.eq_of_toNat_eq
    rw [BitVec.toNat_ofNat, hmantissa, Nat.add_mod_left, Nat.mod_eq_of_lt hm]
  have hbias : ((Format.binary64.exponentBias : Nat) : Int) = 1023 := rfl
  have hexponent : ((e.toNat - 1075 : Int) + Format.binary64.exponentBias + (52 : Nat)).toNat =
      e.toNat := by
    omega
  -- The greatest exponent is left out, so the exponent fits.
  have hfits : ¬2 ^ 11 ≤ e.toNat + 1 := by
    have hlt : e.toNat < 2 ^ 11 := e.isLt
    have hmax : e.toNat ≠ 2047 := fun heq => he (BitVec.eq_of_toNat_eq heq)
    omega
  unfold UnpackedFloat.pack
  dsimp only
  rw [hexponent, if_neg hfits, if_pos hfull, hfraction, BitVec.ofNat_toNat, BitVec.setWidth_eq]

/-- Packing what has been unpacked gives the bits back. -/
theorem pack_unpack {v : BitVec Format.binary64.numBits} (h : Format.binary64.Valid v) :
    UnpackedFloat.pack .binary64 (UnpackedFloat.unpack .binary64 v) = v := by
  have hv := packComponents_unpack v
  show UnpackedFloat.pack .binary64
    (if unpackExponent v = -1#11 then if unpackMantissa v = 0#52 then _ else _
      else if unpackExponent v = 0#11 then dite (unpackMantissa v = 0#52) _ _ else _) = v
  -- The greatest and the least exponent have meanings of their own.
  by_cases hgreatest : unpackExponent v = -1#11
  · rw [if_pos hgreatest]
    by_cases hzero : unpackMantissa v = 0#52
    · rw [if_pos hzero]
      rw [hgreatest, hzero] at hv
      exact hv
    · -- of the bits that stand for no number, only one string is valid
      rw [if_neg hzero]
      exact (h.eq_packedNaN hgreatest hzero).symm
  · rw [if_neg hgreatest]
    by_cases hleast : unpackExponent v = 0#11
    · rw [if_pos hleast]
      rw [hleast] at hv
      by_cases hzero : unpackMantissa v = 0#52
      · rw [dif_pos hzero]
        rw [hzero] at hv
        exact hv
      · rw [dif_neg hzero]
        have hexponent : ((unpackExponent v).toNat : Int) - 1075 + 1 = -1074 := by
          rw [hleast]
          rfl
        exact (pack_least _ _ hexponent _).trans hv
    · rw [if_neg hleast]
      exact (pack_other _ _ _ hgreatest _).trans hv

/-- The bits of a double are those that it has been made of, if they are valid. -/
theorem toBits_ofBits {b : UInt64} (h : Format.binary64.Valid b.toBitVec) :
    (Float.ofBits b).toBits = b := by
  show UInt64.ofBitVec _ = b
  rw [pack_unpack h]

/-- The exponent lies above the bits of the mantissa. -/
theorem toNat_unpackExponent (v : BitVec Format.binary64.numBits) :
    (unpackExponent v).toNat = v.toNat / leading % 2048 := by
  show (v.toNat >>> 52) % 2048 = _
  rw [Nat.shiftRight_eq_div_pow]
  rfl

/-- The bits of infinities and of what is no number have the greatest exponent. -/
theorem unpackExponent_ne {v : BitVec Format.binary64.numBits}
    (h : v.toNat / leading % 2048 ≠ 2047) : unpackExponent v ≠ -1#11 := by
  intro heq
  apply h
  rw [← toNat_unpackExponent, heq]
  rfl

/-- All bits are valid but those with the greatest exponent. -/
theorem valid_of_exponent {v : BitVec Format.binary64.numBits}
    (h : v.toNat / leading % 2048 ≠ 2047) : Format.binary64.Valid v :=
  ⟨fun heq => absurd heq (unpackExponent_ne h)⟩

/-- A double with another exponent is finite. -/
theorem isFinite_unpack {v : BitVec Format.binary64.numBits} (h : unpackExponent v ≠ -1#11) :
    (UnpackedFloat.unpack .binary64 v).isNaN = false ∧
      (UnpackedFloat.unpack .binary64 v).isInf = false := by
  have hunpack : UnpackedFloat.unpack .binary64 v = if unpackExponent v = 0#11 then
      dite (unpackMantissa v = 0#52) _ _ else _ := if_neg h
  rw [hunpack]
  by_cases hleast : unpackExponent v = 0#11
  · rw [if_pos hleast]
    by_cases hzero : unpackMantissa v = 0#52
    · rw [dif_pos hzero]
      exact ⟨rfl, rfl⟩
    · rw [dif_neg hzero]
      exact ⟨rfl, rfl⟩
  · rw [if_neg hleast]
    exact ⟨rfl, rfl⟩

/-- A double is finite unless it has the greatest exponent. -/
theorem isFinite_of_exponent {x : Float} (h : x.toBits.toNat / leading % 2048 ≠ 2047) :
    x.isNaN = false ∧ x.isInf = false :=
  have hne := @unpackExponent_ne x.toBits.toBitVec h
  isFinite_unpack hne

/-- Bits whose fraction is zero do not stand for what is no number. -/
theorem valid_of_fraction {v : BitVec Format.binary64.numBits} (h : v.toNat % leading = 0) :
    Format.binary64.Valid v := by
  refine ⟨fun _ hne => absurd (BitVec.eq_of_toNat_eq ?_) hne⟩
  show (v.toNat >>> 0) % leading = 0
  rw [Nat.shiftRight_zero, h]

/-! ### Doubles made of their parts -/

/-- The bits of a magnitude. -/
def magnitude (mantissa : Nat) (exponent : Int) : Nat :=
  if mantissa < leading then mantissa
  else if 971 < exponent then 2047 * leading
  else (exponent + 1075).toNat * leading + (mantissa - leading)

theorem leading_pos : 0 < leading := Nat.two_pow_pos 52

/-- A magnitude is one of a finite double, or that of infinity. -/
theorem magnitude_cases {m : Nat} (hm : m < 2 * leading) (e : Int) :
    magnitude m e < 2047 * leading ∨ magnitude m e = 2047 * leading := by
  have hpos := leading_pos
  unfold magnitude
  split
  · left
    omega
  · split
    · exact .inr rfl
    · left
      have hle : (e + 1075).toNat * leading ≤ 2046 * leading := Nat.mul_le_mul_right _ (by omega)
      omega

/-- The bits of a double without a sign are its magnitude. -/
theorem toBits_ofParts {m : Nat} (hm : m < 2 * leading) (e : Int) :
    (ofParts false m e).toBits.toNat = magnitude m e := by
  have hcases := magnitude_cases hm e
  have hbits : (UInt64.ofNat (0 + magnitude m e)).toNat = magnitude m e := by
    have hsize : 2047 * leading < 2 ^ 64 := by decide
    rw [Nat.zero_add, UInt64.toNat_ofNat', Nat.mod_eq_of_lt (by omega)]
  show (Float.ofBits (UInt64.ofNat (0 + magnitude m e))).toBits.toNat = _
  rw [toBits_ofBits]
  · exact hbits
  · rcases hcases with hlt | heq
    · apply valid_of_exponent
      show (UInt64.ofNat (0 + magnitude m e)).toNat / leading % 2048 ≠ 2047
      have hdiv : magnitude m e / leading < 2047 := (Nat.div_lt_iff_lt_mul leading_pos).mpr hlt
      rw [hbits, Nat.mod_eq_of_lt (by omega)]
      omega
    · -- the greatest magnitude is infinite, and its fraction is zero
      apply valid_of_fraction
      show (UInt64.ofNat (0 + magnitude m e)).toNat % leading = 0
      rw [hbits, heq, Nat.mul_mod_left]

/-- Up to the greatest exponent a double is finite. -/
theorem isFinite_ofParts {m : Nat} {e : Int} (hm : leading ≤ m) (hm' : m < 2 * leading)
    (he : e ≤ 971) : (ofParts false m e).isNaN = false ∧ (ofParts false m e).isInf = false := by
  apply isFinite_of_exponent
  have hle : (e + 1075).toNat * leading ≤ 2046 * leading := Nat.mul_le_mul_right _ (by omega)
  have hlt : (ofParts false m e).toBits.toNat < 2047 * leading := by
    rw [toBits_ofParts hm', magnitude, if_neg (by omega), if_neg (by omega)]
    omega
  have hdiv := (Nat.div_lt_iff_lt_mul leading_pos).mpr hlt
  rw [Nat.mod_eq_of_lt (by omega)]
  omega

/-- A magnitude of fifty-three bits is made of its parts and taken apart into them. -/
theorem split_ofParts {m : Nat} {e : Int} (hm : leading ≤ m) (hm' : m < 2 * leading)
    (he : -1074 ≤ e) (he' : e ≤ 971) : split (ofParts false m e) = ⟨false, m, e⟩ := by
  have hbits : (ofParts false m e).toBits.toNat = (e + 1075).toNat * leading + (m - leading) := by
    rw [toBits_ofParts hm', magnitude, if_neg (by omega), if_neg (by omega)]
  have hpos := leading_pos
  have hfield : ((e + 1075).toNat * leading + (m - leading)) / leading = (e + 1075).toNat := by
    rw [Nat.mul_comm, Nat.mul_add_div hpos, Nat.div_eq_of_lt (by omega), Nat.add_zero]
  have hfraction : ((e + 1075).toNat * leading + (m - leading)) % leading = m - leading := by
    rw [Nat.mul_comm, Nat.mul_add_mod, Nat.mod_eq_of_lt (by omega)]
  have hsign : ¬2048 * leading ≤ (e + 1075).toNat * leading + (m - leading) := by
    have hle : (e + 1075).toNat * leading ≤ 2046 * leading := Nat.mul_le_mul_right _ (by omega)
    omega
  have hmantissa : leading + (m - leading) = m := by omega
  have hexponent : (((e + 1075).toNat : Nat) : Int) - 1075 = e := by omega
  unfold split
  dsimp only
  rw [hbits, hfield, hfraction, Nat.mod_eq_of_lt (by omega), if_neg (by omega),
    decide_eq_false hsign, hmantissa, hexponent]

/-! ### Whole numbers -/

/-- A double is a natural number. -/
structure Denotes (x : Float) (n : Nat) : Prop where
  isNaN_eq : x.isNaN = false
  isInf_eq : x.isInf = false
  isWhole_eq : isWhole x = true
  toIntTrunc_eq : toIntTrunc x = n

/-- Nothing is lost where the fraction is a whole number. -/
theorem divNearestEven_one (n : Nat) : divNearestEven n 1 = n := by
  unfold divNearestEven
  dsimp only
  rw [Nat.mod_one, Nat.div_one]
  rfl

/-- A rounded quotient is the quotient, or one more. -/
theorem divNearestEven_bounds (n : Nat) {d : Nat} :
    n / d ≤ divNearestEven n d ∧ divNearestEven n d ≤ n / d + 1 := by
  unfold divNearestEven
  dsimp only
  split
  · omega
  · split
    · omega
    · split <;> omega

/-- A number of up to fifty-three bits is shifted. -/
theorem scaled_of_le {n : Nat} (h : n.log2 ≤ 52) :
    scaled 2 ((n.log2 : Int) - 52) n 1 = (n * 2 ^ (52 - n.log2), 1) := by
  unfold scaled
  by_cases hlog : n.log2 < 52
  · rw [if_pos (by omega), show (-((n.log2 : Int) - 52)).toNat = 52 - n.log2 by omega]
    rfl
  · obtain heq : n.log2 = 52 := by omega
    rw [heq, if_neg (by omega), Nat.sub_self, Nat.pow_zero, Nat.mul_one]
    rfl

/-- A whole number is scaled to fifty-three bits before it is rounded. -/
theorem scaled_bounds {n : Nat} (hn : 0 < n) :
    leading ≤ (scaled 2 ((n.log2 : Int) - 52) n 1).1 / (scaled 2 ((n.log2 : Int) - 52) n 1).2 ∧
      (scaled 2 ((n.log2 : Int) - 52) n 1).1 / (scaled 2 ((n.log2 : Int) - 52) n 1).2 <
        2 * leading := by
  obtain ⟨hlow, hhigh⟩ := (Nat.log2_eq_iff (Nat.ne_of_gt hn)).mp rfl
  have hleading : leading = 2 ^ 52 := rfl
  rw [Nat.pow_succ] at hhigh
  -- Small numbers are multiplied by a power of two, and great ones divided.
  by_cases hlog : n.log2 ≤ 52
  · have hscaled := scaled_of_le hlog
    have hweight : 2 ^ n.log2 * 2 ^ (52 - n.log2) = leading := by
      rw [← Nat.pow_add, Nat.add_sub_cancel' hlog]
      rfl
    have hpos : 0 < 2 ^ (52 - n.log2) := Nat.two_pow_pos _
    rw [hscaled, Nat.div_one, ← hweight]
    constructor
    · exact Nat.mul_le_mul_right _ hlow
    · calc n * 2 ^ (52 - n.log2)
        _ < 2 ^ n.log2 * 2 * 2 ^ (52 - n.log2) := Nat.mul_lt_mul_of_pos_right hhigh hpos
        _ = 2 * (2 ^ n.log2 * 2 ^ (52 - n.log2)) := by rw [Nat.mul_comm _ 2, Nat.mul_assoc]
  · have hscaled : scaled 2 ((n.log2 : Int) - 52) n 1 = (n, 2 ^ (n.log2 - 52)) := by
      unfold scaled
      rw [if_neg (by omega), Nat.one_mul, show ((n.log2 : Int) - 52).toNat = n.log2 - 52 by omega]
      rfl
    have hweight : leading * 2 ^ (n.log2 - 52) = 2 ^ n.log2 := by
      rw [hleading, ← Nat.pow_add, Nat.add_sub_cancel' (Nat.le_of_not_le hlog)]
    have hpos : 0 < 2 ^ (n.log2 - 52) := Nat.two_pow_pos _
    rw [hscaled]
    constructor
    · rw [Nat.le_div_iff_mul_le hpos, hweight]
      exact hlow
    · rw [Nat.div_lt_iff_lt_mul hpos, Nat.mul_assoc, hweight]
      omega

/-- A whole number is rounded to fifty-three bits. -/
theorem ofNat_eq {n : Nat} (hn : 0 < n) :
    let p := scaled 2 ((n.log2 : Int) - 52) n 1
    ofNat n = if divNearestEven p.1 p.2 = 2 * leading then ofParts false leading (n.log2 - 51)
      else ofParts false (divNearestEven p.1 p.2) (n.log2 - 52) := by
  intro p
  have hlow := (scaled_bounds hn).1
  have hlog : (1 : Nat).log2 = 0 := by decide
  unfold ofNat ofRatio
  rw [if_neg (Nat.ne_of_gt hn)]
  simp only [hlog, Int.natCast_zero, Int.sub_zero]
  rw [if_neg (Nat.not_lt_of_le hlow), Int.max_eq_left (by omega)]
  have hexp : (n.log2 : Int) - 52 + 1 = n.log2 - 51 := by omega
  rw [hexp]

/-- No whole number is negative. -/
theorem toBits_ofNat_lt (n : Nat) : (ofNat n).toBits.toNat < 2048 * leading := by
  have hbits {m : Nat} (hm : m < 2 * leading) (e : Int) :
      (ofParts false m e).toBits.toNat < 2048 * leading := by
    have hpos := leading_pos
    have hcases := magnitude_cases hm e
    rw [toBits_ofParts hm]
    omega
  cases Nat.eq_zero_or_pos n with
  | inl hn =>
    subst hn
    exact hbits (Nat.mul_pos Nat.two_pos leading_pos) _
  | inr hn =>
    have hhigh := (scaled_bounds hn).2
    have hnear := @divNearestEven_bounds (scaled 2 ((n.log2 : Int) - 52) n 1).1
      (scaled 2 ((n.log2 : Int) - 52) n 1).2
    rw [ofNat_eq hn]
    split
    · exact hbits (by have := leading_pos; omega) _
    · exact hbits (by omega) _

/-- Whole numbers of up to fifty-three bits are doubles. -/
theorem denotes_ofNat {n : Nat} (h : n < 2 ^ 53) : Denotes (ofNat n) n := by
  cases Nat.eq_zero_or_pos n with
  | inl hn =>
    subst hn
    exact ⟨by decide +kernel, by decide +kernel, by decide +kernel, by decide +kernel⟩
  | inr hn =>
    have hlog : n.log2 ≤ 52 := Nat.le_of_lt_succ ((Nat.log2_lt (Nat.ne_of_gt hn)).mpr h)
    -- The number has as many bits as a mantissa at most, so nothing is rounded away.
    have hbounds := scaled_bounds hn
    have heq := ofNat_eq hn
    rw [scaled_of_le hlog] at hbounds heq
    simp only [Nat.div_one, divNearestEven_one] at hbounds heq
    obtain ⟨hlow, hhigh⟩ := hbounds
    rw [if_neg (Nat.ne_of_lt hhigh)] at heq
    have hsplit := split_ofParts hlow hhigh (e := (n.log2 : Int) - 52) (by omega) (by omega)
    have hpos : 0 < 2 ^ (52 - n.log2) := Nat.two_pow_pos _
    have hscaled : scaled 2 (-((n.log2 : Int) - 52)) (n * 2 ^ (52 - n.log2)) 1 =
        (n * 2 ^ (52 - n.log2), 2 ^ (52 - n.log2)) := by
      unfold scaled
      have hshift : (-((n.log2 : Int) - 52)).toNat = 52 - n.log2 := by omega
      rw [if_neg (by omega), Nat.one_mul, hshift]
      rfl
    obtain ⟨hnan, hinf⟩ := isFinite_ofParts hlow hhigh (e := (n.log2 : Int) - 52) (by omega)
    rw [heq]
    refine ⟨hnan, hinf, ?_, ?_⟩
    · unfold isWhole
      dsimp only
      rw [hsplit, hscaled, Nat.mul_mod_left]
      rfl
    · unfold toIntTrunc
      dsimp only
      rw [hsplit, hscaled, Nat.mul_div_cancel _ hpos]
      rfl

end Espalier.Double
