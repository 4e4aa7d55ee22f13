import ContentEngine.Double.Basic
import Mathlib.Algebra.Order.Group.Nat
import Mathlib.Data.Nat.Log

/-!
# Integers as doubles

An integer that meets a double is rounded to one. The rounded integer is a number, and of two
integers the greater one is not rounded to less than the smaller one; they may be rounded to the
same double. All of this concerns integers of 64 bits, with a sign or without one, which are far from
the largest double.
-/

namespace ContentEngine.Double

/-! ## Rounding to 53 bits -/

theorem roundDiv_mono {m n : Nat} (h : m ≤ n) (den : Nat) : roundDiv m den ≤ roundDiv n den := by
  have hdiv : m / den ≤ n / den := Nat.div_le_div_right h
  have hmod : m / den = n / den → m % den ≤ n % den := by
    intro heq
    have hm := Nat.div_add_mod m den
    have hn := Nat.div_add_mod n den
    rw [heq] at hm
    omega
  unfold roundDiv
  dsimp only
  split <;> split <;> omega

theorem roundDiv_mul (k : Nat) {den : Nat} (h : 0 < den) : roundDiv (k * den) den = k := by
  unfold roundDiv
  rw [Nat.mul_div_cancel k h, Nat.mul_mod_left]
  exact if_neg (by omega)

/-- The number of at most 53 significant bits nearest to a number. -/
def rounded (n : Nat) : Nat := roundDiv n (2 ^ (n.log2 - 52)) * 2 ^ (n.log2 - 52)

theorem rounded_eq (n : Nat) :
    roundDiv n (1 <<< (n.log2 - 52)) <<< (n.log2 - 52) = rounded n := by
  rw [Nat.shiftLeft_eq, Nat.shiftLeft_eq, Nat.one_mul, rounded]

theorem ofNat_eq (n : Nat) : ofNat n = ofMagnitude (rounded (n <<< 1074)) := by
  simp only [ofNat, ofRatio, Nat.div_one, rounded_eq]

theorem two_pow_log2_split {n : Nat} (h : 52 ≤ n.log2) :
    2 ^ n.log2 = 2 ^ 52 * 2 ^ (n.log2 - 52) := by
  rw [← Nat.pow_add, Nat.add_sub_cancel' h]

/-- Rounding does not leave the range between two powers of two. -/
theorem rounded_bounds {n : Nat} (h : 52 ≤ n.log2) :
    2 ^ n.log2 ≤ rounded n ∧ rounded n ≤ 2 ^ (n.log2 + 1) := by
  have hn : n ≠ 0 := by
    rintro rfl
    simp at h
  have hpos : 0 < 2 ^ (n.log2 - 52) := Nat.two_pow_pos _
  have hsplit := two_pow_log2_split h
  have hlow : 2 ^ 52 * 2 ^ (n.log2 - 52) ≤ n := hsplit ▸ Nat.log2_self_le hn
  have hhigh : n ≤ 2 ^ 53 * 2 ^ (n.log2 - 52) := by
    have hlt : n < 2 ^ (n.log2 + 1) := Nat.lt_log2_self
    rw [Nat.pow_succ, hsplit] at hlt
    omega
  have hdown := roundDiv_mono hlow (2 ^ (n.log2 - 52))
  have hup := roundDiv_mono hhigh (2 ^ (n.log2 - 52))
  rw [roundDiv_mul _ hpos] at hdown hup
  rw [Nat.pow_succ, hsplit]
  have hdown' := Nat.mul_le_mul_right (2 ^ (n.log2 - 52)) hdown
  have hup' := Nat.mul_le_mul_right (2 ^ (n.log2 - 52)) hup
  unfold rounded
  omega

theorem rounded_of_log2_lt {n : Nat} (h : n.log2 < 52) : rounded n = n := by
  have hshift : n.log2 - 52 = 0 := by omega
  have hexact := roundDiv_mul n Nat.one_pos
  rw [Nat.mul_one] at hexact
  rw [rounded, hshift, Nat.pow_zero, hexact, Nat.mul_one]

theorem rounded_lt_of_log2_lt {n : Nat} (h : n.log2 < 52) : rounded n < 2 ^ 52 := by
  rw [rounded_of_log2_lt h]
  exact Nat.lt_log2_self.trans_le (Nat.pow_le_pow_right (by decide) h)

theorem rounded_mono {m n : Nat} (h : m ≤ n) : rounded m ≤ rounded n := by
  have hlog : m.log2 ≤ n.log2 := by
    rw [Nat.log2_eq_log_two, Nat.log2_eq_log_two]
    exact Nat.log_mono_right h
  rcases hlog.eq_or_lt with heq | hlt
  · unfold rounded
    rw [heq]
    exact Nat.mul_le_mul_right _ (roundDiv_mono h _)
  · -- The numbers lie in different ranges, which rounding does not leave.
    by_cases hn : n.log2 < 52
    · rwa [rounded_of_log2_lt hn, rounded_of_log2_lt (hlt.trans hn)]
    · obtain ⟨hlow, -⟩ := rounded_bounds (Nat.not_lt.1 hn)
      by_cases hm : m.log2 < 52
      · calc rounded m ≤ 2 ^ 52 := (rounded_lt_of_log2_lt hm).le
          _ ≤ 2 ^ n.log2 := Nat.pow_le_pow_right (by decide) (Nat.not_lt.1 hn)
          _ ≤ rounded n := hlow
      · calc rounded m ≤ 2 ^ (m.log2 + 1) := (rounded_bounds (Nat.not_lt.1 hm)).2
          _ ≤ 2 ^ n.log2 := Nat.pow_le_pow_right (by decide) hlt
          _ ≤ rounded n := hlow

theorem rounded_shiftLeft_mono {m n : Nat} (h : m ≤ n) (k : Nat) :
    rounded (m <<< k) ≤ rounded (n <<< k) := by
  rw [Nat.shiftLeft_eq, Nat.shiftLeft_eq]
  exact rounded_mono (Nat.mul_le_mul_right _ h)

theorem log2_rounded_shiftLeft_le {n : Nat} (h : n ≤ 2 ^ 64) (k : Nat) :
    (rounded (n <<< k)).log2 ≤ 65 + k := by
  have hlog : ((2 ^ 64) <<< k).log2 = 64 + k := by
    rw [Nat.shiftLeft_eq, ← Nat.pow_add, Nat.log2_two_pow]
  have hmax : rounded ((2 ^ 64) <<< k) ≤ 2 ^ (64 + k + 1) := by
    rw [← hlog]
    exact (rounded_bounds (by omega)).2
  by_cases hzero : rounded (n <<< k) = 0
  · simp [hzero]
  · have hlt := (rounded_shiftLeft_mono h k).trans hmax
    have hbound := Nat.log2_self_le hzero
    exact (Nat.pow_le_pow_iff_right (by decide)).1 (hbound.trans (hlt.trans_eq (by congr 1; omega)))

/-- A rounded number has nothing below its 53 leading bits. -/
theorem dvd_rounded (n : Nat) : 2 ^ ((rounded n).log2 - 52) ∣ rounded n := by
  by_cases hn : n.log2 < 52
  · have hlog : (rounded n).log2 - 52 = 0 := by
      rw [rounded_of_log2_lt hn]
      omega
    rw [hlog]
    exact Nat.one_dvd _
  obtain ⟨hlow, hhigh⟩ := rounded_bounds (Nat.not_lt.1 hn)
  rcases hhigh.eq_or_lt with heq | hlt
  · rw [heq]
    exact Nat.pow_dvd_pow 2 (by rw [Nat.log2_two_pow]; omega)
  · have hlog : (rounded n).log2 < n.log2 + 1 :=
      (Nat.log2_lt (by have := Nat.two_pow_pos n.log2; omega)).2 hlt
    exact Nat.dvd_trans (Nat.pow_dvd_pow 2 (by omega)) (Nat.dvd_mul_left _ _)

/-! ## The fields of a rounded number -/

/-- The double of a magnitude that fits it: its bits are below those of the infinity, and it has the
magnitude. -/
theorem ofMagnitude_fits {n : Nat} (hdvd : 2 ^ (n.log2 - 52) ∣ n) (hlog : n.log2 < 2000) :
    (ofMagnitude n).bits.toNat < 2047 * 2 ^ 52 ∧ (ofMagnitude n).magnitude = n := by
  by_cases hsmall : n < 2 ^ 52
  · have hbits : (ofMagnitude n).bits.toNat = n := by
      rw [ofMagnitude, if_pos (by simpa using hsmall)]
      exact UInt64.toNat_ofNat_of_lt' (by change n < 2 ^ 64; omega)
    have hexponent : n / 2 ^ 52 = 0 := Nat.div_eq_of_lt hsmall
    refine ⟨by omega, ?_⟩
    simp only [magnitude, exponentField, fractionField, hbits, Nat.shiftRight_eq_div_pow,
      Nat.shiftLeft_eq, Nat.one_mul, hexponent, Nat.zero_mod, if_true]
    exact Nat.mod_eq_of_lt hsmall
  · obtain ⟨k, hk⟩ := hdvd
    have hn : n ≠ 0 := by omega
    have hge : 52 ≤ n.log2 := (Nat.le_log2 hn).2 (Nat.not_lt.1 hsmall)
    have hsplit := two_pow_log2_split hge
    obtain ⟨shift, hshift⟩ : ∃ shift, n.log2 - 52 = shift := ⟨_, rfl⟩
    rw [hshift] at hk hsplit
    have hpos : 0 < 2 ^ shift := Nat.two_pow_pos shift
    have hquotient : n / 2 ^ shift = k := by
      conv_lhs => rw [hk]
      exact Nat.mul_div_cancel_left k hpos
    have hlow : 2 ^ 52 ≤ k := by
      rw [← hquotient, Nat.le_div_iff_mul_le hpos, ← hsplit]
      exact Nat.log2_self_le hn
    have hhigh : k < 2 ^ 53 := by
      rw [← hquotient, Nat.div_lt_iff_lt_mul hpos]
      calc n < 2 ^ (n.log2 + 1) := Nat.lt_log2_self
        _ = 2 ^ 53 * 2 ^ shift := by rw [Nat.pow_succ, hsplit]; omega
    have hsum : shift * 2 ^ 52 + k < 2047 * 2 ^ 52 := by omega
    have hbits : (ofMagnitude n).bits.toNat = shift * 2 ^ 52 + k := by
      rw [ofMagnitude, if_neg (by simpa using hsmall)]
      simp only [Nat.shiftLeft_eq, Nat.shiftRight_eq_div_pow, hshift, hquotient]
      rw [if_pos (by simpa using hsum)]
      exact UInt64.toNat_ofNat_of_lt' (by change _ < 2 ^ 64; omega)
    have hexponent : (shift * 2 ^ 52 + k) / 2 ^ 52 % 2048 = shift + 1 := by omega
    have hfraction : (shift * 2 ^ 52 + k) % 2 ^ 52 = k - 2 ^ 52 := by omega
    refine ⟨hbits ▸ hsum, ?_⟩
    simp only [magnitude, exponentField, fractionField, hbits, Nat.shiftRight_eq_div_pow,
      Nat.shiftLeft_eq, Nat.one_mul, hexponent, hfraction, Nat.add_sub_cancel,
      Nat.succ_ne_zero, if_false]
    rw [Nat.add_sub_cancel' hlow, hk, Nat.mul_comm]

theorem ofNat_fits {n : Nat} (h : n ≤ 2 ^ 64) :
    (ofNat n).bits.toNat < 2047 * 2 ^ 52 ∧ (ofNat n).magnitude = rounded (n <<< 1074) := by
  rw [ofNat_eq]
  refine ofMagnitude_fits (dvd_rounded _) ?_
  exact (log2_rounded_shiftLeft_le h 1074).trans_lt (by decide)

/-! ## The opposite -/

theorem exponentField_neg (x : Double) : x.neg.exponentField = x.exponentField := by
  change (x.bits ^^^ 0x8000000000000000).toNat >>> 52 % 2 ^ 11 = x.bits.toNat >>> 52 % 2 ^ 11
  rw [UInt64.toNat_xor, Nat.shiftRight_xor_distrib, Nat.xor_mod_two_pow]
  exact Nat.xor_zero _

theorem fractionField_neg (x : Double) : x.neg.fractionField = x.fractionField := by
  change (x.bits ^^^ 0x8000000000000000).toNat % 2 ^ 52 = x.bits.toNat % 2 ^ 52
  rw [UInt64.toNat_xor, Nat.xor_mod_two_pow]
  exact Nat.xor_zero _

theorem magnitude_neg (x : Double) : x.neg.magnitude = x.magnitude := by
  simp only [magnitude, exponentField_neg, fractionField_neg]

theorem isNegative_neg {x : Double} (h : x.isNegative = false) : x.neg.isNegative = true := by
  have hlt : x.bits.toNat < 2 ^ 63 := by simpa [isNegative] using h
  have hbits : x.neg.bits.toNat = x.bits.toNat ^^^ 2 ^ 63 := UInt64.toNat_xor ..
  have hsign : x.neg.bits.toNat.testBit 63 = true := by
    rw [hbits, Nat.testBit_xor, Nat.testBit_lt_two_pow hlt, Nat.testBit_two_pow_self]
    rfl
  exact decide_eq_true (Nat.ge_two_pow_of_testBit hsign)

/-! ## Integers -/

theorem units_ofNat {n : Nat} (h : n ≤ 2 ^ 64) :
    (ofNat n).isNegative = false ∧ (ofNat n).units = rounded (n <<< 1074) := by
  obtain ⟨hbits, hmagnitude⟩ := ofNat_fits h
  have hsign : (ofNat n).isNegative = false := by
    rw [isNegative, decide_eq_false_iff_not]
    change ¬ 2 ^ 63 ≤ _
    omega
  refine ⟨hsign, ?_⟩
  rw [units, hsign, hmagnitude]
  rfl

theorem isFinite_ofNat {n : Nat} (h : n ≤ 2 ^ 64) : (ofNat n).isFinite = true := by
  have hbits := (ofNat_fits h).1
  have hexponent : (ofNat n).exponentField ≠ 2047 := by
    change (ofNat n).bits.toNat >>> 52 % 2048 ≠ 2047
    rw [Nat.shiftRight_eq_div_pow]
    omega
  exact decide_eq_true hexponent

theorem isFinite_ofInt {i : Int} (h : i.natAbs ≤ 2 ^ 64) : (ofInt i).isFinite = true := by
  unfold ofInt
  split
  · rw [isFinite, exponentField_neg]
    exact isFinite_ofNat h
  · exact isFinite_ofNat h

theorem isNaN_of_isFinite {x : Double} (h : x.isFinite = true) : x.isNaN = false := by
  simp [isNaN, of_decide_eq_true h]

/-- The units of an integer: those of its magnitude, with its sign. -/
theorem units_ofInt {i : Int} (h : i.natAbs ≤ 2 ^ 64) :
    (ofInt i).units = if i < 0 then -(rounded (i.natAbs <<< 1074) : Int)
      else rounded (i.natAbs <<< 1074) := by
  obtain ⟨hsign, hunits⟩ := units_ofNat h
  unfold ofInt
  split
  · rw [units, isNegative_neg hsign, if_pos rfl, magnitude_neg, (ofNat_fits h).2]
  · exact hunits

theorem natAbs_toInt_le (i : Int64) : i.toInt.natAbs ≤ 2 ^ 64 := by
  have hlow := i.le_toInt
  have hhigh := i.toInt_lt
  omega

theorem isNaN_ofInt64 (i : Int64) : (ofInt i.toInt).isNaN = false :=
  isNaN_of_isFinite (isFinite_ofInt (natAbs_toInt_le i))

/-- Rounding keeps the order of integers, but not the difference between them. -/
theorem units_ofInt64_mono {i j : Int64} (h : i.toInt ≤ j.toInt) :
    (ofInt i.toInt).units ≤ (ofInt j.toInt).units := by
  rw [units_ofInt (natAbs_toInt_le i), units_ofInt (natAbs_toInt_le j)]
  split <;> split
  · have hle : rounded (j.toInt.natAbs <<< 1074) ≤ rounded (i.toInt.natAbs <<< 1074) :=
      rounded_shiftLeft_mono (by omega) 1074
    omega
  · omega
  · omega
  · have hle : rounded (i.toInt.natAbs <<< 1074) ≤ rounded (j.toInt.natAbs <<< 1074) :=
      rounded_shiftLeft_mono (by omega) 1074
    omega

end ContentEngine.Double
