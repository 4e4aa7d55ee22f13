import ContentEngine.Double.Shortest
import Mathlib.Algebra.Order.Field.Power
import Mathlib.Tactic.FieldSimp
import Mathlib.Tactic.Positivity
import Mathlib.Tactic.Ring

/-!
# The shortest decimal tells doubles apart

The doubles without a sign stand in a row, and the numbers that round to one of them reach half the
way to its neighbours. Where two of these intervals touch, the point between them belongs to the
double with even bits. The decimal that is found for a double lies in its interval, so it is not the
decimal of another one.

As in the search, intervals are measured in quarters of the least positive double.
-/

namespace ContentEngine.Double

/-! ## The row of doubles -/

/-- The place of a double in the row of those without a sign. -/
def rank (x : Double) : Nat := x.bits.toNat % 2 ^ 63

/-- The magnitude of the double of a rank. -/
def sizeAt (k : Nat) : Nat :=
  if k / 2 ^ 52 = 0 then k % 2 ^ 52 else (2 ^ 52 + k % 2 ^ 52) * 2 ^ (k / 2 ^ 52 - 1)

/-- How far the next double is from the double of a rank. -/
def gapAt (k : Nat) : Nat := 2 ^ (k / 2 ^ 52 - 1)

/-- The middle between the double of a rank and the next one, in quarters. -/
def middleAt (k : Nat) : Nat := 4 * sizeAt k + 2 * gapAt k

theorem exponentField_eq (x : Double) : x.exponentField = x.rank / 2 ^ 52 := by
  have hbits := x.bits.toNat_lt
  simp only [exponentField, rank, Nat.shiftRight_eq_div_pow]
  omega

theorem fractionField_eq (x : Double) : x.fractionField = x.rank % 2 ^ 52 := by
  simp only [fractionField, rank, Nat.shiftLeft_eq, Nat.one_mul]
  omega

theorem magnitude_eq (x : Double) : x.magnitude = sizeAt x.rank := by
  simp only [magnitude, sizeAt, exponentField_eq, fractionField_eq, Nat.shiftLeft_eq, Nat.one_mul]

theorem eq_of_rank {x y : Double} (hsign : x.isNegative = y.isNegative) (h : x.rank = y.rank) :
    x = y := by
  obtain ⟨a⟩ := x
  obtain ⟨b⟩ := y
  have ha := a.toNat_lt
  have hb := b.toNat_lt
  simp only [isNegative, rank, Nat.shiftLeft_eq, Nat.one_mul, decide_eq_decide] at hsign h
  rw [mk.injEq, ← UInt64.toNat_inj]
  omega

theorem gapAt_succ (k : Nat) :
    2 * gapAt k =
      if (k + 1) % 2 ^ 52 = 0 ∧ 1 < (k + 1) / 2 ^ 52 then gapAt (k + 1) else 2 * gapAt (k + 1) := by
  unfold gapAt
  split
  · rename_i h
    have hexp : (k + 1) / 2 ^ 52 - 1 = k / 2 ^ 52 - 1 + 1 := by omega
    rw [hexp, Nat.pow_succ]
    ring
  · rename_i h
    have hexp : (k + 1) / 2 ^ 52 - 1 = k / 2 ^ 52 - 1 := by omega
    rw [hexp]

theorem sizeAt_succ (k : Nat) : sizeAt (k + 1) = sizeAt k + gapAt k := by
  unfold sizeAt gapAt
  by_cases hfraction : (k + 1) % 2 ^ 52 = 0
  · have hexp : (k + 1) / 2 ^ 52 = k / 2 ^ 52 + 1 := by omega
    have hlast : k % 2 ^ 52 = 2 ^ 52 - 1 := by omega
    rw [hexp, hfraction, hlast, if_neg (by omega), Nat.add_sub_cancel]
    split
    · rename_i hzero
      rw [hzero]
      rfl
    · obtain ⟨e, he⟩ := Nat.exists_eq_succ_of_ne_zero ‹k / 2 ^ 52 ≠ 0›
      rw [he, Nat.succ_sub_one, Nat.succ_eq_add_one, Nat.pow_succ]
      ring
  · have hexp : (k + 1) / 2 ^ 52 = k / 2 ^ 52 := by omega
    have hnext : (k + 1) % 2 ^ 52 = k % 2 ^ 52 + 1 := by omega
    rw [hexp, hnext]
    split
    · rename_i hzero
      rw [hzero]
      rfl
    · ring

theorem gapAt_pos (k : Nat) : 0 < gapAt k := Nat.two_pow_pos _

theorem middleAt_strictMono : StrictMono middleAt := by
  refine strictMono_nat_of_lt_succ fun k => ?_
  have hgap := gapAt_pos k
  have hnext := gapAt_pos (k + 1)
  have hsize := sizeAt_succ k
  unfold middleAt
  omega

/-- The interval of a double reaches from one middle to the next. -/
theorem interval_eq {x : Double} (h : 0 < x.rank) :
    x.interval = (middleAt (x.rank - 1), middleAt x.rank, decide (x.rank % 2 = 0)) := by
  obtain ⟨k, hk⟩ := Nat.exists_eq_add_one_of_ne_zero (Nat.ne_of_gt h)
  have hgap := gapAt_succ k
  have hsize := sizeAt_succ k
  have hstep : 2 ^ ((k + 1) / 2 ^ 52 - 1) = gapAt (k + 1) := rfl
  have hparity : (k + 1) % 2 ^ 52 % 2 = (k + 1) % 2 := Nat.mod_mod_of_dvd _ (by decide)
  simp only [interval, magnitude_eq, exponentField_eq, fractionField_eq, hk, Nat.shiftLeft_eq,
    Nat.one_mul, Nat.add_sub_cancel, hstep, hparity, ← hgap, Prod.mk.injEq, middleAt, and_true]
  omega

/-! ## What rounds to a double -/

/-- The numbers that round to the double of a rank, a middle to the one of even rank. -/
def Rounds (k : Nat) (q : ℚ) : Prop :=
  if k % 2 = 0 then middleAt (k - 1) ≤ q ∧ q ≤ middleAt k
  else middleAt (k - 1) < q ∧ q < middleAt k

theorem Rounds.le {k : Nat} {q : ℚ} (h : Rounds k q) :
    (middleAt (k - 1) : ℚ) ≤ q ∧ q ≤ middleAt k := by
  unfold Rounds at h
  split at h
  · exact h
  · exact ⟨h.1.le, h.2.le⟩

/-- No number rounds to two doubles, the second of them greater. -/
theorem Rounds.rank_le {j k : Nat} {q : ℚ} (hj : Rounds j q) (hk : Rounds k q) : k ≤ j := by
  by_contra! hlt
  have hle : j ≤ k - 1 := by omega
  have hmiddle : (middleAt (k - 1) : ℚ) ≤ middleAt j := hk.le.1.trans hj.le.2
  have hnext : k - 1 = j :=
    le_antisymm (middleAt_strictMono.le_iff_le.1 (by exact_mod_cast hmiddle)) hle
  unfold Rounds at hj hk
  rw [hnext] at hk
  -- of two neighbours one is odd and does not reach the middle
  split at hj
  · rw [if_neg (by omega)] at hk
    exact absurd hj.2 (not_le.2 hk.1)
  · exact absurd hj.2 (not_lt.2 (by split at hk; exacts [hk.1, hk.1.le]))

theorem Rounds.unique {j k : Nat} {q : ℚ} (hj : Rounds j q) (hk : Rounds k q) : j = k :=
  le_antisymm (hk.rank_le hj) (hj.rank_le hk)

theorem holds_iff {x : Double} (h : 0 < x.rank) {c d : Nat} (hd : 0 < d) :
    x.holds c d = true ↔ Rounds x.rank (c / d) := by
  have hpos : (0 : ℚ) < d := by exact_mod_cast hd
  simp only [holds, interval_eq h, Rounds, decide_eq_true_eq]
  split
  · rw [le_div_iff₀ hpos, div_le_iff₀ hpos, decide_eq_true_eq]
    norm_cast
  · rw [lt_div_iff₀ hpos, div_lt_iff₀ hpos, decide_eq_true_eq]
    norm_cast

/-! ## Grids -/

/-- The number that a decimal writes. -/
def Decimal.value (d : Decimal) : ℚ := d.digits * 10 ^ d.exponent

theorem gridStep_pos (e : Int) : 0 < (gridStep e).1 ∧ 0 < (gridStep e).2 := by
  unfold gridStep
  split <;> simp only [Nat.shiftLeft_eq, Nat.pow_eq] <;> constructor <;> positivity

/-- A point of a grid in quarters of the least positive double. -/
theorem gridStep_value (n : Nat) (e : Int) :
    ((n * (gridStep e).1 : Nat) : ℚ) / (gridStep e).2 = Decimal.value ⟨n, e⟩ * 2 ^ 1076 := by
  unfold gridStep Decimal.value
  generalize 1076 = scale
  split
  · rename_i h
    obtain ⟨m, rfl⟩ := Int.eq_ofNat_of_zero_le h
    simp only [Nat.shiftLeft_eq, Int.toNat_natCast, zpow_natCast, Nat.pow_eq]
    push_cast
    ring
  · rename_i h
    obtain ⟨m, rfl⟩ : ∃ m : Nat, e = -m := ⟨(-e).toNat, by omega⟩
    simp only [Nat.shiftLeft_eq, neg_neg, Int.toNat_natCast, zpow_neg, zpow_natCast, Nat.pow_eq]
    push_cast
    field_simp

theorem onGrid_eq_some {x : Double} (h : 0 < x.rank) {e : Int} {n : Nat}
    (hn : x.onGrid e = some n) : 0 < n ∧ Rounds x.rank (Decimal.value ⟨n, e⟩ * 2 ^ 1076) := by
  have hholds : 0 < n ∧ x.holds (n * (gridStep e).1) (gridStep e).2 = true := by
    simp only [onGrid] at hn
    split at hn
    · rename_i hboth
      simp only [Bool.and_eq_true, bne_iff_ne] at hboth
      split at hn <;> obtain rfl := Option.some.inj hn
      · exact ⟨Nat.pos_of_ne_zero hboth.1.2, hboth.1.1⟩
      · exact ⟨Nat.succ_pos _, hboth.2⟩
    · split at hn
      · rename_i hlow
        simp only [Bool.and_eq_true, bne_iff_ne] at hlow
        obtain rfl := Option.some.inj hn
        exact ⟨Nat.pos_of_ne_zero hlow.2, hlow.1⟩
      · split at hn
        · rename_i hhigh
          obtain rfl := Option.some.inj hn
          exact ⟨Nat.succ_pos _, hhigh⟩
        · exact absurd hn (by simp)
  rw [holds_iff h (gridStep_pos e).2, gridStep_value] at hholds
  exact hholds

theorem holds_of_lt {x : Double} (h : 0 < x.rank) {c d : Nat} (hlow : middleAt (x.rank - 1) * d < c)
    (hhigh : c < middleAt x.rank * d) : x.holds c d = true := by
  simp only [holds, interval_eq h]
  split <;> rw [decide_eq_true_eq]
  · exact ⟨hlow.le, hhigh.le⟩
  · exact ⟨hlow, hhigh⟩

/-- A grid that is no coarser than the doubles has its next point above a double in the interval. -/
theorem exists_onGrid {x : Double} (h : 0 < x.rank) {e : Int}
    (hfine : (gridStep e).1 ≤ gapAt x.rank * (gridStep e).2) : ∃ n, x.onGrid e = some n := by
  obtain ⟨hnum, hden⟩ := gridStep_pos e
  have hdouble : middleAt (x.rank - 1) < 4 * x.magnitude := by
    obtain ⟨k, hk⟩ := Nat.exists_eq_add_one_of_ne_zero (Nat.ne_of_gt h)
    have hgap := gapAt_pos k
    rw [magnitude_eq, hk, sizeAt_succ, Nat.add_sub_cancel, middleAt]
    omega
  have hpoint : x.holds ((4 * x.magnitude * (gridStep e).2 / (gridStep e).1 + 1) * (gridStep e).1)
      (gridStep e).2 = true := by
    have hlow := Nat.lt_div_mul_add (a := 4 * x.magnitude * (gridStep e).2) hnum
    have hhigh := Nat.div_mul_le_self (4 * x.magnitude * (gridStep e).2) (gridStep e).1
    rw [← Nat.succ_mul] at hlow
    refine holds_of_lt h ((Nat.mul_lt_mul_of_pos_right hdouble hden).trans hlow) ?_
    rw [middleAt, ← magnitude_eq, Nat.add_mul, Nat.add_mul _ _ (gridStep e).2, Nat.one_mul,
      Nat.mul_assoc 2]
    have hgap := Nat.mul_pos (gapAt_pos x.rank) hden
    omega
  simp only [onGrid, hpoint]
  split
  · split <;> exact ⟨_, rfl⟩
  · split
    · exact ⟨_, rfl⟩
    · exact ⟨_, rfl⟩

/-! ## The search -/

/-- If one of the grids has a point in the interval, then the search ends at such a grid. -/
theorem onGrid_search {x : Double} {steps : Nat} {e : Int} {i n : Nat} (hi : i < steps)
    (h : x.onGrid (e - i) = some n) :
    x.onGrid (x.search e steps).exponent = some (x.search e steps).digits := by
  induction steps generalizing e i with
  | zero => exact absurd hi (Nat.not_lt_zero i)
  | succ steps ih =>
    unfold search
    cases hfirst : x.onGrid e with
    | some m => exact hfirst
    | none =>
      cases i with
      | zero => simp [hfirst] at h
      | succ i =>
        refine ih (Nat.lt_of_succ_lt_succ hi) ?_
        rwa [Int.sub_sub, Int.add_comm, ← Int.natCast_succ]

theorem ten_pow_shiftLeft_le {n s g : Nat} (h : (10 * n + 2) / 3 + s ≤ g) :
    10 ^ n <<< s ≤ 2 ^ g := by
  -- a coarse bound is enough here, for doubles have no more than 309 digits before the point
  have hten : 10 ^ n ≤ 2 ^ ((10 * n + 2) / 3) := by
    rw [← Nat.pow_le_pow_iff_left (n := 3) (by decide), ← Nat.pow_mul, ← Nat.pow_mul]
    calc 10 ^ (n * 3) = (10 ^ 3) ^ n := by rw [Nat.mul_comm, Nat.pow_mul]
      _ ≤ (2 ^ 10) ^ n := Nat.pow_le_pow_left (by decide) n
      _ = 2 ^ (10 * n) := by rw [Nat.pow_mul]
      _ ≤ 2 ^ ((10 * n + 2) / 3 * 3) := Nat.pow_le_pow_right (by decide) (by omega)
  calc 10 ^ n <<< s = 10 ^ n * 2 ^ s := Nat.shiftLeft_eq ..
    _ ≤ 2 ^ ((10 * n + 2) / 3) * 2 ^ s := Nat.mul_le_mul_right _ hten
    _ = 2 ^ ((10 * n + 2) / 3 + s) := by rw [Nat.pow_add]
    _ ≤ 2 ^ g := Nat.pow_le_pow_right (by decide) h

theorem one_shiftLeft_le {n s g : Nat} (h : s ≤ g + 93 * n / 28) : 1 <<< s ≤ 2 ^ g * 10 ^ n := by
  -- behind the point the bound has to be sharp, down to the least doubles
  have hten : 2 ^ (93 * n / 28) ≤ 10 ^ n := by
    rw [← Nat.pow_le_pow_iff_left (n := 28) (by decide), ← Nat.pow_mul, ← Nat.pow_mul]
    calc 2 ^ (93 * n / 28 * 28) ≤ 2 ^ (93 * n) := Nat.pow_le_pow_right (by decide) (by omega)
      _ = (2 ^ 93) ^ n := by rw [Nat.pow_mul]
      _ ≤ (10 ^ 28) ^ n := Nat.pow_le_pow_left (by decide) n
      _ = 10 ^ (n * 28) := by rw [Nat.mul_comm, Nat.pow_mul]
  calc 1 <<< s = 2 ^ s := Nat.one_shiftLeft s
    _ ≤ 2 ^ (g + 93 * n / 28) := Nat.pow_le_pow_right (by decide) h
    _ = 2 ^ g * 2 ^ (93 * n / 28) := by rw [Nat.pow_add]
    _ ≤ 2 ^ g * 10 ^ n := Nat.mul_le_mul_left _ hten

theorem log2_magnitude_le (x : Double) : x.magnitude.log2 ≤ 52 + (x.rank / 2 ^ 52 - 1) := by
  by_cases hzero : x.magnitude = 0
  · simp [hzero]
  have hsize : x.magnitude < 2 ^ (53 + (x.rank / 2 ^ 52 - 1)) := by
    rw [magnitude_eq, sizeAt, Nat.pow_add]
    split
    · rename_i hexp
      rw [hexp]
      omega
    · exact Nat.mul_lt_mul_of_pos_right (by omega) (Nat.two_pow_pos _)
  have hlog := (Nat.log2_lt hzero).2 hsize
  omega

/-- The last grid that is searched is no coarser than the doubles around `x`. -/
theorem gridStep_le (x : Double) :
    (gridStep (x.topExponent - 22)).1 ≤ gapAt x.rank * (gridStep (x.topExponent - 22)).2 := by
  have hlog := log2_magnitude_le x
  have hrank : x.rank < 2 ^ 63 := Nat.mod_lt _ (by decide)
  have htop : x.topExponent = ((x.magnitude.log2 : Int) - 1074) * 30103 / 100000 + 1 := rfl
  unfold gridStep gapAt
  split
  · rw [Nat.mul_one]
    exact ten_pow_shiftLeft_le (by omega)
  · exact one_shiftLeft_le (by omega)

/-- The decimal that is found rounds to the double. -/
theorem rounds_shortest {x : Double} (h : 0 < x.rank) :
    0 < x.shortest.digits ∧ Rounds x.rank (x.shortest.value * 2 ^ 1076) := by
  have hlast : x.topExponent + 1 - (23 : Nat) = x.topExponent - 22 := by omega
  obtain ⟨n, hn⟩ := exists_onGrid h (gridStep_le x)
  have hgrid : x.onGrid x.shortest.exponent = some x.shortest.digits := by
    rw [shortest]
    exact onGrid_search (i := 23) (by decide) (hlast ▸ hn)
  exact onGrid_eq_some h hgrid

theorem rank_eq_of_shortest {x y : Double} (hx : 0 < x.rank) (hy : 0 < y.rank)
    (h : x.shortest.value = y.shortest.value) : x.rank = y.rank := by
  have hdecimal := (rounds_shortest hx).2
  rw [h] at hdecimal
  exact hdecimal.unique (rounds_shortest hy).2

/-- The value of the decimal of a double; the search is for doubles other than zero. -/
def decimalValue (x : Double) : ℚ := if x.magnitude = 0 then 0 else x.shortest.value

theorem magnitude_eq_zero_iff (x : Double) : x.magnitude = 0 ↔ x.rank = 0 := by
  rw [magnitude_eq]
  cases x.rank with
  | zero => exact iff_of_true rfl rfl
  | succ k =>
    have hgap := gapAt_pos k
    rw [sizeAt_succ]
    omega

theorem decimalValue_of_rank_pos {x : Double} (h : 0 < x.rank) :
    x.decimalValue = x.shortest.value ∧ 0 < x.decimalValue := by
  have hvalue : x.decimalValue = x.shortest.value :=
    if_neg fun hzero => Nat.ne_of_gt h ((magnitude_eq_zero_iff x).1 hzero)
  have hdigits : (0 : ℚ) < x.shortest.digits := by exact_mod_cast (rounds_shortest h).1
  refine ⟨hvalue, ?_⟩
  rw [hvalue, Decimal.value]
  positivity

theorem decimalValue_of_rank_zero {x : Double} (h : x.rank = 0) : x.decimalValue = 0 :=
  if_pos ((magnitude_eq_zero_iff x).2 h)

/-- Doubles of the same sign and with the same decimal are the same. -/
theorem eq_of_decimalValue {x y : Double} (hsign : x.isNegative = y.isNegative)
    (h : x.decimalValue = y.decimalValue) : x = y := by
  refine eq_of_rank hsign ?_
  rcases Nat.eq_zero_or_pos x.rank with hx | hx <;> rcases Nat.eq_zero_or_pos y.rank with hy | hy
  · rw [hx, hy]
  · exact absurd h (decimalValue_of_rank_zero hx ▸ (decimalValue_of_rank_pos hy).2.ne)
  · exact absurd h (decimalValue_of_rank_zero hy ▸ (decimalValue_of_rank_pos hx).2.ne')
  · rw [(decimalValue_of_rank_pos hx).1, (decimalValue_of_rank_pos hy).1] at h
    exact rank_eq_of_shortest hx hy h

end ContentEngine.Double
