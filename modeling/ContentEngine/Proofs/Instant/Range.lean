import ContentEngine.Instant
import Mathlib.Algebra.Group.Nat.Defs
import Mathlib.Data.List.Induction

/-!
# The range of instants

A datetime has four digits for its year, so its milliseconds are far inside the range of a 64-bit
integer. `toInt_ofInt_millis` says that comparing the stored words is comparing the instants.
-/

namespace ContentEngine

namespace Text

theorem digitValue_le {c : Char} (h : isDigit c) : digitValue c ≤ 9 := by
  have h₂ : c ≤ '9' := by
    simp only [isDigit, Bool.and_eq_true, decide_eq_true_eq] at h
    exact h.2
  have hn : c.toNat ≤ '9'.toNat := h₂
  have h₀ : '0'.toNat = 48 := rfl
  have h₉ : '9'.toNat = 57 := rfl
  unfold digitValue
  omega

theorem digitsValue_lt (ds : List Char) (h : ∀ c ∈ ds, isDigit c) :
    digitsValue ds < 10 ^ ds.length := by
  induction ds using List.reverseRecOn with
  | nil => simp [digitsValue]
  | append_singleton ds c ih =>
    have hds : digitsValue ds < 10 ^ ds.length := ih fun d hd => h d (by simp [hd])
    have hc : digitValue c ≤ 9 := digitValue_le (h c (by simp))
    have hsnoc : digitsValue (ds ++ [c]) = digitsValue ds * 10 + digitValue c := by
      simp [digitsValue, List.foldl_append]
    rw [hsnoc, List.length_append, List.length_singleton, pow_succ]
    omega

end Text

namespace Instant
open Text (digitsValue digitsValue_lt)

theorem fixedDigits?_lt {n v : Nat} {s rest : List Char}
    (h : fixedDigits? n s = some (v, rest)) : v < 10 ^ n := by
  unfold fixedDigits? at h
  by_cases hc : (s.take n).length = n ∧ (s.take n).all Text.isDigit
  · rw [if_pos hc] at h
    obtain ⟨rfl, -⟩ := Prod.mk.inj (Option.some.inj h)
    have hlt := digitsValue_lt (s.take n) (List.all_eq_true.mp hc.2)
    rwa [hc.1] at hlt
  · rw [if_neg hc] at h
    cases h

theorem monthDay?_valid {y : Int} {s rest : List Char} {d : Date}
    (h : monthDay? y s = some (d, rest)) : d.year = y ∧ d.isValid = true := by
  simp only [monthDay?, Option.bind_eq_bind, Option.bind_eq_some_iff] at h
  obtain ⟨_, -, ⟨month, _⟩, -, _, -, ⟨day, _⟩, -, hd⟩ := h
  split at hd
  · next hv =>
    obtain ⟨rfl, -⟩ := Prod.mk.inj (Option.some.inj hd)
    exact ⟨rfl, hv⟩
  · cases hd

theorem monthLength_le (y : Int) (m : Nat) : monthLength y m ≤ 31 := by
  unfold monthLength
  split
  · split <;> omega
  all_goals omega

theorem daysBeforeMonth_le (y : Int) (m : Nat) : daysBeforeMonth y m ≤ 31 * m := by
  induction m with
  | zero => exact Nat.le_refl 0
  | succ m ih =>
    unfold daysBeforeMonth
    have hlength : (if m = 0 then 0 else monthLength y m) ≤ 31 := by
      split
      · omega
      · exact monthLength_le y m
    omega

theorem daysBeforeYear_bounds {y : Int} (h₁ : -10000 < y) (h₂ : y < 10000) :
    -4000000 < daysBeforeYear y ∧ daysBeforeYear y < 4000000 := by
  simp only [daysBeforeYear]
  omega

theorem Date.toDays_bounds {d : Date} (hv : d.isValid = true) (h₁ : -10000 < d.year)
    (h₂ : d.year < 10000) : -5000000 < d.toDays ∧ d.toDays < 4000000 := by
  have hy := daysBeforeYear_bounds h₁ h₂
  have hm := daysBeforeMonth_le d.year d.month
  have hlen := monthLength_le d.year d.month
  simp only [Date.isValid, decide_eq_true_eq] at hv
  unfold Date.toDays
  omega

theorem fractionNanos?_lt {s rest : List Char} {n : Nat}
    (h : fractionNanos? s = some (n, rest)) : n < 1000000000 := by
  unfold fractionNanos? at h
  split at h
  · next s =>
    split at h
    · cases h
    · next ds hne hds =>
      obtain ⟨rfl, -⟩ := Prod.mk.inj (Option.some.inj h)
      have hdigits : ∀ c ∈ (s.takeWhile Text.isDigit ++ List.replicate 9 '0').take 9,
          Text.isDigit c := by
        intro c hc
        rcases List.mem_append.mp (List.mem_of_mem_take hc) with hc | hc
        · exact List.all_eq_true.mp (List.all_takeWhile) c hc
        · rw [List.eq_of_mem_replicate hc]
          decide
      have hlt := digitsValue_lt _ hdigits
      have hlen : ((s.takeWhile Text.isDigit ++ List.replicate 9 '0').take 9).length = 9 := by
        simp
      rw [hlen] at hlt
      omega
  · obtain ⟨rfl, -⟩ := Prod.mk.inj (Option.some.inj h)
    omega

theorem zone?_bounds {s rest : List Char} {z : Int} (h : zone? s = some (z, rest)) :
    -90000 < z ∧ z < 90000 := by
  unfold zone? at h
  split at h
  · cases h
  · next c s =>
    split at h
    · obtain ⟨rfl, -⟩ := Prod.mk.inj (Option.some.inj h)
      omega
    · split at h
      · simp only [Option.bind_eq_bind, Option.bind_eq_some_iff] at h
        obtain ⟨⟨hour, _⟩, -, _, -, ⟨minute, _⟩, -, h⟩ := h
        split at h
        · next hb =>
          dsimp only at hb h
          obtain ⟨rfl, -⟩ := Prod.mk.inj (Option.some.inj h)
          split <;> omega
        · cases h
      · cases h

/-- Second 60 and the fraction add less than a second to the whole seconds. -/
theorem timestampNanos?_bounds {s : List Char} {n : Int} (h : timestampNanos? s = some n) :
    -1000000000000000000000 < n ∧ n < 1000000000000000000000 := by
  simp only [timestampNanos?, Option.bind_eq_bind, Option.bind_eq_some_iff] at h
  obtain ⟨⟨year, _⟩, hyear, ⟨date, _⟩, hdate, _, -, ⟨hour, _⟩, hhour, _, -, ⟨minute, _⟩, hminute,
    _, -, ⟨second, _⟩, hsecond, ⟨nanos, _⟩, hnanos, ⟨zone, _⟩, hzone, h⟩ := h
  have hy := fixedDigits?_lt hyear
  have hh := fixedDigits?_lt hhour
  have hm := fixedDigits?_lt hminute
  have hs := fixedDigits?_lt hsecond
  have hn := fractionNanos?_lt hnanos
  have hz := zone?_bounds hzone
  obtain ⟨hdy, hv⟩ := monthDay?_valid hdate
  have hd := Date.toDays_bounds hv (by rw [hdy]; omega) (by rw [hdy]; omega)
  dsimp only at h
  split at h
  · cases h
  · split at h
    · split at h
      · obtain rfl := Option.some.inj h
        omega
      · cases h
    · obtain rfl := Option.some.inj h
      omega

theorem plainDate?_bounds {s : List Char} {d : Date} (h : plainDate? s = some d) :
    -5000000 < d.toDays ∧ d.toDays < 4000000 := by
  unfold plainDate? at h
  simp only [Option.bind_eq_bind, Option.bind_eq_some_iff] at h
  obtain ⟨⟨year, _⟩, hyear, ⟨date, rest⟩, hdate, h⟩ := h
  dsimp only at hdate h
  have hy : year < 10000 := fixedDigits?_lt hyear
  obtain ⟨hdy, hv⟩ := monthDay?_valid hdate
  have hb : -10000 < date.year ∧ date.year < 10000 := by
    rw [hdy]
    split <;> omega
  by_cases hnil : rest = []
  · rw [if_pos hnil] at h
    obtain rfl := Option.some.inj h
    exact Date.toDays_bounds hv hb.1 hb.2
  · rw [if_neg hnil] at h
    cases h

theorem nanos?_bounds {text : String} {n : Int} (h : nanos? text = some n) :
    -1000000000000000000000 < n ∧ n < 1000000000000000000000 := by
  unfold nanos? at h
  split at h
  · next m hm =>
    obtain rfl := Option.some.inj h
    exact timestampNanos?_bounds hm
  · obtain ⟨d, hd, rfl⟩ := Option.map_eq_some_iff.mp h
    have := plainDate?_bounds hd
    omega

theorem toInt_ofInt_millis {text : String} {n : Int} (h : millis? text = some n) :
    (Int64.ofInt n).toInt = n := by
  obtain ⟨m, hm, rfl⟩ := Option.map_eq_some_iff.mp h
  have hb := nanos?_bounds hm
  have hl : -1000000000000000 ≤ m.tdiv 1000000 := by
    have := Int.tdiv_le_tdiv (c := 1000000) (by omega) (Int.le_of_lt hb.1)
    simpa using this
  have hu : m.tdiv 1000000 ≤ 1000000000000000 := by
    have := Int.tdiv_le_tdiv (c := 1000000) (by omega) (Int.le_of_lt hb.2)
    simpa using this
  exact Int64.toInt_ofInt_of_le (by omega) (by omega)

end Instant
end ContentEngine
