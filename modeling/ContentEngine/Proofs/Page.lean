import ContentEngine.Page

/-!
# Pages side by side

A page within the limits asks for the range that its number and size name. The ranges of all pages of
one size, up to the number of pages that is reported, put together again what they were cut from.
-/

namespace ContentEngine
variable {limits : PageLimits} {size : UInt32}

theorem min_maxSize (hmax : size ≤ limits.maxSize) : min size limits.maxSize = size := if_pos hmax

theorem maxSize_ne_zero (hsize : 1 ≤ size) (hmax : size ≤ limits.maxSize) : limits.maxSize ≠ 0 := by
  intro hzero
  rw [hzero, UInt32.le_iff_toNat_le] at hmax
  rw [UInt32.le_iff_toNat_le] at hsize
  exact absurd (Nat.le_trans hsize hmax) (by decide)

theorem ne_zero_of_one_le {n : UInt32} (h : 1 ≤ n) : n ≠ 0 := by
  rintro rfl
  exact absurd h (by decide)

theorem PageRequest.window_page {number : UInt32} (hnumber : 1 ≤ number) (hsize : 1 ≤ size)
    (hmax : size ≤ limits.maxSize) :
    (PageRequest.page (some number) (some size)).window limits =
      .ok ⟨(number - 1).toUInt64 * size.toUInt64, size, number, size⟩ := by
  simp only [window, Option.getD_some, min_maxSize hmax, maxSize_ne_zero hsize hmax,
    ne_zero_of_one_le hnumber, ne_zero_of_one_le hsize, if_false]

/-- A page has a window only if pages have a size at all. -/
theorem PageRequest.maxSize_ne_zero_of_window {request : PageRequest} {w : PageWindow}
    (h : request.window limits = .ok w) : limits.maxSize ≠ 0 := by
  intro hzero
  cases request <;> simp [window, hzero] at h

/-- The first page starts at the first row, and has at least one. -/
theorem PageRequest.window_first (hlimits : limits.maxSize ≠ 0) (hsize : 1 ≤ size) :
    1 ≤ min size limits.maxSize ∧
      (PageRequest.page (some 1) (some size)).window limits =
        .ok ⟨0, min size limits.maxSize, 1, min size limits.maxSize⟩ := by
  have hmin : 1 ≤ min size limits.maxSize := by
    have hle : min size limits.maxSize = size ∨ min size limits.maxSize = limits.maxSize := by
      rw [show min size limits.maxSize = if size ≤ limits.maxSize then size else limits.maxSize from rfl]
      split <;> simp
    rcases hle with hle | hle
    · rwa [hle]
    · rw [hle, UInt32.le_iff_toNat_le]
      exact Nat.one_le_iff_ne_zero.2 fun h => hlimits (UInt32.toNat_inj.1 h)
  refine ⟨hmin, ?_⟩
  have hstart : ((1 : UInt32) - 1).toUInt64 * (min size limits.maxSize).toUInt64 = 0 := by
    rw [UInt32.sub_self]
    exact UInt64.zero_mul
  simp only [window, Option.getD_some, hlimits, ne_zero_of_one_le hmin, if_false, hstart]
  rfl

theorem PageRequest.window_offset (start : UInt32) (hsize : 1 ≤ size)
    (hmax : size ≤ limits.maxSize) :
    (PageRequest.offset (some start) (some size)).window limits =
      .ok ⟨start.toUInt64, size, pageOfStart start size, size⟩ := by
  simp only [window, Option.getD_some, min_maxSize hmax, maxSize_ne_zero hsize hmax,
    ne_zero_of_one_le hsize, if_false]

/-- The start of a page fits into a word. -/
theorem toNat_pageStart {number : UInt32} (hnumber : 1 ≤ number) (size : UInt32) :
    ((number - 1).toUInt64 * size.toUInt64).toNat = (number.toNat - 1) * size.toNat := by
  have hpred : (number - 1).toNat = number.toNat - 1 := UInt32.toNat_sub_of_le number 1 hnumber
  have hbound : (number.toNat - 1) * size.toNat < 2 ^ 64 := by
    have hn : number.toNat - 1 < 2 ^ 32 := Nat.lt_of_le_of_lt (Nat.sub_le _ _) number.toNat_lt
    calc (number.toNat - 1) * size.toNat < 2 ^ 32 * 2 ^ 32 :=
          Nat.mul_lt_mul'' hn size.toNat_lt
      _ = 2 ^ 64 := by decide
  rw [UInt64.toNat_mul, UInt32.toNat_toUInt64, UInt32.toNat_toUInt64, hpred,
    Nat.mod_eq_of_lt hbound]

theorem toNat_pageCount (total : UInt64) (hsize : 1 ≤ size) :
    (pageCount total size).toNat = (total.toNat + size.toNat - 1) / size.toNat := by
  have hpos : 0 < size.toNat := UInt32.le_iff_toNat_le.1 hsize
  unfold pageCount
  by_cases hzero : total = 0
  · rw [if_pos hzero, hzero]
    have hlt : (0 : UInt64).toNat + size.toNat - 1 < size.toNat := by
      rw [UInt64.toNat_zero]
      omega
    rw [Nat.div_eq_of_lt hlt]
    rfl
  · rw [if_neg hzero]
    have htotal : 0 < total.toNat := by
      refine Nat.pos_of_ne_zero fun h => hzero ?_
      exact UInt64.toNat_inj.1 h
    have hpred : (total - 1).toNat = total.toNat - 1 := by
      refine UInt64.toNat_sub_of_le total 1 (UInt64.le_iff_toNat_le.2 ?_)
      exact htotal
    have hlt : (total.toNat - 1) / size.toNat + 1 < 2 ^ 64 := by
      have hdiv := Nat.div_le_self (total.toNat - 1) size.toNat
      have hbound := total.toNat_lt
      omega
    rw [UInt64.toNat_add, UInt64.toNat_div, hpred, UInt32.toNat_toUInt64, UInt64.toNat_one,
      Nat.mod_eq_of_lt hlt, ← Nat.add_div_right _ hpos]
    congr 1
    omega

section
variable {α : Type}

theorem flatMap_slices (l : List α) (size count : Nat) :
    (List.range count).flatMap (fun i => (l.drop (i * size)).take size) = l.take (count * size) := by
  induction count with
  | zero => simp
  | succ count ih =>
    rw [List.range_succ, List.flatMap_append, ih, List.flatMap_singleton, Nat.add_mul, Nat.one_mul,
      List.take_add]

/-- As many slices as there are pages leave nothing out. -/
theorem flatMap_pages (l : List α) {size : Nat} (hsize : 0 < size) :
    (List.range ((l.length + size - 1) / size)).flatMap (fun i => (l.drop (i * size)).take size) =
      l := by
  have hcover : l.length ≤ (l.length + size - 1) / size * size := by
    have hlt := Nat.lt_div_mul_add (a := l.length + size - 1) hsize
    omega
  rw [flatMap_slices, List.take_of_length_le hcover]

/-- No page is empty. -/
theorem pages_le_length {l : List α} {size : Nat} (hsize : 0 < size) :
    (l.length + size - 1) / size ≤ l.length := by
  rw [Nat.div_le_iff_le_mul_add_pred hsize]
  have hmul : l.length ≤ size * l.length := Nat.le_mul_of_pos_left _ hsize
  omega

end

end ContentEngine
