import Mathlib.Algebra.Order.Floor.Div
import ContentEngine.Proofs.Page

/-!
# Windows over the whole range of words

What a page request asks for is read in natural numbers first: its size after the default and the
greatest size were applied, its number, and the row at which it starts. `PageRequest.window_exact`
compares the window, which is computed in words of 32 and of 64 bits, with that reading. Only the
number of a page can leave its word, and one window has such a number: the one that starts at the
greatest word and has one row.
-/

namespace ContentEngine
variable {limits : PageLimits} {request : PageRequest} {w : PageWindow}

/-- The size that a request gets when it names `asked`. -/
def PageLimits.clamp (limits : PageLimits) (asked : Option UInt32) : Nat :=
  min (asked.getD limits.defaultSize).toNat limits.maxSize.toNat

/-- The rows of a page, in either style. -/
def PageRequest.size (limits : PageLimits) : PageRequest → Nat
  | .page _ size => limits.clamp size
  | .offset _ limit => limits.clamp limit

/-- The number that a request names; only one in the page style has a number. -/
def PageRequest.number? : PageRequest → Option Nat
  | .page number _ => some (number.getD 1).toNat
  | .offset _ _ => none

/-- The row at which a request starts. -/
def PageRequest.start (limits : PageLimits) : PageRequest → Nat
  | .page number size => ((number.getD 1).toNat - 1) * limits.clamp size
  | .offset start _ => (start.getD 0).toNat

/-- The window is the one that the request asks for, in numbers that are not cut off. -/
structure PageWindow.Exact (limits : PageLimits) (request : PageRequest) (w : PageWindow) : Prop where
  limit : w.limit.toNat = request.size limits
  pageSize : w.pageSize = w.limit
  nonempty : 1 ≤ w.limit
  allowed : w.limit ≤ limits.maxSize
  start : w.start.toNat = request.start limits
  number : ∀ n, request.number? = some n → w.page.toNat = n
  positive : 1 ≤ w.page
  start_ge : (w.page.toNat - 1) * w.pageSize.toNat ≤ w.start.toNat
  start_lt : w.start.toNat < w.page.toNat * w.pageSize.toNat ↔
    ¬ (request.number? = none ∧ w.start.toNat = UInt32.size - 1 ∧ w.limit = 1)
  pageCount : ∀ total, (w.describe total).pageCount.toNat = total.toNat ⌈/⌉ w.pageSize.toNat
  within : ∀ total, request.number? ≠ none →
    (w.start < total ↔ w.page.toNat ≤ (w.describe total).pageCount.toNat)
  within_of_lt : ∀ total, w.start < total → w.page.toNat ≤ (w.describe total).pageCount.toNat

theorem toNat_min (a b : UInt32) : (min a b).toNat = min a.toNat b.toNat := by
  rw [show min a b = if a ≤ b then a else b from rfl]
  split <;> rename_i h <;> rw [UInt32.le_iff_toNat_le] at h <;> omega

/-- Lowering the default before it is used changes nothing: what it gives is lowered again. -/
theorem PageLimits.toNat_clamp (limits : PageLimits) (asked : Option UInt32) :
    (min (asked.getD (min limits.defaultSize limits.maxSize)) limits.maxSize).toNat =
      limits.clamp asked := by
  cases asked with
  | none =>
    simp only [clamp, Option.getD_none, toNat_min]
    omega
  | some asked => exact toNat_min asked limits.maxSize

theorem PageLimits.clamp_le (limits : PageLimits) (asked : Option UInt32) :
    limits.clamp asked ≤ limits.maxSize.toNat := Nat.min_le_right _ _

theorem one_le_of_ne_zero {n : UInt32} (h : n ≠ 0) : 1 ≤ n := by
  rw [UInt32.le_iff_toNat_le, UInt32.toNat_one, Nat.one_le_iff_ne_zero]
  exact fun hzero => h (UInt32.toNat_inj.1 hzero)

/-- A page is among `count` pages exactly if rows come after the ones before it. -/
theorem le_ceilDiv_iff {page size total : Nat} (hpage : 1 ≤ page) (hsize : 1 ≤ size) :
    page ≤ total ⌈/⌉ size ↔ (page - 1) * size < total := by
  have hle : total ⌈/⌉ size ≤ page - 1 ↔ total ≤ size * (page - 1) := ceilDiv_le_iff_le_mul hsize
  rw [Nat.mul_comm] at hle
  omega

theorem PageWindow.toNat_describe (w : PageWindow) (hsize : 1 ≤ w.pageSize) (total : UInt64) :
    (w.describe total).pageCount.toNat = total.toNat ⌈/⌉ w.pageSize.toNat := by
  rw [Nat.ceilDiv_eq_add_pred_div]
  exact toNat_pageCount total hsize

/-- A quotient is the greatest word only if nothing is divided. -/
theorem div_eq_greatest_iff {start size : Nat} (hstart : start < UInt32.size) (hsize : 1 ≤ size) :
    start / size = UInt32.size - 1 ↔ start = UInt32.size - 1 ∧ size = 1 := by
  constructor
  · intro h
    have hone : size = 1 := by
      by_contra hne
      have hhalf : start / size ≤ start / 2 := Nat.div_le_div_left (by omega) (by omega)
      simp only [UInt32.size] at hstart h
      omega
    rw [hone, Nat.div_one] at h
    exact ⟨h, hone⟩
  · rintro ⟨rfl, rfl⟩
    exact Nat.div_one _

/-- The number of the page that a start falls on has a successor in the words, but for one. -/
theorem toNat_pageOfStart (start : UInt32) {size : UInt32} (hsize : 1 ≤ size) :
    (pageOfStart start size).toNat =
      if start.toNat = UInt32.size - 1 ∧ size.toNat = 1 then UInt32.size - 1
      else start.toNat / size.toNat + 1 := by
  have hgreatest : start / size = 0xffffffff ↔ start.toNat = UInt32.size - 1 ∧ size.toNat = 1 := by
    rw [← div_eq_greatest_iff start.toNat_lt (UInt32.le_iff_toNat_le.1 hsize), ← UInt32.toNat_inj,
      UInt32.toNat_div]
    rfl
  unfold pageOfStart
  by_cases hlast : start / size = 0xffffffff
  · rw [if_pos hlast, if_pos (hgreatest.1 hlast), hlast]
    rfl
  · have hlt : (start / size).toNat + 1 < 2 ^ 32 := by
      have hne : (start / size).toNat ≠ 0xffffffff := fun h => hlast (UInt32.toNat_inj.1 h)
      have hword := (start / size).toNat_lt
      omega
    rw [if_neg hlast, if_neg fun h => hlast (hgreatest.2 h), UInt32.toNat_add, UInt32.toNat_one,
      Nat.mod_eq_of_lt hlt, UInt32.toNat_div]

/-- A row of a page that exists is on one of the pages that are counted. -/
theorem PageWindow.page_le_pageCount (hpage : 1 ≤ w.page) (hsize : 1 ≤ w.pageSize)
    (hge : (w.page.toNat - 1) * w.pageSize.toNat ≤ w.start.toNat) {total : UInt64}
    (hlt : w.start < total) : w.page.toNat ≤ (w.describe total).pageCount.toNat := by
  rw [w.toNat_describe hsize,
    le_ceilDiv_iff (UInt32.le_iff_toNat_le.1 hpage) (UInt32.le_iff_toNat_le.1 hsize)]
  exact Nat.lt_of_le_of_lt hge (UInt64.lt_iff_toNat_lt.1 hlt)

theorem clamped_le {asked : Option UInt32} {s : UInt32} (hsize : s.toNat = limits.clamp asked) :
    s ≤ limits.maxSize := by
  rw [UInt32.le_iff_toNat_le, hsize]
  exact limits.clamp_le asked

/-- A window in the page style starts where its page does. -/
theorem PageWindow.exact_page {number size : Option UInt32} {n s : UInt32} (hn : 1 ≤ n) (hs : 1 ≤ s)
    (hnumber : n = number.getD 1) (hsize : s.toNat = limits.clamp size) :
    (⟨(n - 1).toUInt64 * s.toUInt64, s, n, s⟩ : PageWindow).Exact limits (.page number size) := by
  have hpage : 1 ≤ n.toNat := UInt32.le_iff_toNat_le.1 hn
  have hrows : 1 ≤ s.toNat := UInt32.le_iff_toNat_le.1 hs
  have hstart : ((n - 1).toUInt64 * s.toUInt64).toNat = (n.toNat - 1) * s.toNat :=
    toNat_pageStart hn s
  have hge : (n.toNat - 1) * s.toNat ≤ ((n - 1).toUInt64 * s.toUInt64).toNat := Nat.le_of_eq hstart.symm
  constructor
  case limit => exact hsize
  case pageSize => rfl
  case nonempty => exact hs
  case allowed => exact clamped_le hsize
  case start => rw [hstart, hsize, hnumber, PageRequest.start]
  case number =>
    intro m hm
    rw [hnumber]
    exact Option.some.inj hm
  case positive => exact hn
  case start_ge => exact hge
  case start_lt =>
    have hnext : (n.toNat - 1) * s.toNat < n.toNat * s.toNat :=
      Nat.mul_lt_mul_of_pos_right (by omega) hrows
    simp only [PageRequest.number?, reduceCtorEq, false_and, not_false_eq_true, iff_true]
    rwa [hstart]
  case pageCount => exact toNat_describe _ hs
  case within =>
    intro total _
    rw [toNat_describe _ hs, le_ceilDiv_iff hpage hrows, UInt64.lt_iff_toNat_lt, hstart]
  case within_of_lt => exact fun _ => page_le_pageCount hn hs hge

/-- A window in the offset style starts within the page that its start falls on. -/
theorem PageWindow.exact_offset {start limit : Option UInt32} {i s : UInt32} (hs : 1 ≤ s)
    (hi : i = start.getD 0) (hsize : s.toNat = limits.clamp limit) :
    (⟨i.toUInt64, s, pageOfStart i s, s⟩ : PageWindow).Exact limits (.offset start limit) := by
  have hrows : 1 ≤ s.toNat := UInt32.le_iff_toNat_le.1 hs
  have hpage := toNat_pageOfStart i hs
  have hdiv : i.toNat / s.toNat * s.toNat ≤ i.toNat := Nat.div_mul_le_self _ _
  have hmod : i.toNat < (i.toNat / s.toNat + 1) * s.toNat := by
    rw [Nat.mul_comm]
    exact Nat.lt_mul_div_succ _ hrows
  have hpositive : 1 ≤ pageOfStart i s := by
    rw [UInt32.le_iff_toNat_le, hpage]
    split <;> simp [UInt32.size]
  have hge : ((pageOfStart i s).toNat - 1) * s.toNat ≤ i.toUInt64.toNat := by
    rw [hpage, UInt32.toNat_toUInt64]
    split
    case isTrue h =>
      rw [h.2, h.1]
      omega
    case isFalse => exact hdiv
  constructor
  case limit => exact hsize
  case pageSize => rfl
  case nonempty => exact hs
  case allowed => exact clamped_le hsize
  case start => rw [hi, UInt32.toNat_toUInt64, PageRequest.start]
  case number => exact fun _ hm => absurd hm (by simp [PageRequest.number?])
  case positive => exact hpositive
  case start_ge => exact hge
  case start_lt =>
    have hone : s = 1 ↔ s.toNat = 1 := UInt32.toNat_inj.symm
    rw [UInt32.toNat_toUInt64, hpage, hone]
    simp only [PageRequest.number?, true_and]
    split
    case isTrue h =>
      rw [h.1, h.2]
      simp
    case isFalse h => exact iff_of_true hmod h
  case pageCount => exact toNat_describe _ hs
  case within => exact fun _ hstyle => absurd rfl hstyle
  case within_of_lt => exact fun _ => page_le_pageCount hpositive hs hge

/-- A request is refused exactly if its number or its size is zero, and otherwise gets the window
that it asks for. -/
theorem PageRequest.window_exact (request : PageRequest) (hmax : 1 ≤ limits.maxSize) :
    ((∃ e, request.window limits = .error e) ↔
      request.number? = some 0 ∨ request.size limits = 0) ∧
    ∀ w, request.window limits = .ok w → w.Exact limits request := by
  have hallowed : limits.maxSize ≠ 0 := ne_zero_of_one_le hmax
  cases request with
  | page number size =>
    have hsize := limits.toNat_clamp size
    simp only [window, hallowed, if_false, PageRequest.number?, PageRequest.size, Option.some.injEq]
    generalize min (size.getD (min limits.defaultSize limits.maxSize)) limits.maxSize = s at hsize ⊢
    rw [← hsize, ← UInt32.toNat_zero, UInt32.toNat_inj, UInt32.toNat_inj]
    split
    case isTrue hnumber => simp [hnumber]
    case isFalse hnumber =>
      split
      case isTrue hzero => simp [hzero]
      case isFalse hzero =>
        refine ⟨by simp [hnumber, hzero], ?_⟩
        rintro w ⟨rfl⟩
        exact PageWindow.exact_page (one_le_of_ne_zero hnumber) (one_le_of_ne_zero hzero) rfl hsize
  | offset start limit =>
    have hsize := limits.toNat_clamp limit
    simp only [window, hallowed, if_false, PageRequest.number?, PageRequest.size, reduceCtorEq,
      false_or]
    generalize min (limit.getD (min limits.defaultSize limits.maxSize)) limits.maxSize = s at hsize ⊢
    rw [← hsize, ← UInt32.toNat_zero, UInt32.toNat_inj]
    split
    case isTrue hzero => simp [hzero]
    case isFalse hzero =>
      refine ⟨by simp [hzero], ?_⟩
      rintro w ⟨rfl⟩
      exact PageWindow.exact_offset (one_le_of_ne_zero hzero) rfl hsize

/-- The last row, one at a time, falls on the one page whose number cannot be told. -/
theorem PageRequest.window_exact_last :
    1 ≤ (PageLimits.mk 25 1).maxSize ∧
      ∃ w, (PageRequest.offset (some 0xffffffff) (some 7)).window ⟨25, 1⟩ = .ok w ∧
        ¬ w.start.toNat < w.page.toNat * w.pageSize.toNat := by
  have hwindow : (PageRequest.offset (some 0xffffffff) (some 7)).window ⟨25, 1⟩ =
    .ok ⟨0xffffffff, 1, 0xffffffff, 1⟩ := rfl
  have hexact := (PageRequest.window_exact (.offset (some 0xffffffff) (some 7)) (by decide)).2
    _ hwindow
  refine ⟨by decide, _, hwindow, ?_⟩
  rw [hexact.start_lt]
  exact not_not_intro ⟨rfl, rfl, rfl⟩

end ContentEngine
