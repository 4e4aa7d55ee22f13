import ContentEngine.Proofs.Double.Rounding
import ContentEngine.Proofs.Filter.Families
import Mathlib.Data.Set.Insert

/-!
# The order of values

`Value.canonicalCompare` compares the values of a field for sorting, a missing one included. Values
of different classes go by class; texts and booleans have an order of their own, numbers have
theirs, and all other values of one class are ties. Comparing the other way round reverses the
answer.

An integer is rounded when it meets a float, so a float can equal two different integers. Unless one
does, the values of a set without a NaN are in a total order with ties.
-/

namespace ContentEngine

/-! ## Numbers -/

namespace Number

def isNaN : Number → Bool
  | .int _ => false
  | .float x => x.isNaN

/-- The number as a double, in units. -/
def level (n : Number) : Int := n.toDouble.units

variable {l m n : Number}

theorem isNaN_toDouble (n : Number) : n.toDouble.isNaN = n.isNaN := by
  cases n with
  | int i => exact Double.isNaN_ofInt64 i
  | float x => rfl

theorem compare?_swap (m n : Number) : n.compare? m = (m.compare? n).map Ordering.swap := by
  have hdouble (x y : Double) : y.compare? x = (x.compare? y).map Ordering.swap := by
    unfold Double.compare?
    rw [Bool.or_comm]
    split
    · rfl
    · exact congrArg some Std.OrientedCmp.eq_swap
  cases m with
  | int i =>
    cases n with
    | int j => exact congrArg some Std.OrientedCmp.eq_swap
    | float y => exact hdouble _ _
  | float x => cases n <;> exact hdouble _ _

section
variable (hm : m.isNaN = false) (hn : n.isNaN = false)
include hm hn

theorem compare?_toDouble : m.toDouble.compare? n.toDouble = some (compare m.level n.level) := by
  rw [← isNaN_toDouble] at hm hn
  simp [Double.compare?, hm, hn, level]

/-- Numbers of different levels are in the order of their levels. -/
theorem compare?_of_level_ne (h : m.level ≠ n.level) :
    m.compare? n = some (compare m.level n.level) := by
  have hdouble := compare?_toDouble hm hn
  cases m with
  | float x => cases n <;> exact hdouble
  | int i =>
    cases n with
    | float y => exact hdouble
    | int j =>
      refine congrArg some ?_
      rcases Int.lt_trichotomy i.toInt j.toInt with hlt | heq | hgt
      · have hle : (Number.int i).level ≤ (Number.int j).level :=
          Double.units_ofInt64_mono hlt.le
        rw [Int.compare_eq_lt.2 hlt, Int.compare_eq_lt.2 (hle.lt_of_ne h)]
      · exact absurd (congrArg (fun k => (Double.ofInt k).units) heq) h
      · have hle : (Number.int j).level ≤ (Number.int i).level :=
          Double.units_ofInt64_mono hgt.le
        rw [Int.compare_eq_gt.2 hgt, Int.compare_eq_gt.2 (hle.lt_of_ne h.symm)]

/-- Numbers of one level are equal, unless both of them are integers. -/
theorem compare?_of_level_eq (h : m.level = n.level) :
    m.compare? n = some .eq ∨ ∃ i j, m = .int i ∧ n = .int j := by
  have hdouble := compare?_toDouble hm hn
  rw [Int.compare_eq_eq.2 h] at hdouble
  cases m with
  | float x => cases n <;> exact .inl hdouble
  | int i =>
    cases n with
    | float y => exact .inl hdouble
    | int j => exact .inr ⟨i, j, rfl, rfl⟩

theorem exists_compare? : ∃ o, m.compare? n = some o := by
  by_cases h : m.level = n.level
  · obtain heq | ⟨i, j, rfl, rfl⟩ := compare?_of_level_eq hm hn h
    · exact ⟨_, heq⟩
    · exact ⟨_, rfl⟩
  · exact ⟨_, compare?_of_level_ne hm hn h⟩

theorem level_le (h : m.compare? n ≠ some .gt) : m.level ≤ n.level := by
  by_contra hlt
  have hgt := compare?_of_level_ne hm hn (by omega)
  exact h (by rw [hgt, Int.compare_eq_gt.2 (by omega)])

theorem level_eq (h : m.compare? n = some .eq) : m.level = n.level := by
  by_contra hne
  rw [compare?_of_level_ne hm hn hne, Option.some.injEq, Int.compare_eq_eq] at h
  exact hne h

end

section
variable (hl : l.isNaN = false) (hm : m.isNaN = false) (hn : n.isNaN = false)
include hl hm hn

theorem compare?_trans
    (hclear : ∀ i x j, l = .int i → m = .float x → n = .int j → l.compare? m = some .eq →
      n.compare? m = some .eq → i = j)
    (hlm : l.compare? m ≠ some .gt) (hmn : m.compare? n ≠ some .gt) :
    l.compare? n ≠ some .gt := by
  have h₁ := level_le hl hm hlm
  have h₂ := level_le hm hn hmn
  by_cases hln : l.level = n.level
  · obtain heq | ⟨i, j, rfl, rfl⟩ := compare?_of_level_eq hl hn hln
    · simp [heq]
    -- Two integers of one level, which the number between them has as well.
    have hlevel : (Number.int i).level = m.level := by omega
    cases m with
    | int k =>
      simp only [compare?, ne_eq, Option.some.injEq, Int.compare_eq_gt] at hlm hmn ⊢
      omega
    | float x =>
      have him := (compare?_of_level_eq hl hm hlevel).resolve_right (by simp)
      have hjm := (compare?_of_level_eq hn hm (hln.symm.trans hlevel)).resolve_right (by simp)
      obtain rfl := hclear i x j rfl rfl rfl him hjm
      simp [compare?]
  · rw [compare?_of_level_ne hl hn hln, Int.compare_eq_lt.2 (by omega)]
    simp

theorem compare?_congr
    (hclear : ∀ i x j, n = .int j → l = .int i ∧ m = .float x ∨ l = .float x ∧ m = .int i →
      (Number.int i).compare? (.float x) = some .eq →
      (Number.int j).compare? (.float x) = some .eq → i = j)
    (h : l.compare? m = some .eq) : l.compare? n = m.compare? n := by
  have hlm := level_eq hl hm h
  by_cases hln : l.level = n.level
  · have hmn := hlm.symm.trans hln
    obtain hl' | ⟨i, j, rfl, rfl⟩ := compare?_of_level_eq hl hn hln
    · obtain hm' | ⟨i, j, rfl, rfl⟩ := compare?_of_level_eq hm hn hmn
      · rw [hl', hm']
      · -- The first number is a float, or the two others would be compared as integers.
        cases l with
        | int k =>
          simp only [compare?, Option.some.injEq, Int.compare_eq_eq] at h ⊢
          rw [h]
        | float x =>
          have him := (compare?_of_level_eq hm hl hlm.symm).resolve_right (by simp)
          have hjm := (compare?_of_level_eq hn hl hln.symm).resolve_right (by simp)
          obtain rfl := hclear i x j rfl (.inr ⟨rfl, rfl⟩) him hjm
          rw [hl']
          simp [compare?]
    · cases m with
      | int k =>
        simp only [compare?, Option.some.injEq, Int.compare_eq_eq] at h ⊢
        rw [h]
      | float x =>
        have hjm := (compare?_of_level_eq hn hm hmn.symm).resolve_right (by simp)
        obtain rfl := hclear i x j rfl (.inl ⟨rfl, rfl⟩) h hjm
        have hself := (compare?_of_level_eq hm hn hmn).resolve_right (by simp)
        rw [hself]
        simp [compare?]
  · rw [compare?_of_level_ne hl hn hln, compare?_of_level_ne hm hn (hlm ▸ hln), hlm]

end

end Number

/-! ## Classes -/

namespace Value

/-- The place of the class, absent values first. Numbers are one class: no other kind has a name
between those of theirs. -/
def sortRank : Option Value → Nat
  | none => 0
  | some .null => 0
  | some (.bool _) => 1
  | some (.doc _) => 2
  | some (.int _) => 3
  | some (.float _) => 3
  | some (.json _) => 4
  | some (.list _) => 5
  | some (.ref _) => 6
  | some (.text _) => 7
  | some (.variant _ _) => 8

theorem exists_of_sortRank_ne_zero {v : Option Value} (h : sortRank v ≠ 0) :
    ∃ w : Value, v = some w ∧ w.isNull = false := by
  rcases v with _ | v
  · exact absurd rfl h
  · refine ⟨v, rfl, ?_⟩
    cases v with
    | null => exact absurd rfl h
    | _ => rfl

/-- A text that has the order of the value in its class, unless it is a number. -/
def sortText : Option Value → String
  | some (.text s) => s
  | some (.bool true) => "true"
  | _ => ""

def keyCompare : Option Value → Option Value → Ordering :=
  compareLex (compareOn sortRank) (compareOn sortText)

instance : Std.TransCmp keyCompare :=
  inferInstanceAs (Std.TransCmp (compareLex (compareOn sortRank) (compareOn sortText)))

theorem keyCompare_eq_eq {a b : Option Value} :
    keyCompare a b = .eq ↔ sortRank a = sortRank b ∧ sortText a = sortText b := by
  simp [keyCompare, compareLex, compareOn]

def IsNumber (v : Option Value) : Prop := ∃ n : Number, v = some (Datum.number n).value

theorem isNumber_iff (v : Option Value) : IsNumber v ↔ sortRank v = 3 := by
  constructor
  · rintro ⟨_ | _, rfl⟩ <;> rfl
  · intro h
    rcases v with _ | v
    · cases h
    · cases v with
      | int i => exact ⟨.int i, rfl⟩
      | float x => exact ⟨.float x, rfl⟩
      | _ => cases h

theorem compare_kindLabel {a b : Value} (ha : a.isNull = false) (hb : b.isNull = false)
    (h : ¬ (IsNumber (some a) ∧ IsNumber (some b))) :
    compare a.kindLabel b.kindLabel = compare (sortRank (some a)) (sortRank (some b)) := by
  simp only [isNumber_iff] at h
  cases a <;> cases b <;> simp only [isNull, Bool.true_eq_false] at ha hb <;>
    simp only [sortRank, not_true, and_self] at h <;> simp only [kindLabel, sortRank] <;> rfl

theorem canonicalCompare_some {a b : Value} (ha : a.isNull = false) (hb : b.isNull = false) :
    canonicalCompare (some a) (some b) =
      ((compareOrder? a b <|> compareBool? a b).getD (compare a.kindLabel b.kindLabel)) := by
  simp only [canonicalCompare, present?, Option.filter, ha, hb, Bool.not_false, if_true]
  cases compareOrder? a b <|> compareBool? a b <;> rfl

/-- Values of different classes have no order of their own. -/
theorem canonicalCompare_of_rank_ne {a b : Value} (ha : a.isNull = false) (hb : b.isNull = false)
    (h : sortRank (some a) ≠ sortRank (some b)) :
    canonicalCompare (some a) (some b) = compare (sortRank (some a)) (sortRank (some b)) := by
  have hnone : (compareOrder? a b <|> compareBool? a b) = none := by
    cases a <;> cases b <;> first | rfl | exact absurd rfl h
  have hnumbers : ¬ (IsNumber (some a) ∧ IsNumber (some b)) := by
    rw [isNumber_iff, isNumber_iff]
    rintro ⟨hrank, hrank'⟩
    exact h (hrank.trans hrank'.symm)
  rw [canonicalCompare_some ha hb, hnone, Option.getD_none, compare_kindLabel ha hb hnumbers]

/-- Only two numbers are not compared by class and text. -/
theorem canonicalCompare_eq_keyCompare {a b : Option Value} (h : ¬ (IsNumber a ∧ IsNumber b)) :
    canonicalCompare a b = keyCompare a b := by
  rcases a with _ | a
  · rcases b with _ | b
    · rfl
    · cases b <;> rfl
  rcases b with _ | b
  · cases a <;> rfl
  cases ha : a.isNull with
  | true =>
    cases a with
    | null => cases b <;> rfl
    | _ => cases ha
  | false =>
    cases hb : b.isNull with
    | true =>
      cases b with
      | null => cases a <;> rfl
      | _ => cases hb
    | false =>
      by_cases hrank : sortRank (some a) = sortRank (some b)
      · rw [canonicalCompare_some ha hb, compare_kindLabel ha hb h]
        cases a <;> cases b <;> first
          | rfl
          | exact absurd ⟨(isNumber_iff _).2 rfl, (isNumber_iff _).2 rfl⟩ h
          | simp [sortRank] at hrank
        case bool.bool b c => cases b <;> cases c <;> rfl
      · have hne : compare (sortRank (some a)) (sortRank (some b)) ≠ .eq := fun heq =>
          hrank (Nat.compare_eq_eq.1 heq)
        rw [canonicalCompare_of_rank_ne ha hb hrank, keyCompare, compareLex, compareOn, compareOn]
        cases hcompare : compare (sortRank (some a)) (sortRank (some b)) with
        | eq => exact absurd hcompare hne
        | lt | gt => rfl

theorem isNull_number (n : Number) : (Datum.number n).value.isNull = false := by
  cases n <;> rfl

theorem compareBool?_number (m n : Number) :
    compareBool? (Datum.number m).value (Datum.number n).value = none := by
  cases m <;> cases n <;> rfl

theorem canonicalCompare_number {m n : Number} {o : Ordering} (h : m.compare? n = some o) :
    canonicalCompare (some (Datum.number m).value) (some (Datum.number n).value) = o := by
  rw [canonicalCompare_some (isNull_number m) (isNull_number n), Datum.compareOrder?_number, h]
  rfl

/-- Two numbers are in the same class. -/
theorem keyCompare_number {a b : Option Value} (ha : IsNumber a) (hb : IsNumber b) :
    keyCompare a b = .eq := by
  obtain ⟨_ | _, rfl⟩ := ha <;> obtain ⟨_ | _, rfl⟩ := hb <;> rfl

/-! ## The laws -/

/-- Comparing the other way round reverses the answer, also where a NaN has no order. -/
theorem canonicalCompare_swap (a b : Option Value) :
    canonicalCompare b a = (canonicalCompare a b).swap := by
  by_cases h : IsNumber a ∧ IsNumber b
  · obtain ⟨⟨m, rfl⟩, n, rfl⟩ := h
    rw [canonicalCompare_some (isNull_number m) (isNull_number n),
      canonicalCompare_some (isNull_number n) (isNull_number m), Datum.compareOrder?_number,
      Datum.compareOrder?_number, Number.compare?_swap m n]
    cases m.compare? n with
    | some o => rfl
    | none =>
      rw [Option.map_none, compareBool?_number, compareBool?_number]
      exact Std.OrientedOrd.eq_swap
  · rw [canonicalCompare_eq_keyCompare h, canonicalCompare_eq_keyCompare (fun hba => h hba.symm)]
    exact (Std.OrientedCmp.eq_swap : keyCompare b a = (keyCompare a b).swap)

/-- The laws of a total order with ties, on some values. -/
structure Orders (S : Set (Option Value)) : Prop where
  trans : ∀ a b c, a ∈ S → b ∈ S → c ∈ S → canonicalCompare a b ≠ .gt →
    canonicalCompare b c ≠ .gt → canonicalCompare a c ≠ .gt
  congr : ∀ a b c, a ∈ S → b ∈ S → c ∈ S → canonicalCompare a b = .eq →
    canonicalCompare a c = canonicalCompare b c

/-- The float to which an integer is rounded; the two zeros are the same. -/
def RoundsTo (i : Int64) (x : Double) : Prop := (Double.ofInt i.toInt).compare? x = some .eq

/-- No two integers meet in one float. -/
def Clear (S : Set (Option Value)) : Prop :=
  ∀ x i j, some (.float x) ∈ S → some (.int i) ∈ S → some (.int j) ∈ S →
    RoundsTo i x → RoundsTo j x → i = j

/-- Values that are not greater are not of a greater class, nor, in one class, of a greater text. -/
theorem keyCompare_isLE {a b : Option Value} (h : canonicalCompare a b ≠ .gt) :
    (keyCompare a b).isLE := by
  rw [Ordering.isLE_iff_ne_gt]
  by_cases hab : IsNumber a ∧ IsNumber b
  · simp [keyCompare_number hab.1 hab.2]
  · rwa [← canonicalCompare_eq_keyCompare hab]

theorem keyCompare_eq {a b : Option Value} (h : canonicalCompare a b = .eq) :
    keyCompare a b = .eq := by
  have hba : canonicalCompare b a = .eq := by rw [canonicalCompare_swap, h]; rfl
  exact Std.OrientedCmp.isLE_antisymm (keyCompare_isLE (by simp [h]))
    (keyCompare_isLE (by simp [hba]))

theorem IsNumber.of_keyCompare {a b : Option Value} (ha : IsNumber a) (h : keyCompare a b = .eq) :
    IsNumber b := by
  rw [isNumber_iff] at ha ⊢
  exact (keyCompare_eq_eq.1 h).1.symm.trans ha

section
variable {S : Set (Option Value)} (hnan : ∀ x, some (.float x) ∈ S → x.isNaN = false)
include hnan

theorem isNaN_of_mem {n : Number} (h : some (Datum.number n).value ∈ S) : n.isNaN = false := by
  cases n with
  | int i => rfl
  | float x => exact hnan x h

theorem compare?_of_mem {m n : Number} (hm : some (Datum.number m).value ∈ S)
    (hn : some (Datum.number n).value ∈ S) :
    m.compare? n =
      some (canonicalCompare (some (Datum.number m).value) (some (Datum.number n).value)) := by
  obtain ⟨o, h⟩ := Number.exists_compare? (isNaN_of_mem hnan hm) (isNaN_of_mem hnan hn)
  rw [h, canonicalCompare_number h]

theorem orders_of_clear (hclear : Clear S) : Orders S where
  trans a b c ha hb hc hab hbc := by
    have hkab := keyCompare_isLE hab
    have hkbc := keyCompare_isLE hbc
    have hkac := Std.TransCmp.isLE_trans hkab hkbc
    by_cases hac : IsNumber a ∧ IsNumber c
    · -- What lies between two numbers is of their class as well.
      have hkca := keyCompare_number hac.2 hac.1
      have hkba := Std.TransCmp.isLE_trans hkbc (by rw [hkca]; rfl)
      have hbn := hac.1.of_keyCompare (Std.OrientedCmp.isLE_antisymm hkab hkba)
      obtain ⟨⟨l, rfl⟩, n, rfl⟩ := hac
      obtain ⟨m, rfl⟩ := hbn
      have htrans := @Number.compare?_trans l m n (isNaN_of_mem hnan ha) (isNaN_of_mem hnan hb)
        (isNaN_of_mem hnan hc) (by rintro i x j rfl rfl rfl; exact hclear x i j hb ha hc)
      rw [compare?_of_mem hnan ha hb, compare?_of_mem hnan hb hc,
        compare?_of_mem hnan ha hc] at htrans
      simp only [ne_eq, Option.some.injEq] at htrans
      exact htrans hab hbc
    · rw [canonicalCompare_eq_keyCompare hac]
      exact Ordering.isLE_iff_ne_gt.1 hkac
  congr a b c ha hb hc hab := by
    have hkab := keyCompare_eq hab
    by_cases hac : IsNumber a ∧ IsNumber c
    · have hbn := hac.1.of_keyCompare hkab
      obtain ⟨⟨l, rfl⟩, n, rfl⟩ := hac
      obtain ⟨m, rfl⟩ := hbn
      have hcongr := @Number.compare?_congr l m n (isNaN_of_mem hnan ha) (isNaN_of_mem hnan hb)
        (isNaN_of_mem hnan hc) (by
          rintro i x j rfl (⟨rfl, rfl⟩ | ⟨rfl, rfl⟩)
          · exact hclear x i j hb ha hc
          · exact hclear x i j ha hb hc)
      rw [compare?_of_mem hnan ha hb, compare?_of_mem hnan hb hc,
        compare?_of_mem hnan ha hc] at hcongr
      exact Option.some.inj (hcongr (by rw [hab]))
    · have hbc : ¬ (IsNumber b ∧ IsNumber c) := fun hbc =>
        hac ⟨hbc.1.of_keyCompare (Std.OrientedCmp.eq_comm.1 hkab), hbc.2⟩
      rw [canonicalCompare_eq_keyCompare hac, canonicalCompare_eq_keyCompare hbc]
      exact Std.TransCmp.congr_left hkab

end

/-- Two integers that are rounded to one float equal it, but not each other. -/
theorem Orders.clear {S : Set (Option Value)} (h : Orders S) : Clear S := by
  intro x i j hx hi hj hix hjx
  have hxj : canonicalCompare (some (.float x)) (some (.int j)) = .eq := by
    rw [canonicalCompare_swap]
    exact congrArg Ordering.swap (canonicalCompare_number (m := .int j) (n := .float x) hjx)
  have hij : canonicalCompare (some (.int i)) (some (.int j)) = .eq :=
    (h.congr _ _ _ hi hx hj (canonicalCompare_number (m := .int i) (n := .float x) hix)).trans hxj
  exact Int64.toInt_inj.1 (Int.compare_eq_eq.1 hij)

/-- Comparing is reversed with its operands, and the values of a set without a NaN are in a total
order with ties if and only if no float of the set is what two of its integers are rounded to. -/
theorem canonicalCompare_orders_iff (S : Set (Option Value))
    (hnan : ∀ x, some (.float x) ∈ S → x.isNaN = false) :
    (∀ a b : Option Value, canonicalCompare b a = (canonicalCompare a b).swap) ∧
      (Orders S ↔ Clear S) :=
  ⟨canonicalCompare_swap, Orders.clear, orders_of_clear hnan⟩

theorem orders_mixed :
    Orders {none, some .null, some (.bool true), some (.int 3), some (.float ⟨0x4004000000000000⟩),
      some (.text "b"), some (.ref "d1")} := by
  refine (canonicalCompare_orders_iff _ fun x hx => ?_).2.2 fun x i j _ hi hj _ _ => ?_
  · simp only [Set.mem_insert_iff, Set.mem_singleton_iff, reduceCtorEq, Option.some.injEq,
      float.injEq, false_or, or_false] at hx
    subst hx
    decide
  · simp only [Set.mem_insert_iff, Set.mem_singleton_iff, reduceCtorEq, Option.some.injEq,
      int.injEq, false_or, or_false] at hi hj
    rw [hi, hj]

/-- The integer `2 ^ 53 + 1` equals the float `2 ^ 53`, which equals the integer `2 ^ 53`; the float
2 equals a NaN, which equals the float 1. -/
theorem canonicalCompare_not_trans :
    ¬ (∀ a b c : Option Value, canonicalCompare a b ≠ .gt → canonicalCompare b c ≠ .gt →
        canonicalCompare a c ≠ .gt) ∧
      ¬ (∀ a b c : Option Value, canonicalCompare a b = .eq →
        canonicalCompare a c = canonicalCompare b c) := by
  constructor
  · intro htrans
    exact htrans (some (.int 9007199254740993)) (some (.float ⟨0x4340000000000000⟩))
      (some (.int 9007199254740992)) (by decide +kernel) (by decide +kernel) (by decide)
  · intro hcongr
    have hnan := hcongr (some (.float ⟨0x4000000000000000⟩)) (some (.float ⟨0x7FF8000000000000⟩))
      (some (.float ⟨0x3FF0000000000000⟩)) (by decide)
    revert hnan
    decide

end Value
end ContentEngine
