import ContentEngine.Json.Number
import ContentEngine.Proofs.Double.Shortest

/-!
# The text of a number

A number has the text of its parts: sign, whole part, fraction and exponent. Reading gives these
parts back whatever comes behind, as long as that does not go on with the number. Integers and finite
doubles are written as such texts, and the parts say which number was written: a double has a fraction
or an exponent, and its parts have the value of the shortest decimal.
-/

namespace ContentEngine.Json
open Text (isDigit digitValue digitsValue)

/-! ## Digits -/

/-- At least one digit, and nothing else. -/
def IsDigits (ds : List Char) : Prop := ds ≠ [] ∧ ∀ c ∈ ds, isDigit c = true

/-- What does not go on with a number. -/
def Stops (r : List Char) : Prop :=
  ∀ c ∈ r.head?, isDigit c = false ∧ c ≠ '.' ∧ c ≠ 'e' ∧ c ≠ 'E'

theorem digits?_append {ds r : List Char} (h : IsDigits ds)
    (hr : ∀ c ∈ r.head?, isDigit c = false) : digits? (ds ++ r) = some (ds, r) := by
  have htake : r.takeWhile isDigit = [] := by
    cases r with
    | nil => rfl
    | cons c r => rw [List.takeWhile_cons, hr c rfl]; rfl
  have hdrop : r.dropWhile isDigit = r := by
    cases r with
    | nil => rfl
    | cons c r => rw [List.dropWhile_cons, hr c rfl]; rfl
  have hdigits : (ds ++ r).takeWhile isDigit = ds := by
    rw [List.takeWhile_append_of_pos h.2, htake, List.append_nil]
  rw [digits?, hdigits, List.dropWhile_append_of_pos h.2, hdrop]
  split
  · exact absurd rfl h.1
  · rfl

theorem digitsValue_eq (ds : List Char) : digitsValue ds = Nat.ofDigitChars 10 ds 0 := by
  rw [Nat.ofDigitChars_eq_foldl, digitsValue]
  simp only [digitValue, Nat.mul_comm]

theorem digitsValue_toDigits (n : Nat) : digitsValue (Nat.toDigits 10 n) = n := by
  rw [digitsValue_eq, Nat.ofDigitChars_ten_toDigits]

theorem digitsValue_append (ds es : List Char) :
    digitsValue (ds ++ es) = 10 ^ es.length * digitsValue ds + digitsValue es := by
  simp only [digitsValue_eq]
  rw [Nat.ofDigitChars_append, Nat.ofDigitChars_eq_ofDigitChars_zero]

theorem digitsValue_replicate_zero (n : Nat) : digitsValue (List.replicate n '0') = 0 := by
  rw [digitsValue_eq, Nat.ofDigitChars_replicate_zero, Nat.mul_zero]

theorem isDigits_toDigits (n : Nat) : IsDigits (Nat.toDigits 10 n) := by
  refine ⟨Nat.toDigits_ne_nil, fun c hc => ?_⟩
  have hdigit := Nat.isDigit_of_mem_toDigits (by decide) (by decide) hc
  simpa [Char.isDigit, isDigit, Char.le_def] using hdigit

theorem isDigit_of_mem_zeros {n : Nat} {c : Char} (h : c ∈ List.replicate n '0') :
    isDigit c = true := by
  rw [List.eq_of_mem_replicate h]
  decide

theorem isDigits_zero : IsDigits ['0'] :=
  ⟨List.cons_ne_nil _ _, fun _ => isDigit_of_mem_zeros (n := 1)⟩

theorem IsDigits.append {ds es : List Char} (hds : IsDigits ds) (hes : ∀ c ∈ es, isDigit c = true) :
    IsDigits (ds ++ es) :=
  ⟨fun h => hds.1 (List.append_eq_nil_iff.1 h).1, fun c hc =>
    (List.mem_append.1 hc).elim (hds.2 c) (hes c)⟩

theorem IsDigits.take {ds : List Char} (h : IsDigits ds) {n : Nat} (hn : 0 < n) :
    IsDigits (ds.take n) :=
  ⟨fun hnil => (List.take_eq_nil_iff.1 hnil).elim (Nat.ne_of_gt hn) h.1, fun c hc =>
    h.2 c (List.mem_of_mem_take hc)⟩

theorem IsDigits.drop {ds : List Char} (h : IsDigits ds) {n : Nat} (hn : n < ds.length) :
    IsDigits (ds.drop n) :=
  ⟨fun hnil => Nat.not_le.2 hn (List.drop_eq_nil_iff.1 hnil), fun c hc =>
    h.2 c (List.mem_of_mem_drop hc)⟩

/-- Only the digits of zero start with a zero. -/
theorem head_toDigits {n : Nat} (h : (Nat.toDigits 10 n).head? = some '0') : n = 0 := by
  induction n using Nat.strongRecOn with
  | ind n ih =>
    by_cases hlt : n < 10
    · rw [Nat.toDigits_of_lt_base hlt] at h
      have hzero : ∀ m < 10, Nat.digitChar m = '0' → m = 0 := by decide
      exact hzero n hlt (Option.some.inj h)
    · rw [Nat.toDigits_of_base_le (by decide) (by omega), List.head?_append,
        Option.or_of_isSome (by simp [Nat.toDigits_ne_nil])] at h
      have hquot := ih (n / 10) (Nat.div_lt_self (by omega) (by decide)) h
      omega

theorem toList_toString (n : Int) :
    (toString n).toList = (if n < 0 then ['-'] else []) ++ Nat.toDigits 10 n.natAbs := by
  rw [Int.toString_eq_repr, Int.repr_eq_if]
  by_cases hneg : n < 0
  · have habs : (-n).toNat = n.natAbs := by omega
    rw [if_neg (by omega), if_pos hneg, habs, String.toList_append, Nat.toList_repr]
    rfl
  · have habs : n.toNat = n.natAbs := by omega
    rw [if_pos (by omega), if_neg hneg, habs, Nat.toList_repr]
    rfl

/-! ## Parts -/

namespace NumberText

def fractionChars : Option (List Char) → List Char
  | none => []
  | some ds => '.' :: ds

def exponentChars : Option (Bool × List Char) → List Char
  | none => []
  | some (negative, ds) => 'e' :: (if negative then '-' else '+') :: ds

/-- The text of a number. -/
def chars (t : NumberText) : List Char :=
  (if t.negative then ['-'] else []) ++
    (t.whole ++ (fractionChars t.fraction ++ exponentChars t.exponent))

/-- The parts of a number as JSON wants them. -/
structure Proper (t : NumberText) : Prop where
  whole : IsDigits t.whole
  leading : t.whole.head? = some '0' → t.whole.length = 1
  fraction : ∀ ds ∈ t.fraction, IsDigits ds
  exponent : ∀ e ∈ t.exponent, IsDigits e.2

/-- The magnitude that the parts write. -/
def value (t : NumberText) : ℚ :=
  let exponent : Int := t.exponent.elim 0 fun e => if e.1 then -digitsValue e.2 else digitsValue e.2
  digitsValue (t.whole ++ t.fraction.getD []) * 10 ^ (exponent - (t.fraction.getD []).length)

end NumberText

/-! ## Reading the parts back -/

theorem IsDigits.exists_cons {ds : List Char} (h : IsDigits ds) :
    ∃ c l, ds = c :: l ∧ isDigit c = true := by
  cases ds with
  | nil => exact absurd rfl h.1
  | cons c l => exact ⟨c, l, rfl, h.2 c List.mem_cons_self⟩

theorem fraction?_append {fraction : Option (List Char)} {r : List Char}
    (h : ∀ ds ∈ fraction, IsDigits ds) (hr : ∀ c ∈ r.head?, isDigit c = false ∧ c ≠ '.') :
    fraction? (NumberText.fractionChars fraction ++ r) = some (fraction, r) := by
  cases fraction with
  | none =>
    cases r with
    | nil => rfl
    | cons c r =>
      have hpoint := (hr c rfl).2
      simp only [NumberText.fractionChars, List.nil_append, fraction?]
      split
      · exact absurd (List.cons.inj ‹_›).1 hpoint
      · rfl
  | some ds =>
    simp only [NumberText.fractionChars, List.cons_append, fraction?,
      digits?_append (h ds rfl) fun c hc => (hr c hc).1, Option.map_some]

theorem exponent?_append {exponent : Option (Bool × List Char)} {r : List Char}
    (h : ∀ e ∈ exponent, IsDigits e.2) (hr : Stops r) :
    exponent? (NumberText.exponentChars exponent ++ r) = some (exponent, r) := by
  cases exponent with
  | none =>
    cases r with
    | nil => rfl
    | cons c r =>
      obtain ⟨-, -, he, hE⟩ := hr c rfl
      simp only [NumberText.exponentChars, List.nil_append, exponent?, he, hE, or_self, if_false]
  | some e =>
    obtain ⟨negative, ds⟩ := e
    have hdigits := digits?_append (h _ rfl) fun c hc => (hr c hc).1
    cases negative <;>
      simp only [NumberText.exponentChars, List.cons_append, exponent?, true_or, if_true,
        Bool.false_eq_true, if_false, hdigits, Option.map_some]

theorem head_exponentChars (exponent : Option (Bool × List Char)) {r : List Char} (hr : Stops r) :
    ∀ c ∈ (NumberText.exponentChars exponent ++ r).head?, isDigit c = false ∧ c ≠ '.' := by
  intro c hc
  cases exponent with
  | none => exact ⟨(hr c hc).1, (hr c hc).2.1⟩
  | some e =>
    obtain rfl := Option.some.inj hc
    decide

theorem head_fractionChars (fraction : Option (List Char)) {r : List Char}
    (hr : ∀ c ∈ r.head?, isDigit c = false) :
    ∀ c ∈ (NumberText.fractionChars fraction ++ r).head?, isDigit c = false := by
  intro c hc
  cases fraction with
  | none => exact hr c hc
  | some ds =>
    obtain rfl := Option.some.inj hc
    decide

/-- A number is read back from its text, and what comes behind stays. -/
theorem numberText?_append {t : NumberText} {r : List Char} (h : t.Proper) (hr : Stops r) :
    numberText? (t.chars ++ r) = some (t, r) := by
  obtain ⟨negative, whole, fraction, exponent⟩ := t
  have hleading : ¬ (whole.head? = some '0' ∧ whole.length ≠ 1) := fun hzero =>
    hzero.2 (h.leading hzero.1)
  have hbehind := head_exponentChars exponent hr
  have hexponent := exponent?_append h.exponent hr
  have hfraction := fraction?_append h.fraction hbehind
  have hwhole := digits?_append h.whole (head_fractionChars fraction fun c hc => (hbehind c hc).1)
  simp only [numberText?, NumberText.chars, List.append_assoc]
  cases negative with
  | true => simp [hwhole, hleading, hfraction, hexponent]
  | false =>
    obtain ⟨c, l, hfirst, hdigit⟩ : ∃ c l, whole = c :: l ∧ isDigit c = true := h.whole.exists_cons
    simp only [Bool.false_eq_true, if_false, List.nil_append]
    split
    · rename_i rest hminus
      rw [hfirst] at hminus
      obtain rfl := (List.cons.inj hminus).1
      exact absurd hdigit (by decide)
    · simp [hwhole, hleading, hfraction, hexponent]

/-- Numbers with the same text have the same parts, whatever comes behind. -/
theorem NumberText.chars_append_inj {t u : NumberText} {r s : List Char} (ht : t.Proper)
    (hu : u.Proper) (hr : Stops r) (hs : Stops s) (h : t.chars ++ r = u.chars ++ s) :
    t = u ∧ r = s := by
  have hread := numberText?_append ht hr
  rw [h, numberText?_append hu hs] at hread
  obtain ⟨hparts, hrest⟩ := Prod.mk.inj (Option.some.inj hread)
  exact ⟨hparts.symm, hrest.symm⟩

/-! ## Integers -/

namespace NumberText

def ofInt (n : Int) : NumberText := ⟨decide (n < 0), Nat.toDigits 10 n.natAbs, none, none⟩

theorem proper_ofInt (n : Int) : (ofInt n).Proper where
  whole := isDigits_toDigits _
  leading h := by rw [ofInt, head_toDigits h]; rfl
  fraction _ h := by cases h
  exponent _ h := by cases h

theorem chars_ofInt (n : Int) : (ofInt n).chars = (toString n).toList := by
  rw [toList_toString]
  simp [chars, ofInt, fractionChars, exponentChars]

theorem ofInt_inj {m n : Int} (h : ofInt m = ofInt n) : m = n := by
  simp only [ofInt, mk.injEq, decide_eq_decide, and_true] at h
  have habs := congrArg digitsValue h.2
  rw [digitsValue_toDigits, digitsValue_toDigits] at habs
  omega

/-! ## Doubles -/

/-- A decimal with digits and the place of the point. -/
def ofDecimal (negative : Bool) (ds : List Char) (point : Int) : NumberText :=
  if ds.length ≤ point ∧ point ≤ 16 then
    ⟨negative, ds ++ List.replicate (point - ds.length).toNat '0', some ['0'], none⟩
  else if 0 < point ∧ point ≤ 16 then
    ⟨negative, ds.take point.toNat, some (ds.drop point.toNat), none⟩
  else if -5 < point ∧ point ≤ 0 then
    ⟨negative, ['0'], some (List.replicate (-point).toNat '0' ++ ds), none⟩
  else
    ⟨negative, ds.take 1, if ds.length = 1 then none else some (ds.drop 1),
      some (decide (point - 1 < 0), Nat.toDigits 10 (point - 1).natAbs)⟩

theorem toList_exponentText (e : Int) :
    (exponentText e).toList = (if e < 0 then '-' else '+') :: Nat.toDigits 10 e.natAbs := by
  unfold exponentText
  split
  · rename_i h
    rw [toList_toString, if_pos h]
    rfl
  · rename_i h
    rw [String.toList_append, toList_toString, if_neg h]
    rfl

theorem chars_ofDecimal (negative : Bool) (ds : String) (point : Int) :
    (ofDecimal negative ds.toList point).chars =
      ((if negative then "-" else "") ++ decimalText ds point).toList := by
  have hsign : (if negative then "-" else "").toList = if negative then ['-'] else [] := by
    cases negative <;> rfl
  rw [String.toList_append, hsign, ofDecimal, decimalText]
  simp only [← String.length_toList]
  split
  · simp [chars, fractionChars, exponentChars, zeros]
  · split
    · simp [chars, fractionChars, exponentChars]
    · split
      · simp [chars, fractionChars, exponentChars, zeros]
      · split
        · rename_i hone
          simp [chars, fractionChars, exponentChars, toList_exponentText, hone,
            List.take_of_length_le]
        · simp [chars, fractionChars, exponentChars, toList_exponentText]

theorem proper_ofDecimal (negative : Bool) {ds : List Char} (h : IsDigits ds)
    (hlead : ds.head? ≠ some '0') (point : Int) : (ofDecimal negative ds point).Proper := by
  have hlength : 0 < ds.length := List.length_pos_of_ne_nil h.1
  unfold ofDecimal
  split
  · refine ⟨h.append fun _ => isDigit_of_mem_zeros, fun hhead => ?_, ?_, ?_⟩
    · rw [List.head?_append_of_ne_nil _ h.1] at hhead
      exact absurd hhead hlead
    · rintro _ ⟨⟩
      exact isDigits_zero
    · rintro _ ⟨⟩
  · split
    · refine ⟨h.take (by omega), fun hhead => ?_, ?_, ?_⟩
      · rw [List.head?_take, if_neg (by omega)] at hhead
        exact absurd hhead hlead
      · rintro _ ⟨⟩
        exact h.drop (by omega)
      · rintro _ ⟨⟩
    · split
      · refine ⟨isDigits_zero, fun _ => rfl, ?_, ?_⟩
        · rintro _ ⟨⟩
          refine ⟨fun hnil => h.1 (List.append_eq_nil_iff.1 hnil).2, fun c hc => ?_⟩
          exact (List.mem_append.1 hc).elim isDigit_of_mem_zeros (h.2 c)
        · rintro _ ⟨⟩
      · refine ⟨h.take Nat.one_pos, fun hhead => ?_, ?_, ?_⟩
        · rw [List.head?_take, if_neg Nat.one_ne_zero] at hhead
          exact absurd hhead hlead
        · intro es hes
          obtain ⟨hone, hrest⟩ := Option.ite_none_left_eq_some.1 hes
          exact Option.some.inj hrest ▸ h.drop (by omega)
        · rintro _ ⟨⟩
          exact isDigits_toDigits _

theorem value_ofDecimal (negative : Bool) {ds : List Char} (h : ds ≠ []) (point : Int) :
    (ofDecimal negative ds point).value = digitsValue ds * 10 ^ (point - ds.length) := by
  have hlength : 0 < ds.length := List.length_pos_of_ne_nil h
  have hzero : digitsValue ['0'] = 0 := rfl
  unfold ofDecimal
  split
  · obtain ⟨k, hk⟩ : ∃ k : Nat, point - ds.length = k := ⟨(point - ds.length).toNat, by omega⟩
    simp only [value, Option.elim_none, Option.getD_some, digitsValue_append,
      digitsValue_replicate_zero, hzero, hk, Int.toNat_natCast, List.length_replicate,
      List.length_singleton, zpow_natCast]
    push_cast
    rw [zpow_neg_one]
    ring
  · split
    · have hpoint : (0 : Int) - (ds.drop point.toNat).length = point - ds.length := by
        rw [List.length_drop]
        omega
      simp only [value, Option.elim_none, Option.getD_some, List.take_append_drop, hpoint]
    · split
      · have hpoint : (0 : Int) - (List.replicate (-point).toNat '0' ++ ds).length =
            point - ds.length := by
          rw [List.length_append, List.length_replicate]
          omega
        simp only [value, Option.elim_none, Option.getD_some, digitsValue_append,
          digitsValue_replicate_zero, hzero, hpoint, Nat.mul_zero, Nat.zero_add]
      · have hdigits : (if ds.length = 1 then none else some (ds.drop 1)).getD [] = ds.drop 1 := by
          split
          · exact (List.drop_eq_nil_of_le (by omega)).symm
          · rfl
        have hexponent : (if point - 1 < 0 then -((point - 1).natAbs : Int)
            else (point - 1).natAbs) - (ds.drop 1).length = point - ds.length := by
          rw [List.length_drop]
          split <;> omega
        simp only [value, Option.elim_some, hdigits, List.take_append_drop, digitsValue_toDigits,
          decide_eq_true_eq, hexponent]

/-- A decimal does not look like an integer. -/
theorem point_ofDecimal (negative : Bool) (ds : List Char) (point : Int) :
    (ofDecimal negative ds point).fraction.isSome ∨
      (ofDecimal negative ds point).exponent.isSome := by
  unfold ofDecimal
  split
  · exact .inl rfl
  · split
    · exact .inl rfl
    · split
      · exact .inl rfl
      · exact .inr rfl

/-- The parts of a finite double as it is written. -/
def ofDouble (x : Double) : NumberText :=
  if x.magnitude = 0 then ⟨x.isNegative, ['0'], some ['0'], none⟩
  else
    let ds := Nat.toDigits 10 x.shortest.digits
    ofDecimal x.isNegative ds (ds.length + x.shortest.exponent)

theorem chars_ofDouble {x : Double} (h : x.isFinite = true) :
    (ofDouble x).chars = (doubleText x).toList := by
  have htext : doubleText x = if x.magnitude = 0 then (if x.isNegative then "-" else "") ++ "0.0"
      else (if x.isNegative then "-" else "") ++ decimalText (toString x.shortest.digits)
        ((toString x.shortest.digits).length + x.shortest.exponent) := by
    simp [doubleText, h]
  rw [htext, ofDouble]
  split
  · cases x.isNegative <;> rfl
  · rw [← chars_ofDecimal]
    simp only [← String.length_toList, Nat.toString_eq_repr, Nat.toList_repr]

theorem negative_ofDouble (x : Double) : (ofDouble x).negative = x.isNegative := by
  unfold ofDouble ofDecimal
  split
  · rfl
  · dsimp only
    split_ifs <;> rfl

theorem value_ofDouble (x : Double) : (ofDouble x).value = x.decimalValue := by
  unfold ofDouble Double.decimalValue
  split
  · simp [value, digitsValue, digitValue]
  · dsimp only
    rw [value_ofDecimal _ Nat.toDigits_ne_nil, digitsValue_toDigits, Double.Decimal.value,
      add_sub_cancel_left]

theorem proper_ofDouble (x : Double) : (ofDouble x).Proper := by
  unfold ofDouble
  split
  · refine ⟨isDigits_zero, fun _ => rfl, ?_, ?_⟩
    · rintro _ ⟨⟩
      exact isDigits_zero
    · rintro _ ⟨⟩
  · rename_i hmagnitude
    have hrank : 0 < x.rank :=
      Nat.pos_of_ne_zero ((Double.magnitude_eq_zero_iff x).not.1 hmagnitude)
    refine proper_ofDecimal _ (isDigits_toDigits _) (fun hhead => ?_) _
    exact Nat.ne_of_gt (Double.rounds_shortest hrank).1 (head_toDigits hhead)

theorem point_ofDouble (x : Double) :
    (ofDouble x).fraction.isSome ∨ (ofDouble x).exponent.isSome := by
  unfold ofDouble
  split
  · exact .inl rfl
  · exact point_ofDecimal ..

theorem ofDouble_inj {x y : Double} (h : ofDouble x = ofDouble y) : x = y := by
  refine Double.eq_of_decimalValue ?_ ?_
  · rw [← negative_ofDouble, h, negative_ofDouble]
  · rw [← value_ofDouble, h, value_ofDouble]

theorem ofInt_ne_ofDouble (n : Int) (x : Double) : ofInt n ≠ ofDouble x := by
  intro h
  have hpoint := point_ofDouble x
  rw [← h] at hpoint
  exact hpoint.elim Bool.false_ne_true Bool.false_ne_true

end NumberText

end ContentEngine.Json
