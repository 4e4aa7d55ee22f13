import ContentEngine.Proofs.Filter.Families
import ContentEngine.Proofs.Outcome

/-!
# Compiled operators

A compiled operand holds the data that the operand as written says, and evaluation compares a field
with it in the same family. So a compiled leaf says of a field what its operator says with the
operand as written: `holdsOfField_compileLeaf_iff`.
-/

namespace ContentEngine

namespace Value

theorem inList?_eq_true_iff (v : Value) (ws : List Value) :
    v.inList? ws = some true ↔ ∃ w ∈ ws, v.compareEq? .caseSensitive w = some true := by
  induction ws with
  | nil => simp [inList?]
  | cons w ws ih =>
    unfold inList?
    rcases hw : v.compareEq? .caseSensitive w with _ | _ | _
    · simp [hw, ih]
    · simp only [List.mem_cons, exists_eq_or_imp, hw, ← ih]
      rcases v.inList? ws with _ | _ | _ <;> simp
    · simp [hw]

theorem inList?_eq_none_iff (v : Value) (ws : List Value) :
    v.inList? ws = none ↔ ∀ w ∈ ws, v.compareEq? .caseSensitive w = none := by
  induction ws with
  | nil => simp [inList?]
  | cons w ws ih =>
    unfold inList?
    rcases hw : v.compareEq? .caseSensitive w with _ | _ | _ <;> simp [hw, ih]

theorem inList?_eq_false_iff (v : Value) (ws : List Value) :
    v.inList? ws = some false ↔
      (∃ w ∈ ws, v.compareEq? .caseSensitive w = some false) ∧
        ∀ w ∈ ws, v.compareEq? .caseSensitive w ≠ some true := by
  constructor
  · intro h
    have hne : ∀ w ∈ ws, v.compareEq? .caseSensitive w ≠ some true := by
      intro w hw hc
      have := (inList?_eq_true_iff v ws).mpr ⟨w, hw, hc⟩
      simp [h] at this
    refine ⟨?_, hne⟩
    by_contra hno
    have hnone : v.inList? ws = none := by
      rw [inList?_eq_none_iff]
      intro w hw
      rcases hc : v.compareEq? .caseSensitive w with _ | _ | _
      · rfl
      · exact absurd ⟨w, hw, hc⟩ hno
      · exact absurd hc (hne w hw)
    simp [h] at hnone
  · rintro ⟨⟨w, hw, hc⟩, hne⟩
    rcases hl : v.inList? ws with _ | _ | _
    · rw [(inList?_eq_none_iff v ws).mp hl w hw] at hc
      cases hc
    · rfl
    · obtain ⟨u, hu, hcu⟩ := (inList?_eq_true_iff v ws).mp hl
      exact absurd hcu (hne u hu)

end Value

namespace Datum
variable {kind : ScalarKind} {op : FilterOp} {field : String} {v w operand : Value} {x y : Datum}

theorem compileOperand_eq_ok_iff :
    compileOperand kind op field v = .ok w ↔ ∃ y, Of kind v y ∧ y.value = w := by
  rw [← normalize?_eq_some_iff]
  unfold compileOperand
  cases v.normalize? kind <;> simp

/-- The compiled list has the data of the members, in order. -/
theorem compileOperands_eq_ok {items ws : List Value}
    (h : compileOperands kind op field items = .ok ws) :
    List.Forall₂ (fun o w => ∃ y, Of kind o y ∧ y.value = w) items ws := by
  induction items generalizing ws with
  | nil =>
    obtain rfl := Except.ok.inj h
    exact .nil
  | cons o items ih =>
    unfold compileOperands at h
    cases ho : compileOperand kind op field o with
    | error e => simp [ho] at h
    | ok w =>
      cases hs : compileOperands kind op field items with
      | error e => simp [ho, hs] at h
      | ok ws' =>
        simp only [ho, hs, Except.ok.injEq] at h
        subst h
        exact .cons (compileOperand_eq_ok_iff.mp ho) (ih hs)

/-! ## Operators -/

section
variable (hx : Of kind v x)
include hx

/-- Everything but membership, ranges and presence has a single operand. -/
theorem holdsOf_one_iff (op : FilterOp) (hy : Of kind operand y) :
    Comparison.holdsOf op (.one y.value) x.value = true ↔ op.Compares x y := by
  have horder := compareOrder?_eq_some_iff hx hy
  have htrue := compareEq?_eq_true_iff hx hy
  have hfalse := compareEq?_eq_false_iff hx hy
  cases op <;> simp only [Comparison.holdsOf, FilterOp.Compares, decide_eq_true_eq, htrue, hfalse,
    Bool.false_eq_true, ← horder]
  case lt | lte | gt | gte => rcases x.value.compareOrder? y.value with _ | _ | _ | _ <;> simp
  case contains | containsi => exact textTest?_eq_true_iff contains_holds _ x y
  case notContains | notContainsi => exact textTest?_eq_false_iff contains_holds _ x y
  case startsWith | startsWithi => exact textTest?_eq_true_iff startsWith_holds _ x y
  case endsWith | endsWithi => exact textTest?_eq_true_iff endsWith_holds _ x y

theorem holdsOf_single_iff {w : Value} (hw : compileOperand kind op field operand = .ok w) :
    Comparison.holdsOf op (.one w) x.value = true ↔
      ∃ y, Of kind operand y ∧ op.Compares x y := by
  obtain ⟨y, hy, rfl⟩ := compileOperand_eq_ok_iff.mp hw
  rw [holdsOf_one_iff hx op hy]
  refine ⟨fun h => ⟨y, hy, h⟩, ?_⟩
  rintro ⟨z, hz, h⟩
  rwa [hy.unique hz]

theorem holdsOf_range_iff {low high l h : Value} (hl : compileOperand kind op field low = .ok l)
    (hh : compileOperand kind op field high = .ok h) :
    Comparison.holdsOf .between (.range l h) x.value = true ↔
      FilterOp.between.Satisfied kind x (.list [low, high]) := by
  obtain ⟨y, hy, rfl⟩ := compileOperand_eq_ok_iff.mp hl
  obtain ⟨z, hz, rfl⟩ := compileOperand_eq_ok_iff.mp hh
  have hand : Comparison.holdsOf .between (.range y.value z.value) x.value = true ↔
      FilterOp.gte.Compares x y ∧ FilterOp.lte.Compares x z := by
    rw [← holdsOf_one_iff hx .gte hy, ← holdsOf_one_iff hx .lte hz]
    exact Bool.and_eq_true_iff
  rw [hand]
  constructor
  · rintro ⟨h₁, h₂⟩
    exact ⟨low, high, y, z, rfl, hy, hz, h₁, h₂⟩
  · rintro ⟨low', high', y', z', hpair, hy', hz', h₁, h₂⟩
    simp only [Value.list.injEq, List.cons.injEq, and_true] at hpair
    obtain ⟨rfl, rfl⟩ := hpair
    rw [hy.unique hy', hz.unique hz']
    exact ⟨h₁, h₂⟩

variable {items ws : List Value} (hws : compileOperands kind op field items = .ok ws)
include hws

theorem holdsOf_isIn_iff :
    Comparison.holdsOf .isIn (.many ws) x.value = true ↔
      ∃ o ∈ items, ∃ w, Of kind o w ∧ x.Equal .caseSensitive w := by
  have hall := compileOperands_eq_ok hws
  simp only [Comparison.holdsOf, decide_eq_true_eq, Value.inList?_eq_true_iff]
  clear hws
  induction hall with
  | nil => simp
  | cons ho _ ih =>
    obtain ⟨y, hy, rfl⟩ := ho
    simp only [List.mem_cons, exists_eq_or_imp, ih, compareEq?_eq_true_iff hx hy]
    refine or_congr_left ⟨fun h => ⟨y, hy, h⟩, ?_⟩
    rintro ⟨z, hz, h⟩
    rwa [hy.unique hz]

theorem holdsOf_notIn_iff :
    Comparison.holdsOf .notIn (.many ws) x.value = true ↔
      (∃ o ∈ items, ∃ w, Of kind o w ∧ x.Differ .caseSensitive w) ∧
        ∀ o ∈ items, ∀ w, Of kind o w → ¬ x.Equal .caseSensitive w := by
  have hall := compileOperands_eq_ok hws
  simp only [Comparison.holdsOf, decide_eq_true_eq, Value.inList?_eq_false_iff]
  refine and_congr ?_ ?_
  · clear hws
    induction hall with
    | nil => simp
    | cons ho _ ih =>
      obtain ⟨y, hy, rfl⟩ := ho
      simp only [List.mem_cons, exists_eq_or_imp, ih, compareEq?_eq_false_iff hx hy]
      refine or_congr_left ⟨fun h => ⟨y, hy, h⟩, ?_⟩
      rintro ⟨z, hz, h⟩
      rwa [hy.unique hz]
  · have hin := holdsOf_isIn_iff hx hws
    simp only [Comparison.holdsOf, decide_eq_true_eq, Value.inList?_eq_true_iff] at hin
    have hnot := not_congr hin
    push Not at hnot
    exact hnot

end

theorem compileShape_single {o : Operand} (h₁ : op ≠ .isIn) (h₂ : op ≠ .notIn)
    (h₃ : op ≠ .between) (ho : compileShape kind op field operand = .ok o) :
    ∃ w, compileOperand kind op field operand = .ok w ∧ o = .one w := by
  have hshape : compileShape kind op field operand =
      (compileOperand kind op field operand).map .one := by
    cases op <;> first | rfl | contradiction
  obtain ⟨w, hw, rfl⟩ := Except.map_eq_ok_iff.mp (hshape.symm.trans ho)
  exact ⟨w, hw, rfl⟩

theorem compileShape_membership {o : Operand} (hop : op = .isIn ∨ op = .notIn)
    (ho : compileShape kind op field operand = .ok o) :
    ∃ ws, compileOperands kind op field operand.members = .ok ws ∧ o = .many ws := by
  have hshape : compileShape kind op field operand =
      (compileOperands kind op field operand.members).map .many := by
    rcases hop with rfl | rfl <;> cases operand <;> rfl
  obtain ⟨ws, hws, rfl⟩ := Except.map_eq_ok_iff.mp (hshape.symm.trans ho)
  exact ⟨ws, hws, rfl⟩

theorem compileShape_between {o : Operand}
    (ho : compileShape kind .between field operand = .ok o) :
    ∃ low high l h, operand = .list [low, high] ∧
      compileOperand kind .between field low = .ok l ∧
      compileOperand kind .between field high = .ok h ∧ o = .range l h := by
  simp only [compileShape] at ho
  split at ho
  · next low high =>
    unfold compileRange at ho
    cases hl : compileOperand kind .between field low with
    | error e => simp only [hl] at ho; cases ho
    | ok l =>
      cases hh : compileOperand kind .between field high with
      | error e => simp only [hl, hh] at ho; cases ho
      | ok h =>
        simp only [hl, hh] at ho
        split at ho
        · cases ho
        · exact ⟨low, high, l, h, rfl, hl, hh, (Except.ok.inj ho).symm⟩
  · cases ho

/-- A compiled operand, in the shape of its operator, means what the operand as written does. -/
theorem holdsOf_compileShape_iff {o : Operand} (hx : Of kind v x) (hop : op.isPresence = false)
    (ho : compileShape kind op field operand = .ok o) :
    Comparison.holdsOf op o x.value = true ↔ op.Satisfied kind x operand := by
  by_cases h₁ : op = .isIn
  · obtain ⟨ws, hws, rfl⟩ := compileShape_membership (.inl h₁) ho
    subst h₁
    exact holdsOf_isIn_iff hx hws
  by_cases h₂ : op = .notIn
  · obtain ⟨ws, hws, rfl⟩ := compileShape_membership (.inr h₂) ho
    subst h₂
    exact holdsOf_notIn_iff hx hws
  by_cases h₃ : op = .between
  · subst h₃
    obtain ⟨low, high, l, h, rfl, hl, hh, rfl⟩ := compileShape_between ho
    exact holdsOf_range_iff hx hl hh
  obtain ⟨w, hw, rfl⟩ := compileShape_single h₁ h₂ h₃ ho
  rw [holdsOf_single_iff hx hw]
  cases op <;> first | rfl | contradiction

end Datum

/-! ## Fields -/

theorem Value.absent_iff (field : Option Value) :
    Value.Absent field ↔ field.filter (fun v => !v.isAbsent) = none := by
  constructor
  · rintro (_ | _ | _) <;> rfl
  · intro h
    rcases field with _ | v
    · exact .missing
    · have hv : v.isAbsent = true := by
        cases ha : v.isAbsent <;> simp [Option.filter, ha] at h ⊢
      unfold Value.isAbsent at hv
      split at hv
      · exact .null
      · exact .empty
      · cases hv

/-- The kind of field that a path ending in an attribute has. -/
def FieldKind.ofAttribute (kind : AttributeKind) : FieldKind :=
  match kind.scalar? with
  | some s => .scalar s
  | none => .relation

theorem FieldKind.ofAttribute_eq_scalar {kind : AttributeKind} {s : ScalarKind}
    (h : FieldKind.ofAttribute kind = .scalar s) : kind = .scalar s := by
  cases kind <;> cases h
  rfl

namespace Comparison
variable {path : FieldPath} {op : FilterOp} {operand : Value} {kind : AttributeKind}
  {c : Comparison}

theorem comparisonKind_eq_ok {field : String} {k : FieldKind} {s : ScalarKind}
    (h : comparisonKind op field k = .ok s) : k = .scalar s := by
  unfold comparisonKind at h
  split at h
  · cases h
  · cases h
  · split at h
    · cases h
    · split at h
      · cases h
      · rw [Except.ok.inj h]

theorem holdsOfField_presence (hop : op.isPresence = true) (field : Option Value) (o : Operand) :
    (⟨path, op, o⟩ : Comparison).holdsOfField field = true ↔
      op.SatisfiedByField kind field operand := by
  have habsent := Value.absent_iff field
  cases op <;> first | contradiction | skip
  · change (field.filter fun v => !v.isAbsent).isNone = true ↔ Value.Absent field
    rw [habsent, Option.isNone_iff_eq_none]
  · change (field.filter fun v => !v.isAbsent).isSome = true ↔ ¬ Value.Absent field
    rw [habsent, Option.isSome_iff_ne_none]

theorem present_normalize? (field : Option Value) (s : ScalarKind) :
    ((field.filter fun v => !v.isAbsent).bind fun v => v.normalize? s) =
      field.bind fun v => v.normalize? s := by
  rcases field with _ | v
  · rfl
  · cases ha : v.isAbsent
    · simp [Option.filter, ha]
    · have hnone : v.normalize? s = none := by
        unfold Value.isAbsent at ha
        split at ha
        · cases s <;> rfl
        · cases s <;> rfl
        · cases ha
      simp [Option.filter, ha, hnone]

theorem holdsOfField_eq_any {s : ScalarKind} (hop : op.isPresence = false)
    (hpath : path.kind = .scalar s) (field : Option Value) (o : Operand) :
    (⟨path, op, o⟩ : Comparison).holdsOfField field =
      (field.bind fun v => v.normalize? s).any (holdsOf op o) := by
  rw [← present_normalize?]
  cases op <;> first | exact absurd hop (by decide) | simp only [holdsOfField, hpath]
  all_goals cases (field.filter fun v => !v.isAbsent).bind fun v => v.normalize? s <;> rfl

theorem holdsOfField_scalar {s : ScalarKind} (hop : op.isPresence = false)
    (hpath : path.kind = .scalar s) (field : Option Value) (o : Operand) :
    (⟨path, op, o⟩ : Comparison).holdsOfField field = true ↔
      ∃ v x, field = some v ∧ Datum.Of s v x ∧ holdsOf op o x.value = true := by
  rw [holdsOfField_eq_any hop hpath, Option.any_eq_true]
  constructor
  · rintro ⟨w, hw, h⟩
    obtain ⟨v, rfl, hv⟩ := Option.bind_eq_some_iff.mp hw
    obtain ⟨x, hx, rfl⟩ := Datum.of_normalize? hv
    exact ⟨v, x, rfl, hx, h⟩
  · rintro ⟨v, x, rfl, hx, h⟩
    exact ⟨x.value, Datum.normalize?_of hx, h⟩

theorem compileLeaf_eq_ok (hop : op.isPresence = false) (hc : compileLeaf path op operand = .ok c) :
    ∃ s o, path.kind = .scalar s ∧ compileShape s op path.dotted operand = .ok o ∧
      c = ⟨path, op, o⟩ := by
  unfold compileLeaf at hc
  rw [if_neg (by simp [hop])] at hc
  cases hs : comparisonKind op path.dotted path.kind with
  | error e => simp [hs] at hc
  | ok s =>
    simp only [hs] at hc
    obtain ⟨o, ho, rfl⟩ := Except.map_eq_ok_iff.mp hc
    exact ⟨s, o, comparisonKind_eq_ok hs, ho, rfl⟩

theorem compileLeaf_presence (hop : op.isPresence = true)
    (hc : compileLeaf path op operand = .ok c) : c = ⟨path, op, .none⟩ := by
  unfold compileLeaf at hc
  rw [if_pos hop] at hc
  exact (Except.ok.inj hc).symm

/-- A compiled leaf says of a field what the operator says with the operand as written. -/
theorem holdsOfField_compileLeaf_iff (hpath : path.kind = FieldKind.ofAttribute kind)
    (hc : compileLeaf path op operand = .ok c) (field : Option Value) :
    c.holdsOfField field = true ↔ op.SatisfiedByField kind field operand := by
  cases hop : op.isPresence with
  | true =>
    rw [compileLeaf_presence hop hc]
    exact holdsOfField_presence hop field .none
  | false =>
    obtain ⟨s, o, hscalar, ho, rfl⟩ := compileLeaf_eq_ok hop hc
    have hkind := FieldKind.ofAttribute_eq_scalar (hpath.symm.trans hscalar)
    have hsat : op.SatisfiedByField kind field operand ↔
        ∃ s v x, kind = .scalar s ∧ field = some v ∧ Datum.Of s v x ∧
          op.Satisfied s x operand := by
      cases op <;> first | exact absurd hop (by decide) | rfl
    rw [holdsOfField_scalar hop hscalar, hsat]
    constructor
    · rintro ⟨v, x, hv, hx, h⟩
      exact ⟨s, v, x, hkind, hv, hx, (Datum.holdsOf_compileShape_iff hx hop ho).mp h⟩
    · rintro ⟨s', v, x, hs', hv, hx, h⟩
      obtain rfl := AttributeKind.scalar.inj (hkind.symm.trans hs')
      exact ⟨v, x, hv, hx, (Datum.holdsOf_compileShape_iff hx hop ho).mpr h⟩

end Comparison

end ContentEngine
