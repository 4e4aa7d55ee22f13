import ContentEngine.Proofs.Filter.Meaning
import ContentEngine.Proofs.Instant.Range

/-!
# Comparing within a family

Compilation and evaluation bring values into the family of a kind by `Value.normalize?`, where an
instant becomes its milliseconds as a word. `Datum.value` is that form of a datum. On two data of
one kind the comparisons of normalised values say what `Ordered`, `Equal`, `Differ` and `Texts` say.
-/

namespace ContentEngine

namespace Datum

def value : Datum → Value
  | .text s => .text s
  | .number (.int i) => .int i
  | .number (.float x) => .float x
  | .flag b => .bool b
  | .instant millis => .int (Int64.ofInt millis)

variable {kind : ScalarKind} {v u w : Value} {x y : Datum}

theorem normalize?_of (h : Of kind v x) : v.normalize? kind = some x.value := by
  cases h with
  | text s => rfl
  | int _ hk i => cases kind <;> first | rfl | exact absurd hk (by decide)
  | float _ hk x => cases kind <;> first | rfl | exact absurd hk (by decide)
  | flag b => rfl
  | instant s millis h => simp [Value.normalize?, h, value]

theorem of_normalize? (h : v.normalize? kind = some w) : ∃ x, Of kind v x ∧ x.value = w := by
  cases kind <;> cases v <;> simp only [Value.normalize?, Option.some.injEq, reduceCtorEq] at h
  case text.text s => exact ⟨_, .text s, h⟩
  case integer.int i => exact ⟨_, .int _ rfl i, h⟩
  case integer.float x => exact ⟨_, .float _ rfl x, h⟩
  case float.int i => exact ⟨_, .int _ rfl i, h⟩
  case float.float x => exact ⟨_, .float _ rfl x, h⟩
  case boolean.bool b => exact ⟨_, .flag b, h⟩
  case datetime.text s =>
    obtain ⟨n, hn, rfl⟩ := Option.map_eq_some_iff.mp h
    exact ⟨_, .instant s n hn, rfl⟩

theorem normalize?_eq_some_iff : v.normalize? kind = some w ↔ ∃ x, Of kind v x ∧ x.value = w := by
  refine ⟨of_normalize?, ?_⟩
  rintro ⟨x, hx, rfl⟩
  exact normalize?_of hx

/-- A value says one thing at most. -/
theorem Of.unique (hx : Of kind v x) (hy : Of kind v y) : x = y := by
  cases hx with
  | text s => cases hy; rfl
  | int _ hk i => cases hy; rfl
  | float _ hk x => cases hy; rfl
  | flag b => cases hy; rfl
  | instant s millis h =>
    cases hy with
    | instant _ n hn => rw [Option.some.inj (h.symm.trans hn)]

/-- Two data of one kind have one form; instants are in the range of their words. -/
theorem of_same_kind (hx : Of kind v x) (hy : Of kind u y) :
    (∃ a b, x = .text a ∧ y = .text b) ∨ (∃ a b, x = .number a ∧ y = .number b) ∨
      (∃ a b, x = .flag a ∧ y = .flag b) ∨
      ∃ a b, x = .instant a ∧ y = .instant b ∧ (Int64.ofInt a).toInt = a ∧
        (Int64.ofInt b).toInt = b := by
  cases hx with
  | text s =>
    cases hy with
    | text s' => exact .inl ⟨_, _, rfl, rfl⟩
    | int _ hk => exact absurd hk (by decide)
    | float _ hk => exact absurd hk (by decide)
  | int _ hk i =>
    cases hy with
    | int | float => exact .inr (.inl ⟨_, _, rfl, rfl⟩)
    | text | flag | instant => exact absurd hk (by decide)
  | float _ hk i =>
    cases hy with
    | int | float => exact .inr (.inl ⟨_, _, rfl, rfl⟩)
    | text | flag | instant => exact absurd hk (by decide)
  | flag b =>
    cases hy with
    | flag b' => exact .inr (.inr (.inl ⟨_, _, rfl, rfl⟩))
    | int _ hk => exact absurd hk (by decide)
    | float _ hk => exact absurd hk (by decide)
  | instant s millis h =>
    cases hy with
    | instant s' millis' h' =>
      exact .inr (.inr (.inr ⟨_, _, rfl, rfl, Instant.toInt_ofInt_millis h,
        Instant.toInt_ofInt_millis h'⟩))
    | int _ hk => exact absurd hk (by decide)
    | float _ hk => exact absurd hk (by decide)

/-! ## Comparisons -/

section
variable (mode : Value.TextMode)

theorem compareOrder?_number (a b : Number) :
    (value (.number a)).compareOrder? (value (.number b)) = a.compare? b := by
  cases a <;> cases b <;> rfl

theorem compareEq?_number (a b : Number) :
    (value (.number a)).compareEq? mode (value (.number b)) =
      (a.compare? b).map fun o => decide (o = .eq) := by
  cases a <;> cases b <;> rfl

theorem compareEq?_text (a b : String) :
    (value (.text a)).compareEq? mode (value (.text b)) =
      some (decide (mode.apply a = mode.apply b)) := rfl

theorem compareEq?_flag (a b : Bool) :
    (value (.flag a)).compareEq? mode (value (.flag b)) = some (decide (a = b)) := rfl

variable {a b : Int} (ha : (Int64.ofInt a).toInt = a) (hb : (Int64.ofInt b).toInt = b)
include ha hb

theorem compareOrder?_instant :
    (value (.instant a)).compareOrder? (value (.instant b)) = some (compare a b) := by
  simp [value, Value.compareOrder?, Value.compareNumeric?, ha, hb]

theorem compareEq?_instant :
    (value (.instant a)).compareEq? mode (value (.instant b)) = some (decide (a = b)) := by
  simp [value, Value.compareEq?, Value.compareNumeric?, ha, hb]

end

section
variable (hx : Of kind v x) (hy : Of kind u y)
include hx hy

theorem compareOrder?_eq_some_iff (o : Ordering) :
    x.value.compareOrder? y.value = some o ↔ x.Ordered y o := by
  rcases of_same_kind hx hy with ⟨a, b, rfl, rfl⟩ | ⟨a, b, rfl, rfl⟩ | ⟨a, b, rfl, rfl⟩ |
    ⟨a, b, rfl, rfl, ha, hb⟩
  · constructor
    · intro h
      obtain rfl := Option.some.inj h
      exact .text a b
    · rintro ⟨⟩
      rfl
  · rw [compareOrder?_number]
    exact ⟨.number a b o, fun h => by cases h; assumption⟩
  · constructor
    · intro h
      cases h
    · intro h
      cases h
  · rw [compareOrder?_instant ha hb]
    constructor
    · intro h
      obtain rfl := Option.some.inj h
      exact .instant a b
    · rintro ⟨⟩
      rfl

theorem compareEq?_eq_true_iff (mode : Value.TextMode) :
    x.value.compareEq? mode y.value = some true ↔ x.Equal mode y := by
  rcases of_same_kind hx hy with ⟨a, b, rfl, rfl⟩ | ⟨a, b, rfl, rfl⟩ | ⟨a, b, rfl, rfl⟩ |
    ⟨a, b, rfl, rfl, ha, hb⟩
  · rw [compareEq?_text, Option.some.injEq, decide_eq_true_eq]
    exact ⟨.text a b, fun h => by cases h; assumption⟩
  · rw [compareEq?_number]
    constructor
    · intro h
      obtain ⟨o, ho, he⟩ := Option.map_eq_some_iff.mp h
      obtain rfl := of_decide_eq_true he
      exact .number a b ho
    · rintro ⟨⟩
      next h => simp [h]
  · rw [compareEq?_flag, Option.some.injEq, decide_eq_true_eq]
    exact ⟨fun h => h ▸ .flag a, fun h => by cases h; rfl⟩
  · rw [compareEq?_instant mode ha hb, Option.some.injEq, decide_eq_true_eq]
    exact ⟨fun h => h ▸ .instant a, fun h => by cases h; rfl⟩

theorem compareEq?_eq_false_iff (mode : Value.TextMode) :
    x.value.compareEq? mode y.value = some false ↔ x.Differ mode y := by
  rcases of_same_kind hx hy with ⟨a, b, rfl, rfl⟩ | ⟨a, b, rfl, rfl⟩ | ⟨a, b, rfl, rfl⟩ |
    ⟨a, b, rfl, rfl, ha, hb⟩
  · rw [compareEq?_text, Option.some.injEq, decide_eq_false_iff_not]
    exact ⟨.text a b, fun h => by cases h; assumption⟩
  · rw [compareEq?_number]
    constructor
    · intro h
      obtain ⟨o, ho, he⟩ := Option.map_eq_some_iff.mp h
      exact .number a b o ho (of_decide_eq_false he)
    · rintro ⟨⟩
      next o h ho => simp [h, ho]
  · rw [compareEq?_flag, Option.some.injEq, decide_eq_false_iff_not]
    exact ⟨.flag a b, fun h => by cases h; assumption⟩
  · rw [compareEq?_instant mode ha hb, Option.some.injEq, decide_eq_false_iff_not]
    exact ⟨.instant a b, fun h => by cases h; assumption⟩

end

/-- A test of texts answers by its relation, and has no answer on other data. -/
theorem textTest?_eq_some_iff {test : Value.TextTest} {rel : List Char → List Char → Prop}
    (hrel : ∀ a b : String, test.holds a b = true ↔ rel b.toList a.toList)
    (mode : Value.TextMode) (x y : Datum) (expected : Bool) :
    Value.textTest? test mode x.value y.value = some expected ↔
      x.Texts mode (fun l m => rel l m ↔ expected = true) y := by
  constructor
  · intro h
    cases x with
    | text a =>
      cases y with
      | text b =>
        obtain rfl := Option.some.inj h
        exact .intro a b (hrel _ _).symm
      | number n => cases n <;> cases h
      | flag | instant => cases h
    | number n => cases n <;> cases h
    | flag | instant => cases h
  · rintro ⟨a, b, hab⟩
    have : test.holds (mode.apply a) (mode.apply b) = expected :=
      Bool.eq_iff_iff.mpr ((hrel _ _).trans hab)
    simp [value, Value.textTest?, this]

theorem textTest?_eq_true_iff {test : Value.TextTest} {rel : List Char → List Char → Prop}
    (hrel : ∀ a b : String, test.holds a b = true ↔ rel b.toList a.toList)
    (mode : Value.TextMode) (x y : Datum) :
    Value.textTest? test mode x.value y.value = some true ↔ x.Texts mode rel y := by
  simpa only [iff_true] using textTest?_eq_some_iff hrel mode x y true

theorem textTest?_eq_false_iff {test : Value.TextTest} {rel : List Char → List Char → Prop}
    (hrel : ∀ a b : String, test.holds a b = true ↔ rel b.toList a.toList)
    (mode : Value.TextMode) (x y : Datum) :
    Value.textTest? test mode x.value y.value = some false ↔ x.Texts mode (¬ rel · ·) y := by
  simpa only [Bool.false_eq_true, iff_false] using textTest?_eq_some_iff hrel mode x y false

theorem contains_holds (a b : String) :
    Value.TextTest.contains.holds a b = true ↔ b.toList <:+: a.toList := Text.infixOf_iff

theorem startsWith_holds (a b : String) :
    Value.TextTest.startsWith.holds a b = true ↔ b.toList <+: a.toList :=
  List.isPrefixOf_iff_prefix

theorem endsWith_holds (a b : String) :
    Value.TextTest.endsWith.holds a b = true ↔ b.toList <:+ a.toList :=
  List.isSuffixOf_iff_suffix

end Datum
end ContentEngine
