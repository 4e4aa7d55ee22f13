import ContentEngine.Proofs.Filter.Typing
import ContentEngine.Proofs.Text.Split
import ContentEngine.Proofs.Value.Order
import ContentEngine.Sample.Blog

/-!
# Operators that agree

On a field of the document itself, the operators of filters are connected: membership is equality
with some member, a range is two bounds, a bound with its end is the bound without it or equality,
and an operator and its opposite decide every value of the family of the field, and no other.
`operators_agree` states these laws for the compilation of leaves and for what compiled leaves hold
of.

A NaN neither equals a number nor differs from it, so the laws about negative operators leave it
out.
-/

namespace ContentEngine

def Value.IsNaN (v : Value) : Prop := ∃ x, v = .float x ∧ x.isNaN = true

/-! ## Data of one kind -/

namespace Datum
variable {kind : ScalarKind} {v u : Value} {x y : Datum} {mode : Value.TextMode}

theorem Of.isNaN {n : Number} (h : Of kind v (.number n)) (hv : ¬ v.IsNaN) : n.isNaN = false := by
  cases h with
  | int => rfl
  | float _ _ x =>
    rw [← Bool.not_eq_true]
    exact fun hx => hv ⟨x, rfl, hx⟩

theorem ordered_text_iff {a b : String} {o : Ordering} :
    Ordered (.text a) (.text b) o ↔ compare a b = o := by
  constructor
  · rintro ⟨⟩
    rfl
  · rintro rfl
    exact .text a b

theorem ordered_number_iff {a b : Number} {o : Ordering} :
    Ordered (.number a) (.number b) o ↔ a.compare? b = some o := by
  constructor
  · rintro ⟨⟩
    assumption
  · exact .number a b o

theorem ordered_instant_iff {a b : Int} {o : Ordering} :
    Ordered (.instant a) (.instant b) o ↔ compare a b = o := by
  constructor
  · rintro ⟨⟩
    rfl
  · rintro rfl
    exact .instant a b

theorem Ordered.unique {o o' : Ordering} (h : x.Ordered y o) (h' : x.Ordered y o') : o = o' := by
  cases h with
  | text => exact ordered_text_iff.1 h'
  | number a b o h => exact Option.some.inj (h.symm.trans (ordered_number_iff.1 h'))
  | instant => exact ordered_instant_iff.1 h'

section
variable (hx : Of kind v x) (hy : Of kind u y)
include hx hy

/-- Apart from booleans, the order has equality. -/
theorem ordered_eq_iff (hkind : kind ≠ .boolean) :
    x.Ordered y .eq ↔ x.Equal .caseSensitive y := by
  rcases of_same_kind hx hy with ⟨a, b, rfl, rfl⟩ | ⟨a, b, rfl, rfl⟩ | ⟨a, b, rfl, rfl⟩ |
    ⟨a, b, rfl, rfl, -⟩
  · rw [ordered_text_iff, Std.compare_eq_iff_eq]
    constructor
    · exact fun h => .text a b h
    · rintro ⟨_, _, h⟩
      exact h
  · rw [ordered_number_iff]
    constructor
    · exact .number a b
    · rintro ⟨⟩
      assumption
  · cases hx with
    | flag => exact absurd rfl hkind
  · rw [ordered_instant_iff, Int.compare_eq_eq]
    constructor
    · rintro rfl
      exact .instant a
    · rintro ⟨⟩
      rfl

variable (hv : ¬ v.IsNaN) (hu : ¬ u.IsNaN)
include hv hu

theorem exists_ordered (hkind : kind ≠ .boolean) : ∃ o, x.Ordered y o := by
  rcases of_same_kind hx hy with ⟨a, b, rfl, rfl⟩ | ⟨a, b, rfl, rfl⟩ | ⟨a, b, rfl, rfl⟩ |
    ⟨a, b, rfl, rfl, -⟩
  · exact ⟨_, .text a b⟩
  · obtain ⟨o, h⟩ := Number.exists_compare? (hx.isNaN hv) (hy.isNaN hu)
    exact ⟨o, .number a b o h⟩
  · cases hx with
    | flag => exact absurd rfl hkind
  · exact ⟨_, .instant a b⟩

theorem differ_iff : x.Differ mode y ↔ ¬ x.Equal mode y := by
  rcases of_same_kind hx hy with ⟨a, b, rfl, rfl⟩ | ⟨a, b, rfl, rfl⟩ | ⟨a, b, rfl, rfl⟩ |
    ⟨a, b, rfl, rfl, -⟩
  · constructor
    · rintro ⟨_, _, h⟩ ⟨_, _, h'⟩
      exact h h'
    · exact fun h => .text a b fun hab => h (.text a b hab)
  · obtain ⟨o, ho⟩ := Number.exists_compare? (hx.isNaN hv) (hy.isNaN hu)
    constructor
    · intro hdiffer hequal
      cases hdiffer with
      | number _ _ o h hne =>
        cases hequal with
        | number _ _ heq => exact hne (Option.some.inj (h.symm.trans heq))
    · exact fun h => .number a b o ho fun heq => h (.number a b (heq ▸ ho))
  · constructor
    · rintro hdiffer ⟨⟩
      cases hdiffer with
      | flag _ _ h => exact h rfl
    · exact fun h => .flag a b fun hab => h (hab ▸ .flag a)
  · constructor
    · rintro hdiffer ⟨⟩
      cases hdiffer with
      | instant _ _ h => exact h rfl
    · exact fun h => .instant a b fun hab => h (hab ▸ .instant a)

theorem ordered_ge_iff (hkind : kind ≠ .boolean) :
    x.Ordered y .gt ∨ x.Ordered y .eq ↔ ¬ x.Ordered y .lt := by
  obtain ⟨o, ho⟩ := exists_ordered hx hy hv hu hkind
  constructor
  · rintro (h | h) hlt
    · cases h.unique hlt
    · cases h.unique hlt
  · intro hlt
    cases o with
    | lt => exact absurd ho hlt
    | eq => exact .inr ho
    | gt => exact .inl ho

end

theorem texts_not_iff {rel : List Char → List Char → Prop} (hx : Of .text v x) (hy : Of .text u y) :
    x.Texts mode (¬ rel · ·) y ↔ ¬ x.Texts mode rel y := by
  cases hx with
  | int _ hk => cases hk
  | float _ hk => cases hk
  | text a =>
    cases hy with
    | int _ hk => cases hk
    | float _ hk => cases hk
    | text b =>
      constructor
      · rintro ⟨_, _, h⟩ ⟨_, _, h'⟩
        exact h h'
      · exact fun h => .intro a b fun hab => h (.intro a b hab)

end Datum

/-! ## Opposites -/

namespace FilterOp

/-- Pairs of an operator and its negation. -/
def opposites : List (FilterOp × FilterOp) := [(.eq, .ne), (.eqi, .nei), (.contains, .notContains),
  (.containsi, .notContainsi), (.lt, .gte)]

variable {p q : FilterOp} {kind : ScalarKind} {operand v : Value} {x y : Datum}

theorem Suits.of_alike (h : p.Suits kind) (htext : p.isTextOnly = q.isTextOnly)
    (hordering : p.isOrdering = q.isOrdering) : q.Suits kind :=
  ⟨h.comparable, htext ▸ h.text, hordering ▸ h.ordered⟩

theorem Suits.ne_boolean (h : p.Suits kind) (hp : p.isOrdering = true) : kind ≠ .boolean := by
  rintro rfl
  simpa using h.ordered hp

theorem compares_opposite (h : (p, q) ∈ opposites) (hsuits : p.Suits kind)
    (hx : Datum.Of kind v x) (hy : Datum.Of kind operand y) (hv : ¬ v.IsNaN)
    (ho : ¬ operand.IsNaN) : q.Compares x y ↔ ¬ p.Compares x y := by
  simp only [opposites, List.mem_cons, Prod.mk.injEq, List.not_mem_nil, or_false] at h
  rcases h with ⟨rfl, rfl⟩ | ⟨rfl, rfl⟩ | ⟨rfl, rfl⟩ | ⟨rfl, rfl⟩ | ⟨rfl, rfl⟩
  case inl => exact Datum.differ_iff hx hy hv ho
  case inr.inl => exact Datum.differ_iff hx hy hv ho
  case inr.inr.inr.inr => exact Datum.ordered_ge_iff hx hy hv ho (hsuits.ne_boolean rfl)
  all_goals
    obtain rfl := hsuits.text rfl
    exact Datum.texts_not_iff hx hy

/-- A bound with its end and without it. -/
def bounds : List (FilterOp × FilterOp) := [(.lte, .lt), (.gte, .gt)]

theorem compares_bound (h : (p, q) ∈ bounds) (hkind : kind ≠ .boolean)
    (hx : Datum.Of kind v x) (hy : Datum.Of kind operand y) :
    p.Compares x y ↔ q.Compares x y ∨ FilterOp.eq.Compares x y := by
  simp only [bounds, List.mem_cons, Prod.mk.injEq, List.not_mem_nil, or_false] at h
  rcases h with ⟨rfl, rfl⟩ | ⟨rfl, rfl⟩
  · exact or_congr_right (Datum.ordered_eq_iff hx hy hkind)
  · exact or_congr_right (Datum.ordered_eq_iff hx hy hkind)

/-- The operators with a single operand that they compare with. -/
def IsSingle (op : FilterOp) : Prop :=
  op.isPresence = false ∧ op ≠ .isIn ∧ op ≠ .notIn ∧ op ≠ .between

instance (op : FilterOp) : Decidable op.IsSingle := inferInstanceAs (Decidable (_ ∧ _))

theorem takes_iff (hp : p.IsSingle) : p.Takes kind operand ↔ ∃ y, Datum.Of kind operand y := by
  obtain ⟨hpresence, hin, hnotIn, hbetween⟩ := hp
  cases p <;> first | exact Iff.rfl | contradiction

theorem satisfied_iff (hp : p.IsSingle) :
    p.Satisfied kind x operand ↔ ∃ y, Datum.Of kind operand y ∧ p.Compares x y := by
  obtain ⟨hpresence, hin, hnotIn, hbetween⟩ := hp
  cases p <;> first | exact Iff.rfl | contradiction

theorem satisfiedByField_iff {declared : AttributeKind} {field : Option Value}
    (hp : p.isPresence = false) :
    p.SatisfiedByField declared field operand ↔ ∃ s v x, declared = .scalar s ∧
      field = some v ∧ Datum.Of s v x ∧ p.Satisfied s x operand := by
  cases p <;> first | exact Iff.rfl | cases hp

/-- Two operators that suit the same kinds and take the same operands. -/
structure Alike (p q : FilterOp) : Prop where
  left : p.IsSingle
  right : q.IsSingle
  text : p.isTextOnly = q.isTextOnly
  ordering : p.isOrdering = q.isOrdering

theorem alike_of_opposites (h : (p, q) ∈ opposites) : p.Alike q := by
  simp only [opposites, List.mem_cons, Prod.mk.injEq, List.not_mem_nil, or_false] at h
  rcases h with ⟨rfl, rfl⟩ | ⟨rfl, rfl⟩ | ⟨rfl, rfl⟩ | ⟨rfl, rfl⟩ | ⟨rfl, rfl⟩ <;>
    exact ⟨by decide, by decide, rfl, rfl⟩

theorem alike_of_bounds (h : (p, q) ∈ bounds) : p.Alike q ∧ p.isOrdering = true := by
  simp only [bounds, List.mem_cons, Prod.mk.injEq, List.not_mem_nil, or_false] at h
  rcases h with ⟨rfl, rfl⟩ | ⟨rfl, rfl⟩ <;> exact ⟨⟨by decide, by decide, rfl, rfl⟩, rfl⟩

end FilterOp

/-! ## Leaves on a field of the document -/

theorem eq_nil_of_singleton {segments : List String} {s s' : String}
    (h : [s] = segments ++ [s']) : segments = [] ∧ s' = s := by
  cases segments with
  | nil => simpa using h.symm
  | cons segment segments => simp at h

namespace Filter

section
variable (r : Registry) (t : DocumentType) (lookup : Lookup) (d : Document) (field : String)

def LeafCompiles (op : FilterOp) (operand : Value) : Prop :=
  ∃ p, (Filter.leaf field op operand).compile r t = .ok p

/-- The leaf is compiled to a predicate that holds of the document. -/
def LeafMatches (op : FilterOp) (operand : Value) : Prop :=
  ∃ p, (Filter.leaf field op operand).compile r t = .ok p ∧ p.holds lookup d = true

variable {r t lookup d field} in
theorem LeafMatches.compiles {op : FilterOp} {operand : Value}
    (h : LeafMatches r t lookup d field op operand) : LeafCompiles r t field op operand :=
  h.imp fun _ h => h.1

/-- The document has a value under the field that is in the family of the kind. -/
def HasDatum (kind : ScalarKind) : Prop := ∃ v x, d.value? field = some v ∧ Datum.Of kind v x

/-- The laws between the operators on a field of a kind. -/
structure OperatorsAgree (kind : ScalarKind) : Prop where
  isIn (operand : Value) :
    (LeafCompiles r t field .isIn operand ↔
      ∀ o ∈ operand.members, LeafCompiles r t field .eq o) ∧
    (LeafCompiles r t field .isIn operand →
      (LeafMatches r t lookup d field .isIn operand ↔
        ∃ o ∈ operand.members, LeafMatches r t lookup d field .eq o))
  notIn (operand : Value) (hnan : ∀ o ∈ operand.members, ¬ o.IsNaN) :
    (LeafCompiles r t field .notIn operand ↔
      ∀ o ∈ operand.members, LeafCompiles r t field .ne o) ∧
    (LeafCompiles r t field .notIn operand →
      (LeafMatches r t lookup d field .notIn operand ↔
        ∀ o ∈ operand.members, LeafMatches r t lookup d field .ne o))
  between (low high : Value) :
    (LeafCompiles r t field .between (.list [low, high]) ↔
      LeafCompiles r t field .gte low ∧ LeafCompiles r t field .lte high ∧
        ¬ ∃ x y, Datum.Of kind low x ∧ Datum.Of kind high y ∧ x.Ordered y .gt) ∧
    (LeafCompiles r t field .between (.list [low, high]) →
      (LeafMatches r t lookup d field .between (.list [low, high]) ↔
        LeafMatches r t lookup d field .gte low ∧ LeafMatches r t lookup d field .lte high))
  lte (operand : Value) (h : LeafCompiles r t field .lte operand) :
    LeafCompiles r t field .lt operand ∧ LeafCompiles r t field .eq operand ∧
      (LeafMatches r t lookup d field .lte operand ↔
        LeafMatches r t lookup d field .lt operand ∨ LeafMatches r t lookup d field .eq operand)
  gte (operand : Value) (h : LeafCompiles r t field .gte operand) :
    LeafCompiles r t field .gt operand ∧ LeafCompiles r t field .eq operand ∧
      (LeafMatches r t lookup d field .gte operand ↔
        LeafMatches r t lookup d field .gt operand ∨ LeafMatches r t lookup d field .eq operand)
  opposites (p q : FilterOp) (h : (p, q) ∈ FilterOp.opposites) (operand : Value)
    (hnan : ¬ operand.IsNaN) :
    (LeafCompiles r t field p operand ↔ LeafCompiles r t field q operand) ∧
    (LeafCompiles r t field p operand →
      ¬ (LeafMatches r t lookup d field p operand ∧ LeafMatches r t lookup d field q operand) ∧
        (LeafMatches r t lookup d field p operand ∨ LeafMatches r t lookup d field q operand ↔
          HasDatum d field kind))

end

section
variable {r : Registry} {t : DocumentType} {lookup : Lookup} {d : Document} {field : String}
  {a : AttributeDefinition} {kind : ScalarKind} {op : FilterOp} {operand : Value}
variable (hdot : '.' ∉ field.toList) (ha : t.attr? field = some a) (hkind : a.kind = .scalar kind)
include hdot ha hkind

theorem leafCompiles_iff (hop : op.isPresence = false) :
    LeafCompiles r t field op operand ↔ op.Suits kind ∧ op.Takes kind operand := by
  rw [LeafCompiles, exists_compile_leaf_iff, LeafTyped, Text.split_of_notMem hdot]
  constructor
  · rintro ⟨ss, field', u, a', hss, hreaches, ha', htyped⟩
    obtain ⟨rfl, rfl⟩ := eq_nil_of_singleton hss
    cases hreaches
    obtain rfl := Option.some.inj (ha.symm.trans ha')
    rcases htyped with hpresence | ⟨kind', hkind', htyped⟩
    · exact absurd hpresence (by simp [hop])
    · obtain rfl := AttributeKind.scalar.inj (hkind.symm.trans hkind')
      exact htyped
  · rintro ⟨hsuits, htakes⟩
    exact ⟨[], field, t, a, rfl, .here t, ha, .inr ⟨kind, hkind, hsuits, htakes⟩⟩

theorem leafSelects_iff (hop : op.isPresence = false) :
    LeafSelects r lookup t d field op operand ↔ op = .notIn ∧ operand = .list [] ∨
      ∃ v x, d.value? field = some v ∧ Datum.Of kind v x ∧ op.Satisfied kind x operand := by
  rw [LeafSelects, Text.split_of_notMem hdot]
  refine or_congr_right ?_
  have hfield : op.SatisfiedByField a.kind (d.value? field) operand ↔
      ∃ v x, d.value? field = some v ∧ Datum.Of kind v x ∧ op.Satisfied kind x operand := by
    rw [FilterOp.satisfiedByField_iff hop]
    constructor
    · rintro ⟨s, v, x, hs, hv, hx, h⟩
      obtain rfl := AttributeKind.scalar.inj (hkind.symm.trans hs)
      exact ⟨v, x, hv, hx, h⟩
    · rintro ⟨v, x, hv, hx, h⟩
      exact ⟨kind, v, x, hkind, hv, hx, h⟩
  rw [← hfield]
  constructor
  · rintro ⟨ss, field', u, e, a', hss, hchain, ha', h⟩
    obtain ⟨rfl, rfl⟩ := eq_nil_of_singleton hss
    cases hchain
    obtain rfl := Option.some.inj (ha.symm.trans ha')
    exact h
  · exact fun h => ⟨[], field, t, d, a, rfl, .here t d, ha, h⟩

theorem leafMatches_iff (hop : op.isPresence = false) :
    LeafMatches r t lookup d field op operand ↔ LeafCompiles r t field op operand ∧
      (op = .notIn ∧ operand = .list [] ∨
        ∃ v x, d.value? field = some v ∧ Datum.Of kind v x ∧ op.Satisfied kind x operand) := by
  rw [← leafSelects_iff hdot ha hkind hop]
  constructor
  · rintro ⟨p, hp, h⟩
    exact ⟨⟨p, hp⟩, (holds_iff_of_compile lookup d _ p hp).1 h⟩
  · rintro ⟨⟨p, hp⟩, h⟩
    exact ⟨p, hp, (holds_iff_of_compile lookup d _ p hp).2 h⟩

theorem leafMatches_single_iff (hop : op.IsSingle) :
    LeafMatches r t lookup d field op operand ↔ LeafCompiles r t field op operand ∧
      ∃ v x y, d.value? field = some v ∧ Datum.Of kind v x ∧ Datum.Of kind operand y ∧
        op.Compares x y := by
  simp only [leafMatches_iff hdot ha hkind hop.1, FilterOp.satisfied_iff hop, hop.2.2.1, false_and,
    false_or, exists_and_left]

theorem leafCompiles_single_iff (hop : op.IsSingle) :
    LeafCompiles r t field op operand ↔ op.Suits kind ∧ ∃ y, Datum.Of kind operand y := by
  rw [leafCompiles_iff hdot ha hkind hop.1, FilterOp.takes_iff hop]

/-- A membership operator compiles if an operator for all kinds does with every member. -/
theorem leafCompiles_membership_iff (hjson : kind ≠ .json) (hop : op = .isIn ∨ op = .notIn)
    (single : FilterOp) (hsingle : single.IsSingle)
    (htext : single.isTextOnly = false) (hordering : single.isOrdering = false) :
    LeafCompiles r t field op operand ↔
      ∀ o ∈ operand.members, LeafCompiles r t field single o := by
  have hsuits {op : FilterOp} (htext : op.isTextOnly = false) (hordering : op.isOrdering = false) :
      op.Suits kind := ⟨hjson, by simp [htext], by simp [hordering]⟩
  have hmembers : LeafCompiles r t field op operand ↔
      ∀ o ∈ operand.members, ∃ x, Datum.Of kind o x := by
    rcases hop with rfl | rfl <;>
      exact (leafCompiles_iff hdot ha hkind rfl).trans (and_iff_right (hsuits rfl rfl))
  rw [hmembers]
  refine forall₂_congr fun o _ => ?_
  rw [leafCompiles_single_iff hdot ha hkind hsingle, and_iff_right (hsuits htext hordering)]

theorem leafMatches_isIn_iff (h : LeafCompiles r t field .isIn operand)
    (hmembers : ∀ o ∈ operand.members, LeafCompiles r t field .eq o) :
    LeafMatches r t lookup d field .isIn operand ↔
      ∃ o ∈ operand.members, LeafMatches r t lookup d field .eq o := by
  rw [leafMatches_iff hdot ha hkind rfl]
  constructor
  · rintro ⟨-, ⟨hop, -⟩ | ⟨v, x, hv, hx, o, ho, y, hy, hequal⟩⟩
    · cases hop
    · exact ⟨o, ho, (leafMatches_single_iff hdot ha hkind (by decide)).2
        ⟨hmembers o ho, v, x, y, hv, hx, hy, hequal⟩⟩
  · rintro ⟨o, ho, hmatches⟩
    obtain ⟨-, v, x, y, hv, hx, hy, hequal⟩ :=
      (leafMatches_single_iff hdot ha hkind (by decide)).1 hmatches
    exact ⟨h, .inr ⟨v, x, hv, hx, o, ho, y, hy, hequal⟩⟩

theorem leafMatches_notIn_iff (h : LeafCompiles r t field .notIn operand)
    (hmembers : ∀ o ∈ operand.members, LeafCompiles r t field .ne o)
    (hstored : ∀ v, d.value? field = some v → ¬ v.IsNaN)
    (hnan : ∀ o ∈ operand.members, ¬ o.IsNaN) :
    LeafMatches r t lookup d field .notIn operand ↔
      ∀ o ∈ operand.members, LeafMatches r t lookup d field .ne o := by
  rw [leafMatches_iff hdot ha hkind rfl]
  constructor
  · rintro ⟨-, ⟨-, rfl⟩ | ⟨v, x, hv, hx, -, hne⟩⟩ o ho
    · cases ho
    · obtain ⟨-, y, hy⟩ := (leafCompiles_single_iff hdot ha hkind (by decide)).1 (hmembers o ho)
      refine (leafMatches_single_iff hdot ha hkind (by decide)).2
        ⟨hmembers o ho, v, x, y, hv, hx, hy, ?_⟩
      exact (Datum.differ_iff hx hy (hstored v hv) (hnan o ho)).2 (hne o ho y hy)
  · intro hall
    refine ⟨h, ?_⟩
    by_cases hempty : operand.members = []
    · refine .inl ⟨rfl, ?_⟩
      cases operand <;> simp_all [Value.members]
    · -- The stored value is that of the first member; the other members find the same.
      obtain ⟨o, ho⟩ := List.exists_mem_of_ne_nil _ hempty
      obtain ⟨-, v, x, y, hv, hx, hy, hdiffer⟩ :=
        (leafMatches_single_iff hdot ha hkind (by decide)).1 (hall o ho)
      refine .inr ⟨v, x, hv, hx, ⟨o, ho, y, hy, hdiffer⟩, fun o' ho' y' hy' => ?_⟩
      obtain ⟨-, v', x', z, hv', hx', hz, hdiffer'⟩ :=
        (leafMatches_single_iff hdot ha hkind (by decide)).1 (hall o' ho')
      obtain rfl := Option.some.inj (hv.symm.trans hv')
      obtain rfl := hx.unique hx'
      obtain rfl := hz.unique hy'
      exact (Datum.differ_iff hx hz (hstored v hv) (hnan o' ho')).1 hdiffer'

theorem leafCompiles_between_iff {low high : Value} :
    LeafCompiles r t field .between (.list [low, high]) ↔
      LeafCompiles r t field .gte low ∧ LeafCompiles r t field .lte high ∧
        ¬ ∃ x y, Datum.Of kind low x ∧ Datum.Of kind high y ∧ x.Ordered y .gt := by
  rw [leafCompiles_iff hdot ha hkind rfl, leafCompiles_single_iff hdot ha hkind (by decide),
    leafCompiles_single_iff hdot ha hkind (by decide)]
  constructor
  · rintro ⟨hsuits, low', high', x, y, hpair, hx, hy, hle⟩
    simp only [Value.list.injEq, List.cons.injEq, and_true] at hpair
    obtain ⟨rfl, rfl⟩ := hpair
    refine ⟨⟨hsuits.of_alike rfl rfl, x, hx⟩, ⟨hsuits.of_alike rfl rfl, y, hy⟩, ?_⟩
    rintro ⟨x', y', hx', hy', hgreater⟩
    rw [hx'.unique hx, hy'.unique hy] at hgreater
    exact hle hgreater
  · rintro ⟨⟨hsuits, x, hx⟩, ⟨-, y, hy⟩, hle⟩
    exact ⟨hsuits.of_alike rfl rfl, low, high, x, y, rfl, hx, hy,
      fun h => hle ⟨x, y, hx, hy, h⟩⟩

theorem leafMatches_between_iff {low high : Value}
    (h : LeafCompiles r t field .between (.list [low, high])) :
    LeafMatches r t lookup d field .between (.list [low, high]) ↔
      LeafMatches r t lookup d field .gte low ∧ LeafMatches r t lookup d field .lte high := by
  obtain ⟨hlow, hhigh, -⟩ := (leafCompiles_between_iff hdot ha hkind).1 h
  rw [leafMatches_iff hdot ha hkind rfl, leafMatches_single_iff hdot ha hkind (by decide),
    leafMatches_single_iff hdot ha hkind (by decide)]
  constructor
  · rintro ⟨-, ⟨hop, -⟩ | ⟨v, x, hv, hx, low', high', l, u, hpair, hl, hu, hge, hle⟩⟩
    · cases hop
    · simp only [Value.list.injEq, List.cons.injEq, and_true] at hpair
      obtain ⟨rfl, rfl⟩ := hpair
      exact ⟨⟨hlow, v, x, l, hv, hx, hl, hge⟩, hhigh, v, x, u, hv, hx, hu, hle⟩
  · rintro ⟨⟨-, v, x, l, hv, hx, hl, hge⟩, -, v', x', u, hv', hx', hu, hle⟩
    obtain rfl := Option.some.inj (hv.symm.trans hv')
    obtain rfl := hx.unique hx'
    exact ⟨h, .inr ⟨v, x, hv, hx, low, high, l, u, rfl, hl, hu, hge, hle⟩⟩

theorem leafCompiles_alike_iff {p q : FilterOp} (h : p.Alike q) :
    LeafCompiles r t field p operand ↔ LeafCompiles r t field q operand := by
  rw [leafCompiles_single_iff hdot ha hkind h.left, leafCompiles_single_iff hdot ha hkind h.right]
  exact and_congr_left fun _ => ⟨fun hp => hp.of_alike h.text h.ordering,
    fun hq => hq.of_alike h.text.symm h.ordering.symm⟩

theorem leaf_bound_iff {p q : FilterOp} (hpair : (p, q) ∈ FilterOp.bounds)
    (h : LeafCompiles r t field p operand) :
    LeafCompiles r t field q operand ∧ LeafCompiles r t field .eq operand ∧
      (LeafMatches r t lookup d field p operand ↔
        LeafMatches r t lookup d field q operand ∨ LeafMatches r t lookup d field .eq operand) := by
  obtain ⟨halike, hordering⟩ := FilterOp.alike_of_bounds hpair
  obtain ⟨hsuits, y, hy⟩ := (leafCompiles_single_iff hdot ha hkind halike.left).1 h
  have hcompiles := (leafCompiles_alike_iff hdot ha hkind halike).1 h
  have heq : LeafCompiles r t field .eq operand :=
    (leafCompiles_single_iff hdot ha hkind (by decide)).2
      ⟨⟨hsuits.comparable, by simp [FilterOp.isTextOnly], by simp [FilterOp.isOrdering]⟩, y, hy⟩
  refine ⟨hcompiles, heq, ?_⟩
  have hbound {v : Value} {x y : Datum} (hx : Datum.Of kind v x) (hy : Datum.Of kind operand y) :=
    FilterOp.compares_bound hpair (hsuits.ne_boolean hordering) hx hy
  rw [leafMatches_single_iff hdot ha hkind halike.left,
    leafMatches_single_iff hdot ha hkind halike.right,
    leafMatches_single_iff hdot ha hkind (by decide)]
  constructor
  · rintro ⟨-, v, x, y, hv, hx, hy, hcompares⟩
    rcases (hbound hx hy).1 hcompares with hcompares | hcompares
    · exact .inl ⟨hcompiles, v, x, y, hv, hx, hy, hcompares⟩
    · exact .inr ⟨heq, v, x, y, hv, hx, hy, hcompares⟩
  · rintro (⟨-, v, x, y, hv, hx, hy, hcompares⟩ | ⟨-, v, x, y, hv, hx, hy, hcompares⟩)
    · exact ⟨h, v, x, y, hv, hx, hy, (hbound hx hy).2 (.inl hcompares)⟩
    · exact ⟨h, v, x, y, hv, hx, hy, (hbound hx hy).2 (.inr hcompares)⟩

theorem leafMatches_opposite_iff {p q : FilterOp} (hpair : (p, q) ∈ FilterOp.opposites)
    (hstored : ∀ v, d.value? field = some v → ¬ v.IsNaN) (hnan : ¬ operand.IsNaN)
    (h : LeafCompiles r t field p operand) :
    ¬ (LeafMatches r t lookup d field p operand ∧ LeafMatches r t lookup d field q operand) ∧
      (LeafMatches r t lookup d field p operand ∨ LeafMatches r t lookup d field q operand ↔
        HasDatum d field kind) := by
  have halike := FilterOp.alike_of_opposites hpair
  obtain ⟨hsuits, y, hy⟩ := (leafCompiles_single_iff hdot ha hkind halike.left).1 h
  have hopposite {v : Value} {x : Datum} (hv : d.value? field = some v) (hx : Datum.Of kind v x) :=
    FilterOp.compares_opposite hpair hsuits hx hy (hstored v hv) hnan
  rw [leafMatches_single_iff hdot ha hkind halike.left,
    leafMatches_single_iff hdot ha hkind halike.right]
  constructor
  · rintro ⟨⟨-, v, x, z, hv, hx, hz, hcompares⟩, -, v', x', z', hv', hx', hz', hcompares'⟩
    obtain rfl := Option.some.inj (hv.symm.trans hv')
    obtain rfl := hx.unique hx'
    obtain rfl := hz.unique hy
    obtain rfl := hz'.unique hz
    exact (hopposite hv hx).1 hcompares' hcompares
  · constructor
    · rintro (⟨-, v, x, z, hv, hx, -⟩ | ⟨-, v, x, z, hv, hx, -⟩)
      · exact ⟨v, x, hv, hx⟩
      · exact ⟨v, x, hv, hx⟩
    · rintro ⟨v, x, hv, hx⟩
      by_cases hcompares : p.Compares x y
      · exact .inl ⟨h, v, x, y, hv, hx, hy, hcompares⟩
      · exact .inr ⟨(leafCompiles_alike_iff hdot ha hkind halike).1 h, v, x, y, hv, hx, hy,
          (hopposite hv hx).2 hcompares⟩

/-- On a field of the document without a NaN, the operators agree with each other. -/
theorem operators_agree (hjson : kind ≠ .json)
    (hstored : ∀ v, d.value? field = some v → ¬ v.IsNaN) :
    OperatorsAgree r t lookup d field kind where
  isIn operand := by
    have hmembers : LeafCompiles r t field .isIn operand ↔ _ :=
      leafCompiles_membership_iff hdot ha hkind hjson (.inl rfl) .eq (by decide) rfl rfl
    exact ⟨hmembers, fun h => leafMatches_isIn_iff hdot ha hkind h (hmembers.1 h)⟩
  notIn operand hnan := by
    have hmembers : LeafCompiles r t field .notIn operand ↔ _ :=
      leafCompiles_membership_iff hdot ha hkind hjson (.inr rfl) .ne (by decide) rfl rfl
    exact ⟨hmembers,
      fun h => leafMatches_notIn_iff hdot ha hkind h (hmembers.1 h) hstored hnan⟩
  between low high :=
    ⟨leafCompiles_between_iff hdot ha hkind, leafMatches_between_iff hdot ha hkind⟩
  lte operand h := leaf_bound_iff hdot ha hkind (by decide) h
  gte operand h := leaf_bound_iff hdot ha hkind (by decide) h
  opposites p q hpair operand hnan :=
    ⟨leafCompiles_alike_iff hdot ha hkind (FilterOp.alike_of_opposites hpair),
      leafMatches_opposite_iff hdot ha hkind hpair hstored hnan⟩

end

theorem operators_agree_blog :
    let d : Document := ⟨"article", "a1", none, [("rating", .int 4)]⟩
    OperatorsAgree Blog.registry Blog.article Lookup.empty d "rating" .float := by
  intro d
  have hstored : ∀ v, d.value? "rating" = some v → ¬ v.IsNaN := by
    intro v hv
    obtain rfl : Value.int 4 = v := Option.some.inj hv
    rintro ⟨x, hx, -⟩
    cases hx
  exact operators_agree (by decide) (a := Blog.field "rating" .float) rfl rfl (by decide) hstored

end Filter
end ContentEngine
