import ContentEngine.Proofs.Filter.Compilation

/-!
# Well-typed filters

`Filter.WellTyped` says by the schema alone which filters make sense: every combinator has a child,
a path leads along relations to an attribute that there is, and an operator that is not about
presence has an attribute that it suits and an operand of the family of that attribute. The compiler
accepts these filters and no others.

What it accepts has operands in the shapes that the operators ask for, so the evaluation of a field
has a case for it.
-/

namespace ContentEngine

/-- `t.Reaches r segments u`: the segments name relations with one target each, the first one of `t`
and every other one of the target before it, and the last target is `u`. -/
inductive DocumentType.Reaches (r : Registry) : DocumentType → List String → DocumentType → Prop
  | here (t : DocumentType) : Reaches r t [] t
  | hop (t next u : DocumentType) (segment target : String) (segments : List String)
      (a : AttributeDefinition) (ha : t.attr? segment = some a)
      (htarget : a.kind = .relationOne target ∨ a.kind = .relationMany target)
      (hnext : r.get? target = some next) (h : Reaches r next segments u) :
      Reaches r t (segment :: segments) u

/-- The kinds by which an operator that is not about presence can compare. -/
structure FilterOp.Suits (op : FilterOp) (kind : ScalarKind) : Prop where
  comparable : kind ≠ .json
  text : op.isTextOnly = true → kind = .text
  ordered : op.isOrdering = true →
    kind = .text ∨ kind = .integer ∨ kind = .float ∨ kind = .datetime

/-- The operands that an operator takes on a field of some kind. A range may have no order, as with
a NaN, but its low end may not be greater than the high one. -/
def FilterOp.Takes (kind : ScalarKind) (operand : Value) : FilterOp → Prop
  | .isIn | .notIn => ∀ o ∈ operand.members, ∃ x, Datum.Of kind o x
  | .between =>
    ∃ low high x y, operand = .list [low, high] ∧ Datum.Of kind low x ∧ Datum.Of kind high y ∧
      ¬ x.Ordered y .gt
  | _ => ∃ x, Datum.Of kind operand x

namespace Filter
variable (r : Registry) (t : DocumentType)

/-- The path of a leaf ends in an attribute; any attribute can be asked for its presence. -/
def LeafTyped (path : String) (op : FilterOp) (operand : Value) : Prop :=
  ∃ segments field u a, Text.split '.' path = segments ++ [field] ∧ t.Reaches r segments u ∧
    u.attr? field = some a ∧
    (op.isPresence = true ∨
      ∃ kind, a.kind = .scalar kind ∧ op.Suits kind ∧ op.Takes kind operand)

inductive WellTyped : Filter → Prop
  | leaf (path : String) (op : FilterOp) (operand : Value) (h : LeafTyped r t path op operand) :
      WellTyped (.leaf path op operand)
  | and (children : List Filter) (hsome : children ≠ []) (h : ∀ f ∈ children, WellTyped f) :
      WellTyped (.and children)
  | or (children : List Filter) (hsome : children ≠ []) (h : ∀ f ∈ children, WellTyped f) :
      WellTyped (.or children)
  | not (child : Filter) (h : WellTyped child) : WellTyped (.not child)

end Filter

/-! ## The shapes of operands -/

/-- The operand has the shape that the operator asks for. -/
inductive Operand.Fits : FilterOp → Operand → Prop
  | none (op : FilterOp) (h : op.isPresence = true) : Fits op .none
  | one (op : FilterOp) (w : Value) (hpresence : op.isPresence = false) (hin : op ≠ .isIn)
      (hnotIn : op ≠ .notIn) (hbetween : op ≠ .between) : Fits op (.one w)
  | many (op : FilterOp) (ws : List Value) (h : op = .isIn ∨ op = .notIn) : Fits op (.many ws)
  | range (low high : Value) : Fits .between (.range low high)

namespace Comparison

/-- `holdsOf` with another answer where an operator does not go with the shape of its operand. -/
def holdsOfElse (other : Bool) (op : FilterOp) (operand : Operand) (v : Value) : Bool :=
  let order (test : Ordering → Bool) (w : Value) : Bool := (v.compareOrder? w).any test
  let text (test : Value.TextTest) (mode : Value.TextMode) (expected : Bool) (w : Value) : Bool :=
    Value.textTest? test mode v w = some expected
  match op, operand with
  | .eq, .one w => v.compareEq? .caseSensitive w = some true
  | .eqi, .one w => v.compareEq? .caseInsensitive w = some true
  | .ne, .one w => v.compareEq? .caseSensitive w = some false
  | .nei, .one w => v.compareEq? .caseInsensitive w = some false
  | .lt, .one w => order Ordering.isLT w
  | .lte, .one w => order Ordering.isLE w
  | .gt, .one w => order Ordering.isGT w
  | .gte, .one w => order Ordering.isGE w
  | .between, .range low high => order Ordering.isGE low && order Ordering.isLE high
  | .isIn, .many ws => v.inList? ws = some true
  | .notIn, .many ws => v.inList? ws = some false
  | .contains, .one w => text .contains .caseSensitive true w
  | .containsi, .one w => text .contains .caseInsensitive true w
  | .notContains, .one w => text .contains .caseSensitive false w
  | .notContainsi, .one w => text .contains .caseInsensitive false w
  | .startsWith, .one w => text .startsWith .caseSensitive true w
  | .startsWithi, .one w => text .startsWith .caseInsensitive true w
  | .endsWith, .one w => text .endsWith .caseSensitive true w
  | .endsWithi, .one w => text .endsWith .caseInsensitive true w
  | _, _ => other

/-- `holdsOfField` over some evaluation of operators. -/
def holdsOfFieldBy (evaluate : FilterOp → Operand → Value → Bool) (c : Comparison)
    (field : Option Value) : Bool :=
  let present := field.filter fun v => !v.isAbsent
  match c.op, c.path.kind with
  | .null, _ => present.isNone
  | .notNull, _ => present.isSome
  | _, .relation => false
  | op, .scalar kind =>
    match present.bind (·.normalize? kind) with
    | some v => evaluate op c.operand v
    | none => false

def holdsOfFieldElse (other : Bool) (c : Comparison) (field : Option Value) : Bool :=
  c.holdsOfFieldBy (holdsOfElse other) field

theorem holdsOfElse_false : holdsOfElse false = holdsOf := by
  funext op operand v
  cases op <;> cases operand <;> rfl

theorem holdsOfFieldElse_false (c : Comparison) (field : Option Value) :
    c.holdsOfFieldElse false field = c.holdsOfField field := by
  rw [holdsOfFieldElse, holdsOfElse_false]
  rfl

/-- Only operators that are not about presence are evaluated, on the operand of the comparison. -/
theorem holdsOfFieldBy_congr {f g : FilterOp → Operand → Value → Bool} {c : Comparison}
    (h : c.op.isPresence = false → f c.op c.operand = g c.op c.operand) (field : Option Value) :
    c.holdsOfFieldBy f field = c.holdsOfFieldBy g field := by
  unfold holdsOfFieldBy
  generalize c.op = op at h ⊢
  generalize c.path.kind = kind
  cases hop : op.isPresence with
  | true => cases op <;> first | rfl | cases hop
  | false =>
    have heval := h hop
    cases kind with
    | relation => cases op <;> rfl
    | scalar kind => cases op <;> first | contradiction | simp only [heval]

theorem holdsOfElse_of_fits {op : FilterOp} {operand : Operand} (h : operand.Fits op)
    (hop : op.isPresence = false) (other : Bool) :
    holdsOfElse other op operand = holdsOf op operand := by
  funext v
  cases h with
  | none op hpresence => exact absurd hpresence (by simp [hop])
  | one op w _ hin hnotIn hbetween => cases op <;> first | rfl | contradiction
  | many op ws hop => rcases hop with rfl | rfl <;> rfl
  | range low high => rfl

/-- The answer for other operands makes no difference to a field of a fitting comparison. -/
theorem holdsOfFieldElse_of_fits {c : Comparison} (h : c.operand.Fits c.op) (other : Bool)
    (field : Option Value) : c.holdsOfFieldElse other field = c.holdsOfField field :=
  holdsOfFieldBy_congr (fun hop => holdsOfElse_of_fits h hop other) field

end Comparison

mutual
/-- The comparisons of a predicate, in order. -/
def Predicate.comparisons : Predicate → List Comparison
  | .always => []
  | .and children => comparisonsOfAll children
  | .or children => comparisonsOfAll children
  | .not child => child.comparisons
  | .compare c => [c]

def comparisonsOfAll : List Predicate → List Comparison
  | [] => []
  | p :: ps => p.comparisons ++ comparisonsOfAll ps
end

/-! ## Operands -/

namespace Datum
variable {kind : ScalarKind} {op : FilterOp} {field : String} {operand : Value}

theorem compileOperand_ok {v : Value} {x : Datum} (h : Of kind v x) (op : FilterOp)
    (field : String) : compileOperand kind op field v = .ok x.value :=
  compileOperand_eq_ok_iff.2 ⟨x, h, rfl⟩

theorem exists_compileOperands_iff {items : List Value} :
    (∃ ws, compileOperands kind op field items = .ok ws) ↔ ∀ o ∈ items, ∃ x, Of kind o x := by
  constructor
  · rintro ⟨ws, hws⟩ o ho
    obtain ⟨i, hi, rfl⟩ := List.mem_iff_getElem.1 ho
    have hforall := compileOperands_eq_ok hws
    obtain ⟨x, hx, -⟩ := hforall.get hi (hforall.length_eq ▸ hi)
    exact ⟨x, hx⟩
  · intro h
    induction items with
    | nil => exact ⟨[], rfl⟩
    | cons o items ih =>
      obtain ⟨x, hx⟩ := h o List.mem_cons_self
      obtain ⟨ws, hws⟩ := ih fun o ho => h o (List.mem_cons_of_mem _ ho)
      refine ⟨x.value :: ws, ?_⟩
      simp only [compileOperands, compileOperand_ok hx, hws]

theorem exists_compileRange_iff {low high : Value} :
    (∃ o, compileRange kind op field low high = .ok o) ↔
      ∃ x y, Of kind low x ∧ Of kind high y ∧ ¬ x.Ordered y .gt := by
  constructor
  · rintro ⟨o, ho⟩
    unfold compileRange at ho
    cases hlow : compileOperand kind op field low with
    | error e => simp [hlow] at ho
    | ok l =>
      cases hhigh : compileOperand kind op field high with
      | error e => simp [hlow, hhigh] at ho
      | ok h =>
        obtain ⟨x, hx, rfl⟩ := compileOperand_eq_ok_iff.1 hlow
        obtain ⟨y, hy, rfl⟩ := compileOperand_eq_ok_iff.1 hhigh
        refine ⟨x, y, hx, hy, fun hgreater => ?_⟩
        have horder := (compareOrder?_eq_some_iff hx hy .gt).2 hgreater
        simp [hlow, hhigh, horder] at ho
  · rintro ⟨x, y, hx, hy, hle⟩
    have horder : x.value.compareOrder? y.value ≠ some .gt := fun h =>
      hle ((compareOrder?_eq_some_iff hx hy .gt).1 h)
    refine ⟨.range x.value y.value, ?_⟩
    simp only [compileRange, compileOperand_ok hx, compileOperand_ok hy, if_neg horder]

/-- An operand can be brought into shape if the operator takes it. -/
theorem exists_compileShape_iff (hop : op.isPresence = false) :
    (∃ o, compileShape kind op field operand = .ok o) ↔ op.Takes kind operand := by
  by_cases hmembership : op = .isIn ∨ op = .notIn
  · have htakes : op.Takes kind operand ↔ ∀ o ∈ operand.members, ∃ x, Of kind o x := by
      rcases hmembership with rfl | rfl <;> exact Iff.rfl
    have hoperands : (∃ ws, compileOperands kind op field operand.members = .ok ws) ↔
        ∀ o ∈ operand.members, ∃ x, Of kind o x := exists_compileOperands_iff
    rw [htakes, ← hoperands]
    constructor
    · rintro ⟨o, ho⟩
      obtain ⟨ws, hws, -⟩ := compileShape_membership hmembership ho
      exact ⟨ws, hws⟩
    · rintro ⟨ws, hws⟩
      refine ⟨.many ws, ?_⟩
      rcases hmembership with rfl | rfl <;>
        cases operand <;> exact Except.map_eq_ok_iff.2 ⟨ws, hws, rfl⟩
  by_cases hbetween : op = .between
  · subst hbetween
    constructor
    · rintro ⟨o, ho⟩
      obtain ⟨low, high, l, h, rfl, -, -, -⟩ := compileShape_between ho
      obtain ⟨x, y, hx, hy, hle⟩ := exists_compileRange_iff.1 ⟨o, ho⟩
      exact ⟨low, high, x, y, rfl, hx, hy, hle⟩
    · rintro ⟨low, high, x, y, rfl, hx, hy, hle⟩
      exact exists_compileRange_iff.2 ⟨x, y, hx, hy, hle⟩
  obtain ⟨hin, hnotIn⟩ := not_or.1 hmembership
  have htakes : op.Takes kind operand ↔ ∃ x, Of kind operand x := by
    cases op <;> first | exact Iff.rfl | contradiction
  rw [htakes]
  constructor
  · rintro ⟨o, ho⟩
    obtain ⟨w, hw, -⟩ := compileShape_single hin hnotIn hbetween ho
    obtain ⟨x, hx, -⟩ := compileOperand_eq_ok_iff.1 hw
    exact ⟨x, hx⟩
  · rintro ⟨x, hx⟩
    refine ⟨.one x.value, ?_⟩
    have hw := compileOperand_ok hx op field
    cases op <;> first | contradiction | exact Except.map_eq_ok_iff.2 ⟨x.value, hw, rfl⟩

theorem fits_of_compileShape {o : Operand} (hop : op.isPresence = false)
    (ho : compileShape kind op field operand = .ok o) : o.Fits op := by
  by_cases hmembership : op = .isIn ∨ op = .notIn
  · obtain ⟨ws, -, rfl⟩ := compileShape_membership hmembership ho
    exact .many op ws hmembership
  by_cases hbetween : op = .between
  · subst hbetween
    obtain ⟨low, high, l, h, -, -, -, rfl⟩ := compileShape_between ho
    exact .range l h
  obtain ⟨hin, hnotIn⟩ := not_or.1 hmembership
  obtain ⟨w, -, rfl⟩ := compileShape_single hin hnotIn hbetween ho
  exact .one op w hop hin hnotIn hbetween

end Datum

/-! ## Operators -/

theorem ScalarKind.isOrderable_iff {kind : ScalarKind} :
    kind.isOrderable = true ↔
      kind = .text ∨ kind = .integer ∨ kind = .float ∨ kind = .datetime := by
  cases kind <;> simp [ScalarKind.isOrderable]

/-- An operator compares an attribute by the scalar kind that the attribute has, if it suits it. -/
theorem comparisonKind_ofAttribute_iff {op : FilterOp} {field : String} {kind : AttributeKind}
    {s : ScalarKind} :
    comparisonKind op field (.ofAttribute kind) = .ok s ↔ kind = .scalar s ∧ op.Suits s := by
  constructor
  · intro h
    obtain rfl := FieldKind.ofAttribute_eq_scalar (Comparison.comparisonKind_eq_ok h)
    rw [FieldKind.ofAttribute, AttributeKind.scalar?] at h
    unfold comparisonKind at h
    split at h
    · cases h
    · cases h
    next hjson heq =>
      obtain rfl := FieldKind.scalar.inj heq
      split at h
      · cases h
      next htext =>
        split at h
        · cases h
        next hordered =>
          refine ⟨rfl, fun hs => hjson (by rw [hs]), fun hop => ?_, fun hop => ?_⟩
          · by_contra hs
            exact htext ⟨hop, hs⟩
          · rw [← ScalarKind.isOrderable_iff]
            by_contra hs
            exact hordered ⟨hop, by simp [hs]⟩
  · rintro ⟨rfl, hcomparable, htext, hordered⟩
    rw [← ScalarKind.isOrderable_iff] at hordered
    have htext' : ¬ (op.isTextOnly = true ∧ s ≠ .text) := fun h => h.2 (htext h.1)
    have hordered' : ¬ (op.isOrdering = true ∧ (!s.isOrderable) = true) := fun h => by
      simp [hordered h.1] at h
    rw [FieldKind.ofAttribute, AttributeKind.scalar?]
    unfold comparisonKind
    split
    next h => cases h
    next h => exact absurd (FieldKind.scalar.inj h) hcomparable
    next heq =>
      obtain rfl := FieldKind.scalar.inj heq
      rw [if_neg htext', if_neg hordered']

/-! ## Paths -/

section
variable {r : Registry} {t : DocumentType}

theorem AttributeKind.relationTarget?_eq_some_iff {kind : AttributeKind} {target : String} :
    kind.relationTarget? = some target ↔
      kind = .relationOne target ∨ kind = .relationMany target := by
  cases kind <;> simp [AttributeKind.relationTarget?]

theorem reaches_of_resolvePath {segments : List String} {p : FieldPath}
    (hp : resolvePath r t segments = .ok p) :
    ∃ ss u a, segments = ss ++ [p.field] ∧ t.Reaches r ss u ∧ u.attr? p.field = some a ∧
      p.kind = .ofAttribute a.kind := by
  induction segments generalizing t p with
  | nil => cases hp
  | cons segment segments ih =>
    by_cases hne : segments = []
    · subst hne
      obtain ⟨a, ha, rfl⟩ := resolvePath_singleton hp
      exact ⟨[], t, a, rfl, .here t, ha, rfl⟩
    · obtain ⟨a, target, next, q, ha, htarget, hnext, hq, rfl⟩ := resolvePath_cons hne hp
      obtain ⟨ss, u, b, hss, hreaches, hb, hkind⟩ := ih hq
      have htarget := AttributeKind.relationTarget?_eq_some_iff.1 htarget
      exact ⟨segment :: ss, u, b, by rw [hss]; rfl,
        .hop t next u segment target ss a ha htarget hnext hreaches, hb, hkind⟩

theorem resolvePath_of_reaches {ss : List String} {u : DocumentType} {a : AttributeDefinition}
    {field : String} (hreaches : t.Reaches r ss u) (ha : u.attr? field = some a) :
    ∃ p, resolvePath r t (ss ++ [field]) = .ok p ∧ p.kind = .ofAttribute a.kind := by
  induction hreaches with
  | here t =>
    refine ⟨⟨[], a.name, .ofAttribute a.kind⟩, ?_, rfl⟩
    simp only [List.nil_append, resolvePath, DocumentType.getAttr_eq_ok_iff.2 ha]
    rfl
  | hop t next u segment target ss b hb htarget hnext _ ih =>
    obtain ⟨p, hp, hkind⟩ := ih ha
    refine ⟨{ p with hops := ⟨b.name, target⟩ :: p.hops }, ?_, hkind⟩
    obtain ⟨s, ss', hss⟩ := List.exists_cons_of_ne_nil
      (List.append_ne_nil_of_right_ne_nil ss (List.cons_ne_nil field []))
    rw [hss] at hp
    rw [List.cons_append, hss]
    simp only [resolvePath, DocumentType.getAttr_eq_ok_iff.2 hb,
      AttributeKind.relationTarget?_eq_some_iff.2 htarget, Registry.get_eq_ok_iff.2 hnext, hp]

end

/-! ## Leaves -/

namespace Filter
variable {r : Registry} {t : DocumentType} {op : FilterOp} {operand : Value}

/-- A leaf at the end of a path is accepted if its operator asks for presence, or suits the
attribute and takes the operand. -/
theorem exists_compileLeaf_iff {path : FieldPath} {kind : AttributeKind}
    (hpath : path.kind = .ofAttribute kind) :
    (∃ c, compileLeaf path op operand = .ok c) ↔
      op.isPresence = true ∨ ∃ s, kind = .scalar s ∧ op.Suits s ∧ op.Takes s operand := by
  unfold compileLeaf
  cases hop : op.isPresence with
  | true => simp
  | false =>
    simp only [Bool.false_eq_true, if_false, false_or, hpath]
    constructor
    · rintro ⟨c, hc⟩
      cases hs : comparisonKind op path.dotted (.ofAttribute kind) with
      | error e => simp [hs] at hc
      | ok s =>
        simp only [hs] at hc
        obtain ⟨o, ho, -⟩ := Except.map_eq_ok_iff.1 hc
        obtain ⟨hkind, hsuits⟩ := comparisonKind_ofAttribute_iff.1 hs
        exact ⟨s, hkind, hsuits, (Datum.exists_compileShape_iff hop).1 ⟨o, ho⟩⟩
    · rintro ⟨s, hkind, hsuits, htakes⟩
      obtain ⟨o, ho⟩ : ∃ o, compileShape s op path.dotted operand = .ok o :=
        (Datum.exists_compileShape_iff hop).2 htakes
      refine ⟨⟨path, op, o⟩, ?_⟩
      simp only [comparisonKind_ofAttribute_iff.2 ⟨hkind, hsuits⟩]
      exact Except.map_eq_ok_iff.2 ⟨o, ho, rfl⟩

theorem fits_of_compileLeaf {path : FieldPath} {c : Comparison}
    (hc : compileLeaf path op operand = .ok c) : c.operand.Fits c.op := by
  cases hop : op.isPresence with
  | true =>
    obtain rfl := Comparison.compileLeaf_presence hop hc
    exact .none op hop
  | false =>
    obtain ⟨s, o, -, ho, rfl⟩ := Comparison.compileLeaf_eq_ok hop hc
    exact Datum.fits_of_compileShape hop ho

theorem exists_compile_leaf_iff {path : String} :
    (∃ p, (Filter.leaf path op operand).compile r t = .ok p) ↔ LeafTyped r t path op operand := by
  constructor
  · rintro ⟨p, hp⟩
    obtain ⟨q, c, hq, hc, -⟩ := compile_leaf hp
    obtain ⟨ss, u, a, hss, hreaches, ha, hkind⟩ := reaches_of_resolvePath hq
    exact ⟨ss, q.field, u, a, hss, hreaches, ha, (exists_compileLeaf_iff hkind).1 ⟨c, hc⟩⟩
  · rintro ⟨ss, field, u, a, hss, hreaches, ha, htyped⟩
    obtain ⟨q, hq, hkind⟩ := resolvePath_of_reaches hreaches ha
    obtain ⟨c, hc⟩ := (exists_compileLeaf_iff hkind).2 htyped
    refine ⟨.compare c, ?_⟩
    unfold compile
    simp only [hss, hq, hc]

/-! ## Trees -/

mutual
theorem wellTyped_of_compile : ∀ (f : Filter) (p : Predicate), f.compile r t = .ok p →
    f.WellTyped r t
  | .leaf path op operand, p, h => .leaf path op operand (exists_compile_leaf_iff.1 ⟨p, h⟩)
  | .and children, p, h => by
    obtain ⟨ps, hps, -⟩ := compile_and h
    refine .and children ?_ (allWellTyped_of_compileAll children ps hps)
    rintro rfl
    cases h
  | .or children, p, h => by
    obtain ⟨ps, hps, -⟩ := compile_or h
    refine .or children ?_ (allWellTyped_of_compileAll children ps hps)
    rintro rfl
    cases h
  | .not child, p, h => by
    obtain ⟨q, hq, -⟩ := compile_not h
    exact .not child (wellTyped_of_compile child q hq)

theorem allWellTyped_of_compileAll : ∀ (fs : List Filter) (ps : List Predicate),
    compileAll r t fs = .ok ps → ∀ f ∈ fs, f.WellTyped r t
  | [], _, _ => fun _ hf => absurd hf List.not_mem_nil
  | f :: fs, ps, h => by
    obtain ⟨p, ps', hp, hps, -⟩ := compileAll_cons h
    exact List.forall_mem_cons.2
      ⟨wellTyped_of_compile f p hp, allWellTyped_of_compileAll fs ps' hps⟩
end

theorem exists_compileAll {fs : List Filter} (h : ∀ f ∈ fs, ∃ p, f.compile r t = .ok p) :
    ∃ ps, compileAll r t fs = .ok ps := by
  induction fs with
  | nil => exact ⟨[], rfl⟩
  | cons f fs ih =>
    obtain ⟨p, hp⟩ := h f List.mem_cons_self
    obtain ⟨ps, hps⟩ := ih fun g hg => h g (List.mem_cons_of_mem f hg)
    refine ⟨p :: ps, ?_⟩
    unfold compileAll
    simp only [hp, hps]

theorem exists_compile_of_wellTyped {f : Filter} (h : f.WellTyped r t) :
    ∃ p, f.compile r t = .ok p := by
  induction h with
  | leaf path op operand h => exact exists_compile_leaf_iff.2 h
  | and children hsome _ ih =>
    obtain ⟨ps, hps⟩ := exists_compileAll ih
    refine ⟨.and ps, ?_⟩
    simp [compile, hsome, Except.map_eq_ok_iff, hps]
  | or children hsome _ ih =>
    obtain ⟨ps, hps⟩ := exists_compileAll ih
    refine ⟨.or ps, ?_⟩
    simp [compile, hsome, Except.map_eq_ok_iff, hps]
  | not child _ ih =>
    obtain ⟨p, hp⟩ := ih
    exact ⟨.not p, Except.map_eq_ok_iff.2 ⟨p, hp, rfl⟩⟩

mutual
theorem fits_of_compile : ∀ (f : Filter) (p : Predicate), f.compile r t = .ok p →
    ∀ c ∈ p.comparisons, c.operand.Fits c.op
  | .leaf path op operand, p, h, c, hc => by
    obtain ⟨q, c', -, hc', rfl⟩ := compile_leaf h
    obtain rfl := List.mem_singleton.1 hc
    exact fits_of_compileLeaf hc'
  | .and children, p, h, c, hc => by
    obtain ⟨ps, hps, rfl⟩ := compile_and h
    exact fits_of_compileAll children ps hps c hc
  | .or children, p, h, c, hc => by
    obtain ⟨ps, hps, rfl⟩ := compile_or h
    exact fits_of_compileAll children ps hps c hc
  | .not child, p, h, c, hc => by
    obtain ⟨q, hq, rfl⟩ := compile_not h
    exact fits_of_compile child q hq c hc

theorem fits_of_compileAll : ∀ (fs : List Filter) (ps : List Predicate),
    compileAll r t fs = .ok ps → ∀ c ∈ comparisonsOfAll ps, c.operand.Fits c.op
  | [], ps, h, c, hc => by
    obtain rfl := Except.ok.inj h
    exact absurd hc List.not_mem_nil
  | f :: fs, ps, h, c, hc => by
    obtain ⟨p, ps', hp, hps, rfl⟩ := compileAll_cons h
    rcases List.mem_append.1 hc with hc | hc
    · exact fits_of_compile f p hp c hc
    · exact fits_of_compileAll fs ps' hps c hc
end

/-- The compiler accepts exactly the well-typed filters. In what it accepts every operand fits its
operator, and what the evaluation of a field answers for operands that do not fit makes no
difference. -/
theorem accepts_exactly_wellTyped (r : Registry) (t : DocumentType) (f : Filter) :
    ((∃ p, f.compile r t = .ok p) ↔ f.WellTyped r t) ∧
      ∀ p, f.compile r t = .ok p → ∀ c ∈ p.comparisons, c.operand.Fits c.op ∧
        ∀ (other : Bool) (field : Option Value),
          c.holdsOfFieldElse other field = c.holdsOfField field := by
  refine ⟨⟨fun ⟨p, hp⟩ => wellTyped_of_compile f p hp, exists_compile_of_wellTyped⟩, ?_⟩
  intro p hp c hc
  have hfits := fits_of_compile f p hp c hc
  exact ⟨hfits, Comparison.holdsOfFieldElse_of_fits hfits⟩

/-- A prefix of the author's name and a range of dates are well typed; a number is no prefix. -/
theorem accepts_exactly_wellTyped_blog :
    let r : Registry := ⟨[("article", Blog.article), ("author", Blog.author)]⟩
    let f (name : Value) : Filter := .and [.leaf "author.name" .startsWithi name,
      .leaf "releasedOn" .between (.list [.text "2024-01-01", .text "2024-12-31"])]
    let range : Comparison :=
      ⟨⟨[], "releasedOn", .scalar .datetime⟩, .between,
        .range (.int 1704067200000) (.int 1735603200000)⟩
    (f (.text "a")).WellTyped r Blog.article ∧ ¬ (f (.int 1)).WellTyped r Blog.article ∧
      range.holdsOfFieldElse true (some (.text "2023-06-01")) = false := by
  intro r f range
  let start : Comparison :=
    ⟨⟨[⟨"author", "author"⟩], "name", .scalar .text⟩, .startsWithi, .one (.text "a")⟩
  have hp : (f (.text "a")).compile r Blog.article = .ok (.and [.compare start, .compare range]) :=
    rfl
  have hrejected : (f (.int 1)).compile r Blog.article = .error (.operator
      (.operandKind .startsWithi "author.name" "text" "int")) := rfl
  obtain ⟨haccepted, hfits⟩ := accepts_exactly_wellTyped r Blog.article (f (.text "a"))
  refine ⟨haccepted.1 ⟨_, hp⟩, fun htyped => ?_, ?_⟩
  · obtain ⟨p, hp⟩ := (accepts_exactly_wellTyped r Blog.article (f (.int 1))).1.2 htyped
    rw [hrejected] at hp
    cases hp
  · rw [(hfits _ hp range (.tail _ (.head _))).2]
    decide +kernel

end Filter
end ContentEngine
