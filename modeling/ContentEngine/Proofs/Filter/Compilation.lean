import ContentEngine.Proofs.Filter.Operators
import ContentEngine.Proofs.Schema.Registry
import ContentEngine.Sample.Blog
import Mathlib.Data.List.Forall2

/-!
# Compiling a filter keeps its meaning

The documents that the hops of a compiled path reach are the ends of the chains along the path. With
what a compiled leaf says of a field, a compiled filter holds of exactly the documents that the
filter selects, by induction on the filter: `holds_iff_of_compile`.
-/

namespace ContentEngine

namespace Value
variable (lookup : Lookup) (target : String) (d : Document)

mutual
theorem mem_related_iff : ∀ v : Value, d ∈ v.related lookup target ↔ v.Leads lookup target d
  | .ref id => by
    rw [related, Option.mem_toList]
    exact ⟨.ref id d, fun h => by cases h; assumption⟩
  | .doc e => by
    rw [related, List.mem_singleton]
    exact ⟨fun h => h ▸ .doc d, fun h => by cases h; rfl⟩
  | .list items => by
    rw [related, mem_relatedItems_iff items]
    constructor
    · rintro ⟨v, hv, h⟩
      exact .item items v d hv h
    · rintro ⟨⟩
      next v hv h => exact ⟨v, hv, h⟩
  | .null => by simpa [related] using fun h => by cases h
  | .bool _ => by simpa [related] using fun h => by cases h
  | .int _ => by simpa [related] using fun h => by cases h
  | .float _ => by simpa [related] using fun h => by cases h
  | .text _ => by simpa [related] using fun h => by cases h
  | .json _ => by simpa [related] using fun h => by cases h
  | .variant _ _ => by simpa [related] using fun h => by cases h

theorem mem_relatedItems_iff : ∀ vs : List Value,
    d ∈ relatedItems lookup target vs ↔ ∃ v ∈ vs, v.Leads lookup target d
  | [] => by simp [relatedItems]
  | v :: vs => by
    rw [relatedItems, List.mem_append, mem_related_iff v, mem_relatedItems_iff vs]
    simp
end

end Value

namespace Comparison
variable (lookup : Lookup)

/-- The walk over a list of documents reaches what the walks over its members reach. -/
theorem mem_reach_iff (hops : List Hop) (docs : List Document) (e : Document) :
    e ∈ reach lookup hops docs ↔ ∃ d ∈ docs, e ∈ reach lookup hops [d] := by
  induction hops generalizing docs with
  | nil => simp [reach]
  | cons hop hops ih =>
    simp only [reach]
    rw [ih]
    constructor
    · rintro ⟨c, hc, he⟩
      obtain ⟨d, hd, hcd⟩ := List.mem_flatMap.mp hc
      refine ⟨d, hd, (ih _).mpr ⟨c, ?_, he⟩⟩
      rwa [List.flatMap_singleton]
    · rintro ⟨d, hd, he⟩
      obtain ⟨c, hc, hce⟩ := (ih _).mp he
      rw [List.flatMap_singleton] at hc
      exact ⟨c, List.mem_flatMap.mpr ⟨d, hd, hc⟩, hce⟩

theorem mem_reach_cons_iff (hop : Hop) (hops : List Hop) (d e : Document) :
    e ∈ reach lookup (hop :: hops) [d] ↔
      ∃ v c, d.get? hop.attr = some v ∧ v.Leads lookup hop.target c ∧
        e ∈ reach lookup hops [c] := by
  simp only [reach, List.flatMap_singleton]
  rw [mem_reach_iff]
  cases d.get? hop.attr with
  | none => simp
  | some v =>
    simp only [Value.mem_related_iff, Option.some.injEq]
    constructor
    · rintro ⟨c, hc, he⟩
      exact ⟨v, c, rfl, hc, he⟩
    · rintro ⟨_, c, rfl, hc, he⟩
      exact ⟨c, hc, he⟩

end Comparison

/-! ## Paths -/

section
variable {r : Registry} {t : DocumentType}

theorem resolvePath_singleton {field : String} {p : FieldPath}
    (h : resolvePath r t [field] = .ok p) :
    ∃ a, t.attr? field = some a ∧ p = ⟨[], field, .ofAttribute a.kind⟩ := by
  unfold resolvePath at h
  cases ha : t.getAttr field with
  | error e => simp [ha] at h
  | ok a =>
    have hattr := DocumentType.getAttr_eq_ok_iff.mp ha
    simp only [ha, Except.ok.injEq] at h
    refine ⟨a, hattr, ?_⟩
    rw [← h, DocumentType.attr?_name hattr]
    rfl

/-- A path of several segments goes through a relation and on from its target. -/
theorem resolvePath_cons {segment : String} {segments : List String} {p : FieldPath}
    (hne : segments ≠ []) (h : resolvePath r t (segment :: segments) = .ok p) :
    ∃ a target next q, t.attr? segment = some a ∧ a.kind.relationTarget? = some target ∧
      r.get? target = some next ∧ resolvePath r next segments = .ok q ∧
      p = { q with hops := ⟨segment, target⟩ :: q.hops } := by
  obtain ⟨s, ss, rfl⟩ := List.exists_cons_of_ne_nil hne
  unfold resolvePath at h
  cases ha : t.getAttr segment with
  | error e => simp [ha] at h
  | ok a =>
    cases htarget : a.kind.relationTarget? with
    | none => simp [ha, htarget] at h
    | some target =>
      cases hnext : r.get target with
      | error e => simp [ha, htarget, hnext] at h
      | ok next =>
        cases hq : resolvePath r next (s :: ss) with
        | error e => simp [ha, htarget, hnext, hq] at h
        | ok q =>
          have hattr := DocumentType.getAttr_eq_ok_iff.mp ha
          simp only [ha, htarget, hnext, hq, Except.ok.injEq] at h
          refine ⟨a, target, next, q, hattr, htarget, Registry.get_eq_ok_iff.mp hnext, hq, ?_⟩
          rw [← h, DocumentType.attr?_name hattr]

variable {lookup : Lookup} {segments : List String} {p : FieldPath} {d e : Document}

/-- What the hops of a resolved path reach is the end of a chain along the path, and the last
segment is an attribute of the kind that the path has. -/
theorem chained_of_mem_reach (hp : resolvePath r t segments = .ok p)
    (he : e ∈ Comparison.reach lookup p.hops [d]) :
    ∃ ss u a, segments = ss ++ [p.field] ∧ Chained r lookup t d ss u e ∧
      u.attr? p.field = some a ∧ p.kind = .ofAttribute a.kind := by
  induction segments generalizing t d p with
  | nil => cases hp
  | cons s segments ih =>
    by_cases hne : segments = []
    · subst hne
      obtain ⟨a, ha, rfl⟩ := resolvePath_singleton hp
      obtain rfl := List.mem_singleton.mp he
      exact ⟨[], t, a, rfl, .here t e, ha, rfl⟩
    · obtain ⟨a, target, next, q, ha, htarget, hnext, hq, rfl⟩ := resolvePath_cons hne hp
      obtain ⟨v, c, hv, hc, hec⟩ := (Comparison.mem_reach_cons_iff lookup _ _ d e).mp he
      obtain ⟨ss, u, b, hss, hchain, hb, hkind⟩ := ih hq hec
      exact ⟨s :: ss, u, b, by rw [hss]; rfl,
        .hop t next u d c e s target ss a v ha htarget hnext hv hc hchain, hb, hkind⟩

theorem mem_reach_of_chained {ss : List String} {u : DocumentType} {a : AttributeDefinition}
    {field : String} (hp : resolvePath r t segments = .ok p) (hss : segments = ss ++ [field])
    (hchain : Chained r lookup t d ss u e) (ha : u.attr? field = some a) :
    p.field = field ∧ p.kind = .ofAttribute a.kind ∧
      e ∈ Comparison.reach lookup p.hops [d] := by
  induction hchain generalizing segments p with
  | here t d =>
    subst hss
    obtain ⟨b, hb, rfl⟩ := resolvePath_singleton hp
    obtain rfl := Option.some.inj (ha.symm.trans hb)
    exact ⟨rfl, rfl, List.mem_singleton_self d⟩
  | hop t next u d c e segment target ss b v hb htarget hnext hv hc _ ih =>
    subst hss
    obtain ⟨b', target', next', q, hb', htarget', hnext', hq, rfl⟩ :=
      resolvePath_cons (List.append_ne_nil_of_right_ne_nil ss (List.cons_ne_nil field [])) hp
    obtain rfl := Option.some.inj (hb.symm.trans hb')
    obtain rfl := Option.some.inj (htarget.symm.trans htarget')
    obtain rfl := Option.some.inj (hnext.symm.trans hnext')
    obtain ⟨hfield, hkind, he⟩ := ih hq rfl ha
    exact ⟨hfield, hkind,
      (Comparison.mem_reach_cons_iff lookup _ _ d e).mpr ⟨v, c, hv, hc, he⟩⟩

end

/-! ## Trees -/

namespace Filter

section
variable {r : Registry} {t : DocumentType}

theorem compile_leaf {path : String} {op : FilterOp} {operand : Value} {p : Predicate}
    (h : (Filter.leaf path op operand).compile r t = .ok p) :
    ∃ q c, resolvePath r t (Text.split '.' path) = .ok q ∧ compileLeaf q op operand = .ok c ∧
      p = .compare c := by
  unfold compile at h
  cases hq : resolvePath r t (Text.split '.' path) with
  | error e => simp [hq] at h
  | ok q =>
    cases hc : compileLeaf q op operand with
    | error e => simp [hq, hc] at h
    | ok c =>
      simp only [hq, hc, Except.ok.injEq] at h
      exact ⟨q, c, rfl, hc, h.symm⟩

theorem compile_and {children : List Filter} {p : Predicate}
    (h : (Filter.and children).compile r t = .ok p) :
    ∃ ps, compileAll r t children = .ok ps ∧ p = .and ps := by
  unfold compile at h
  split at h
  · cases h
  · obtain ⟨ps, hps, rfl⟩ := Except.map_eq_ok_iff.mp h
    exact ⟨ps, hps, rfl⟩

theorem compile_or {children : List Filter} {p : Predicate}
    (h : (Filter.or children).compile r t = .ok p) :
    ∃ ps, compileAll r t children = .ok ps ∧ p = .or ps := by
  unfold compile at h
  split at h
  · cases h
  · obtain ⟨ps, hps, rfl⟩ := Except.map_eq_ok_iff.mp h
    exact ⟨ps, hps, rfl⟩

theorem compile_not {child : Filter} {p : Predicate}
    (h : (Filter.not child).compile r t = .ok p) :
    ∃ q, child.compile r t = .ok q ∧ p = .not q := by
  unfold compile at h
  obtain ⟨q, hq, rfl⟩ := Except.map_eq_ok_iff.mp h
  exact ⟨q, hq, rfl⟩

theorem compileAll_cons {f : Filter} {fs : List Filter} {ps : List Predicate}
    (h : compileAll r t (f :: fs) = .ok ps) :
    ∃ p ps', f.compile r t = .ok p ∧ compileAll r t fs = .ok ps' ∧ ps = p :: ps' := by
  unfold compileAll at h
  cases hp : f.compile r t with
  | error e => simp [hp] at h
  | ok p =>
    cases hps : compileAll r t fs with
    | error e => simp [hp, hps] at h
    | ok ps' =>
      simp only [hp, hps, Except.ok.injEq] at h
      exact ⟨p, ps', rfl, rfl, h.symm⟩

end

/-! ## Leaves and trees -/

variable {r : Registry} {t : DocumentType} {path : FieldPath} {op : FilterOp} {operand : Value}
  {c : Comparison}

theorem compileLeaf_path_op (hc : compileLeaf path op operand = .ok c) :
    c.path = path ∧ c.op = op := by
  cases hop : op.isPresence with
  | true =>
    rw [Comparison.compileLeaf_presence hop hc]
    exact ⟨rfl, rfl⟩
  | false =>
    obtain ⟨s, o, -, -, rfl⟩ := Comparison.compileLeaf_eq_ok hop hc
    exact ⟨rfl, rfl⟩

theorem compileLeaf_membership (hop : op = .isIn ∨ op = .notIn)
    (hc : compileLeaf path op operand = .ok c) :
    c.operand = .many [] ↔ operand = .list [] := by
  have hpresence : op.isPresence = false := by rcases hop with rfl | rfl <;> rfl
  obtain ⟨s, o, -, ho, rfl⟩ := Comparison.compileLeaf_eq_ok hpresence hc
  obtain ⟨ws, hws, rfl⟩ := Datum.compileShape_membership hop ho
  have hlength := (Datum.compileOperands_eq_ok hws).length_eq
  have hmembers : operand.members = [] ↔ operand = .list [] := by
    cases operand <;> simp [Value.members]
  rw [← hmembers, ← List.length_eq_zero_iff, hlength, List.length_eq_zero_iff]
  simp

/-- Exactly membership in an empty list is decided before any document is looked at. -/
theorem emptyMembership?_eq_some_iff (hc : compileLeaf path op operand = .ok c) (b : Bool) :
    c.emptyMembership? = some b ↔
      operand = .list [] ∧ (op = .isIn ∧ b = false ∨ op = .notIn ∧ b = true) := by
  have hcop := (compileLeaf_path_op hc).2
  unfold Comparison.emptyMembership?
  by_cases hop : op = .isIn ∨ op = .notIn
  · rw [← compileLeaf_membership hop hc, hcop]
    rcases hop with rfl | rfl
    · split <;> simp_all
    · split <;> simp_all
  · push Not at hop
    rw [hcop]
    split <;> simp_all

/-- A compiled leaf holds of the documents that the leaf selects. -/
theorem matches?_compileLeaf_iff {dotted : String} {lookup : Lookup} {d : Document}
    (hp : resolvePath r t (Text.split '.' dotted) = .ok path)
    (hc : compileLeaf path op operand = .ok c) :
    c.matches? lookup d = true ↔ LeafSelects r lookup t d dotted op operand := by
  have hempty := emptyMembership?_eq_some_iff hc
  unfold Comparison.matches?
  cases hm : c.emptyMembership? with
  | some b =>
    obtain ⟨hlist, ⟨rfl, rfl⟩ | ⟨rfl, rfl⟩⟩ := (hempty b).mp hm
    · subst hlist
      simpa using not_leafSelects_isIn_nil r lookup t d dotted
    · subst hlist
      simpa using leafSelects_notIn_nil r lookup t d dotted
  | none =>
    obtain ⟨rfl, -⟩ := compileLeaf_path_op hc
    simp only [List.any_eq_true]
    constructor
    · rintro ⟨e, he, hfield⟩
      obtain ⟨ss, u, a, hss, hchain, ha, hkind⟩ := chained_of_mem_reach hp he
      exact .inr ⟨ss, c.path.field, u, e, a, hss, hchain, ha,
        (Comparison.holdsOfField_compileLeaf_iff hkind hc _).mp hfield⟩
    · rintro (⟨rfl, rfl⟩ | ⟨ss, field, u, e, a, hss, hchain, ha, hfield⟩)
      · rw [(hempty true).mpr ⟨rfl, .inr ⟨rfl, rfl⟩⟩] at hm
        cases hm
      · obtain ⟨rfl, hkind, he⟩ := mem_reach_of_chained hp hss hchain ha
        exact ⟨e, he, (Comparison.holdsOfField_compileLeaf_iff hkind hc _).mpr hfield⟩

section
variable (lookup : Lookup) (d : Document)

mutual
theorem holds_iff_of_compile : ∀ (f : Filter) (p : Predicate), f.compile r t = .ok p →
    (p.holds lookup d = true ↔ f.Selects r lookup t d)
  | .leaf path op operand, p, h => by
    obtain ⟨fieldPath, c, hpath, hc, rfl⟩ := compile_leaf h
    exact matches?_compileLeaf_iff hpath hc
  | .and children, p, h => by
    obtain ⟨ps, hps, rfl⟩ := compile_and h
    exact holdsAll_iff_of_compile children ps hps
  | .or children, p, h => by
    obtain ⟨ps, hps, rfl⟩ := compile_or h
    exact holdsAny_iff_of_compile children ps hps
  | .not child, p, h => by
    obtain ⟨q, hq, rfl⟩ := compile_not h
    unfold Predicate.holds Selects
    rw [Bool.not_eq_true', ← holds_iff_of_compile child q hq, Bool.not_eq_true]

theorem holdsAll_iff_of_compile : ∀ (fs : List Filter) (ps : List Predicate),
    compileAll r t fs = .ok ps →
    (Predicate.holdsAll lookup d ps = true ↔ SelectsAll r lookup t d fs)
  | [], ps, h => by
    obtain rfl := Except.ok.inj h
    simp [Predicate.holdsAll, SelectsAll]
  | f :: fs, ps, h => by
    obtain ⟨p, ps', hp, hps, rfl⟩ := compileAll_cons h
    simp only [Predicate.holdsAll, SelectsAll, Bool.and_eq_true, holds_iff_of_compile f p hp,
      holdsAll_iff_of_compile fs ps' hps]

theorem holdsAny_iff_of_compile : ∀ (fs : List Filter) (ps : List Predicate),
    compileAll r t fs = .ok ps →
    (Predicate.holdsAny lookup d ps = true ↔ SelectsAny r lookup t d fs)
  | [], ps, h => by
    obtain rfl := Except.ok.inj h
    simp [Predicate.holdsAny, SelectsAny]
  | f :: fs, ps, h => by
    obtain ⟨p, ps', hp, hps, rfl⟩ := compileAll_cons h
    simp only [Predicate.holdsAny, SelectsAny, Bool.or_eq_true, holds_iff_of_compile f p hp,
      holdsAny_iff_of_compile fs ps' hps]
end

end

/-- A compiled filter holds of exactly the documents that the filter selects, whatever the document
and however references are looked up. -/
theorem compile_preserves_meaning {f : Filter} {p : Predicate} (h : f.compile r t = .ok p)
    (lookup : Lookup) (d : Document) :
    p.holds lookup d = true ↔ f.Selects r lookup t d :=
  holds_iff_of_compile lookup d f p h

/-- A filter through a relation and a negated one, on a document whose author is a reference. -/
theorem compile_preserves_meaning_blog :
    let f : Filter := .and [.leaf "author.name" .startsWithi (.text "a"),
      .not (.leaf "releasedOn" .lt (.text "2024-01-01"))]
    let r : Registry := ⟨[("article", Blog.article), ("author", Blog.author)]⟩
    let p : Predicate := .and [
      .compare ⟨⟨[⟨"author", "author"⟩], "name", .scalar .text⟩, .startsWithi, .one (.text "a")⟩,
      .not (.compare ⟨⟨[], "releasedOn", .scalar .datetime⟩, .lt, .one (.int 1704067200000)⟩)]
    let d : Document := ⟨"article", "a1", none, [("author", .ref "au1")]⟩
    let lookup : Lookup := fun _ id =>
      if id = "au1" then some ⟨"author", "au1", none, [("name", .text "Ada")]⟩ else none
    f.compile r Blog.article = .ok p ∧ p.holds lookup d = true ∧
      f.Selects r lookup Blog.article d := by
  intro f r p d lookup
  have hp : f.compile r Blog.article = .ok p := rfl
  have hd : p.holds lookup d = true := by decide +kernel
  exact ⟨hp, hd, (compile_preserves_meaning hp lookup d).mp hd⟩

end Filter
end ContentEngine
