import ContentEngine.Proofs.Filter.Compilation
import ContentEngine.Proofs.Text.Split

/-!
# Leaves behind a relation

A leaf that compiles on the target of a relation compiles behind the relation, and holds there of the
documents that the relation leads to one that the leaf holds of. What a comparison looks up are
documents of the targets of its hops only.
-/

namespace ContentEngine

/-! ## What a comparison looks up -/

theorem Value.Leads.congr {lookup lookup' : Lookup} {target : String} {v : Value} {d : Document}
    (h : lookup target = lookup' target) (hd : v.Leads lookup target d) :
    v.Leads lookup' target d := by
  induction hd with
  | ref id d hid => exact .ref id d (h ▸ hid)
  | doc d => exact .doc d
  | item items v d hv _ ih => exact .item items v d hv ih

namespace Comparison
variable {lookup lookup' : Lookup} {c : Comparison}

theorem mem_reach_of_agree {hops : List Hop}
    (h : ∀ hop ∈ hops, lookup hop.target = lookup' hop.target) {d e : Document}
    (he : e ∈ reach lookup hops [d]) : e ∈ reach lookup' hops [d] := by
  induction hops generalizing d with
  | nil => exact he
  | cons hop hops ih =>
    obtain ⟨hhop, hhops⟩ := List.forall_mem_cons.1 h
    obtain ⟨v, x, hv, hx, he⟩ := (mem_reach_cons_iff lookup hop hops d e).1 he
    exact (mem_reach_cons_iff lookup' hop hops d e).2 ⟨v, x, hv, hx.congr hhop, ih hhops he⟩

theorem matches?_of_agree (h : ∀ hop ∈ c.path.hops, lookup hop.target = lookup' hop.target)
    {d : Document} (hd : c.matches? lookup d = true) : c.matches? lookup' d = true := by
  unfold matches? at hd ⊢
  cases hm : c.emptyMembership? with
  | some b =>
    rw [hm] at hd
    exact hd
  | none =>
    simp only [hm, List.any_eq_true] at hd ⊢
    obtain ⟨e, he, hfield⟩ := hd
    exact ⟨e, mem_reach_of_agree h he, hfield⟩

/-- The comparison behind a hop. -/
def behind (hop : Hop) (c : Comparison) : Comparison :=
  { c with path := { c.path with hops := hop :: c.path.hops } }

/-- A comparison behind a hop holds of a document if it holds of one that the hop leads to; only
membership in no list at all asks for no such document. -/
theorem matches?_behind (hop : Hop) (hempty : c.emptyMembership? ≠ some true) (d : Document) :
    (c.behind hop).matches? lookup d = true ↔
      ∃ v x, d.get? hop.attr = some v ∧ v.Leads lookup hop.target x ∧
        c.matches? lookup x = true := by
  have hsame : (c.behind hop).emptyMembership? = c.emptyMembership? := rfl
  unfold matches?
  rw [hsame]
  cases hm : c.emptyMembership? with
  | some b =>
    obtain rfl : b = false := by
      cases b with
      | false => rfl
      | true => exact absurd hm hempty
    simp
  | none =>
    simp only [List.any_eq_true]
    constructor
    · rintro ⟨e, he, hfield⟩
      obtain ⟨v, x, hv, hx, he⟩ := (mem_reach_cons_iff lookup hop c.path.hops d e).1 he
      exact ⟨v, x, hv, hx, e, he, hfield⟩
    · rintro ⟨v, x, hv, hx, e, he, hfield⟩
      exact ⟨e, (mem_reach_cons_iff lookup hop c.path.hops d e).2 ⟨v, x, hv, hx, he⟩, hfield⟩

end Comparison

/-! ## A path behind a relation -/

section
variable {r : Registry} {t next : DocumentType} {attr target : String} {a : AttributeDefinition}

theorem resolvePath_hop (ha : t.attr? attr = some a) (htarget : a.kind.relationTarget? = some target)
    (hnext : r.get? target = some next) {segments : List String} {q : FieldPath}
    (hne : segments ≠ []) (hq : resolvePath r next segments = .ok q) :
    resolvePath r t (attr :: segments) = .ok { q with hops := ⟨attr, target⟩ :: q.hops } := by
  obtain ⟨s, ss, rfl⟩ := List.exists_cons_of_ne_nil hne
  have hattr := DocumentType.getAttr_eq_ok_iff.2 ha
  have hget := Registry.get_eq_ok_iff.2 hnext
  rw [resolvePath]
  · simp only [hattr, htarget, hget, hq, DocumentType.attr?_name ha]
  · exact List.cons_ne_nil s ss

end

/-! ## A leaf behind a relation -/

section
variable {kind : ScalarKind} {op : FilterOp} {field : String}

theorem compileOperand_field {v w : Value} (h : compileOperand kind op field v = .ok w)
    (field' : String) : compileOperand kind op field' v = .ok w := by
  unfold compileOperand at h ⊢
  cases hv : v.normalize? kind with
  | none => simp [hv] at h
  | some u => simpa [hv] using h

theorem compileOperands_field {vs ws : List Value} (h : compileOperands kind op field vs = .ok ws)
    (field' : String) : compileOperands kind op field' vs = .ok ws := by
  induction vs generalizing ws with
  | nil => exact h
  | cons v vs ih =>
    rw [compileOperands] at h ⊢
    cases hv : compileOperand kind op field v with
    | error e => simp [hv] at h
    | ok w =>
      cases hvs : compileOperands kind op field vs with
      | error e => simp [hv, hvs] at h
      | ok us =>
        simp only [hv, hvs] at h
        simpa only [compileOperand_field hv field', ih hvs] using h

theorem compileRange_field {low high : Value} {o : Operand}
    (h : compileRange kind op field low high = .ok o) (field' : String) :
    compileRange kind op field' low high = .ok o := by
  unfold compileRange at h ⊢
  cases hlow : compileOperand kind op field low with
  | error e => simp [hlow] at h
  | ok l =>
    cases hhigh : compileOperand kind op field high with
    | error e => simp [hlow, hhigh] at h
    | ok u =>
      simp only [hlow, hhigh, compileOperand_field hlow field', compileOperand_field hhigh field']
        at h ⊢
      split at h
      · cases h
      · rwa [if_neg (by assumption)]

/-- The name of the field only shows in messages. -/
theorem compileShape_field {operand : Value} {o : Operand}
    (h : compileShape kind op field operand = .ok o) (field' : String) :
    compileShape kind op field' operand = .ok o := by
  by_cases hin : op = .isIn
  · subst hin
    obtain ⟨ws, hws, rfl⟩ := Datum.compileShape_membership (.inl rfl) h
    exact Except.map_eq_ok_iff.2 ⟨ws, compileOperands_field hws field', rfl⟩
  by_cases hnotIn : op = .notIn
  · subst hnotIn
    obtain ⟨ws, hws, rfl⟩ := Datum.compileShape_membership (.inr rfl) h
    exact Except.map_eq_ok_iff.2 ⟨ws, compileOperands_field hws field', rfl⟩
  by_cases hbetween : op = .between
  · subst hbetween
    simp only [compileShape] at h ⊢
    split at h
    · exact compileRange_field h field'
    · cases h
  · obtain ⟨w, hw, rfl⟩ := Datum.compileShape_single hin hnotIn hbetween h
    have hshape : compileShape kind op field' operand =
        (compileOperand kind op field' operand).map .one := by
      cases op <;> first | rfl | contradiction
    rw [hshape]
    exact Except.map_eq_ok_iff.2 ⟨w, compileOperand_field hw field', rfl⟩

theorem comparisonKind_field {fieldKind : FieldKind} {s : ScalarKind}
    (h : comparisonKind op field fieldKind = .ok s) (field' : String) :
    comparisonKind op field' fieldKind = .ok s := by
  unfold comparisonKind at h ⊢
  split at h
  · cases h
  · cases h
  · split at h
    · cases h
    · split at h
      · cases h
      · rwa [if_neg (by assumption), if_neg (by assumption)]

theorem compileLeaf_behind {path : FieldPath} {operand : Value} {c : Comparison}
    (h : compileLeaf path op operand = .ok c) (hop : Hop) :
    compileLeaf { path with hops := hop :: path.hops } op operand = .ok (c.behind hop) := by
  cases hpresence : op.isPresence with
  | true =>
    rw [Comparison.compileLeaf_presence hpresence h]
    unfold compileLeaf
    rw [if_pos hpresence]
    rfl
  | false =>
    have hnot : ¬ op.isPresence = true := by simp [hpresence]
    unfold compileLeaf at h ⊢
    rw [if_neg hnot] at h ⊢
    cases hs : comparisonKind op path.dotted path.kind with
    | error e => simp [hs] at h
    | ok s =>
      simp only [hs] at h
      obtain ⟨o, ho, rfl⟩ := Except.map_eq_ok_iff.1 h
      simp only [comparisonKind_field hs]
      exact Except.map_eq_ok_iff.2 ⟨o, compileShape_field ho _, rfl⟩

variable {r : Registry} {t next : DocumentType} {attr target : String} {a : AttributeDefinition}

/-- A leaf that compiles on the target of a relation compiles behind the relation. -/
theorem Filter.compile_behind (hdot : '.' ∉ attr.toList) (ha : t.attr? attr = some a)
    (htarget : a.kind.relationTarget? = some target) (hnext : r.get? target = some next)
    {path : String} {operand : Value} {c : Comparison}
    (h : (Filter.leaf path op operand).compile r next = .ok (.compare c)) :
    (Filter.leaf (attr ++ "." ++ path) op operand).compile r t =
      .ok (.compare (c.behind ⟨attr, target⟩)) := by
  obtain ⟨p, c, hp, hc, ⟨⟩⟩ := compile_leaf h
  rw [compile, Text.split_dotted hdot, resolvePath_hop ha htarget hnext (Text.split_ne_nil path) hp]
  simp only [compileLeaf_behind hc]

end

end ContentEngine
