import ContentEngine.Proofs.Filter.Compilation
import Mathlib.Logic.Relation

/-!
# Resolved references

Under a relation, a document holds references, or the documents themselves where the relation was
populated. A filter goes through both, with a look-up for the references. What it says of a document
stays the same when references are resolved with that look-up, one or all of them, also in lists and
in the documents that were put in before: `holds_of_resolved`.
-/

namespace ContentEngine

section
variable (r : Registry) (lookup : Lookup)

mutual
/-- In the second document one reference of the first one is resolved, under a relation of the type
that the documents are of. -/
inductive Resolves : DocumentType → Document → Document → Prop
  | field (t : DocumentType) (docType : String) (id : DocumentId) (status : Option Status)
      (before after : List (String × Value)) (name target : String) (a : AttributeDefinition)
      (v w : Value) (ha : t.attr? name = some a) (htarget : a.kind.relationTarget? = some target)
      (h : ResolvesIn target v w) :
      Resolves t ⟨docType, id, status, before ++ (name, v) :: after⟩
        ⟨docType, id, status, before ++ (name, w) :: after⟩

/-- One reference in a value under a relation gives way to the document that the look-up has for
it. -/
inductive ResolvesIn : String → Value → Value → Prop
  | ref (target : String) (id : DocumentId) (d : Document) (h : lookup target id = some d) :
      ResolvesIn target (.ref id) (.doc d)
  | item (target : String) (before after : List Value) (v w : Value)
      (h : ResolvesIn target v w) :
      ResolvesIn target (.list (before ++ v :: after)) (.list (before ++ w :: after))
  | inside (target : String) (u : DocumentType) (d e : Document) (hu : r.get? target = some u)
      (h : Resolves u d e) : ResolvesIn target (.doc d) (.doc e)
end

/-- The documents are the same, or one reference is resolved in only one of them. -/
def Akin (t : DocumentType) (d e : Document) : Prop :=
  d = e ∨ Resolves r lookup t d e ∨ Resolves r lookup t e d

/-- The same of values under a relation. -/
def AkinIn (target : String) (v w : Value) : Prop :=
  v = w ∨ ResolvesIn r lookup target v w ∨ ResolvesIn r lookup target w v

end

variable {r : Registry} {lookup : Lookup} {t : DocumentType} {d e : Document} {target : String}
  {v w : Value}

theorem Akin.symm (h : Akin r lookup t d e) : Akin r lookup t e d :=
  h.imp Eq.symm Or.symm

theorem AkinIn.symm (h : AkinIn r lookup target v w) : AkinIn r lookup target w v :=
  h.imp Eq.symm Or.symm

/-! ## One reference -/

/-- A list in which one item gives way to another leads on as far as that item does. -/
theorem Value.leads_list {R : Document → Document → Prop} (hrefl : ∀ c, R c c)
    {before after : List Value} {v w : Value}
    (h : ∀ c, v.Leads lookup target c → ∃ c', w.Leads lookup target c' ∧ R c c') {c : Document}
    (hc : (Value.list (before ++ v :: after)).Leads lookup target c) :
    ∃ c', (Value.list (before ++ w :: after)).Leads lookup target c' ∧ R c c' := by
  cases hc with
  | item _ x _ hx hc =>
    rcases List.mem_append.1 hx with hx | hx
    · exact ⟨c, .item _ x c (List.mem_append_left _ hx) hc, hrefl c⟩
    rcases List.mem_cons.1 hx with rfl | hx
    · obtain ⟨c', hc', hR⟩ := h c hc
      exact ⟨c', .item _ w c' (by simp) hc', hR⟩
    · exact ⟨c, .item _ x c (by simp [hx]) hc, hrefl c⟩

/-- The documents are akin for the type that a relation leads to. -/
def AkinBehind (r : Registry) (lookup : Lookup) (target : String) (c c' : Document) : Prop :=
  ∀ next, r.get? target = some next → Akin r lookup next c c'

theorem akinBehind_refl (c : Document) : AkinBehind r lookup target c c := fun _ _ => .inl rfl

theorem ResolvesIn.leads : ∀ {target : String} {v w : Value}, ResolvesIn r lookup target v w →
    (∀ c, v.Leads lookup target c → ∃ c', w.Leads lookup target c' ∧
      AkinBehind r lookup target c c') ∧
    ∀ c, w.Leads lookup target c → ∃ c', v.Leads lookup target c' ∧
      AkinBehind r lookup target c c'
  | _, _, _, .ref target id d h => by
    constructor
    · intro c hc
      cases hc with
      | ref _ _ hc =>
        obtain rfl := Option.some.inj (h.symm.trans hc)
        exact ⟨d, .doc d, akinBehind_refl d⟩
    · intro c hc
      cases hc
      exact ⟨d, .ref id d h, akinBehind_refl d⟩
  | _, _, _, .item target before after v w h =>
    ⟨fun _ => Value.leads_list akinBehind_refl h.leads.1,
      fun _ => Value.leads_list akinBehind_refl h.leads.2⟩
  | _, _, _, .inside target u d e hu h => by
    constructor
    · intro c hc
      cases hc
      refine ⟨e, .doc e, fun next hnext => ?_⟩
      obtain rfl := Option.some.inj (hu.symm.trans hnext)
      exact .inr (.inl h)
    · intro c hc
      cases hc
      refine ⟨d, .doc d, fun next hnext => ?_⟩
      obtain rfl := Option.some.inj (hu.symm.trans hnext)
      exact .inr (.inr h)

theorem AkinIn.leads (h : AkinIn r lookup target v w) {c : Document}
    (hc : v.Leads lookup target c) :
    ∃ c', w.Leads lookup target c' ∧ AkinBehind r lookup target c c' := by
  rcases h with rfl | h | h
  · exact ⟨c, hc, akinBehind_refl c⟩
  · exact h.leads.1 c hc
  · exact h.leads.2 c hc

theorem Value.Absent.isAbsent {v : Value} (h : Absent (some v)) : v.isAbsent = true := by
  cases h <;> rfl

/-- A reference is present, and so is the document that it stands for. -/
theorem ResolvesIn.isAbsent (h : ResolvesIn r lookup target v w) :
    v.isAbsent = false ∧ w.isAbsent = false := by
  cases h with
  | item target before after v w h => cases before <;> exact ⟨rfl, rfl⟩
  | _ => exact ⟨rfl, rfl⟩

theorem AkinIn.absent (h : AkinIn r lookup target v w) (hv : Value.Absent (some v)) :
    Value.Absent (some w) := by
  rcases h with rfl | h | h
  · exact hv
  · exact absurd hv.isAbsent (by simp [h.isAbsent])
  · exact absurd hv.isAbsent (by simp [h.isAbsent])

/-! ## The fields of a document -/

/-- A field is the same in both documents, or lies under a relation and is akin. -/
inductive AkinField (r : Registry) (lookup : Lookup) (t : DocumentType) (name : String) :
    Option Value → Option Value → Prop
  | same (field : Option Value) : AkinField r lookup t name field field
  | relation (a : AttributeDefinition) (target : String) (v w : Value)
      (ha : t.attr? name = some a) (htarget : a.kind.relationTarget? = some target)
      (h : AkinIn r lookup target v w) : AkinField r lookup t name (some v) (some w)

theorem AkinField.symm {name : String} {x y : Option Value} (h : AkinField r lookup t name x y) :
    AkinField r lookup t name y x := by
  cases h with
  | same => exact .same _
  | relation a target v w ha htarget h =>
    exact .relation a target w v ha htarget h.symm

theorem Resolves.akinField (h : Resolves r lookup t d e) (name : String) :
    AkinField r lookup t name (d.get? name) (e.get? name) := by
  cases h with
  | field _ _ _ _ before after field target a v w ha htarget h =>
    simp only [Document.get?, Entries.get?_append, Entries.get?]
    cases Entries.get? before name with
    | some x => exact .same _
    | none =>
      by_cases hname : field = name
      · subst hname
        simpa using AkinField.relation a target v w ha htarget (.inr (.inl h))
      · simpa [hname] using AkinField.same _

theorem Akin.field (h : Akin r lookup t d e) (name : String) :
    AkinField r lookup t name (d.get? name) (e.get? name) := by
  rcases h with rfl | h | h
  · exact .same _
  · exact h.akinField name
  · exact (h.akinField name).symm

theorem Akin.id (h : Akin r lookup t d e) : d.id = e.id := by
  rcases h with rfl | ⟨⟨⟩⟩ | ⟨⟨⟩⟩ <;> rfl

/-! ## Chains -/

/-- Chains along the same relations lead from akin documents to akin documents. -/
theorem Chained.akin {segments : List String} {u : DocumentType} {x : Document}
    (hx : Chained r lookup t d segments u x) : ∀ {e}, Akin r lookup t d e →
      ∃ y, Chained r lookup t e segments u y ∧ Akin r lookup u x y := by
  induction hx with
  | here t d => exact fun {e} h => ⟨e, .here t e, h⟩
  | hop t next u d c x segment target segments a v ha htarget hnext hv hc _ ih =>
    intro e h
    have hfield := h.field segment
    rw [hv] at hfield
    obtain ⟨w, hw, hvw⟩ : ∃ w, e.get? segment = some w ∧ AkinIn r lookup target v w := by
      generalize hw : e.get? segment = field at hfield
      cases hfield with
      | same => exact ⟨v, rfl, .inl rfl⟩
      | relation b target' _ w hb htarget' hvw =>
        obtain rfl := Option.some.inj (ha.symm.trans hb)
        obtain rfl := Option.some.inj (htarget.symm.trans htarget')
        exact ⟨w, rfl, hvw⟩
    obtain ⟨c', hc', hakin⟩ := hvw.leads hc
    obtain ⟨y, hy, hxy⟩ := ih (hakin next hnext)
    exact ⟨y, .hop t next u e c' y segment target segments a w ha htarget hnext hw hc' hy, hxy⟩

/-! ## Filters -/

namespace Filter

/-- A relation has no scalar kind, so only its presence can be asked for. -/
theorem satisfiedByField_akin {op : FilterOp} {a : AttributeDefinition} {name : String}
    (ha : t.attr? name = some a) {x y : Option Value} (h : AkinField r lookup t name x y)
    {operand : Value} :
    op.SatisfiedByField a.kind x operand → op.SatisfiedByField a.kind y operand := by
  cases h with
  | same => exact id
  | relation b target v w hb htarget hvw =>
    obtain rfl := Option.some.inj (ha.symm.trans hb)
    have hscalar : ∀ s, a.kind ≠ .scalar s := by
      intro s hs
      simp [hs, AttributeKind.relationTarget?] at htarget
    cases op with
    | null => exact hvw.absent
    | notNull => exact fun hv hw => hv (hvw.symm.absent hw)
    | _ =>
      rintro ⟨s, _, _, hs, _⟩
      exact absurd hs (hscalar s)

theorem leafSelects_akin (h : Akin r lookup t d e) {path : String} {op : FilterOp}
    {operand : Value} :
    LeafSelects r lookup t d path op operand → LeafSelects r lookup t e path op operand := by
  rintro (hempty | ⟨segments, field, u, x, a, hpath, hx, ha, hfield⟩)
  · exact .inl hempty
  · obtain ⟨y, hy, hxy⟩ := hx.akin h
    refine .inr ⟨segments, field, u, y, a, hpath, hy, ha, ?_⟩
    by_cases hid : field = documentIdName
    · rw [if_pos hid] at hfield ⊢
      rwa [← hxy.id]
    · rw [if_neg hid] at hfield ⊢
      exact satisfiedByField_akin ha (hxy.field field) hfield

mutual
theorem selects_akin (h : Akin r lookup t d e) : ∀ f : Filter,
    f.Selects r lookup t d ↔ f.Selects r lookup t e
  | .leaf path op operand => by
    unfold Selects
    exact ⟨leafSelects_akin h, leafSelects_akin h.symm⟩
  | .and children => by
    unfold Selects
    exact selectsAll_akin h children
  | .or children => by
    unfold Selects
    exact selectsAny_akin h children
  | .not child => by
    unfold Selects
    exact not_congr (selects_akin h child)

theorem selectsAll_akin (h : Akin r lookup t d e) : ∀ fs : List Filter,
    SelectsAll r lookup t d fs ↔ SelectsAll r lookup t e fs
  | [] => Iff.rfl
  | f :: fs => and_congr (selects_akin h f) (selectsAll_akin h fs)

theorem selectsAny_akin (h : Akin r lookup t d e) : ∀ fs : List Filter,
    SelectsAny r lookup t d fs ↔ SelectsAny r lookup t e fs
  | [] => Iff.rfl
  | f :: fs => or_congr (selects_akin h f) (selectsAny_akin h fs)
end

/-- With references resolved by the look-up that it uses, a compiled filter says of a document what
it said before. -/
theorem holds_of_resolved {f : Filter} {p : Predicate} (hp : f.compile r t = .ok p)
    {d e : Document} (h : Relation.ReflTransGen (Resolves r lookup t) d e) :
    p.holds lookup e = p.holds lookup d := by
  induction h with
  | refl => rfl
  | tail _ hstep ih =>
    rw [← ih, Bool.eq_iff_iff, holds_iff_of_compile lookup _ f p hp,
      holds_iff_of_compile lookup _ f p hp]
    exact (selects_akin (.inr (.inl hstep)) f).symm

/-- An article with its author and the first of its tags resolved; the second tag is not found. -/
theorem holds_of_resolved_blog :
    let f : Filter := .and [.leaf "author.name" .startsWith (.text "A"), .leaf "tags" .notNull .null,
      .not (.leaf "tags.label" .eq (.text "news"))]
    let r : Registry := ⟨[("article", Blog.article), ("author", Blog.author), ("tag", Blog.tag)]⟩
    let p : Predicate := .and [
      .compare ⟨⟨[⟨"author", "author"⟩], "name", .scalar .text⟩, .startsWith, .one (.text "A")⟩,
      .compare ⟨⟨[], "tags", .relation⟩, .notNull, .none⟩,
      .not (.compare ⟨⟨[⟨"tags", "tag"⟩], "label", .scalar .text⟩, .eq, .one (.text "news")⟩)]
    let ada : Document := ⟨"author", "u", none, [("name", .text "Ada")]⟩
    let cms : Document := ⟨"tag", "t", none, [("label", .text "cms")]⟩
    let lookup : Lookup := fun _ id => if id = "u" then some ada else if id = "t" then some cms else none
    let d : Document :=
      ⟨"article", "a", none, [("author", .ref "u"), ("tags", .list [.ref "t", .ref "lost"])]⟩
    let e : Document :=
      ⟨"article", "a", none, [("author", .doc ada), ("tags", .list [.doc cms, .ref "lost"])]⟩
    f.compile r Blog.article = .ok p ∧ Relation.ReflTransGen (Resolves r lookup Blog.article) d e ∧
      p.holds lookup d = true ∧ p.holds lookup e = true := by
  intro f r p ada cms lookup d e
  have hp : f.compile r Blog.article = .ok p := rfl
  have hauthor : Resolves r lookup Blog.article d
      ⟨"article", "a", none, [("author", .doc ada), ("tags", .list [.ref "t", .ref "lost"])]⟩ :=
    .field _ _ _ _ [] [("tags", .list [.ref "t", .ref "lost"])] "author" "author"
      (Blog.one "author" "author") _ _ rfl rfl (.ref _ _ _ rfl)
  have htag : Resolves r lookup Blog.article
      ⟨"article", "a", none, [("author", .doc ada), ("tags", .list [.ref "t", .ref "lost"])]⟩ e :=
    .field _ _ _ _ [("author", .doc ada)] [] "tags" "tag" (Blog.many "tags" "tag") _ _ rfl rfl
      (.item _ [] [.ref "lost"] _ _ (.ref _ _ _ rfl))
  have hde : Relation.ReflTransGen (Resolves r lookup Blog.article) d e :=
    (Relation.ReflTransGen.single hauthor).tail htag
  have hd : p.holds lookup d = true := by decide +kernel
  exact ⟨hp, hde, hd, (holds_of_resolved hp hde).trans hd⟩

end Filter
end ContentEngine
