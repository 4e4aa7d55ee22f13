import ContentEngine.Proofs.Engine.History
import ContentEngine.Proofs.Entries
import ContentEngine.Proofs.Lifecycle.Conformity
import ContentEngine.Sample.Blog
import Mathlib.Data.List.Induction

/-!
# Required attributes

A document is created with a value for each attribute that its type requires. From then on the
attribute keeps a value, but not necessarily one that is not null: an update may carry null for any
attribute, and only a creation is checked. With lawful hooks, this is the only way to lose a required
value.
-/

namespace ContentEngine

section
variable {r : Registry} {t : DocumentType} {components : Nat} {left : MutationEvent}
  {action : Action} {op : WriteOp}

/-- A creation brings a value for each attribute that the type requires. -/
theorem WriteOp.Checked.required (h : op.Checked r t components left action)
    {data : Entries Value} {status : Option Status} (hop : op = .create data status) :
    ∀ a ∈ t.attributes, a.required = true → a.name ∉ Coercion.systemNames ∧
      ∃ v, Entries.get? data a.name = some v ∧ v.isNull = false := by
  subst hop
  cases h with
  | create status' hstatus _ components' hdata =>
    obtain ⟨hgiven, hrequired⟩ := Coercion.gives_required r t _ _ components _ components' hdata
    intro a ha hreq
    obtain ⟨v, hv, hnull⟩ := hrequired rfl a ha hreq
    exact ⟨(hgiven _ (Entries.mem_of_get? hv)).1, v, hv, hnull⟩

/-- An update brings what the hooks have left. -/
theorem WriteOp.Checked.given (h : op.Checked r t components left action) {id : DocumentId}
    {data : Entries Value} {status : Option Status} (hop : op = .update id data status) :
    action = .update ∧ left.params.documentId = some id ∧
      ∀ f ∈ data, Coercion.Given left.params.data f := by
  subst hop
  cases h with
  | update _ hid status' hstatus _ components' hdata =>
    exact ⟨rfl, hid, (Coercion.gives_required r t _ _ components _ components' hdata).1⟩

end

/-! ## One mutation -/

/-- The mutation is an update of the document that was written, and the hooks before the write have
left null for the attribute. -/
def MutationCall.Clears (c : MutationCall) (s : EngineState MemoryStore) (docType : String)
    (id : DocumentId) (name : String) : Prop :=
  docType = c.docType ∧ c.action = .update ∧
    ∃ left, c.Leaves left ∧ left.params.documentId = some id ∧
      (∃ v, (name, v) ∈ left.params.data ∧ v.isNull = true) ∧
      ∃ data status, (c.answer s).log.served = [.write docType (.update id data status)]

/-- All that the type requires is there, and null only where it was cleared. -/
def Document.Keeps (t : DocumentType) (cleared : String → Prop) (d : Document) : Prop :=
  ∀ a ∈ t.attributes, a.required = true → a.name ∉ Coercion.systemNames ∧
    ∃ v, d.get? a.name = some v ∧ (v.isNull = true → cleared a.name)

/-- All versions of collections have what their types require. -/
def MemoryStore.Keeps (s : MemoryStore) (cleared : String → DocumentId → String → Prop) : Prop :=
  s.tables.Every fun docType id v => ∀ t, s.registry.collection docType = .ok t →
    v.All (Document.Keeps t (cleared docType id))

theorem unstamped_keeps (t : DocumentType) (cleared : String → Prop) :
    MemoryStore.Unstamped (Document.Keeps t cleared) where
  withStatus _ _ h := h
  stamp := by
    intro d name v hname _ h a ha hrequired
    obtain ⟨hsystem, w, hw, hcleared⟩ := h a ha hrequired
    have hne : name ≠ a.name := by
      rintro rfl
      simp only [stampNames, List.mem_cons, List.not_mem_nil, or_false] at hname
      exact hsystem (by simp [Coercion.systemNames, hname])
    exact ⟨hsystem, w, (Entries.get?_insert_ne _ _ hne).trans hw, hcleared⟩

theorem Document.Keeps.merge {t : DocumentType} {cleared : String → Prop} {d : Document}
    (h : d.Keeps t cleared) {data : Entries Value}
    (hdata : ∀ f ∈ data, f.2.isNull = true → cleared f.1) :
    (MemoryStore.merge d data).Keeps t cleared := by
  intro a ha hrequired
  obtain ⟨hsystem, w, hw, hcleared⟩ := h a ha hrequired
  refine ⟨hsystem, ?_⟩
  rcases Entries.get?_insertAll d.fields data a.name with hold | ⟨v, hv, hnew⟩
  · exact ⟨w, hold.trans hw, hcleared⟩
  · exact ⟨v, hnew, hdata _ hv⟩

namespace EngineState
variable {s : EngineState MemoryStore} {cleared : String → DocumentId → String → Prop}

theorem keeps_answer (h : s.store.Keeps cleared) {c : MutationCall} (hc : c.Lawful) :
    (c.answer s).state.store.Keeps fun docType id name =>
      cleared docType id name ∨ c.Clears s docType id name := by
  have hold : s.store.Keeps fun docType id name =>
      cleared docType id name ∨ c.Clears s docType id name := by
    intro docType id v hv t ht status d hd a ha hrequired
    obtain ⟨hsystem, w, hw, hcleared⟩ := h docType id v hv t ht status d hd a ha hrequired
    exact ⟨hsystem, w, hw, fun hnull => .inl (hcleared hnull)⟩
  unfold MemoryStore.Keeps at hold ⊢
  obtain ⟨hregistry, ⟨-, htables⟩ | ⟨t, left, op, hwrote⟩⟩ := c.wrote_or_unchanged s
  · rwa [hregistry, htables]
  · rw [hregistry]
    have hchecked := hwrote.checked hc
    obtain hsame | ⟨id, v, hv, hput⟩ | ⟨id, hremove⟩ := hwrote.effect.put_or_remove
      (P := fun id => Document.Keeps t fun name =>
        cleared c.docType id name ∨ c.Clears s c.docType id name)
      (fun _ => unstamped_keeps t _)
      (fun id v hv => hold c.docType id v hv t hwrote.collection)
      (fun data status hop a ha hrequired => by
        obtain ⟨hsystem, v, hv, hnull⟩ := hchecked.required hop a ha hrequired
        exact ⟨hsystem, v, hv, fun htrue => absurd (hnull.symm.trans htrue) (by simp)⟩)
      (fun id data status d hop hd => hd.merge fun f hf hnull => by
        obtain ⟨haction, hid, hgiven⟩ := hchecked.given hop
        obtain ⟨-, v, hv, hvnull⟩ := hgiven f hf
        exact .inr ⟨rfl, haction, left, hwrote.leaves, hid,
          ⟨v, hv, hvnull ▸ hnull⟩, data, status, hop ▸ hwrote.served⟩)
    · rwa [hsame]
    · rw [hput]
      refine hold.put fun t' ht' => ?_
      obtain rfl : t' = t := Except.ok.inj (ht'.symm.trans hwrote.collection)
      exact hv
    · rw [hremove]
      exact hold.remove c.docType id

/-! ## Runs -/

/-- At some point of a run the attribute of the document was cleared. -/
def Cleared (s : EngineState MemoryStore) (happenings : List Happening) (docType : String)
    (id : DocumentId) (name : String) : Prop :=
  ∃ before c after, happenings = before ++ .mutate c :: after ∧
    c.Clears (s.after before) docType id name

theorem Cleared.append {happenings : List Happening} {docType : String} {id : DocumentId}
    {name : String} (h : s.Cleared happenings docType id name) (last : Happening) :
    s.Cleared (happenings ++ [last]) docType id name := by
  obtain ⟨before, c, after, rfl, hclears⟩ := h
  exact ⟨before, c, after ++ [last], by simp, hclears⟩

theorem after_append (s : EngineState MemoryStore) (happenings : List Happening) (last : Happening) :
    s.after (happenings ++ [last]) = last.apply (s.after happenings) :=
  List.foldl_append

/-- The induction takes the last happening off: what it clears, it clears in the state that the others
have led to. -/
theorem keeps_after (hempty : s.store.tables = []) (happenings : List Happening)
    (hlawful : ∀ h ∈ happenings, h.Lawful) (hmutations : ∀ d, .insert d ∉ happenings) :
    (s.after happenings).store.Keeps (s.Cleared happenings) := by
  induction happenings using List.reverseRecOn with
  | nil =>
    intro docType id v hv
    change s.store.tables.get? docType id = some v at hv
    rw [hempty] at hv
    exact absurd hv (by simp [Tables.get?])
  | append_singleton happenings last ih =>
    have hbefore := ih (fun h hmem => hlawful h (List.mem_append_left _ hmem))
      fun d hd => hmutations d (List.mem_append_left _ hd)
    have hkept : (s.after happenings).store.Keeps (s.Cleared (happenings ++ [last])) := by
      intro docType id v hv t ht status d hd a ha hrequired
      obtain ⟨hsystem, w, hw, hcleared⟩ := hbefore docType id v hv t ht status d hd a ha hrequired
      exact ⟨hsystem, w, hw, fun hnull => (hcleared hnull).append last⟩
    rw [after_append]
    cases last with
    | insert d => exact absurd (List.mem_append_right _ (List.mem_singleton_self _)) (hmutations d)
    | mutate c =>
      have hc : c.Lawful := hlawful (.mutate c) (List.mem_append_right _ (List.mem_singleton_self _))
      intro docType id v hv t ht status d hd a ha hrequired
      obtain ⟨hsystem, w, hw, hcleared⟩ :=
        keeps_answer hbefore hc docType id v hv t ht status d hd a ha hrequired
      refine ⟨hsystem, w, hw, fun hnull => ?_⟩
      rcases hcleared hnull with hearlier | hnow
      · exact hearlier.append _
      · exact ⟨happenings, c, [], rfl, hnow⟩
    | tick now => exact hkept
    | fail docType => exact hkept

/-- In whatever state mutations lead to from an empty store, with any input and any lawful hooks, every
stored version has a value for each attribute that its type requires. The value is null only if an
update of that document was written for which the hooks had left null. -/
theorem required_unless_cleared {s : EngineState MemoryStore} (hempty : s.store.tables = [])
    {happenings : List Happening} (hlawful : ∀ h ∈ happenings, h.Lawful)
    (hmutations : ∀ d, .insert d ∉ happenings) {docType : String} {t : DocumentType}
    (ht : s.store.registry.collection docType = .ok t) {a : AttributeDefinition}
    (ha : a ∈ t.attributes) (hrequired : a.required = true) {id : DocumentId}
    {status : Option Status} {d : Document}
    (hd : (s.after happenings).store.get? docType id status = some d) :
    ∃ v, d.get? a.name = some v ∧ (v.isNull = true → s.Cleared happenings docType id a.name) := by
  obtain ⟨v, hv, hvd⟩ := Option.bind_eq_some_iff.1 hd
  have hcollection : (s.after happenings).store.registry.collection docType = .ok t := by
    rw [registry_after, ht]
  exact (keeps_after hempty happenings hlawful hmutations docType id v hv t hcollection status d hvd
    a ha hrequired).2

/-! ## A loss -/

def tagCall (action : Action) (params : MutationParams) : MutationCall :=
  ⟨.empty, {}, "tag", action, params, .never, 0⟩

/-- A new tag, and then an update that takes its label away. -/
def relabelling : List Happening :=
  [.mutate (tagCall .create { data := [("label", .text "x")] }),
   .mutate (tagCall .update
    { data := [("label", .null)], documentId := some (DocumentId.generated 0) })]

def emptyBlog : EngineState MemoryStore := ⟨{ registry := Blog.registry, now := "" }, .empty 0, 0⟩

/-- The label that is stored of the first document. -/
def labelOf (s : EngineState MemoryStore) : Option Value :=
  (s.store.get? "tag" (DocumentId.generated 0) none).bind (·.get? "label")

theorem required_lost_to_update :
    Registry.build Blog.types = .ok emptyBlog.store.registry ∧ emptyBlog.store.tables = [] ∧
      emptyBlog.store.registry.collection "tag" = .ok Blog.tag.withSystemAttributes ∧
      Blog.field "label" .text true ∈ Blog.tag.withSystemAttributes.attributes ∧
      (emptyBlog.after relabelling).labelOf = some .null :=
  ⟨Blog.build_types, rfl, rfl, List.mem_cons_self .., rfl⟩

theorem required_unless_cleared_blog :
    (emptyBlog.after relabelling).labelOf = some .null ∧
      emptyBlog.Cleared relabelling "tag" (DocumentId.generated 0) "label" := by
  have hlabel : (emptyBlog.after relabelling).labelOf = some .null := rfl
  obtain ⟨d, hd, hnull⟩ := Option.bind_eq_some_iff.1 hlabel
  have hlawful : ∀ h ∈ relabelling, h.Lawful := by
    simp [relabelling, Happening.Lawful, MutationCall.Lawful, tagCall, HookRegistry.empty,
      HookRegistry.beforeHooks, Bound.select]
  have hinserts : ∀ d, .insert d ∉ relabelling := by simp [relabelling]
  have ht : emptyBlog.store.registry.collection "tag" = .ok Blog.tag.withSystemAttributes := rfl
  obtain ⟨v, hv, hcleared⟩ := required_unless_cleared (s := emptyBlog) rfl hlawful hinserts ht
    (a := Blog.field "label" .text true) (List.mem_cons_self ..) rfl hd
  obtain rfl : v = .null := Option.some.inj (hv.symm.trans hnull)
  exact ⟨hlabel, hcleared rfl⟩

end EngineState
end ContentEngine
