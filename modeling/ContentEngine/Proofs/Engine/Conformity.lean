import ContentEngine.Lifecycle.Edit
import ContentEngine.Proofs.Engine.Invariants
import ContentEngine.Proofs.Lifecycle.Conformity
import ContentEngine.Sample.Blog

/-!
# All that is stored conforms to the schema

Whatever lawful hooks leave of the caller's input, what a mutation writes has been coerced. So if all
versions in a store conform to the types under which they are stored, they still do after any run of
mutations.
-/

namespace ContentEngine

/-- All fields are attributes of the type with values that these can hold, apart from the stamps of
the store. -/
def Document.Conforms (r : Registry) (docType : String) (d : Document) : Prop :=
  ∃ t, r.collection docType = .ok t ∧ ∀ f ∈ d.fields, f.1 ∈ stampNames ∨ FitsField r t f

/-- All versions conform to the types under which they are stored. -/
def MemoryStore.Conforms (s : MemoryStore) : Prop :=
  ∀ docType id status d, s.get? docType id status = some d → d.Conforms s.registry docType

/-- The data that a write brings. -/
def WriteOp.data : WriteOp → Entries Value
  | .create data _ => data
  | .update _ data _ => data
  | _ => []

variable {types : List DocumentType} {r : Registry} {docType : String}

theorem unstamped_conforms (r : Registry) (docType : String) :
    MemoryStore.Unstamped (Document.Conforms r docType) where
  withStatus _ _ h := h
  stamp := by
    rintro d name v hname - ⟨t, ht, hfields⟩
    refine ⟨t, ht, fun f hf => ?_⟩
    rcases Entries.mem_insert hf with rfl | hf
    · exact .inl hname
    · exact hfields f hf

/-- What the hooks have left is coerced before it is written: a property of all fields that coercion
gives is one of all fields that are written. -/
theorem WriteOp.Checked.data_of_gives {P : String × Value → Prop} {t : DocumentType}
    {components : Nat} {left : MutationEvent} {action : Action} {op : WriteOp}
    (h : op.Checked r t components left action)
    (hgives : ∀ data creating,
      Coercion.Gives (Coercion.document r t data creating) fun out => ∀ f ∈ out, P f) :
    ∀ f ∈ op.data, P f := by
  cases h with
  | create status hstatus data components' hdata => exact hgives _ true components data components' hdata
  | update id hid status hstatus data components' hdata =>
    exact hgives _ false components data components' hdata
  | delete id hid | publish id hid | unpublish id hid => simp [WriteOp.data]

/-- What fits the types of the schema conforms to them once it is written. -/
theorem brings_conforms (hbuild : Registry.build types = .ok r) :
    r.Brings fun docType => Document.Conforms r docType := by
  intro docType t components left action op ht hchecked
  have hfits : ∀ f ∈ op.data, FitsField r t f := hchecked.data_of_gives
    (Coercion.gives_document (Registry.closed_of_build hbuild) (Registry.get?_of_collection ht).1)
  constructor
  case create =>
    rintro id data status rfl
    exact ⟨t, ht, fun f hf => .inr (hfits f hf)⟩
  case update =>
    rintro id data status d rfl ⟨t', ht', hfields⟩
    obtain rfl : t' = t := Except.ok.inj (ht'.symm.trans ht)
    refine ⟨t', ht', fun f hf => ?_⟩
    rcases Entries.mem_insertAll hf with hf | hf
    · exact hfields f hf
    · exact .inr (hfits f hf)

namespace EngineState
variable {s : EngineState MemoryStore}

theorem conforms_happening (hbuild : Registry.build types = .ok s.store.registry)
    (hs : s.store.Conforms) {h : Happening} (hlawful : h.Lawful)
    (hinserted : ∀ d, h = .insert d → d.Conforms s.store.registry d.docType) :
    (h.apply s).store.Conforms := by
  unfold MemoryStore.Conforms
  rw [registry_happening]
  exact holds_happening (unstamped_conforms s.store.registry) (brings_conforms hbuild) hs hlawful
    hinserted

/-- If the documents in a store conform to a registry that was built, and so do those that are
inserted, then after any run of mutations, with any input and any lawful hooks, every stored version
does. -/
theorem conforms_over_runs (hbuild : Registry.build types = .ok s.store.registry)
    (hs : s.store.Conforms) {happenings : List Happening} (hlawful : ∀ h ∈ happenings, h.Lawful)
    (hinserted : ∀ d, .insert d ∈ happenings → d.Conforms s.store.registry d.docType) :
    (s.after happenings).store.Conforms := by
  induction happenings generalizing s with
  | nil => exact hs
  | cons h happenings ih =>
    have hregistry := registry_happening s h
    have hfirst := conforms_happening hbuild hs (hlawful h (List.mem_cons_self ..)) fun d hd =>
      hinserted d (hd ▸ List.mem_cons_self ..)
    refine ih (hregistry ▸ hbuild) hfirst (fun h' hmem => hlawful h' (List.mem_cons_of_mem _ hmem))
      fun d hd => ?_
    rw [hregistry]
    exact hinserted d (List.mem_cons_of_mem _ hd)

/-- A hook that gives an article an opening block. -/
def openingBlock : BeforeHook :=
  .ofEdits "open" [.set "blocks" (.list [.json (.obj
    [(componentKey, .str "blocks.hero"), ("heading", .str "Hello")])])]

/-- A new article with an opening block. -/
def opened : MutationCall where
  hooks := ⟨[⟨"article", .create, openingBlock⟩], []⟩
  config := {}
  docType := "article"
  action := .create
  params := { data := [("title", .text "One")], status := some .published }
  token := .never
  now := 0

theorem lawful_opened : opened.Lawful := by
  intro hook hmem
  obtain rfl : hook = openingBlock := List.mem_singleton.1 hmem
  exact BeforeHook.lawful_ofEdits _ _

/-- The tags of what a field holds. -/
def tagsOf (d : Document) (name : String) : List String :=
  match d.get? name with
  | some (.list items) => items.filterMap fun v =>
    match v with
    | .variant tag _ => some tag
    | _ => none
  | _ => []

theorem conforms_over_runs_blog :
    let s : EngineState MemoryStore := ⟨{ registry := Blog.registry, now := "" }, .empty 0, 0⟩
    let s' := s.after [.insert Blog.first, .mutate opened]
    ∃ d, s'.store.get? "article" s.store.newId (some .published) = some d ∧
      tagsOf d "blocks" = ["blocks.hero"] ∧ d.Conforms Blog.registry "article" := by
  intro s s'
  have hempty : s.store.Conforms := fun _ _ _ _ hd => by simp [s, MemoryStore.get?, Tables.get?] at hd
  have hfirst : Blog.first.Conforms Blog.registry "article" := by
    refine ⟨Blog.article.withSystemAttributes, rfl, List.forall_mem_singleton.2 ?_⟩
    exact .inr (.attribute _ _ _ (Blog.many "related" "article") rfl (.relationMany _ _ (by simp)))
  have hconforms : s'.store.Conforms := by
    refine conforms_over_runs (s := s) Blog.build_types hempty
      (List.forall_mem_cons.2 ⟨trivial, List.forall_mem_singleton.2 lawful_opened⟩) fun d hd => ?_
    obtain rfl : d = Blog.first := by simpa using hd
    exact hfirst
  obtain ⟨d, hd⟩ : ∃ d, s'.store.get? "article" s.store.newId (some .published) = some d :=
    Option.isSome_iff_exists.1 (by decide +kernel)
  have htags : (s'.store.get? "article" s.store.newId (some .published)).map (tagsOf · "blocks") =
      some ["blocks.hero"] := by decide +kernel
  have hregistry : s'.store.registry = Blog.registry := registry_after s _
  rw [hd, Option.map_some, Option.some.injEq] at htags
  exact ⟨d, hd, htags, hregistry ▸ hconforms "article" _ _ d hd⟩

end EngineState
end ContentEngine
