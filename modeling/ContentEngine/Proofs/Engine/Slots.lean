import ContentEngine.Proofs.Engine.History
import ContentEngine.Proofs.Schema.Registry
import ContentEngine.Proofs.Store.Published
import ContentEngine.Proofs.Store.Slots
import ContentEngine.Sample.Blog

/-!
# Drafts and published versions over whole runs

Whatever happens to a store that starts empty, its versions stay in their slots, as long as all hooks
are lawful. A mutation changes the entry of its own document only. What it publishes is a copy of the
draft, and stays as it is until another mutation publishes, unpublishes or deletes that document.
-/

namespace ContentEngine

/-- Documents lie under their type and identifier, in the slots that their type has. -/
structure MemoryStore.Consistent (s : MemoryStore) : Prop where
  valid : s.tables.Valid
  slotted : s.tables.Slotted s.registry

namespace MutationCall

/-- The document that the mutation is about: for a creation a new one, otherwise the one that the
hooks before the write have left. -/
def Owns (c : MutationCall) (s : EngineState MemoryStore) (docType : String) (id : DocumentId) : Prop :=
  docType = c.docType ∧
    if c.action = .create then id = s.store.newId
    else ∃ left, c.Leaves left ∧ left.params.documentId = some id

/-- A write that publishes the document was served. -/
def Publishes (c : MutationCall) (s : EngineState MemoryStore) (docType : String)
    (id : DocumentId) : Prop :=
  docType = c.docType ∧ ∃ op, (c.answer s).log.served = [.write docType op] ∧
    op.publishes = true ∧ s.store.target op = id

/-- What the hooks before the write have left asks to publish the document, to unpublish it or to
delete it. -/
def Replaces (c : MutationCall) (docType : String) (id : DocumentId) : Prop :=
  docType = c.docType ∧ c.action ≠ .create ∧
    ∃ left, c.Leaves left ∧ left.params.documentId = some id ∧
      (c.action = .update → left.params.status = some .published)

variable {c : MutationCall} {s : EngineState MemoryStore} {t : DocumentType}
  {left : MutationEvent} {op : WriteOp} {docType : String} {id : DocumentId}

theorem Wrote.hasDrafts (h : c.Wrote s t left op) (hc : c.Lawful)
    (hop : op.requiresDrafts = true) : s.store.registry.hasDrafts c.docType = true := by
  rw [Registry.hasDrafts_of_get? (Registry.get?_of_collection h.collection).1]
  exact h.drafts ((h.checked hc).requiresDrafts_eq ▸ hop)

/-- A creation writes a new document, another mutation the one that the hooks have left. -/
theorem Wrote.target (h : c.Wrote s t left op) (hc : c.Lawful) :
    if c.action = .create then s.store.target op = s.store.newId
    else left.params.documentId = some (s.store.target op) := by
  have hchecked := h.checked hc
  generalize c.action = action at hchecked ⊢
  cases hchecked with
  | create => rfl
  | update id hid | delete id hid | publish id hid | unpublish id hid => rwa [if_neg (by simp)]

theorem Wrote.owns (h : c.Wrote s t left op) (hc : c.Lawful) :
    c.Owns s c.docType (s.store.target op) := by
  have htarget := h.target hc
  refine ⟨rfl, ?_⟩
  by_cases hcreate : c.action = .create
  · rwa [if_pos hcreate] at htarget ⊢
  · rw [if_neg hcreate] at htarget ⊢
    exact ⟨left, h.leaves, htarget⟩

/-- What decides what is published of an older document replaces it. -/
theorem Wrote.replaces (h : c.Wrote s t left op) (hc : c.Lawful) (hop : op.setsPublished = true)
    (hcreate : c.action ≠ .create) : c.Replaces c.docType (s.store.target op) := by
  have htarget := h.target hc
  rw [if_neg hcreate] at htarget
  refine ⟨rfl, hcreate, left, h.leaves, htarget, fun hupdate => ?_⟩
  have hchecked := h.checked hc
  rw [hupdate] at hchecked
  cases hchecked with
  | update id hid => simpa [WriteOp.setsPublished] using hop

/-! ## One mutation -/

theorem consistent_answer (h : s.store.Consistent) (hc : c.Lawful) :
    (c.answer s).state.store.Consistent := by
  obtain ⟨hregistry, ⟨-, htables⟩ | ⟨t, left, op, hwrote⟩⟩ := c.wrote_or_unchanged s
  · exact ⟨htables ▸ h.valid, by rw [hregistry, htables]; exact h.slotted⟩
  · refine ⟨MemoryStore.valid_effect h.valid hwrote.effect, ?_⟩
    rw [hregistry]
    exact MemoryStore.slotted_effect h.slotted hwrote.effect (hwrote.hasDrafts hc)

theorem owns_of_changed (hc : c.Lawful) (hchanged : (c.answer s).state.store.tables.get? docType id ≠
    s.store.tables.get? docType id) : c.Owns s docType id := by
  obtain ⟨-, ⟨-, htables⟩ | ⟨t, left, op, hwrote⟩⟩ := c.wrote_or_unchanged s
  · exact absurd (by rw [htables]) hchanged
  · by_cases hkey : c.docType = docType ∧ s.store.target op = id
    · obtain ⟨rfl, rfl⟩ := hkey
      exact hwrote.owns hc
    · exact absurd (MemoryStore.get?_effect_ne hwrote.effect hkey) hchanged

/-- What is published after a mutation was published by it, or it was published before. -/
theorem published_answer (h : s.store.Consistent) (hdrafts : s.store.registry.hasDrafts docType = true)
    {p : Document} (hp : (c.answer s).state.store.get? docType id (some .published) = some p) :
    (c.Publishes s docType id ∧
        ∃ d, (c.answer s).state.store.get? docType id (some .draft) = some d ∧ p.CopyOf d) ∨
      (¬ c.Publishes s docType id ∧ s.store.get? docType id (some .published) = some p) := by
  change (c.answer s).state.store.tables.published? docType id = some p at hp
  change _ ∨ (_ ∧ s.store.tables.published? docType id = some p)
  obtain ⟨-, ⟨hserved, htables⟩ | ⟨t, left, op, hwrote⟩⟩ := c.wrote_or_unchanged s
  · refine .inr ⟨?_, htables ▸ hp⟩
    rintro ⟨-, op, hop, -⟩
    rw [hserved] at hop
    exact absurd hop (by simp)
  · have hpublishes : c.Publishes s docType id ↔
        c.docType = docType ∧ op.publishes = true ∧ s.store.target op = id := by
      constructor
      · rintro ⟨rfl, op', hop', hpub, hid⟩
        obtain ⟨-, rfl⟩ : c.docType = c.docType ∧ op = op' := by simpa [hwrote.served] using hop'
        exact ⟨rfl, hpub, hid⟩
      · rintro ⟨rfl, hpub, hid⟩
        exact ⟨rfl, op, hwrote.served, hpub, hid⟩
    rw [hpublishes]
    by_cases hkey : c.docType = docType ∧ s.store.target op = id
    · obtain ⟨rfl, rfl⟩ := hkey
      cases hpub : op.publishes with
      | true =>
        exact .inl ⟨⟨rfl, rfl, rfl⟩,
          MemoryStore.copyOf_of_effect h.slotted hwrote.effect hdrafts hpub hp⟩
      | false =>
        refine .inr ⟨by simp, ?_⟩
        cases hsets : op.setsPublished with
        | false => rwa [MemoryStore.published?_effect hwrote.effect hdrafts hsets] at hp
        | true =>
          rw [MemoryStore.unpublished_of_effect hwrote.effect hdrafts hsets hpub] at hp
          exact absurd hp (by simp)
    · refine .inr ⟨fun hboth => hkey ⟨hboth.1, hboth.2.2⟩, ?_⟩
      unfold Tables.published? at hp ⊢
      rwa [MemoryStore.get?_effect_ne hwrote.effect hkey] at hp

end MutationCall

/-! ## Runs -/

namespace Happening

/-- A document that is inserted has a status that its type has. -/
def Fits (r : Registry) : Happening → Prop
  | .insert d => d.FitsStatus r
  | _ => True

/-- A new document gets an identifier that no document of its type has. -/
def Fresh (s : EngineState MemoryStore) : Happening → Prop
  | .mutate c => c.action = .create → s.store.tables.get? c.docType s.store.newId = none
  | _ => True

/-- What is published of a document is left alone. -/
def Spares (docType : String) (id : DocumentId) : Happening → Prop
  | .insert d => d.docType = docType → d.id = id → d.status = some .draft
  | .mutate c => ¬ c.Replaces docType id
  | _ => True

end Happening

namespace EngineState
variable {s : EngineState MemoryStore} {docType : String} {id : DocumentId} {p : Document}

/-- All identifiers that are generated on the way are new. -/
def FreshIds : EngineState MemoryStore → List Happening → Prop
  | _, [] => True
  | s, h :: hs => h.Fresh s ∧ (h.apply s).FreshIds hs

theorem consistent_happening (hs : s.store.Consistent) {h : Happening} (hlawful : h.Lawful)
    (hfits : h.Fits s.store.registry) : (h.apply s).store.Consistent := by
  cases h with
  | insert d =>
    exact ⟨MemoryStore.valid_insert hs.valid d, MemoryStore.slotted_insert hs.slotted hfits⟩
  | mutate c => exact c.consistent_answer hs hlawful
  | tick now => exact ⟨hs.valid, hs.slotted⟩
  | fail docType => exact ⟨hs.valid, hs.slotted⟩

theorem consistent_after (hs : s.store.Consistent) {happenings : List Happening}
    (hlawful : ∀ h ∈ happenings, h.Lawful) (hfits : ∀ h ∈ happenings, h.Fits s.store.registry) :
    (s.after happenings).store.Consistent := by
  induction happenings generalizing s with
  | nil => exact hs
  | cons h happenings ih =>
    have hfirst := consistent_happening hs (hlawful h (List.mem_cons_self ..))
      (hfits h (List.mem_cons_self ..))
    refine ih hfirst (fun h' hh' => hlawful h' (List.mem_cons_of_mem _ hh')) fun h' hh' => ?_
    rw [registry_happening]
    exact hfits h' (List.mem_cons_of_mem _ hh')

theorem published_happening (hdrafts : s.store.registry.hasDrafts docType = true) {h : Happening}
    (hlawful : h.Lawful) (hfresh : h.Fresh s) (hspares : h.Spares docType id)
    (hp : s.store.tables.published? docType id = some p) :
    (h.apply s).store.tables.published? docType id = some p := by
  cases h with
  | insert d =>
    change (s.store.insert d).get? docType id (some .published) = some p
    by_cases hkey : d.docType = docType ∧ d.id = id
    · have hagree := MemoryStore.agreeOnPublished_insert s.store (hspares hkey.1 hkey.2)
      exact (hagree.published docType id).symm.trans hp
    · unfold MemoryStore.get? MemoryStore.insert
      rwa [Tables.get?_put_ne hkey]
  | mutate c =>
    change (c.answer s).state.store.tables.published? docType id = some p
    obtain ⟨-, ⟨-, htables⟩ | ⟨t, left, op, hwrote⟩⟩ := c.wrote_or_unchanged s
    · rwa [htables]
    · by_cases hkey : c.docType = docType ∧ s.store.target op = id
      · obtain ⟨rfl, rfl⟩ := hkey
        cases hsets : op.setsPublished with
        | false => rwa [MemoryStore.published?_effect hwrote.effect hdrafts hsets]
        | true =>
          by_cases hcreate : c.action = .create
          · have htarget := hwrote.target hlawful
            rw [if_pos hcreate] at htarget
            unfold Tables.published? at hp
            rw [htarget, hfresh hcreate] at hp
            exact absurd hp (by simp)
          · exact absurd (hwrote.replaces hlawful hsets hcreate) hspares
      · unfold Tables.published? at hp ⊢
        rwa [MemoryStore.get?_effect_ne hwrote.effect hkey]
  | tick now => exact hp
  | fail docType => exact hp

theorem published_after (hdrafts : s.store.registry.hasDrafts docType = true)
    {later : List Happening} (hlawful : ∀ h ∈ later, h.Lawful) (hfresh : s.FreshIds later)
    (hspares : ∀ h ∈ later, h.Spares docType id)
    (hp : s.store.tables.published? docType id = some p) :
    (s.after later).store.tables.published? docType id = some p := by
  induction later generalizing s with
  | nil => exact hp
  | cons h later ih =>
    refine ih ?_ (fun h' hh' => hlawful h' (List.mem_cons_of_mem _ hh')) hfresh.2
      (fun h' hh' => hspares h' (List.mem_cons_of_mem _ hh')) ?_
    · rwa [registry_happening]
    · exact published_happening hdrafts (hlawful h (List.mem_cons_self ..)) hfresh.1
        (hspares h (List.mem_cons_self ..)) hp

/-- Whatever has happened to a store that was empty, with lawful hooks, its versions are those of the
documents under which they lie, in the slots of their types. A mutation that follows changes no entry
but that of its own document. What is published after it is a copy of the draft if it was the mutation
that published it, and otherwise what was published before; and it stays so, whatever happens, until it
is replaced. -/
theorem slots_kept_over_runs {s : EngineState MemoryStore} (hempty : s.store.tables = [])
    {before : List Happening} (hlawful : ∀ h ∈ before, h.Lawful)
    (hfits : ∀ h ∈ before, h.Fits s.store.registry) :
    let r := s.store.registry
    let s₁ := s.after before
    (∀ docType id v, s₁.store.tables.get? docType id = some v →
        v.Of docType id ∧ v.Slotted (r.hasDrafts docType)) ∧
      ∀ c : MutationCall, c.Lawful → ∀ (docType : String) (id : DocumentId),
        let s₂ := (c.answer s₁).state
        (s₂.store.tables.get? docType id ≠ s₁.store.tables.get? docType id → c.Owns s₁ docType id) ∧
          ∀ p, r.hasDrafts docType = true →
            s₂.store.get? docType id (some .published) = some p →
            ((c.Publishes s₁ docType id ∧
                  ∃ d, s₂.store.get? docType id (some .draft) = some d ∧ p.CopyOf d) ∨
                (¬ c.Publishes s₁ docType id ∧
                  s₁.store.get? docType id (some .published) = some p)) ∧
              ∀ later : List Happening, (∀ h ∈ later, h.Lawful) → s₂.FreshIds later →
                (∀ h ∈ later, h.Spares docType id) →
                (s₂.after later).store.get? docType id (some .published) = some p := by
  intro r s₁
  have hstart : s.store.Consistent :=
    ⟨hempty ▸ Tables.valid_empty, by rw [hempty]; exact fun _ _ _ hv => by simp [Tables.get?] at hv⟩
  have hs₁ : s₁.store.Consistent := consistent_after hstart hlawful hfits
  have hregistry : s₁.store.registry = r := registry_after s before
  refine ⟨fun docType id v hv => ⟨hs₁.valid.keyed docType id v hv, ?_⟩, fun c hc docType id => ?_⟩
  · exact hregistry ▸ hs₁.slotted docType id v hv
  · intro s₂
    refine ⟨c.owns_of_changed hc, fun p hdrafts hp => ?_⟩
    rw [← hregistry] at hdrafts
    refine ⟨c.published_answer hs₁ hdrafts hp, fun later hlater hfresh hspares => ?_⟩
    have hs₂ : s₂.store.registry = s₁.store.registry := (c.wrote_or_unchanged s₁).1
    exact published_after (hs₂ ▸ hdrafts) hlater hfresh hspares hp

/-- A retitled article of the blog, published at once or kept as a draft. -/
def retitle (title : String) (status : Option Status) : MutationCall where
  hooks := .empty
  config := {}
  docType := "article"
  action := .update
  params := ⟨[("title", .text title)], some "a", status⟩
  token := .never
  now := 0

theorem lawful_retitle (title : String) (status : Option Status) :
    (retitle title status).Lawful := by
  simp [MutationCall.Lawful, retitle, HookRegistry.empty, HookRegistry.beforeHooks, Bound.select]

theorem slots_kept_over_runs_blog :
    let s : EngineState MemoryStore := ⟨{ registry := Blog.registry, now := "" }, .empty 0, 0⟩
    let s₁ := s.after [.insert Blog.first]
    let s₂ := ((retitle "One" (some .published)).answer s₁).state
    let s₃ := s₂.after [.mutate (retitle "Two" none)]
    ∃ p d, s₂.store.get? "article" "a" (some .published) = some p ∧
      s₂.store.get? "article" "a" (some .draft) = some d ∧ p.CopyOf d ∧
      s₃.store.get? "article" "a" (some .published) = some p ∧
      s₃.store.get? "article" "a" (some .draft) ≠ some d := by
  intro s s₁ s₂ s₃
  have hfits : ∀ h ∈ [Happening.insert Blog.first], h.Fits Blog.registry := by
    have hfirst : Blog.first.FitsStatus Blog.registry := by
      unfold Document.FitsStatus
      decide
    exact List.forall_mem_singleton.2 hfirst
  have hspares : ∀ h ∈ [Happening.mutate (retitle "Two" none)], h.Spares "article" "a" := by
    refine List.forall_mem_singleton.2 ?_
    rintro ⟨-, -, left, ⟨calls, hbefore⟩, -, hstatus⟩
    cases (hbefore : BeforeHooks [] _ calls (.ok ()) left)
    have hnone : none = some Status.published := hstatus rfl
    exact absurd hnone (by simp)
  obtain ⟨p, hp⟩ : ∃ p, s₂.store.get? "article" "a" (some .published) = some p := ⟨_, rfl⟩
  have hinsert : ∀ h ∈ [Happening.insert Blog.first], h.Lawful :=
    List.forall_mem_singleton.2 trivial
  have hagain : ∀ h ∈ [Happening.mutate (retitle "Two" none)], h.Lawful :=
    List.forall_mem_singleton.2 (lawful_retitle "Two" none)
  obtain ⟨hcopy, hlater⟩ := ((slots_kept_over_runs (s := s) rfl hinsert hfits).2
    (retitle "One" (some .published)) (lawful_retitle _ _) "article" "a").2 p rfl hp
  have hpublishes : (retitle "One" (some .published)).Publishes s₁ "article" "a" :=
    ⟨rfl, _, rfl, rfl, rfl⟩
  rcases hcopy with ⟨-, d, hd, hpd⟩ | ⟨hnot, -⟩
  · have hfresh : s₂.FreshIds [.mutate (retitle "Two" none)] :=
      ⟨by simp [Happening.Fresh, retitle], trivial⟩
    refine ⟨p, d, hp, hd, hpd, hlater _ hagain hfresh hspares, fun hsame => ?_⟩
    have hone : ((s₂.store.get? "article" "a" (some .draft)).bind (·.get? "title")).bind
        Value.asText? = some "One" := by decide +kernel
    have htwo : ((s₃.store.get? "article" "a" (some .draft)).bind (·.get? "title")).bind
        Value.asText? = some "Two" := by decide +kernel
    rw [hsame, ← hd, hone] at htwo
    exact absurd htwo (by simp)
  · exact absurd hpublishes hnot

end EngineState
end ContentEngine
