import ContentEngine.Proofs.Engine.History
import ContentEngine.Proofs.Store.Contents
import Mathlib.Data.Option.Basic

/-!
# What holds of all stored documents

A property to which neither the status of a document nor its stamps matter holds of everything that a
store comes to contain, if it holds of what is inserted and of what mutations write; their hooks are
lawful, so that this is what was checked. The document that a mutation answers with is a stored one.
-/

namespace ContentEngine

/-- What a write brings has the property once it is stored. -/
structure WriteOp.Brings (Q : String → Document → Prop) (docType : String) (op : WriteOp) : Prop where
  create : ∀ id data status, op = .create data status → Q docType ⟨docType, id, none, data⟩
  update : ∀ id data status d, op = .update id data status → Q docType d →
    Q docType (MemoryStore.merge d data)

/-- What is checked before it is written to a type of the schema has the property. -/
def Registry.Brings (Q : String → Document → Prop) (r : Registry) : Prop :=
  ∀ docType t components left action op, r.collection docType = .ok t →
    WriteOp.Checked r t components left action op → op.Brings Q docType

namespace MemoryStore
variable {Q : String → Document → Prop} {s : MemoryStore} {docType : String} {op : WriteOp}

/-- The property holds of all versions, each with the type under which it is stored. -/
def Holds (Q : String → Document → Prop) (s : MemoryStore) : Prop :=
  ∀ docType id status d, s.get? docType id status = some d → Q docType d

theorem holds_iff : s.Holds Q ↔ s.tables.Every fun docType _ v => v.All (Q docType) := by
  constructor
  · intro h docType id v hv status d hd
    exact h docType id status d (Option.bind_eq_some_iff.2 ⟨v, hv, hd⟩)
  · intro h docType id status d hd
    obtain ⟨v, hv, hvd⟩ := Option.bind_eq_some_iff.1 hd
    exact h docType id v hv status d hvd

theorem holds_of_empty (h : s.tables = []) : s.Holds Q := by
  intro docType id status d hd
  simp [get?, Tables.get?, h] at hd

theorem Holds.effect (hQ : ∀ docType, Unstamped (Q docType)) (h : s.Holds Q)
    (hop : op.Brings Q docType) {t : Tables} (he : s.Effect docType op t) :
    t.Every fun docType _ v => v.All (Q docType) := by
  rw [holds_iff] at h
  obtain rfl | ⟨id, v, hv, rfl⟩ | ⟨id, rfl⟩ :=
    he.put_or_remove (fun _ => hQ docType) (h docType) (hop.create s.newId) hop.update
  · exact h
  · exact h.put hv
  · exact h.remove docType id

theorem Holds.insert (hQ : ∀ docType, Unstamped (Q docType)) (h : s.Holds Q) {d : Document}
    (hd : Q d.docType d) : (s.insert d).Holds Q := by
  rw [holds_iff] at h ⊢
  obtain ⟨v, hv, htables⟩ := insert_put (hQ d.docType).withStatus (h d.docType d.id) hd
  rw [htables]
  exact h.put hv

/-- A write answers with a version that is stored, before it or after it. -/
theorem apply_result {d : Document} (h : (s.apply docType op).1 = some d) :
    ∃ id status, s.get? docType id status = some d ∨
      (s.apply docType op).2.get? docType id status = some d := by
  have hput : ∀ {s' : MemoryStore} {id : DocumentId} {v : Versions} {status : Option Status},
      s'.tables = s.tables.put docType id v → v.get status = some d →
      s'.get? docType id status = some d := by
    intro s' id v status htables hv
    rw [get?, htables, Tables.get?_put_self]
    exact hv
  cases op with
  | create data status =>
    rcases (Option.orElse_eq_some _ _ _).1 h with hasked | ⟨-, hdraft⟩
    · exact ⟨s.newId, status, .inr (hput rfl hasked)⟩
    · exact ⟨s.newId, some .draft, .inr (hput rfl hdraft)⟩
  | update id data status =>
    simp only [apply, update] at h ⊢
    split at h
    · cases h
    · split at h
      · cases h
      · split at h
        · next hpub =>
          rw [if_pos hpub]
          exact ⟨id, some .published, .inr (hput rfl h)⟩
        · next hpub =>
          rw [if_neg hpub]
          exact ⟨id, s.editable docType, .inr (hput rfl ((Versions.get_set_self ..).trans h))⟩
  | delete id =>
    obtain ⟨v, hv, hd⟩ := Option.bind_eq_some_iff.1 h
    rcases (Option.orElse_eq_some _ _ _).1 hd with hpublished | ⟨-, hdraft⟩
    · exact ⟨id, none, .inl (Option.bind_eq_some_iff.2 ⟨v, hv, hpublished⟩)⟩
    · exact ⟨id, some .draft, .inl (Option.bind_eq_some_iff.2 ⟨v, hv, hdraft⟩)⟩
  | publish id =>
    simp only [apply, publish] at h ⊢
    split at h
    · cases h
    · split at h
      · cases h
      · exact ⟨id, some .published, .inr (hput rfl h)⟩
  | unpublish id =>
    simp only [apply, unpublish] at h ⊢
    split at h
    · cases h
    · next v hv => exact ⟨id, some .draft, .inl (Option.bind_eq_some_iff.2 ⟨v, hv, h⟩)⟩

end MemoryStore

namespace EngineState
variable {Q : String → Document → Prop} {s : EngineState MemoryStore}

theorem holds_answer (hQ : ∀ docType, MemoryStore.Unstamped (Q docType))
    (hr : s.store.registry.Brings Q) (hs : s.store.Holds Q) {c : MutationCall} (hc : c.Lawful) :
    (c.answer s).state.store.Holds Q := by
  rw [MemoryStore.holds_iff]
  obtain ⟨-, ⟨-, htables⟩ | ⟨t, left, op, hwrote⟩⟩ := c.wrote_or_unchanged s
  · rwa [htables, ← MemoryStore.holds_iff]
  · exact hs.effect hQ (hr _ _ _ _ _ _ hwrote.collection (hwrote.checked hc)) hwrote.effect

/-- A mutation that succeeds answers with what its write gives. -/
theorem written_of_ok {c : MutationCall} (hlawful : c.Lawful) {result : Option Document}
    (h : (c.answer s).outcome = .ok result) :
    ∃ t left op, s.store.registry.collection c.docType = .ok t ∧
      WriteOp.Checked s.store.registry t s.components left c.action op ∧
      (s.store.apply c.docType op).1 = result := by
  obtain ⟨entries, x, hcourse, -, houtcome, -⟩ :
      ∃ entries x, Mutator.Course ((c.engine s).mutator s c.token c.now) c.docType c.action c.params
          c.now entries x ∧ (c.answer s).log.map (·.entry) = entries ∧
        (c.answer s).outcome = x.bind Commit.outcome ∧
        (c.answer s).state.store =
          MemoryStore.adapter.noteAll (Engine.storeAfter s.store x) (c.answer s).log :=
    Engine.mutate_store rfl s c.docType c.action c.params c.token c.now
  rw [houtcome] at h
  cases hcourse with
  | committed t calls left event op n entries answered state hpre hc hb hp hw =>
    have hwrite : s.store.apply c.docType op = (answered, state) := by
      cases hw with
      | served _ _ hwrite => exact MemoryStore.write_ok hwrite
    have hanswered : answered = result := by
      change Commit.outcome _ = .ok result at h
      unfold Commit.outcome at h
      split at h
      · exact Except.ok.inj h
      · cases h
    have hready : Ready s.store.registry t c.action s.components left event op :=
      ready_iff.2 ⟨n, hp⟩
    exact ⟨t, left, op, (Mutator.precheck_eq_ok hpre).1, hready.checked (hb.kept hlawful).1,
      by rw [hwrite, hanswered]⟩
  | _ => cases h

/-- A mutation answers with a document that is stored, before it or after it. -/
theorem holds_outcome (hQ : ∀ docType, MemoryStore.Unstamped (Q docType))
    (hr : s.store.registry.Brings Q) (hs : s.store.Holds Q) {c : MutationCall} (hc : c.Lawful)
    {d : Document} (hd : (c.answer s).outcome = .ok (some d)) : Q c.docType d := by
  obtain ⟨t, left, op, ht, hchecked, hresult⟩ := written_of_ok hc hd
  have hafter := hs.effect hQ (hr _ _ _ _ _ _ ht hchecked) (s.store.effect_apply c.docType op)
  rw [← MemoryStore.holds_iff] at hafter
  obtain ⟨id, status, hbefore | hstored⟩ := MemoryStore.apply_result hresult
  · exact hs c.docType id status d hbefore
  · exact hafter c.docType id status d hstored

theorem holds_happening (hQ : ∀ docType, MemoryStore.Unstamped (Q docType))
    (hr : s.store.registry.Brings Q) (hs : s.store.Holds Q) {h : Happening} (hlawful : h.Lawful)
    (hinserted : ∀ d, h = .insert d → Q d.docType d) : (h.apply s).store.Holds Q := by
  cases h with
  | insert d => exact hs.insert hQ (hinserted d rfl)
  | mutate c => exact holds_answer hQ hr hs hlawful
  | tick now => exact hs
  | fail docType => exact hs

/-- All that is stored after a run has the property if it holds of what is there at first, of what is
inserted, and of what is ready to be written. -/
theorem holds_after (hQ : ∀ docType, MemoryStore.Unstamped (Q docType))
    (hr : s.store.registry.Brings Q) (hs : s.store.Holds Q) {happenings : List Happening}
    (hlawful : ∀ h ∈ happenings, h.Lawful)
    (hinserted : ∀ d, .insert d ∈ happenings → Q d.docType d) :
    (s.after happenings).store.Holds Q := by
  induction happenings generalizing s with
  | nil => exact hs
  | cons h happenings ih =>
    have hfirst := holds_happening hQ hr hs (hlawful h (List.mem_cons_self ..)) fun d hd =>
      hinserted d (hd ▸ List.mem_cons_self ..)
    exact ih ((registry_happening s h).symm ▸ hr) hfirst
      (fun h' hmem => hlawful h' (List.mem_cons_of_mem _ hmem))
      fun d hd => hinserted d (List.mem_cons_of_mem _ hd)

/-- Tables and rows stay in order over a run. -/
theorem valid_after (hs : s.store.tables.Valid) (happenings : List Happening) :
    (s.after happenings).store.tables.Valid := by
  induction happenings generalizing s with
  | nil => exact hs
  | cons h happenings ih =>
    apply ih (s := h.apply s)
    cases h with
    | insert d => exact MemoryStore.valid_insert hs d
    | mutate c =>
      obtain ⟨-, ⟨-, htables⟩ | ⟨t, left, op, hwrote⟩⟩ := c.wrote_or_unchanged s
      · exact htables ▸ hs
      · exact MemoryStore.valid_effect hs hwrote.effect
    | tick now => exact hs
    | fail docType => exact hs

end EngineState
end ContentEngine
