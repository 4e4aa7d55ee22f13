import ContentEngine.Proofs.Lifecycle.Atomicity
import ContentEngine.Proofs.Store.Effect

/-!
# What happens to a store

A store under an engine is filled with documents and changed by mutations, each with hooks of its own
and under its own token; meanwhile its clock goes on, and it may begin to fail for a type. A mutation
either leaves all tables as they were or comes down to one write of what its hooks have left. If the
hooks are lawful, that write is one of the mutation's own action, and it was checked.
-/

namespace ContentEngine

/-- A mutation as it is asked for. -/
structure MutationCall where
  hooks : HookRegistry
  config : EngineConfig
  docType : String
  action : Action
  params : MutationParams
  token : CancelToken
  now : Nat

namespace MutationCall

def engine (c : MutationCall) (s : EngineState MemoryStore) : Engine MemoryStore :=
  ⟨s.store.registry, MemoryStore.adapter, c.hooks, c.config⟩

def answer (c : MutationCall) (s : EngineState MemoryStore) : Answer MemoryStore (Option Document) :=
  (c.engine s).mutate s c.docType c.action c.params c.token c.now

/-- What the hooks before the write leave of a mutation that none of them rejects. -/
def Leaves (c : MutationCall) (left : MutationEvent) : Prop :=
  ∃ calls, BeforeHooks (c.hooks.beforeHooks c.docType c.action)
    (Mutator.opened c.docType c.action c.params) calls (.ok ()) left

/-- The hooks before the write that the mutation calls are lawful. -/
def Lawful (c : MutationCall) : Prop :=
  ∀ hook ∈ c.hooks.beforeHooks c.docType c.action, hook.Lawful

end MutationCall

/-- What can happen to a store. -/
inductive Happening where
  | insert (d : Document)
  | mutate (c : MutationCall)
  /-- The clock that stamps the writes shows another time. -/
  | tick (now : String)
  | fail (docType : String)

def Happening.Lawful : Happening → Prop
  | .mutate c => c.Lawful
  | _ => True

def Happening.apply (s : EngineState MemoryStore) : Happening → EngineState MemoryStore
  | .insert d => { s with store := s.store.insert d }
  | .mutate c => (c.answer s).state
  | .tick now => { s with store := { s.store with now := now } }
  | .fail docType => { s with store := s.store.fail docType }

def EngineState.after (s : EngineState MemoryStore) (hs : List Happening) :
    EngineState MemoryStore :=
  hs.foldl Happening.apply s

/-! ## Mutations -/

theorem WriteOp.Checked.requiresDrafts_eq {r : Registry} {t : DocumentType} {components : Nat}
    {left : MutationEvent} {action : Action} {op : WriteOp}
    (h : op.Checked r t components left action) : op.requiresDrafts = action.requiresDrafts := by
  cases h <;> rfl

theorem Mutator.precheck_eq_ok {m : Mutator MemoryStore} {docType : String} {action : Action}
    {params : MutationParams} {t : DocumentType} (h : m.precheck docType action params = .ok t) :
    m.registry.collection docType = .ok t ∧
      (action.requiresDrafts = true → t.draftAndPublish = true) := by
  unfold precheck at h
  obtain ⟨t', ht', h⟩ := Except.bind_eq_ok_iff.1 h
  by_cases hdrafts : action.requiresDrafts && !t'.draftAndPublish
  · simp only [if_pos hdrafts] at h
    exact absurd h (by simp)
  · simp only [if_neg hdrafts] at h
    have hnamed : ∀ x : Except SchemaError DocumentType,
        x = (if action != .create && params.documentId.isNone then
          .error (MutationEvent.missingId docType) else .ok t') → x = .ok t → t' = t := by
      rintro x rfl hx
      split at hx
      · exact absurd hx (by simp)
      · exact Except.ok.inj hx
    have hsame : t' = t := by
      by_cases hdata : action.carriesData
      · rw [if_pos hdata] at h
        obtain ⟨_, -, h⟩ := Except.bind_eq_ok_iff.1 h
        exact hnamed _ rfl h
      · rw [if_neg hdata] at h
        exact hnamed _ rfl h
    subst hsame
    refine ⟨ht', fun hrequires => ?_⟩
    simpa [hrequires] using hdrafts

namespace MutationCall
variable {c : MutationCall} {s : EngineState MemoryStore}

/-- The mutation has come down to a write. -/
structure Wrote (c : MutationCall) (s : EngineState MemoryStore) (t : DocumentType)
    (left : MutationEvent) (op : WriteOp) : Prop where
  collection : s.store.registry.collection c.docType = .ok t
  drafts : c.action.requiresDrafts = true → t.draftAndPublish = true
  leaves : c.Leaves left
  ready : ∃ event, Ready s.store.registry t c.action s.components left event op
  served : (c.answer s).log.served = [.write c.docType op]
  tables : (c.answer s).state.store.tables = (s.store.apply c.docType op).2.tables

theorem Wrote.effect {t : DocumentType} {left : MutationEvent} {op : WriteOp}
    (h : c.Wrote s t left op) : s.store.Effect c.docType op (c.answer s).state.store.tables := by
  rw [h.tables]
  exact s.store.effect_apply c.docType op

/-- Lawful hooks leave an event of the mutation's own action. -/
theorem Leaves.action_eq {left : MutationEvent} (h : c.Leaves left) (hc : c.Lawful) :
    left.action = c.action := by
  obtain ⟨calls, hbefore⟩ := h
  exact (hbefore.kept hc).1

theorem Wrote.checked {t : DocumentType} {left : MutationEvent} {op : WriteOp}
    (h : c.Wrote s t left op) (hc : c.Lawful) :
    op.Checked s.store.registry t s.components left c.action := by
  obtain ⟨event, hready⟩ := h.ready
  exact hready.checked (h.leaves.action_eq hc)

/-- A mutation that was not served its write has changed no table. -/
theorem wrote_or_unchanged (c : MutationCall) (s : EngineState MemoryStore) :
    (c.answer s).state.store.registry = s.store.registry ∧
      (((c.answer s).log.served = [] ∧ (c.answer s).state.store.tables = s.store.tables) ∨
        ∃ t left op, c.Wrote s t left op) := by
  obtain ⟨entries, x, hcourse, hlog, -, hstore⟩ :
      ∃ entries x, Mutator.Course ((c.engine s).mutator s c.token c.now) c.docType c.action c.params
          c.now entries x ∧ (c.answer s).log.map (·.entry) = entries ∧
        (c.answer s).outcome = x.bind Commit.outcome ∧
        (c.answer s).state.store =
          MemoryStore.adapter.noteAll (Engine.storeAfter s.store x) (c.answer s).log :=
    Engine.mutate_store rfl s c.docType c.action c.params c.token c.now
  have hserved : (c.answer s).log.served = entries.filterMap Entry.served? := by
    rw [Log.served_eq, hlog]
  cases x with
  | error err =>
    rw [hstore]
    exact ⟨MemoryStore.registry_noteAll _ _,
      .inl ⟨hserved.trans hcourse.served_of_error, MemoryStore.tables_noteAll _ _⟩⟩
  | ok commit =>
    cases hcourse with
    | committed t calls left event op n entries result state h hc hb hp hw =>
      have hwrite : s.store.apply c.docType op = (result, state) := by
        cases hw with
        | served _ _ hwrite => exact MemoryStore.write_ok hwrite
      have hstate : (s.store.apply c.docType op).2 = state := by rw [hwrite]
      obtain ⟨hcollection, hdrafts⟩ := Mutator.precheck_eq_ok h
      have hready : Ready s.store.registry t c.action s.components left event op :=
        ready_iff.2 ⟨n, hp⟩
      rw [hstore]
      refine ⟨?_, .inr ⟨t, left, op, ?_⟩⟩
      · rw [MemoryStore.registry_noteAll, Engine.storeAfter, ← hstate, MemoryStore.registry_apply]
      · refine ⟨hcollection, hdrafts, ⟨calls, hb⟩, ⟨event, hready⟩, ?_, ?_⟩
        · have hnothing : ∀ name e, Entry.served? (.hook name e) = none := fun _ _ => rfl
          rw [hserved, Mutator.served_opening, List.filterMap_append,
            Mutator.filterMap_committing _ _ hnothing (fun _ => rfl)]
          cases hw
          rfl
        · rw [hstore, MemoryStore.tables_noteAll, Engine.storeAfter, hstate]

end MutationCall

/-! ## Runs -/

theorem registry_happening (s : EngineState MemoryStore) (h : Happening) :
    (h.apply s).store.registry = s.store.registry := by
  cases h with
  | mutate c => exact (c.wrote_or_unchanged s).1
  | insert d => rfl
  | tick now => rfl
  | fail docType => rfl

theorem registry_after (s : EngineState MemoryStore) (hs : List Happening) :
    (s.after hs).store.registry = s.store.registry := by
  induction hs generalizing s with
  | nil => rfl
  | cons h hs ih => exact (ih (h.apply s)).trans (registry_happening s h)

end ContentEngine
