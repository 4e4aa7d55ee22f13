import ContentEngine.Proofs.Lifecycle.Course

/-!
# What a mutation leaves in the log

The log of a mutation read in four ways: the steps that it takes, the hooks that it calls, the calls
of the store that it starts or has served, and the states that its event goes through. Each is worked
out for the parts of a course, and from them for the course.
-/

namespace ContentEngine

/-- A hook that is called, or a call of the store that is started or served. -/
def Entry.isStep : Entry → Bool
  | .hook _ _ | .started _ | .served _ => true
  | .metric _ | .advanced _ _ => false

def Log.steps (l : Log) : List Entry := (l.map (·.entry)).filter Entry.isStep

/-- The states that an event leaves and enters. -/
def Entry.change? : Entry → Option (MutationState × MutationState)
  | .advanced state next => some (state, next)
  | _ => none

def Log.changes (l : Log) : List (MutationState × MutationState) :=
  l.filterMap (·.entry.change?)

/-- Every change is one that the lifecycle allows, and the next one starts where it ends. -/
def MutationState.Path : MutationState → List (MutationState × MutationState) → Prop
  | _, [] => True
  | s, (state, next) :: rest => state = s ∧ state.canBecome next = true ∧ Path next rest

theorem Log.hooks_eq (l : Log) : l.hooks = (l.map (·.entry)).filterMap Entry.hook? := by
  rw [List.filterMap_map]
  rfl

theorem Log.started_eq (l : Log) : l.started = (l.map (·.entry)).filterMap Entry.started? := by
  rw [List.filterMap_map]
  rfl

theorem Log.served_eq (l : Log) : l.served = (l.map (·.entry)).filterMap Entry.served? := by
  rw [List.filterMap_map]
  rfl

theorem Log.changes_eq (l : Log) : l.changes = (l.map (·.entry)).filterMap Entry.change? := by
  rw [List.filterMap_map]
  rfl

namespace Mutator
variable {σ : Type} {m : Mutator σ} {docType : String} {action : Action} {op : WriteOp}
  {params : MutationParams} {now : Nat}

theorem filterMap_hook?_calls (calls : List (String × MutationEvent)) :
    (calls.map hookEntry).filterMap Entry.hook? = calls := by
  rw [List.filterMap_map]
  exact List.filterMap_some

theorem filterMap_calls {β : Type} {f : Entry → Option β} (hf : ∀ name e, f (.hook name e) = none)
    (calls : List (String × MutationEvent)) : (calls.map hookEntry).filterMap f = [] := by
  rw [List.filterMap_map, List.filterMap_eq_nil_iff]
  exact fun call _ => hf call.1 call.2

theorem filterMap_afterFailures {β : Type} {f : Entry → Option β} (docType : String)
    (hf : ∀ event, f (.metric event) = none) (failures : List HookFailure) :
    (afterFailures docType failures).filterMap f = [] := by
  unfold afterFailures
  split <;> simp [hf]

theorem steps_calls (calls : List (String × MutationEvent)) :
    (calls.map hookEntry).filter Entry.isStep = calls.map hookEntry := by
  rw [List.filter_eq_self, List.forall_mem_map]
  exact fun call _ => rfl

theorem steps_afterFailures (docType : String) (failures : List HookFailure) :
    (afterFailures docType failures).filter Entry.isStep = [] := by
  unfold afterFailures
  split <;> rfl

theorem filterMap_opening {β : Type} {f : Entry → Option β}
    (hf : ∀ name e, f (.hook name e) = none) (calls : List (String × MutationEvent))
    (rest : List Entry) :
    (opening docType ++ calls.map hookEntry ++ rest).filterMap f =
      (opening docType).filterMap f ++ rest.filterMap f := by
  rw [List.filterMap_append, List.filterMap_append, filterMap_calls hf, List.append_nil]

/-- The hooks before the write are in the log as they were called, whatever follows. -/
theorem hooks_opening (calls : List (String × MutationEvent)) (rest : List Entry) :
    (opening docType ++ calls.map hookEntry ++ rest).filterMap Entry.hook? =
      calls ++ rest.filterMap Entry.hook? := by
  rw [List.filterMap_append, List.filterMap_append, filterMap_hook?_calls]
  rfl

theorem started_opening (calls : List (String × MutationEvent)) (rest : List Entry) :
    (opening docType ++ calls.map hookEntry ++ rest).filterMap Entry.started? =
      rest.filterMap Entry.started? :=
  filterMap_opening (fun _ _ => rfl) calls rest

theorem served_opening (calls : List (String × MutationEvent)) (rest : List Entry) :
    (opening docType ++ calls.map hookEntry ++ rest).filterMap Entry.served? =
      rest.filterMap Entry.served? :=
  filterMap_opening (fun _ _ => rfl) calls rest

theorem steps_opening (calls : List (String × MutationEvent)) (rest : List Entry) :
    (opening docType ++ calls.map hookEntry ++ rest).filter Entry.isStep =
      calls.map hookEntry ++ rest.filter Entry.isStep := by
  rw [List.filter_append, List.filter_append, steps_calls]
  rfl

theorem steps_committing (hooks : List AfterHook) (event : MutationEvent) :
    (committing docType action hooks event).filter Entry.isStep =
      (afterCalls hooks event).map hookEntry := by
  have hrest : (Entry.advanced .afterHooksRunning .done ::
      .metric (.mutationFinish docType action.label true) ::
        afterFailures docType (hookFailures hooks event)).filter Entry.isStep = [] :=
    steps_afterFailures docType _
  unfold committing
  rw [List.filter_append, hrest, List.append_nil]
  exact steps_calls _

theorem filterMap_committing {β : Type} {f : Entry → Option β} (docType : String) (action : Action)
    (hhook : ∀ name e, f (.hook name e) = none) (hmetric : ∀ event, f (.metric event) = none)
    (hooks : List AfterHook) (event : MutationEvent) :
    (committing docType action hooks event).filterMap f =
      ([.advanced .writing .afterHooksRunning, .advanced .afterHooksRunning .done] :
        List Entry).filterMap f := by
  have hcalls := filterMap_calls hhook (afterCalls hooks event)
  have hfailures := filterMap_afterFailures docType hmetric (hookFailures hooks event)
  unfold committing
  simp only [List.filterMap_append, List.filterMap_cons, hcalls, hfailures, hmetric,
    List.filterMap_nil]
  cases f (.advanced .writing .afterHooksRunning) <;> rfl

theorem Written.steps {entries : List Entry} {x : Except Interruption (Option Document × σ)}
    (h : Written m docType op entries x) :
    entries.filter Entry.isStep = .started (.write docType op) ::
      if x.toBool then [.served (.write docType op)] else [] := by
  cases h <;> rfl

theorem Written.hooks {entries : List Entry} {x : Except Interruption (Option Document × σ)}
    (h : Written m docType op entries x) : entries.filterMap Entry.hook? = [] := by
  cases h <;> rfl

theorem Written.changes {entries : List Entry} {x : Except Interruption (Option Document × σ)}
    (h : Written m docType op entries x) : entries.filterMap Entry.change? = [] := by
  cases h <;> rfl

theorem Written.started {entries : List Entry} {x : Except Interruption (Option Document × σ)}
    (h : Written m docType op entries x) :
    entries.filterMap Entry.started? = [.write docType op] := by
  cases h <;> rfl

theorem Written.served_of_error {entries : List Entry} {i : Interruption}
    (h : Written m docType op entries (.error i)) : entries.filterMap Entry.served? = [] := by
  cases h <;> rfl

theorem Course.served_of_error {entries : List Entry} {err : Error}
    (h : Course m docType action params now entries (.error err)) :
    entries.filterMap Entry.served? = [] := by
  cases h with
  | refused x h => rfl
  | late t c h hc => rfl
  | aborted t calls a left h hc hb =>
    rw [served_opening]
    rfl
  | invalid t calls left x h hc hb hx =>
    rw [served_opening]
    rfl
  | unwritten t calls left event op n entries i h hc hb hp hw =>
    rw [served_opening]
    exact hw.served_of_error

/-- If a write was started, it was refused or cut off. -/
theorem Course.started_of_error {entries : List Entry} {err : Error}
    (h : Course m docType action params now entries (.error err)) :
    entries.filterMap Entry.started? = [] ∨
      ∃ op entries' i, entries.filterMap Entry.started? = [.write docType op] ∧ err = i.error ∧
        Written m docType op entries' (.error i) := by
  cases h with
  | refused x h => exact .inl rfl
  | late t c h hc => exact .inl rfl
  | aborted t calls a left h hc hb =>
    refine .inl ?_
    rw [started_opening]
    rfl
  | invalid t calls left x h hc hb hx =>
    refine .inl ?_
    rw [started_opening]
    rfl
  | unwritten t calls left event op n entries i h hc hb hp hw =>
    refine .inr ⟨op, entries, i, ?_, rfl, hw⟩
    rw [started_opening]
    exact hw.started

/-- The hooks that a mutation calls before it fails are hooks before the write. -/
theorem Course.hooks_of_error {entries : List Entry} {err : Error}
    (h : Course m docType action params now entries (.error err)) :
    entries.filterMap Entry.hook? = [] ∨ ∃ calls verdict left,
      BeforeHooks (m.hooks.beforeHooks docType action) (opened docType action params) calls verdict
          left ∧
        entries.filterMap Entry.hook? = calls := by
  cases h with
  | refused x h => exact .inl rfl
  | late t c h hc => exact .inl rfl
  | aborted t calls a left h hc hb =>
    refine .inr ⟨calls, _, left, hb, ?_⟩
    rw [hooks_opening]
    exact List.append_nil _
  | invalid t calls left x h hc hb hx =>
    refine .inr ⟨calls, _, left, hb, ?_⟩
    rw [hooks_opening]
    exact List.append_nil _
  | unwritten t calls left event op n entries i h hc hb hp hw =>
    have hnone : (Entry.advanced left.state .writing :: entries).filterMap Entry.hook? = [] :=
      hw.hooks
    refine .inr ⟨calls, _, left, hb, ?_⟩
    rw [hooks_opening, hnone, List.append_nil]

/-- Lawful hooks leave the event in the state in which they got it, and the mutation itself takes it
through the lifecycle. -/
theorem Course.path {entries : List Entry} {x : Except Error (Commit σ)}
    (h : Course m docType action params now entries x)
    (hlawful : ∀ hook ∈ m.hooks.beforeHooks docType action, hook.Lawful) :
    MutationState.Path .pending (entries.filterMap Entry.change?) := by
  have hcalls := filterMap_calls (f := Entry.change?) fun _ _ => rfl
  have hstate : ∀ {calls verdict left}, BeforeHooks (m.hooks.beforeHooks docType action)
      (opened docType action params) calls verdict left → left.state = .beforeHooksRunning :=
    fun hb => (hb.kept hlawful).2.2
  cases h with
  | refused x h => trivial
  | late t c h hc => trivial
  | aborted t calls a left h hc hb =>
    simp [opening, closing, hcalls, hstate hb, List.filterMap_cons, Entry.change?,
      MutationState.Path, MutationState.canBecome]
  | invalid t calls left x h hc hb hx =>
    simp [opening, closing, hcalls, hstate hb, List.filterMap_cons, Entry.change?,
      MutationState.Path, MutationState.canBecome]
  | unwritten t calls left event op n entries i h hc hb hp hw =>
    simp [opening, hcalls, hstate hb, hw.changes, List.filterMap_cons, Entry.change?,
      MutationState.Path, MutationState.canBecome]
  | committed t calls left event op n entries result state h hc hb hp hw =>
    have hrest := filterMap_committing (f := Entry.change?) docType action (fun _ _ => rfl)
      (fun _ => rfl) (m.hooks.afterHooks docType action) (written event result)
    simp [opening, hcalls, hstate hb, hw.changes, hrest, List.filterMap_cons, Entry.change?,
      MutationState.Path, MutationState.canBecome]

end Mutator
end ContentEngine
