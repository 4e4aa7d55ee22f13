import ContentEngine.Metrics
import ContentEngine.Proofs.Entries

/-!
# What the counters show

A counter that goes up by one for each event of some kind shows how many of them there were, or the
greatest word if there were more. The counts of mutations by type add up to the count of all
mutations, as long as that is below the greatest word.
-/

namespace ContentEngine

theorem toNat_saturatingAdd_one (a : UInt64) :
    (saturatingAdd a 1).toNat = min (a.toNat + 1) (UInt64.size - 1) := by
  have hone : (1 : UInt64).toNat = 1 := rfl
  have hbound : a.toNat < UInt64.size := a.toNat_lt_size
  unfold saturatingAdd
  by_cases h : a.toNat + (1 : UInt64).toNat < UInt64.size
  · rw [if_pos h, UInt64.toNat_add, hone]
    rw [hone] at h
    have hsmall : (a.toNat + 1) % 2 ^ 64 = a.toNat + 1 := Nat.mod_eq_of_lt h
    omega
  · rw [if_neg h]
    rw [hone] at h
    have hgreatest : (0xffffffffffffffff : UInt64).toNat = UInt64.size - 1 := rfl
    omega

namespace Entries
variable {α : Type}

/-- The sum of a number for each value. -/
def total (f : α → Nat) (m : Entries α) : Nat := (values m).foldr (fun v n => f v + n) 0

/-- A new value changes a sum over all values by itself and by the value whose place it takes. -/
theorem total_insert (f : α → Nat) {m : Entries α} (hm : Sorted m) (k : String) (v : α) :
    total f (insert m k v) + ((get? m k).map f).getD 0 = total f m + f v := by
  induction m with
  | nil => simp [total, insert, values, get?]
  | cons e m ih =>
    obtain ⟨j, w⟩ := e
    obtain ⟨hfirst, hrest⟩ := List.pairwise_cons.1 hm
    by_cases hlt : k < j
    · have hnone : get? ((j, w) :: m) k = none := by
        refine get?_eq_none_of_lt (List.forall_mem_cons.2 ⟨hlt, fun e he => ?_⟩)
        exact String.lt_trans hlt (hfirst e he)
      simp only [total, insert, if_pos hlt, hnone, values, List.map_cons, List.foldr_cons,
        Option.map_none, Option.getD_none]
      omega
    · by_cases heq : j = k
      · subst heq
        simp only [total, insert, if_neg hlt, if_true, get?, values, List.map_cons,
          List.foldr_cons, Option.map_some, Option.getD_some]
        omega
      · have hsum := ih hrest
        simp only [total, values] at hsum
        simp only [total, insert, if_neg hlt, if_neg heq, get?, values, List.map_cons,
          List.foldr_cons]
        omega

end Entries

namespace MetricsEvent

def isMutationStart : MetricsEvent → Bool
  | .execStart .mutation _ => true
  | _ => false

/-- A mutation ends, committed or not. -/
def isMutationFinish (committed : Bool) : MetricsEvent → Bool
  | .mutationFinish _ _ c => c == committed
  | _ => false

end MetricsEvent

namespace Metrics

/-- The counter goes up by one for each of these events, and stays as it is for all others. -/
def Counts (counter : Metrics → UInt64) (counted : MetricsEvent → Bool) : Prop :=
  ∀ m event, counter (m.record event) =
    if counted event then saturatingAdd (counter m) 1 else counter m

theorem counts_mutationCalls : Counts (·.ops.mutationCalls) MetricsEvent.isMutationStart := by
  rintro m (⟨_ | _, _⟩ | _ | ⟨_ | _⟩ | _ | _ | ⟨_, _, _ | _⟩ | _ | _ | _) <;> rfl

theorem counts_committed : Counts (·.mutations.committed) (MetricsEvent.isMutationFinish true) := by
  rintro m (⟨_ | _, _⟩ | _ | ⟨_ | _⟩ | _ | _ | ⟨_, _, _ | _⟩ | _ | _ | _) <;> rfl

theorem counts_aborted : Counts (·.mutations.aborted) (MetricsEvent.isMutationFinish false) := by
  rintro m (⟨_ | _, _⟩ | _ | ⟨_ | _⟩ | _ | _ | ⟨_, _, _ | _⟩ | _ | _ | _) <;> rfl

theorem Counts.recordAll {counter : Metrics → UInt64} {counted : MetricsEvent → Bool}
    (h : Counts counter counted) (m : Metrics) (events : List MetricsEvent) :
    (counter (m.recordAll events)).toNat =
      min ((counter m).toNat + events.countP counted) (UInt64.size - 1) := by
  induction events generalizing m with
  | nil =>
    have hbound : (counter m).toNat < UInt64.size := (counter m).toNat_lt_size
    change (counter m).toNat = min ((counter m).toNat + 0) (UInt64.size - 1)
    omega
  | cons event events ih =>
    have hstep := h m event
    rw [List.countP_cons]
    change (counter ((m.record event).recordAll events)).toNat = _
    rw [ih, hstep]
    by_cases hcounted : counted event = true
    · rw [if_pos hcounted, if_pos hcounted, toNat_saturatingAdd_one]
      omega
    · rw [if_neg hcounted, if_neg hcounted]
      omega

/-- What a counter shows that was reset before the events. -/
theorem Counts.reset {counter : Metrics → UInt64} {counted : MetricsEvent → Bool}
    (h : Counts counter counted) (hreset : counter {} = 0) (events : List MetricsEvent) :
    (counter (Metrics.recordAll {} events)).toNat =
      min (events.countP counted) (UInt64.size - 1) := by
  rw [h.recordAll, hreset]
  exact congrArg (min · _) (Nat.zero_add _)

/-! ## By type -/

/-- The mutations of all types together. -/
def typeCalls (m : Metrics) : Nat := Entries.total (·.mutationCalls.toNat) m.types

/-- The calls that are counted for one type. -/
def callsOf (m : Metrics) (docType : String) : Nat :=
  ((Entries.get? m.types docType).map (·.mutationCalls.toNat)).getD 0

variable {m : Metrics}

theorem callsOf_eq (m : Metrics) (docType : String) :
    (((Entries.get? m.types docType).getD {}).mutationCalls).toNat = m.callsOf docType := by
  unfold callsOf
  cases Entries.get? m.types docType <;> rfl

theorem typeCalls_updateType (hm : Entries.Sorted m.types) (docType : String)
    (f : TypeCounters → TypeCounters) :
    (m.updateType docType f).typeCalls + m.callsOf docType =
      m.typeCalls + (f ((Entries.get? m.types docType).getD {})).mutationCalls.toNat :=
  Entries.total_insert _ hm docType _

/-- Putting a type's counters back to zero takes its calls off the sum. -/
theorem callsOf_le (hm : Entries.Sorted m.types) (docType : String) :
    m.callsOf docType ≤ m.typeCalls := by
  have hsum := typeCalls_updateType hm docType fun _ => {}
  have hzero : (0 : UInt64).toNat = 0 := rfl
  rw [hzero] at hsum
  omega

/-- Counters of a type other than that of its mutations make no difference. -/
theorem typeCalls_updateType_of_kept (hm : Entries.Sorted m.types) (docType : String)
    {f : TypeCounters → TypeCounters} (hf : ∀ t, (f t).mutationCalls = t.mutationCalls) :
    (m.updateType docType f).typeCalls = m.typeCalls := by
  have hsum := typeCalls_updateType hm docType f
  rw [hf, callsOf_eq] at hsum
  omega

theorem sorted_record (hm : Entries.Sorted m.types) (event : MetricsEvent) :
    Entries.Sorted (m.record event).types := by
  revert event
  rintro (⟨_ | _, _⟩ | _ | ⟨_ | _⟩ | _ | _ | ⟨_, _, _ | _⟩ | _ | _ | _) <;>
    first | exact hm | exact hm.insert _ _

/-- One event goes to the counters of at most one type. -/
theorem typeCalls_record (hm : Entries.Sorted m.types) (event : MetricsEvent)
    (hbelow : m.typeCalls + (if event.isMutationStart then 1 else 0) < UInt64.size) :
    (m.record event).typeCalls = m.typeCalls + (if event.isMutationStart then 1 else 0) := by
  have hkept : ∀ (m : Metrics) (docType : String) (f : TypeCounters → TypeCounters),
      Entries.Sorted m.types → (∀ t, (f t).mutationCalls = t.mutationCalls) →
      (m.updateType docType f).typeCalls = m.typeCalls :=
    fun m docType f hm hf => typeCalls_updateType_of_kept hm docType hf
  cases event with
  | execStart kind docType =>
    cases kind with
    | query => exact hkept _ docType _ hm fun _ => rfl
    | mutation =>
      have hsum : (m.record (.execStart .mutation docType)).typeCalls + m.callsOf docType =
          m.typeCalls +
            (saturatingAdd ((Entries.get? m.types docType).getD {}).mutationCalls 1).toNat :=
        typeCalls_updateType (m := m.updateOps _) hm docType _
      have hle := callsOf_le hm docType
      rw [toNat_saturatingAdd_one, callsOf_eq] at hsum
      simp only [MetricsEvent.isMutationStart, if_true] at hbelow ⊢
      omega
  | queryFinish docType rows total => exact hkept _ docType _ hm fun _ => rfl
  | predicateCache hit => cases hit <;> rfl
  | populateBatch docType attr requested fetched => exact hkept _ docType _ hm fun _ => rfl
  | mutationFinish docType action committed => cases committed <;> rfl
  | hookAbort docType => exact hkept _ docType _ hm fun _ => rfl
  | cycleSkip docType => rfl
  | afterHookFailure docType failures => rfl
  | cancelled => rfl

theorem typeCalls_recordAll (hm : Entries.Sorted m.types) (events : List MetricsEvent)
    (hbelow : m.typeCalls + events.countP MetricsEvent.isMutationStart < UInt64.size) :
    (m.recordAll events).typeCalls =
      m.typeCalls + events.countP MetricsEvent.isMutationStart := by
  induction events generalizing m with
  | nil => rfl
  | cons event events ih =>
    rw [List.countP_cons] at hbelow ⊢
    have hstep := typeCalls_record hm event (by omega)
    change ((m.record event).recordAll events).typeCalls = _
    rw [ih (sorted_record hm event) (by omega), hstep]
    omega

end Metrics
end ContentEngine
