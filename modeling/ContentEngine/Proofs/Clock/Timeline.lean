import Mathlib.Data.List.MinMax
import ContentEngine.Clock.Call
import ContentEngine.Proofs.Clock.Token

/-!
# The life of a token

Time goes on, deadlines and time limits are attached to a token, and its owner withdraws it, now or
some time later. Whatever the order of these steps, all that matters at a time is whether a
withdrawal or a deadline has come by then: `Timeline.reached_after` says so for one step, and from
there for all of them. So a token never comes back to life, and a call that races against it ends as
it would alone exactly if nothing comes by the end of the call.
-/

namespace ContentEngine

/-- What happens to a token. A withdrawal is for some ticks later; none of them is for now. -/
inductive TokenStep where
  | timeout (span : Nat)
  | deadline (time : Nat)
  | advance (span : Nat)
  | cancel (delay : Nat)
deriving DecidableEq, Repr

/-- A token at some time. -/
structure Timeline where
  token : CancelToken
  now : Nat
deriving DecidableEq, Repr

namespace TokenStep

def apply (s : Timeline) : TokenStep → Timeline
  | .timeout span => { s with token := s.token.withTimeout s.now span }
  | .deadline time => { s with token := s.token.withDeadline time }
  | .advance span => { s with now := s.now + span }
  | .cancel delay => { s with token := s.token.cancel (s.now + delay) }

/-- The deadline that a step attaches. -/
def attached? (now : Nat) : TokenStep → Option Nat
  | .timeout span => some (now + span)
  | .deadline time => some time
  | .advance _ => none
  | .cancel _ => none

/-- The time for which a step withdraws the token. -/
def withdrawn? (now : Nat) : TokenStep → Option Nat
  | .cancel delay => some (now + delay)
  | .timeout _ => none
  | .deadline _ => none
  | .advance _ => none

/-- How long a step takes. -/
def span : TokenStep → Nat
  | .advance span => span
  | .timeout _ => 0
  | .deadline _ => 0
  | .cancel _ => 0

end TokenStep

namespace Timeline

/-- A token that nothing has happened to. -/
def start (now : Nat) : Timeline := ⟨.never, now⟩

def after (s : Timeline) (steps : List TokenStep) : Timeline := steps.foldl TokenStep.apply s

/-- The times that some steps name, each as it is reckoned when the step is taken. -/
def times (of : Nat → TokenStep → Option Nat) : Nat → List TokenStep → List Nat
  | _, [] => []
  | now, step :: steps => (of now step).toList ++ times of (now + step.span) steps

/-- All deadlines that were attached. -/
def attached (now : Nat) (steps : List TokenStep) : List Nat := times TokenStep.attached? now steps

/-- All times for which the token was withdrawn. -/
def withdrawn (now : Nat) (steps : List TokenStep) : List Nat :=
  times TokenStep.withdrawn? now steps

/-- One of some times has come. -/
def Comes (times : List Nat) (time : Nat) : Prop := ∃ t ∈ times, t ≤ time

/-- Neither a withdrawal nor a deadline has come. -/
def Spared (now : Nat) (steps : List TokenStep) (time : Nat) : Prop :=
  ¬ Comes (withdrawn now steps) time ∧ ¬ Comes (attached now steps) time

end Timeline

namespace CancelToken
variable {token : CancelToken} {t : Option Nat} {n now time : Nat}

theorem reached_iff : reached t time ↔ ∃ n, t = some n ∧ n ≤ time := by
  cases t <;> simp [reached]

theorem reached_earliest :
    reached (some (earliest t n)) time ↔ reached t time ∨ n ≤ time := by
  cases t with
  | none => simp [earliest, reached]
  | some m => simp [earliest, reached]

theorem reached_mono (h : reached t now) (hle : now ≤ time) : reached t time := by
  obtain ⟨n, hn, hnow⟩ := reached_iff.1 h
  exact reached_iff.2 ⟨n, hn, Nat.le_trans hnow hle⟩

theorem check_eq_signal_iff : token.check time = .error .signal ↔ reached token.signalAt time := by
  unfold check
  by_cases hs : reached token.signalAt time
  · simp [hs]
  · by_cases hd : reached token.deadline time <;> simp [hs, hd]

theorem check_eq_deadline_iff : token.check time = .error .deadline ↔
    ¬ reached token.signalAt time ∧ reached token.deadline time := by
  unfold check
  by_cases hs : reached token.signalAt time
  · simp [hs]
  · by_cases hd : reached token.deadline time <;> simp [hs, hd]

theorem check_eq_ok_iff : token.check time = .ok () ↔
    ¬ reached token.signalAt time ∧ ¬ reached token.deadline time := by
  unfold check
  by_cases hs : reached token.signalAt time
  · simp [hs]
  · by_cases hd : reached token.deadline time <;> simp [hs, hd]

theorem check_ne_ok_iff : token.check time ≠ .ok () ↔
    reached token.signalAt time ∨ reached token.deadline time := by
  rw [Ne, check_eq_ok_iff, not_and_or, not_not, not_not]

/-- What has fired stays fired, and a withdrawal remains the reason. -/
theorem check_mono (h : token.check now ≠ .ok ()) (hle : now ≤ time) : token.check time ≠ .ok () := by
  rw [check_ne_ok_iff] at h ⊢
  exact h.imp (reached_mono · hle) (reached_mono · hle)

/-- Before it fires a token does not refuse. -/
theorem firesBy_le {fired : Nat} {c : Cancelled} (h : token.firesBy time = some (fired, c))
    (hnow : token.check now ≠ .ok ()) : fired ≤ now := by
  rw [check_ne_ok_iff, reached_iff, reached_iff] at hnow
  obtain ⟨_ | s, _ | d⟩ := token
  · simp [firesBy] at h
  · simp [firesBy] at h hnow
    omega
  · simp [firesBy] at h hnow
    omega
  · simp only [firesBy] at h
    simp only [Option.some.injEq, exists_eq_left'] at hnow
    split at h <;> split at h <;> simp at h <;> omega

end CancelToken

namespace Timeline
open CancelToken (reached)
variable {s : Timeline} {time now : Nat}

theorem now_apply (step : TokenStep) : (step.apply s).now = s.now + step.span := by
  cases step <;> rfl

theorem comes_append {ts us : List Nat} : Comes (ts ++ us) time ↔ Comes ts time ∨ Comes us time := by
  simp [Comes, or_and_right, exists_or]

theorem comes_toList {t : Option Nat} : Comes t.toList time ↔ reached t time := by
  rw [CancelToken.reached_iff]
  cases t <;> simp [Comes]

/-- A time that is reached whenever one of some times has come is the least of them. -/
theorem eq_min?_of_reached {t : Option Nat} {ts : List Nat}
    (h : ∀ time, reached t time ↔ Comes ts time) : t = ts.min? := by
  cases t with
  | none =>
    have hnil : ts = [] := by
      rw [List.eq_nil_iff_forall_not_mem]
      intro n hn
      have hreached : reached none n := (h n).2 ⟨n, hn, Nat.le_refl n⟩
      cases hreached
    rw [hnil, List.min?_nil]
  | some n =>
    have hleast : ∀ m ∈ ts, n ≤ m := by
      intro m hm
      have hreached : reached (some n) m := (h m).2 ⟨m, hm, Nat.le_refl m⟩
      simpa [reached] using hreached
    obtain ⟨m, hm, hle⟩ : Comes ts n := (h n).1 (by simp [reached])
    have hmem : n ∈ ts := by
      rwa [Nat.le_antisymm (hleast m hm) hle]
    exact (List.min?_eq_some_iff.2 ⟨hmem, hleast⟩).symm

/-- A step adds the deadline that it attaches. -/
theorem deadline_apply (s : Timeline) (step : TokenStep) (time : Nat) :
    reached (step.apply s).token.deadline time ↔
      reached s.token.deadline time ∨ reached (step.attached? s.now) time := by
  cases step with
  | timeout span => exact CancelToken.reached_earliest.trans (by simp [TokenStep.attached?, reached])
  | deadline t => exact CancelToken.reached_earliest.trans (by simp [TokenStep.attached?, reached])
  | advance | cancel => simp [TokenStep.apply, TokenStep.attached?, reached, CancelToken.cancel]

/-- A step adds the withdrawal that it is. -/
theorem signalAt_apply (s : Timeline) (step : TokenStep) (time : Nat) :
    reached (step.apply s).token.signalAt time ↔
      reached s.token.signalAt time ∨ reached (step.withdrawn? s.now) time := by
  cases step with
  | cancel delay => exact CancelToken.reached_earliest.trans (by simp [TokenStep.withdrawn?, reached])
  | timeout | deadline | advance =>
    simp [TokenStep.apply, TokenStep.withdrawn?, reached, CancelToken.withTimeout,
      CancelToken.withDeadline]

/-- What every step adds, all steps add. -/
theorem reached_after (part : CancelToken → Option Nat) (of : Nat → TokenStep → Option Nat)
    (hstep : ∀ (s : Timeline) step time, reached (part (step.apply s).token) time ↔
      reached (part s.token) time ∨ reached (of s.now step) time)
    (steps : List TokenStep) (s : Timeline) (time : Nat) :
    reached (part (s.after steps).token) time ↔
      reached (part s.token) time ∨ Comes (times of s.now steps) time := by
  induction steps generalizing s with
  | nil => simp [after, times, Comes]
  | cons step steps ih =>
    have hrest := ih (step.apply s)
    rw [hstep, now_apply] at hrest
    rw [times, comes_append, comes_toList, ← or_assoc]
    exact hrest

theorem now_le_after (steps : List TokenStep) : s.now ≤ (s.after steps).now := by
  induction steps generalizing s with
  | nil => exact Nat.le_refl _
  | cons step steps ih =>
    have hstep := now_apply (s := s) step
    exact Nat.le_trans (by omega) (ih (s := step.apply s))

variable (steps : List TokenStep)

theorem deadline_after (time : Nat) :
    reached ((start now).after steps).token.deadline time ↔ Comes (attached now steps) time := by
  rw [reached_after CancelToken.deadline TokenStep.attached? deadline_apply]
  simp [start, CancelToken.never, reached, attached]

theorem signalAt_after (time : Nat) :
    reached ((start now).after steps).token.signalAt time ↔ Comes (withdrawn now steps) time := by
  rw [reached_after CancelToken.signalAt TokenStep.withdrawn? signalAt_apply]
  simp [start, CancelToken.never, reached, withdrawn]

theorem check_after (time : Nat) :
    ((start now).after steps).token.check time = .ok () ↔ Spared now steps time := by
  rw [CancelToken.check_eq_ok_iff, signalAt_after, deadline_after, Spared]

/-- Steps add reasons to refuse and take none away. -/
theorem check_after_mono {r : Cancelled} (h : s.token.check time = .error r) {later : Nat}
    (hle : time ≤ later) : ∃ r', (s.after steps).token.check later = .error r' ∧
      (r = .signal → r' = .signal) := by
  have hsignal (hs : reached s.token.signalAt time) :
      reached (s.after steps).token.signalAt later := by
    rw [reached_after CancelToken.signalAt TokenStep.withdrawn? signalAt_apply]
    exact .inl (CancelToken.reached_mono hs hle)
  have hdeadline (hd : reached s.token.deadline time) :
      reached (s.after steps).token.deadline later := by
    rw [reached_after CancelToken.deadline TokenStep.attached? deadline_apply]
    exact .inl (CancelToken.reached_mono hd hle)
  cases r with
  | signal =>
    rw [CancelToken.check_eq_signal_iff] at h
    exact ⟨.signal, CancelToken.check_eq_signal_iff.2 (hsignal h), fun _ => rfl⟩
  | deadline =>
    have hfired : (s.after steps).token.check later ≠ .ok () :=
      CancelToken.check_ne_ok_iff.2 (.inr (hdeadline (CancelToken.check_eq_deadline_iff.1 h).2))
    cases hcheck : (s.after steps).token.check later with
    | ok u => exact absurd hcheck hfired
    | error r' => exact ⟨r', rfl, fun hr => by cases hr⟩

end Timeline

/-! ## Racing a call -/

namespace CancelToken
variable {ι ε α : Type} {token : CancelToken} {cancelled : Cancelled → ε} {t : Nat}

/-- Under a token that has fired nothing is run. -/
theorem run_of_error {r : Cancelled} (h : token.check t = .error r) (c : Call ι ε α) :
    token.run cancelled c t = ⟨[], t, .error (cancelled r)⟩ := by
  simp only [run, h]

/-- A call during which the token does not fire goes as it would alone. -/
theorem run_of_ok (hnow : token.check t = .ok ()) {c : Call ι ε α}
    (hend : token.check (c t).finish = .ok ()) : token.run cancelled c t = c t := by
  simp only [run, hnow, (firesBy_eq_none_iff token _).2 hend]

/-- All others are cut off. -/
theorem run_of_fired (hnow : token.check t = .ok ()) {c : Call ι ε α}
    (hend : token.check (c t).finish ≠ .ok ()) :
    ∃ r, (token.run cancelled c t).outcome = .error (cancelled r) := by
  cases hfires : token.firesBy (c t).finish with
  | none => exact absurd ((firesBy_eq_none_iff token _).1 hfires) hend
  | some fired => exact ⟨fired.2, by simp only [run, hnow, hfires]⟩

end CancelToken
end ContentEngine
