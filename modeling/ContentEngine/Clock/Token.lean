/-!
# Cancellation

A token ends a request when the caller withdraws it or when its deadline comes. The signal may be
set for a later time, and is never taken back; a deadline is only ever brought forward.

Times are ticks of one clock, two to a millisecond. What is due at a millisecond happens in its first
tick, and a signal that was set for it comes in the second, after everything else.
-/

namespace ContentEngine

namespace Clock

/-- The first tick of a millisecond; also the number of ticks of a span. -/
def ofMillis (ms : Nat) : Nat := 2 * ms

/-- The millisecond of a tick. -/
def millis (t : Nat) : Nat := t / 2

end Clock

inductive Cancelled where
  | signal
  | deadline
deriving DecidableEq, Repr

def Cancelled.message : Cancelled → String
  | .signal => "request cancelled by caller"
  | .deadline => "request deadline exceeded"

structure CancelToken where
  signalAt : Option Nat
  deadline : Option Nat
deriving DecidableEq, Repr

namespace CancelToken

def never : CancelToken := ⟨none, none⟩

/-- The earlier of a time and one that may be set. -/
def earliest (t : Option Nat) (n : Nat) : Nat := t.elim n (min · n)

def withDeadline (c : CancelToken) (time : Nat) : CancelToken :=
  { c with deadline := some (earliest c.deadline time) }

def withTimeout (c : CancelToken) (now span : Nat) : CancelToken := c.withDeadline (now + span)

def cancel (c : CancelToken) (now : Nat) : CancelToken :=
  { c with signalAt := some (earliest c.signalAt now) }

/-- Sets the signal for some milliseconds later. -/
def cancelAfter (c : CancelToken) (now ms : Nat) : CancelToken :=
  c.cancel (now + Clock.ofMillis ms + 1)

def reached (t : Option Nat) (now : Nat) : Bool := t.any (· ≤ now)

/-- Whether a request may go on; a signal is reported before a deadline. -/
def check (c : CancelToken) (now : Nat) : Except Cancelled Unit :=
  if reached c.signalAt now then .error .signal
  else if reached c.deadline now then .error .deadline
  else .ok ()

def isCancelled (c : CancelToken) (now : Nat) : Bool :=
  match c.check now with
  | .ok () => false
  | .error _ => true

/-- When and why the token fires up to a time, if it does. -/
def firesBy (c : CancelToken) (time : Nat) : Option (Nat × Cancelled) :=
  match c.signalAt, c.deadline with
  | none, none => none
  | some s, none => if s ≤ time then some (s, .signal) else none
  | none, some d => if d ≤ time then some (d, .deadline) else none
  | some s, some d =>
    if s ≤ d then if s ≤ time then some (s, .signal) else none
    else if d ≤ time then some (d, .deadline) else none

theorem firesBy_eq_none_iff (c : CancelToken) (now : Nat) :
    c.firesBy now = none ↔ c.check now = .ok () := by
  obtain ⟨_ | s, _ | d⟩ := c
  · simp [firesBy, check, reached]
  · by_cases h : d ≤ now <;> simp [firesBy, check, reached, h]
  · by_cases h : s ≤ now <;> simp [firesBy, check, reached, h]
  · by_cases h₁ : s ≤ d <;> by_cases h₂ : s ≤ now <;> by_cases h₃ : d ≤ now <;>
      simp [firesBy, check, reached, h₁, h₂, h₃] <;> omega

end CancelToken
end ContentEngine
