import ContentEngine.Clock.Log
import ContentEngine.Proofs.Clock.Token
import Mathlib.Data.List.Forall2

/-!
# Calls with one possible answer

`Settles fits c a` states that the call `c`, whenever it is started, ends with `a` unless it fails,
and that a failure fits the time at which the call ends. It is preserved by putting calls one after
the other, by running them side by side, and by racing them against a token, so that a program of
calls has the answer that its pure part computes.

A group may end after the member that failed. What fits a time has to fit all later times for that.
-/

namespace ContentEngine
variable {ι ε α β : Type}

namespace Progress

def Settled (fits : ε → Nat → Prop) (p : Progress ι ε α) (a : α) : Prop :=
  match p.outcome with
  | .ok b => b = a
  | .error e => fits e p.finish

variable {fits : ε → Nat → Prop} {p : Progress ι ε α} {q : Progress ι ε β} {a : α} {b : β}

theorem settled_of_ok (h : p.outcome = .ok a) : p.Settled fits a := by
  rw [Settled, h]

theorem settled_of_error {e : ε} (h : p.outcome = .error e) (he : fits e p.finish) :
    p.Settled fits a := by
  rw [Settled, h]
  exact he

theorem Settled.outcome (h : p.Settled fits a) :
    p.outcome = .ok a ∨ ∃ e, p.outcome = .error e ∧ fits e p.finish := by
  unfold Settled at h
  split at h
  · next h' => exact .inl (by rw [h', h])
  · next e h' => exact .inr ⟨e, h', h⟩

theorem Settled.both (hp : p.Settled fits a) (hq : q.Settled fits b) :
    (p.both q).Settled fits (a, b) := by
  rcases hp.outcome with ha | ⟨e, he, hf⟩ <;> rcases hq.outcome with hb | ⟨e', he', hf'⟩
  · exact settled_of_ok (by simp only [Progress.both, ha, hb])
  · simp only [Progress.both, ha, he', Settled]
    exact hf'
  · simp only [Progress.both, he, hb, Settled]
    exact hf
  · simp only [Progress.both, he, he']
    by_cases hle : p.finish ≤ q.finish
    · rw [if_pos hle]
      exact hf
    · rw [if_neg hle]
      exact hf'

/-- The members of a group that is taken in order end by its end, up to the first failure. -/
theorem settled_inOrder (hmono : ∀ e t t', t ≤ t' → fits e t → fits e t') {start : Nat}
    {ps : List (Progress ι ε α)} {as : List α} (h : List.Forall₂ (Settled fits) ps as) :
    (inOrder start ps).Settled fits as := by
  suffices hs : ps.mapM (·.outcome) = .ok as ∨
      ∃ e, ps.mapM (·.outcome) = .error e ∧ fits e (endInOrder start ps) by
    rcases hs with hs | ⟨e, hs, hf⟩
    · exact settled_of_ok hs
    · exact settled_of_error hs hf
  induction h with
  | nil => exact .inl rfl
  | @cons p a ps as hp _ ih =>
    rcases hp.outcome with ha | ⟨e, he, hf⟩
    · rcases ih with ih | ⟨e, ih, hf⟩
      · exact .inl (by rw [List.mapM_cons, ha, ih]; rfl)
      · refine .inr ⟨e, by rw [List.mapM_cons, ha, ih]; rfl, ?_⟩
        have hend : endInOrder start (p :: ps) = max p.finish (endInOrder start ps) := by
          simp [endInOrder, failed, ha]
        rw [hend]
        exact hmono e _ _ (Nat.le_max_right ..) hf
    · refine .inr ⟨e, by rw [List.mapM_cons, he]; rfl, ?_⟩
      have hend : endInOrder start (p :: ps) = p.finish := by simp [endInOrder, failed, he]
      rw [hend]
      exact hf

end Progress

namespace Call

def Settles (fits : ε → Nat → Prop) (c : Call ι ε α) (a : α) : Prop :=
  ∀ t, (c t).Settled fits a

section
variable {fits : ε → Nat → Prop} {c : Call ι ε α} {f : α → Call ι ε β} {a : α} {b : β}

theorem settles_succeed (a : α) : Settles fits (succeed (ι := ι) a) a :=
  fun _ => Progress.settled_of_ok rfl

theorem Settles.bind (hc : Settles fits c a) (hf : Settles fits (f a) b) :
    Settles fits (c >>= f) b := by
  intro t
  change (c.andThen f t).Settled fits b
  rcases (hc t).outcome with ha | ⟨e, he, hfit⟩
  · have hq := hf (c t).finish
    simp only [andThen, ha]
    exact hq
  · simp only [andThen, he]
    exact hfit

theorem Settles.map (hc : Settles fits c a) (g : α → β) :
    Settles fits (do return g (← c)) (g a) :=
  hc.bind (settles_succeed (g a))

theorem Settles.both {d : Call ι ε β} (hc : Settles fits c a) (hd : Settles fits d b) :
    Settles fits (c.both d) (a, b) := fun t => (hc t).both (hd t)

theorem Settles.mapError {ε' : Type} {fits' : ε' → Nat → Prop} {g : ε → ε'}
    (h : ∀ e t, fits e t → fits' (g e) t) (hc : Settles fits c a) :
    Settles fits' (c.mapError g) a := by
  intro t
  rcases (hc t).outcome with ha | ⟨e, he, hfit⟩
  · exact Progress.settled_of_ok (congrArg (Except.mapError g) ha)
  · exact Progress.settled_of_error (congrArg (Except.mapError g) he) (h e _ hfit)

theorem settles_recordAll (entries : List ι) : Settles fits (recordAll entries) () :=
  fun _ => Progress.settled_of_ok rfl

theorem settles_record (entry : ι) : Settles fits (record entry) () :=
  fun _ => Progress.settled_of_ok rfl

theorem settles_together {cs : List (Call ι ε α)} {as : List α}
    (h : List.Forall₂ (Settles fits) cs as) : Settles fits (together cs) as := by
  induction h with
  | nil => exact settles_succeed []
  | @cons c a cs as hc _ ih =>
    exact (hc.both ih).bind (settles_succeed (a :: as))

theorem all_of_small {cs : List (Call ι ε α)} (h : cs.length ≤ smallGroup) :
    all cs = together cs := if_pos h

theorem all_of_large {cs : List (Call ι ε α)} (h : ¬ cs.length ≤ smallGroup) (t : Nat) :
    all cs t = Progress.inOrder t (cs.map (· t)) := congrFun (if_neg h) t

theorem settles_all (hmono : ∀ e t t', t ≤ t' → fits e t → fits e t') {cs : List (Call ι ε α)}
    {as : List α} (h : List.Forall₂ (Settles fits) cs as) : Settles fits (all cs) as := by
  by_cases hsmall : cs.length ≤ smallGroup
  · rw [all_of_small hsmall]
    exact settles_together h
  · intro t
    rw [all_of_large hsmall]
    refine Progress.settled_inOrder hmono ?_
    rw [List.forall₂_map_left_iff]
    exact h.imp fun _ _ hc => hc t

end

end Call

/-- A cut-off call ends at the time at which its token fires. -/
theorem CancelToken.settles_run {fits : ε → Nat → Prop} {token : CancelToken}
    {cancelled : Cancelled → ε} {c : Call ι ε α} {a : α}
    (hfits : ∀ t r, token.check t = .error r → fits (cancelled r) t)
    (hc : c.Settles fits a) : (token.run cancelled c).Settles fits a := by
  intro t
  cases hcheck : token.check t with
  | error r =>
    simp only [CancelToken.run, hcheck]
    exact hfits t r hcheck
  | ok u =>
    cases hfire : token.firesBy (c t).finish with
    | none =>
      simp only [CancelToken.run, hcheck, hfire]
      exact hc t
    | some fired =>
      simp only [CancelToken.run, hcheck, hfire]
      exact hfits _ _ (CancelToken.check_of_firesBy hfire)

/-- What is reported of an outcome does not change it. -/
theorem StoreCall.settles_observed {fits : Interruption → Nat → Prop} {c : StoreCall α} {a : α}
    (hc : c.Settles fits a) : c.observed.Settles fits a := hc

theorem StoreCall.settles_ofStore {fits : Interruption → Nat → Prop} {delay : Nat}
    {call : AdapterCall} {result : Except AdapterError α} {a : α}
    (h : result = .ok a ∨ ∃ e, result = .error e ∧ ∀ t, fits (.adapter e) t) :
    (ofStore delay call result).Settles fits a := by
  intro t
  rcases h with rfl | ⟨e, rfl, he⟩
  · exact Progress.settled_of_ok rfl
  · exact he _

end ContentEngine
