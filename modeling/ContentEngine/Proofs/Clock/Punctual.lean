import ContentEngine.Proofs.Clock.Settles
import ContentEngine.Proofs.Clock.Timeline

/-!
# Calls that a token ends

A call is punctual for a token if it is over at every time, from its start on, at which the token
has fired. Calls that take no time are, and so is whatever races against the token. Sequences and
groups of punctual calls are punctual, since the token stays fired.
-/

namespace ContentEngine
variable {ι ε α β : Type} {token : CancelToken}

def Call.Punctual (token : CancelToken) (c : Call ι ε α) : Prop :=
  ∀ t time, t ≤ time → token.check time ≠ .ok () → (c t).finish ≤ time

theorem Progress.finish_both_le {p : Progress ι ε α} {q : Progress ι ε β} {time : Nat}
    (hp : p.finish ≤ time) (hq : q.finish ≤ time) : (p.both q).finish ≤ time := by
  cases hx : p.outcome with
  | ok a =>
    cases hy : q.outcome with
    | ok b =>
      simp only [both, hx, hy]
      exact Nat.max_le.2 ⟨hp, hq⟩
    | error e =>
      simp only [both, hx, hy]
      exact hq
  | error e =>
    cases hy : q.outcome with
    | ok b =>
      simp only [both, hx, hy]
      exact hp
    | error e' =>
      simp only [both, hx, hy]
      split
      · exact hp
      · exact hq

theorem Progress.endInOrder_le {start time : Nat} (hstart : start ≤ time)
    {ps : List (Progress ι ε α)} (h : ∀ p ∈ ps, p.finish ≤ time) : endInOrder start ps ≤ time := by
  induction ps with
  | nil => exact hstart
  | cons p ps ih =>
    have hp : p.finish ≤ time := h p List.mem_cons_self
    have hps : endInOrder start ps ≤ time := ih fun q hq => h q (List.mem_cons_of_mem p hq)
    unfold endInOrder
    split
    · exact hp
    · exact Nat.max_le.2 ⟨hp, hps⟩

namespace Call
variable {c : Call ι ε α} {d : Call ι ε β} {f : α → Call ι ε β}

theorem punctual_succeed (a : α) : (succeed a : Call ι ε α).Punctual token := fun _ _ hle _ => hle

theorem punctual_fail (e : ε) : (fail e : Call ι ε α).Punctual token := fun _ _ hle _ => hle

theorem punctual_ofExcept (x : Except ε α) : (ofExcept x : Call ι ε α).Punctual token := by
  cases x with
  | ok a => exact punctual_succeed a
  | error e => exact punctual_fail e

theorem punctual_recordAll (entries : List ι) :
    (recordAll entries : Call ι ε Unit).Punctual token := fun _ _ hle _ => hle

theorem punctual_record (entry : ι) : (record entry : Call ι ε Unit).Punctual token :=
  fun _ _ hle _ => hle

/-- The second call starts before the token has fired, or takes no time any more. -/
theorem Punctual.bind (hc : c.Punctual token) (hf : ∀ a, (f a).Punctual token) :
    (c >>= f).Punctual token := by
  intro t time hle hfired
  have hfirst : (c t).finish ≤ time := hc t time hle hfired
  change (c.andThen f t).finish ≤ time
  cases hx : (c t).outcome with
  | error e =>
    simp only [andThen, hx]
    exact hfirst
  | ok a =>
    simp only [andThen, hx]
    exact hf a (c t).finish time hfirst hfired

theorem Punctual.map (hc : c.Punctual token) (g : α → β) :
    (do return g (← c)).Punctual token := hc.bind fun a => punctual_succeed (g a)

theorem Punctual.mapError {ε' : Type} (hc : c.Punctual token) (g : ε → ε') :
    (c.mapError g).Punctual token := hc

theorem Punctual.both (hc : c.Punctual token) (hd : d.Punctual token) :
    (c.both d).Punctual token := fun t time hle hfired =>
  Progress.finish_both_le (hc t time hle hfired) (hd t time hle hfired)

theorem punctual_together {cs : List (Call ι ε α)} (h : ∀ c ∈ cs, c.Punctual token) :
    (together cs).Punctual token := by
  induction cs with
  | nil => exact punctual_succeed []
  | cons c cs ih =>
    have hc : c.Punctual token := h c List.mem_cons_self
    have hcs : (together cs).Punctual token := ih fun d hd => h d (List.mem_cons_of_mem c hd)
    exact (hc.both hcs).bind fun p => punctual_succeed (p.1 :: p.2)

theorem punctual_all {cs : List (Call ι ε α)} (h : ∀ c ∈ cs, c.Punctual token) :
    (all cs).Punctual token := by
  by_cases hsmall : cs.length ≤ smallGroup
  · rw [all_of_small hsmall]
    exact punctual_together h
  · intro t time hle hfired
    rw [all_of_large hsmall]
    apply Progress.endInOrder_le hle
    intro p hp
    obtain ⟨c, hc, rfl⟩ := List.mem_map.1 hp
    exact h c hc t time hle hfired

end Call

/-- Whatever races against a token is over when the token fires. -/
theorem CancelToken.punctual_run (token : CancelToken) (cancelled : Cancelled → ε)
    (c : Call ι ε α) : (token.run cancelled c).Punctual token := by
  intro t time hle hfired
  cases hnow : token.check t with
  | error r => rwa [token.run_of_error hnow]
  | ok u =>
    cases hfires : token.firesBy (c t).finish with
    | some fired =>
      have hfinish : (token.run cancelled c t).finish = fired.1 := by simp only [run, hnow, hfires]
      rw [hfinish]
      exact firesBy_le hfires hfired
    | none =>
      have hend : token.check (c t).finish = .ok () := (firesBy_eq_none_iff token _).1 hfires
      rw [run_of_ok hnow hend]
      by_contra hlate
      exact check_mono hfired (by omega) hend

namespace StoreCall

theorem punctual_observed {c : StoreCall α} (hc : c.Punctual token) : c.observed.Punctual token :=
  hc

end StoreCall
end ContentEngine
