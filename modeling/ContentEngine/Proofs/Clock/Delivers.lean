import ContentEngine.Proofs.Clock.Settles
import ContentEngine.Proofs.Outcome

/-!
# What calls deliver

A call delivers a property if its result has the property whenever it succeeds, at whatever time it
is started. Nothing is said of calls that fail or are cut off.
-/

namespace ContentEngine
variable {ι ε α β : Type} {P : α → Prop} {Q : β → Prop}

def Call.Delivers (P : α → Prop) (c : Call ι ε α) : Prop := ∀ t a, (c t).outcome = .ok a → P a

theorem Progress.outcome_both {p : Progress ι ε α} {q : Progress ι ε β} {x : α × β}
    (h : (p.both q).outcome = .ok x) : p.outcome = .ok x.1 ∧ q.outcome = .ok x.2 := by
  cases hp : p.outcome with
  | ok a =>
    cases hq : q.outcome with
    | ok b =>
      simp only [both, hp, hq, Except.ok.injEq] at h
      exact ⟨by rw [← h], by rw [← h]⟩
    | error e => simp [both, hp, hq] at h
  | error e =>
    cases hq : q.outcome with
    | ok b => simp [both, hp, hq] at h
    | error e' =>
      simp only [both, hp, hq] at h
      split at h <;> simp at h

/-- A group that is taken in order succeeds with what its members succeed with. -/
theorem Progress.outcome_of_mem_mapM {ps : List (Progress ι ε α)} {as : List α}
    (h : ps.mapM (·.outcome) = .ok as) : ∀ a ∈ as, ∃ p ∈ ps, p.outcome = .ok a := by
  induction ps generalizing as with
  | nil =>
    obtain rfl : [] = as := Except.ok.inj h
    exact fun a ha => absurd ha List.not_mem_nil
  | cons p ps ih =>
    rw [List.mapM_cons] at h
    obtain ⟨a, ha, h⟩ := Except.bind_eq_ok_iff.1 h
    obtain ⟨rest, hrest, h⟩ := Except.bind_eq_ok_iff.1 h
    obtain rfl : a :: rest = as := Except.ok.inj h
    rw [List.forall_mem_cons]
    refine ⟨⟨p, List.mem_cons_self, ha⟩, fun b hb => ?_⟩
    obtain ⟨q, hq, hqb⟩ := ih hrest b hb
    exact ⟨q, List.mem_cons_of_mem p hq, hqb⟩

namespace Call
variable {c : Call ι ε α} {d : Call ι ε β} {f : α → Call ι ε β}

theorem delivers_succeed {a : α} (h : P a) : (succeed a : Call ι ε α).Delivers P := by
  intro t b hb
  obtain rfl := Except.ok.inj hb
  exact h

theorem delivers_true (c : Call ι ε α) : c.Delivers fun _ => True := fun _ _ _ => trivial

theorem Delivers.bind (hc : c.Delivers P) (hf : ∀ a, P a → (f a).Delivers Q) :
    (c >>= f).Delivers Q := by
  intro t b hb
  change (c.andThen f t).outcome = .ok b at hb
  cases ha : (c t).outcome with
  | error e =>
    simp only [andThen, ha] at hb
    cases hb
  | ok a =>
    simp only [andThen, ha] at hb
    exact hf a (hc t a ha) _ b hb

theorem Delivers.map (hc : c.Delivers P) {g : α → β} (hg : ∀ a, P a → Q (g a)) :
    (do return g (← c)).Delivers Q := hc.bind fun a ha => delivers_succeed (hg a ha)

theorem Delivers.mapError {ε' : Type} (hc : c.Delivers P) (g : ε → ε') :
    (c.mapError g).Delivers P := by
  intro t a ha
  change (c t).outcome.mapError g = .ok a at ha
  cases hx : (c t).outcome with
  | ok b =>
    rw [hx] at ha
    obtain rfl := Except.ok.inj ha
    exact hc t b hx
  | error e =>
    rw [hx] at ha
    cases ha

theorem Delivers.both (hc : c.Delivers P) (hd : d.Delivers Q) :
    (c.both d).Delivers fun x => P x.1 ∧ Q x.2 := by
  intro t x hx
  obtain ⟨hp, hq⟩ := Progress.outcome_both hx
  exact ⟨hc t _ hp, hd t _ hq⟩

theorem delivers_together {cs : List (Call ι ε α)} (h : ∀ c ∈ cs, c.Delivers P) :
    (together cs).Delivers fun as => ∀ a ∈ as, P a := by
  induction cs with
  | nil => exact delivers_succeed (List.forall_mem_nil _)
  | cons c cs ih =>
    have hc : c.Delivers P := h c List.mem_cons_self
    have hcs := ih fun d hd => h d (List.mem_cons_of_mem c hd)
    exact (hc.both hcs).bind fun x hx => delivers_succeed (List.forall_mem_cons.2 hx)

theorem delivers_all {cs : List (Call ι ε α)} (h : ∀ c ∈ cs, c.Delivers P) :
    (all cs).Delivers fun as => ∀ a ∈ as, P a := by
  by_cases hsmall : cs.length ≤ smallGroup
  · rw [all_of_small hsmall]
    exact delivers_together h
  · intro t as has a ha
    rw [all_of_large hsmall] at has
    obtain ⟨p, hp, hpa⟩ := Progress.outcome_of_mem_mapM has a ha
    obtain ⟨c, hc, rfl⟩ := List.mem_map.1 hp
    exact h c hc t a hpa

end Call

/-- What a token does not cut off delivers what it would deliver alone. -/
theorem CancelToken.delivers_run (token : CancelToken) (cancelled : Cancelled → ε) {c : Call ι ε α}
    (hc : c.Delivers P) : (token.run cancelled c).Delivers P := by
  intro t a ha
  cases hcheck : token.check t with
  | error r =>
    simp only [CancelToken.run, hcheck] at ha
    cases ha
  | ok u =>
    cases hfires : token.firesBy (c t).finish with
    | some fired =>
      simp only [CancelToken.run, hcheck, hfires] at ha
      cases ha
    | none =>
      simp only [CancelToken.run, hcheck, hfires] at ha
      exact hc t a ha

namespace StoreCall

theorem delivers_observed {c : StoreCall α} (hc : c.Delivers P) : c.observed.Delivers P := hc

theorem delivers_ofStore (delay : Nat) (call : AdapterCall) {result : Except AdapterError α}
    (h : ∀ a, result = .ok a → P a) : (ofStore delay call result).Delivers P := by
  intro t a ha
  cases result with
  | ok b =>
    obtain rfl := Except.ok.inj ha
    exact h b rfl
  | error e => cases ha

end StoreCall
end ContentEngine
