import ContentEngine.Proofs.Clock.Settles

/-!
# Calls that take the same course

Two calls are alike if, started at the same time, they end at the same time, and both succeed or both
fail with the same error. Their results may differ. Programs of calls that settle go on alike from
what their calls settle on.
-/

namespace ContentEngine
variable {ι ε α α' β β' : Type}

namespace Progress

structure Alike (p : Progress ι ε α) (p' : Progress ι ε α') : Prop where
  finish : p.finish = p'.finish
  outcome : (p.outcome.map fun _ => ()) = p'.outcome.map fun _ => ()

variable {p : Progress ι ε α} {p' : Progress ι ε α'} {q : Progress ι ε β} {q' : Progress ι ε β'}

theorem Alike.cases (h : p.Alike p') :
    (∃ a a', p.outcome = .ok a ∧ p'.outcome = .ok a') ∨
      ∃ e, p.outcome = .error e ∧ p'.outcome = .error e := by
  have houtcome := h.outcome
  cases hp : p.outcome <;> cases hp' : p'.outcome <;> simp_all [Except.map]

theorem Alike.failed (h : p.Alike p') : p.failed = p'.failed := by
  rcases h.cases with ⟨a, a', ha, ha'⟩ | ⟨e, he, he'⟩
  · simp only [Progress.failed, ha, ha']
  · simp only [Progress.failed, he, he']

theorem Alike.both (hp : p.Alike p') (hq : q.Alike q') : (p.both q).Alike (p'.both q') := by
  rcases hp.cases with ⟨a, a', ha, ha'⟩ | ⟨e, he, he'⟩ <;>
    rcases hq.cases with ⟨b, b', hb, hb'⟩ | ⟨f, hf, hf'⟩
  · simp only [Progress.both, ha, ha', hb, hb', hp.finish, hq.finish]
    exact ⟨rfl, rfl⟩
  · simp only [Progress.both, ha, ha', hf, hf', hq.finish]
    exact ⟨rfl, rfl⟩
  · simp only [Progress.both, he, he', hb, hb', hp.finish]
    exact ⟨rfl, rfl⟩
  · simp only [Progress.both, he, he', hf, hf', hp.finish, hq.finish]
    split
    · exact ⟨rfl, rfl⟩
    · exact ⟨rfl, rfl⟩

theorem alike_inOrder {ps : List (Progress ι ε α)} {qs : List (Progress ι ε α')}
    (h : List.Forall₂ Alike ps qs) (start : Nat) :
    (inOrder start ps).Alike (inOrder start qs) := by
  have hend : endInOrder start ps = endInOrder start qs := by
    induction h with
    | nil => rfl
    | cons hp _ ih => simp only [endInOrder, hp.failed, hp.finish, ih]
  have houtcomes : (ps.mapM outcome).map (fun _ => ()) =
      (qs.mapM outcome).map fun _ => () := by
    clear hend
    induction h with
    | nil => rfl
    | @cons p q ps qs hp _ ih =>
      rw [List.mapM_cons, List.mapM_cons]
      rcases hp.cases with ⟨a, a', ha, ha'⟩ | ⟨e, he, he'⟩
      · rw [ha, ha']
        cases hps : ps.mapM outcome <;> cases hqs : qs.mapM outcome <;>
          rw [hps, hqs] at ih
        · exact ih
        · cases ih
        · cases ih
        · rfl
      · rw [he, he']
        rfl
  exact ⟨hend, houtcomes⟩

end Progress

namespace Call

def Alike (c : Call ι ε α) (c' : Call ι ε α') : Prop := ∀ t, (c t).Alike (c' t)

variable {c : Call ι ε α} {c' : Call ι ε α'} {d : Call ι ε β} {d' : Call ι ε β'}
  {f : α → Call ι ε β} {f' : α' → Call ι ε β'}

theorem alike_succeed (a : α) (a' : α') : (succeed a : Call ι ε α).Alike (succeed a') :=
  fun _ => ⟨rfl, rfl⟩

theorem alike_refl (c : Call ι ε α) : c.Alike c := fun _ => ⟨rfl, rfl⟩

theorem alike_record (entry entry' : ι) :
    (record entry : Call ι ε Unit).Alike (record entry') := fun _ => ⟨rfl, rfl⟩

theorem alike_recordAll (entries entries' : List ι) :
    (recordAll entries : Call ι ε Unit).Alike (recordAll entries') := fun _ => ⟨rfl, rfl⟩

theorem Alike.bind (hc : c.Alike c')
    (hf : ∀ t a a', (c t).outcome = .ok a → (c' t).outcome = .ok a' → (f a).Alike (f' a')) :
    (c >>= f).Alike (c' >>= f') := by
  intro t
  change (c.andThen f t).Alike (c'.andThen f' t)
  rcases (hc t).cases with ⟨a, a', ha, ha'⟩ | ⟨e, he, he'⟩
  · have hnext := hf t a a' ha ha' (c t).finish
    simp only [andThen, ha, ha']
    rw [(hc t).finish] at hnext ⊢
    exact ⟨hnext.finish, hnext.outcome⟩
  · simp only [andThen, he, he']
    exact ⟨(hc t).finish, rfl⟩

/-- What comes next does not matter for the results of the first calls. -/
theorem Alike.andThen (hc : c.Alike c') (hf : ∀ a a', (f a).Alike (f' a')) :
    (c >>= f).Alike (c' >>= f') := hc.bind fun _ a a' _ _ => hf a a'

theorem Alike.map (hc : c.Alike c') (g : α → β) (g' : α' → β') :
    Alike (do return g (← c)) (do return g' (← c')) :=
  hc.andThen fun a a' => alike_succeed (g a) (g' a')

theorem Settles.eq_of_ok {fits : ε → Nat → Prop} {a b : α} (h : c.Settles fits a) {t : Nat}
    (hb : (c t).outcome = .ok b) : b = a := by
  have hsettled := h t
  rwa [Progress.Settled, hb] at hsettled

/-- The calls go on from what they have settled on. -/
theorem Alike.settled {fits fits' : ε → Nat → Prop} {a : α} {a' : α'} (hc : c.Alike c')
    (ha : c.Settles fits a) (ha' : c'.Settles fits' a') (hf : (f a).Alike (f' a')) :
    (c >>= f).Alike (c' >>= f') := by
  refine hc.bind fun t b b' hb hb' => ?_
  rw [ha.eq_of_ok hb, ha'.eq_of_ok hb']
  exact hf

theorem Alike.both (hc : c.Alike c') (hd : d.Alike d') : (c.both d).Alike (c'.both d') :=
  fun t => (hc t).both (hd t)

theorem alike_together {cs : List (Call ι ε α)} {cs' : List (Call ι ε α')}
    (h : List.Forall₂ Alike cs cs') : (together cs).Alike (together cs') := by
  induction h with
  | nil => exact alike_succeed [] []
  | cons hc _ ih => exact (hc.both ih).andThen fun _ _ => alike_succeed _ _

theorem alike_all {cs : List (Call ι ε α)} {cs' : List (Call ι ε α')}
    (h : List.Forall₂ Alike cs cs') : (all cs).Alike (all cs') := by
  by_cases hsmall : cs.length ≤ smallGroup
  · rw [all_of_small hsmall, all_of_small (h.length_eq ▸ hsmall)]
    exact alike_together h
  · intro t
    rw [all_of_large hsmall, all_of_large (h.length_eq ▸ hsmall)]
    refine Progress.alike_inOrder ?_ t
    rw [List.forall₂_map_left_iff, List.forall₂_map_right_iff]
    exact h.imp fun _ _ hc => hc t

theorem Alike.mapError {ε' : Type} (hc : c.Alike c') (g : ε → ε') :
    (c.mapError g).Alike (c'.mapError g) := by
  intro t
  refine ⟨(hc t).finish, ?_⟩
  change (((c t).outcome.mapError g).map fun _ => ()) = ((c' t).outcome.mapError g).map fun _ => ()
  rcases (hc t).cases with ⟨a, a', ha, ha'⟩ | ⟨e, he, he'⟩
  · rw [ha, ha']
    rfl
  · rw [he, he']
    rfl

end Call

theorem CancelToken.alike_run (token : CancelToken) (cancelled : Cancelled → ε) {c : Call ι ε α}
    {c' : Call ι ε α'} (h : c.Alike c') :
    (token.run cancelled c).Alike (token.run cancelled c') := by
  intro t
  cases hcheck : token.check t with
  | error r =>
    simp only [CancelToken.run, hcheck]
    exact ⟨rfl, rfl⟩
  | ok u =>
    cases hfire : token.firesBy (c t).finish with
    | none =>
      have hfire' := (h t).finish ▸ hfire
      simp only [CancelToken.run, hcheck, hfire, hfire']
      exact h t
    | some fired =>
      have hfire' := (h t).finish ▸ hfire
      simp only [CancelToken.run, hcheck, hfire, hfire']
      exact ⟨rfl, rfl⟩

namespace StoreCall

theorem alike_observed {c : StoreCall α} {c' : StoreCall α'} (h : c.Alike c') :
    c.observed.Alike c'.observed := fun t => ⟨(h t).finish, (h t).outcome⟩

/-- Calls of the store take the same time. -/
theorem alike_ofStore (delay : Nat) (call : AdapterCall) {result : Except AdapterError α}
    {result' : Except AdapterError α'}
    (h : (result.map fun _ => ()) = result'.map fun _ => ()) :
    (ofStore delay call result).Alike (ofStore delay call result') := by
  intro t
  cases result with
  | ok a =>
    cases result' with
    | ok a' => exact ⟨rfl, rfl⟩
    | error e => cases h
  | error e =>
    cases result' with
    | ok a' => cases h
    | error e' =>
      obtain rfl := Except.error.inj h
      exact ⟨rfl, rfl⟩

end StoreCall
end ContentEngine
