/-!
# Successful outcomes

When a computation that may fail succeeds, all its steps did. `Ensures` states a property of what a
computation with a state gives if it succeeds, and is put together from its steps. `Runs` is one such
success, with the states before and after it. `Follows` relates two computations: where the first one
succeeds, the second one does as well, leads to the same state and gives a related result. `Steady`
states that what a computation gives is the same for all states of a kind. `Ends` bounds the ways in
which a computation can fail as well.
-/

namespace ContentEngine.Except
variable {ε α β : Type}

theorem map_eq_ok_iff {f : α → β} {x : Except ε α} {b : β} :
    x.map f = .ok b ↔ ∃ a, x = .ok a ∧ f a = b := by
  cases x <;> simp [Except.map]

theorem map_eq_error_iff {f : α → β} {x : Except ε α} {e : ε} :
    x.map f = .error e ↔ x = .error e := by
  cases x <;> simp [Except.map]

theorem bind_eq_ok_iff {x : Except ε α} {f : α → Except ε β} {b : β} :
    x >>= f = .ok b ↔ ∃ a, x = .ok a ∧ f a = .ok b := by
  cases x <;> simp [bind, Except.bind]

end ContentEngine.Except

namespace ContentEngine
variable {ε σ α β : Type} {P : α → Prop} {Q : β → Prop}

/-- Whatever the state it starts from, a computation that succeeds gives a result with a property. -/
def Ensures (m : ExceptT ε (StateM σ) α) (P : α → Prop) : Prop :=
  ∀ s a, (m.run.run s).1 = .ok a → P a

theorem ensures_pure {a : α} (h : P a) : Ensures (pure a : ExceptT ε (StateM σ) α) P := by
  intro s b hb
  obtain rfl := Except.ok.inj hb
  exact h

theorem ensures_throw (e : ε) : Ensures (throw e : ExceptT ε (StateM σ) α) P := by
  intro s b hb
  exact absurd hb (by rintro ⟨⟩)

theorem ensures_true (m : ExceptT ε (StateM σ) α) : Ensures m fun _ => True :=
  fun _ _ _ => trivial

theorem Ensures.bind {m : ExceptT ε (StateM σ) α} {f : α → ExceptT ε (StateM σ) β}
    (hm : Ensures m P) (hf : ∀ a, P a → Ensures (f a) Q) : Ensures (m >>= f) Q := by
  intro s b hb
  rcases hrun : m.run.run s with ⟨e | a, s'⟩
  · have hfail : (m >>= f).run.run s = (.error e, s') := by
      simp only [ExceptT.run_bind, StateT.run_bind, hrun]
      rfl
    rw [hfail] at hb
    exact absurd hb (by simp)
  · have hnext : (m >>= f).run.run s = (f a).run.run s' := by
      simp only [ExceptT.run_bind, StateT.run_bind, hrun]
      rfl
    rw [hnext] at hb
    exact hf a (hm s a (by rw [hrun])) s' b hb

/-! ## Runs -/

/-- From a state, a computation succeeds with a result and leads to a state. -/
def Runs (m : ExceptT ε (StateM σ) α) (s : σ) (a : α) (s' : σ) : Prop := m.run.run s = (.ok a, s')

theorem runs_pure (a : α) (s : σ) : Runs (pure a : ExceptT ε (StateM σ) α) s a s := rfl

theorem runs_get (s : σ) : Runs (get : ExceptT ε (StateM σ) σ) s s s := rfl

theorem runs_set (s s' : σ) : Runs (set s' : ExceptT ε (StateM σ) PUnit) s ⟨⟩ s' := rfl

theorem Runs.bind {m : ExceptT ε (StateM σ) α} {f : α → ExceptT ε (StateM σ) β} {s s' s'' : σ}
    {a : α} {b : β} (hm : Runs m s a s') (hf : Runs (f a) s' b s'') : Runs (m >>= f) s b s'' := by
  unfold Runs at *
  simp only [ExceptT.run_bind, StateT.run_bind, hm]
  exact hf

theorem Runs.unique {m : ExceptT ε (StateM σ) α} {s s' s'' : σ} {a a' : α} (h : Runs m s a s')
    (h' : Runs m s a' s'') : a = a' :=
  Except.ok.inj (congrArg Prod.fst (h.symm.trans h'))

theorem Runs.of_bind {m : ExceptT ε (StateM σ) α} {f : α → ExceptT ε (StateM σ) β} {s s'' : σ} {b : β}
    (h : Runs (m >>= f) s b s'') : ∃ a s', Runs m s a s' ∧ Runs (f a) s' b s'' := by
  unfold Runs at *
  simp only [ExceptT.run_bind, StateT.run_bind] at h
  rcases hm : m.run.run s with ⟨e | a, s'⟩
  · rw [hm] at h
    exact absurd (Prod.ext_iff.1 h).1 (by rintro ⟨⟩)
  · rw [hm] at h
    exact ⟨a, s', rfl, h⟩

/-! ## Computations that follow others -/

section
variable {α' β' : Type} {R : α → α' → Prop} {R' : β → β' → Prop}

/-- From every state from which `m` succeeds, `m'` leads to the same state with a related result. -/
def Follows (R : α → α' → Prop) (m : ExceptT ε (StateM σ) α) (m' : ExceptT ε (StateM σ) α') : Prop :=
  ∀ s a s', Runs m s a s' → ∃ a', Runs m' s a' s' ∧ R a a'

theorem follows_pure {a : α} {a' : α'} (h : R a a') :
    Follows R (pure a : ExceptT ε (StateM σ) α) (pure a') := by
  intro s b s' hb
  obtain ⟨hresult, rfl⟩ := Prod.mk.inj hb
  obtain rfl := Except.ok.inj hresult
  exact ⟨a', rfl, h⟩

/-- A computation that never succeeds is followed by all others. -/
theorem Ensures.vacuous {m : ExceptT ε (StateM σ) α} (h : Ensures m fun _ => False)
    (m' : ExceptT ε (StateM σ) α') : Follows R m m' :=
  fun s a _ ha => (h s a (congrArg Prod.fst ha)).elim

theorem follows_throw (e : ε) (m' : ExceptT ε (StateM σ) α') :
    Follows R (throw e : ExceptT ε (StateM σ) α) m' := (ensures_throw e).vacuous m'

theorem Ensures.follows {m : ExceptT ε (StateM σ) α} (h : Ensures m P) :
    Follows (fun a a' => a = a' ∧ P a) m m := by
  intro s a s' ha
  exact ⟨a, ha, rfl, h s a (congrArg Prod.fst ha)⟩

theorem Follows.bind {m : ExceptT ε (StateM σ) α} {m' : ExceptT ε (StateM σ) α'}
    {f : α → ExceptT ε (StateM σ) β} {f' : α' → ExceptT ε (StateM σ) β'} (hm : Follows R m m')
    (hf : ∀ a a', R a a' → Follows R' (f a) (f' a')) : Follows R' (m >>= f) (m' >>= f') := by
  intro s b s'' hb
  obtain ⟨a, s', ha, hb⟩ := hb.of_bind
  obtain ⟨a', ha', hR⟩ := hm s a s' ha
  obtain ⟨b', hb', hR'⟩ := hf a a' hR s' b s'' hb
  exact ⟨b', ha'.bind hb', hR'⟩

/-- Both computations begin with the same step. -/
theorem Ensures.followed {m : ExceptT ε (StateM σ) α} {f : α → ExceptT ε (StateM σ) β}
    {f' : α → ExceptT ε (StateM σ) β'} (hm : Ensures m P)
    (hf : ∀ a, P a → Follows R' (f a) (f' a)) : Follows R' (m >>= f) (m >>= f') :=
  hm.follows.bind fun a a' h => by
    obtain ⟨rfl, ha⟩ := h
    exact hf a ha

end

/-! ## Steady computations -/

variable {S : σ → Prop}

/-- From any states of a kind, a computation gives the same and leads to a state of that kind. -/
def Steady (S : σ → Prop) (m : ExceptT ε (StateM σ) α) : Prop :=
  ∀ s s', S s → S s' → (m.run.run s).1 = (m.run.run s').1 ∧ S (m.run.run s).2

theorem steady_pure (a : α) : Steady S (pure a : ExceptT ε (StateM σ) α) :=
  fun _ _ hs _ => ⟨rfl, hs⟩

theorem steady_throw (e : ε) : Steady S (throw e : ExceptT ε (StateM σ) α) :=
  fun _ _ hs _ => ⟨rfl, hs⟩

/-- If a steady computation succeeds from one state of a kind, it does so from all. -/
theorem Runs.of_steady {m : ExceptT ε (StateM σ) α} (hm : Steady S m) {s s₁ s' : σ} {a : α}
    (h : Runs m s a s₁) (hs : S s) (hs' : S s') : ∃ s₂, Runs m s' a s₂ := by
  refine ⟨(m.run.run s').2, Prod.ext ?_ rfl⟩
  rw [(hm s' s hs' hs).1, h]

theorem Steady.bind {m : ExceptT ε (StateM σ) α} {f : α → ExceptT ε (StateM σ) β}
    (hm : Steady S m) (hp : Ensures m P) (hf : ∀ a, P a → Steady S (f a)) : Steady S (m >>= f) := by
  intro s s' hs hs'
  obtain ⟨hsame, hkept⟩ := hm s s' hs hs'
  have hkept' := (hm s' s hs' hs).2
  have hresult := hp s
  simp only [ExceptT.run_bind, StateT.run_bind]
  generalize m.run.run s = x at hsame hkept hresult ⊢
  generalize m.run.run s' = x' at hsame hkept' ⊢
  obtain ⟨r, t⟩ := x
  obtain ⟨r', t'⟩ := x'
  obtain rfl : r = r' := hsame
  cases r with
  | error e => exact ⟨rfl, hkept⟩
  | ok a => exact hf a (hresult a rfl) t t' hkept hkept'

theorem Steady.andThen {m : ExceptT ε (StateM σ) α} {f : α → ExceptT ε (StateM σ) β}
    (hm : Steady S m) (hf : ∀ a, Steady S (f a)) : Steady S (m >>= f) :=
  hm.bind (ensures_true m) fun a _ => hf a

/-! ## Both ends -/

/-- Whatever the state it starts from, a computation that succeeds gives a result with a property, and
one that fails does so with an error of a kind. -/
structure Ends (m : ExceptT ε (StateM σ) α) (P : α → Prop) (E : ε → Prop) : Prop where
  ensures : Ensures m P
  fails : ∀ s e, (m.run.run s).1 = .error e → E e

variable {E : ε → Prop}

theorem ends_pure {a : α} (h : P a) : Ends (pure a : ExceptT ε (StateM σ) α) P E :=
  ⟨ensures_pure h, fun _ _ he => absurd he (by rintro ⟨⟩)⟩

theorem ends_throw {e : ε} (h : E e) : Ends (throw e : ExceptT ε (StateM σ) α) P E :=
  ⟨ensures_throw e, fun _ _ he => Except.error.inj he ▸ h⟩

theorem ends_get : Ends (get : ExceptT ε (StateM σ) σ) (fun _ => True) E :=
  ⟨ensures_true _, fun _ _ he => absurd he (by rintro ⟨⟩)⟩

theorem ends_set (s : σ) : Ends (set s : ExceptT ε (StateM σ) PUnit) (fun _ => True) E :=
  ⟨ensures_true _, fun _ _ he => absurd he (by rintro ⟨⟩)⟩

theorem Ends.bind {m : ExceptT ε (StateM σ) α} {f : α → ExceptT ε (StateM σ) β} (hm : Ends m P E)
    (hf : ∀ a, P a → Ends (f a) Q E) : Ends (m >>= f) Q E := by
  refine ⟨hm.ensures.bind fun a ha => (hf a ha).ensures, fun s e he => ?_⟩
  simp only [ExceptT.run_bind, StateT.run_bind] at he
  rcases hrun : m.run.run s with ⟨e' | a, s'⟩
  · rw [hrun] at he
    obtain rfl : e' = e := Except.error.inj he
    exact hm.fails s e' (by rw [hrun])
  · rw [hrun] at he
    exact (hf a (hm.ensures s a (by rw [hrun]))).fails s' e he

theorem Ends.andThen {m : ExceptT ε (StateM σ) α} {f : α → ExceptT ε (StateM σ) β} (hm : Ends m P E)
    (hf : ∀ a, Ends (f a) Q E) : Ends (m >>= f) Q E :=
  hm.bind fun a _ => hf a

theorem Ends.imp {m : ExceptT ε (StateM σ) α} {P' : α → Prop} {E' : ε → Prop} (h : Ends m P E)
    (hP : ∀ a, P a → P' a) (hE : ∀ e, E e → E' e) : Ends m P' E' :=
  ⟨fun s a ha => hP a (h.ensures s a ha), fun s e he => hE e (h.fails s e he)⟩

end ContentEngine
