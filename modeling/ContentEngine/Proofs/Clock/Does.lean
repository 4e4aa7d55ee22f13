import ContentEngine.Clock.Log

/-!
# What a call does

`Does c t entries finish x` states that the call `c`, started at `t`, leaves the entries in its log,
whenever they come, and ends at `finish` with the outcome `x`. What a sequence of calls does is put
together from what its parts do, up to the first failure.
-/

namespace ContentEngine
variable {ι ε α β : Type}

namespace Call

structure Does (c : Call ι ε α) (t : Nat) (entries : List ι) (finish : Nat) (x : Except ε α) :
    Prop where
  entries : (c t).log.map (·.entry) = entries
  finish : (c t).finish = finish
  outcome : (c t).outcome = x

theorem does_succeed (a : α) (t : Nat) : (succeed a : Call ι ε α).Does t [] t (.ok a) :=
  ⟨rfl, rfl, rfl⟩

theorem does_fail (e : ε) (t : Nat) : (fail e : Call ι ε α).Does t [] t (.error e) :=
  ⟨rfl, rfl, rfl⟩

theorem does_record (entry : ι) (t : Nat) :
    (record entry : Call ι ε Unit).Does t [entry] t (.ok ()) :=
  ⟨rfl, rfl, rfl⟩

theorem does_recordAll (entries : List ι) (t : Nat) :
    (recordAll entries : Call ι ε Unit).Does t entries t (.ok ()) :=
  ⟨by simp [recordAll, Function.comp_def], rfl, rfl⟩

theorem does_ofExcept (x : Except ε α) (t : Nat) : (ofExcept x : Call ι ε α).Does t [] t x := by
  cases x <;> exact ⟨rfl, rfl, rfl⟩

variable {c : Call ι ε α} {f : α → Call ι ε β} {a : α} {e : ε} {x : Except ε β}
  {l l' : List ι} {t t' t'' : Nat}

theorem Does.bind (hc : c.Does t l t' (.ok a)) (hf : (f a).Does t' l' t'' x) :
    (c >>= f).Does t (l ++ l') t'' x := by
  obtain ⟨hl, ht', ha⟩ := hc
  subst ht'
  obtain ⟨hl', ht'', hx⟩ := hf
  have hrun : (c >>= f) t = ⟨(c t).log ++ (f a (c t).finish).log, (f a (c t).finish).finish,
      (f a (c t).finish).outcome⟩ := by
    change c.andThen f t = _
    simp only [andThen, ha]
  exact ⟨by rw [hrun, List.map_append, hl, hl'], by rw [hrun, ht''], by rw [hrun, hx]⟩

theorem Does.cast {x : Except ε α} (hc : c.Does t l t' x) (hl : l = l') : c.Does t l' t' x :=
  hl ▸ hc

theorem Does.bind_error (hc : c.Does t l t' (.error e)) :
    (c >>= f).Does t l t' (.error e) := by
  obtain ⟨hl, ht', he⟩ := hc
  have hrun : (c >>= f) t = ⟨(c t).log, (c t).finish, .error e⟩ := by
    change c.andThen f t = _
    simp only [andThen, he]
  exact ⟨by rw [hrun, hl], by rw [hrun, ht'], by rw [hrun]⟩

/-- A call that leaves nothing and takes no time only passes its result on. -/
theorem Does.bind_eq (hc : c.Does t [] t (.ok a)) : (c >>= f) t = f a t := by
  have hlog : (c t).log = [] := List.map_eq_nil_iff.1 hc.entries
  change c.andThen f t = _
  simp only [andThen, hc.outcome, hc.finish, hlog, List.nil_append]

theorem Does.mapError {ε' : Type} {x : Except ε α} (hc : c.Does t l t' x) (g : ε → ε') :
    (c.mapError g).Does t l t' (x.mapError g) :=
  ⟨hc.entries, hc.finish, congrArg (Except.mapError g) hc.outcome⟩

end Call

/-- A call that ends before the token fires is not touched. -/
theorem CancelToken.does_run {token : CancelToken} {cancelled : Cancelled → ε} {c : Call ι ε α}
    {t t' : Nat} {l : List ι} {x : Except ε α} (hcheck : token.check t = .ok ())
    (hfire : token.firesBy (c t).finish = none) (hc : c.Does t l t' x) :
    (token.run cancelled c).Does t l t' x := by
  have hrun : token.run cancelled c t = c t := by
    simp only [CancelToken.run, hcheck, hfire]
  exact ⟨by rw [hrun, hc.entries], by rw [hrun, hc.finish], by rw [hrun, hc.outcome]⟩

namespace StoreCall

/-- What is reported of an outcome. -/
def reports : Except Interruption α → List Entry
  | .error i => i.report
  | .ok _ => []

theorem does_observed {c : StoreCall α} {t t' : Nat} {l : List Entry} {x : Except Interruption α}
    (hc : c.Does t l t' x) : c.observed.Does t (l ++ reports x) t' x := by
  obtain ⟨rfl, rfl, rfl⟩ := hc
  refine ⟨?_, rfl, rfl⟩
  cases hx : (c t).outcome <;>
    simp [observed, Call.afterwards, hx, reports, Function.comp_def]

theorem does_ofStore (delay : Nat) (call : AdapterCall) (a : α) (t : Nat) :
    (ofStore delay call (.ok a)).Does t [.started call, .served call]
      (t + Clock.ofMillis delay) (.ok a) :=
  ⟨rfl, rfl, rfl⟩

theorem does_ofStore_error (delay : Nat) (call : AdapterCall) (e : AdapterError) (t : Nat) :
    (ofStore delay call (.error e) : StoreCall α).Does t [.started call]
      (t + Clock.ofMillis delay) (.error (.adapter e)) :=
  ⟨rfl, rfl, rfl⟩

end StoreCall
end ContentEngine
