import ContentEngine.Proofs.Clock.Does
import ContentEngine.Proofs.Clock.Settles

/-!
# What a call can leave in its log

`Bounded P counted n c` states that the call `c`, whenever it is started, leaves only entries of the
kind `P`, and at most `n` of them are counted. A sequence of calls counts at most what its parts do
together, and so does a group of calls side by side: whatever a group leaves out, because a member
fails, is missing in the logs of its members.
-/

namespace ContentEngine
variable {ι ε α β : Type} {P : ι → Prop} {counted : ι → Bool} {m n : Nat}

/-- All entries are of one kind, and at most `n` of them are counted. -/
structure Bounded (P : ι → Prop) (counted : ι → Bool) (n : Nat) (log : List (Stamped ι)) :
    Prop where
  kind : ∀ s ∈ log, P s.entry
  count : log.countP (fun s => counted s.entry) ≤ n

namespace Bounded
variable {l l' : List (Stamped ι)}

theorem nil (n : Nat) : Bounded P counted n [] := ⟨by simp, Nat.zero_le n⟩

theorem sublist (h : Bounded P counted n l) (hl : l'.Sublist l) : Bounded P counted n l' :=
  ⟨fun s hs => h.kind s (hl.subset hs), Nat.le_trans hl.countP_le h.count⟩

theorem append (h : Bounded P counted m l) (h' : Bounded P counted n l') :
    Bounded P counted (m + n) (l ++ l') := by
  refine ⟨fun s hs => (List.mem_append.1 hs).elim (h.kind s) (h'.kind s), ?_⟩
  rw [List.countP_append]
  exact Nat.add_le_add h.count h'.count

theorem mono {Q : ι → Prop} (h : Bounded P counted m l) (hP : ∀ e, P e → Q e) (hmn : m ≤ n) :
    Bounded Q counted n l :=
  ⟨fun s hs => hP _ (h.kind s hs), Nat.le_trans h.count hmn⟩

end Bounded

namespace Progress
variable {p : Progress ι ε α} {q : Progress ι ε β}

theorem logUntil_sublist (p : Progress ι ε α) (time : Nat) (strict : Bool) :
    (p.logUntil time strict).Sublist p.log := List.filter_sublist

theorem bounded_both (hp : Bounded P counted m p.log) (hq : Bounded P counted n q.log) :
    Bounded P counted (m + n) (p.both q).log := by
  have hcut : ∀ time strict, Bounded P counted m (p.logUntil time strict) :=
    fun time strict => hp.sublist (p.logUntil_sublist time strict)
  have hcut' : ∀ time strict, Bounded P counted n (q.logUntil time strict) :=
    fun time strict => hq.sublist (q.logUntil_sublist time strict)
  unfold Progress.both
  split
  · exact hp.append hq
  · exact hp.append (hcut' _ _)
  · exact (hcut _ _).append hq
  · split
    · exact hp.append (hcut' _ _)
    · exact (hcut _ _).append hq

end Progress

namespace Call
variable {c : Call ι ε α} {d : Call ι ε β} {f : α → Call ι ε β}

def Bounded (P : ι → Prop) (counted : ι → Bool) (n : Nat) (c : Call ι ε α) : Prop :=
  ∀ t, ContentEngine.Bounded P counted n (c t).log

/-- `BoundedAll P counted n cs`: the calls count at most `n` entries together. -/
inductive BoundedAll (P : ι → Prop) (counted : ι → Bool) : Nat → List (Call ι ε α) → Prop
  | nil (n : Nat) : BoundedAll P counted n []
  | cons (m n : Nat) (c : Call ι ε α) (cs : List (Call ι ε α)) (hc : c.Bounded P counted m)
      (h : BoundedAll P counted n cs) : BoundedAll P counted (m + n) (c :: cs)

theorem Bounded.mono {Q : ι → Prop} (h : c.Bounded P counted m) (hP : ∀ e, P e → Q e)
    (hmn : m ≤ n) : c.Bounded Q counted n := fun t => (h t).mono hP hmn

/-- Only the kind of the entries matters if none is counted. -/
theorem Bounded.uncounted (h : c.Bounded P counted n) : c.Bounded P (fun _ => false) 0 :=
  fun t => ⟨(h t).kind, by simp⟩

theorem bounded_succeed (a : α) : (succeed a : Call ι ε α).Bounded P counted 0 := fun _ => .nil 0

theorem bounded_fail (e : ε) : (fail e : Call ι ε α).Bounded P counted 0 := fun _ => .nil 0

theorem bounded_ofExcept (x : Except ε α) : (ofExcept x : Call ι ε α).Bounded P counted 0 := by
  cases x with
  | ok a => exact bounded_succeed a
  | error e => exact bounded_fail e

theorem bounded_recordAll {entries : List ι} (h : ∀ e ∈ entries, P e ∧ counted e = false) :
    (recordAll entries : Call ι ε Unit).Bounded P counted 0 := by
  intro t
  refine ⟨?_, Nat.le_of_eq ?_⟩
  · intro s hs
    obtain ⟨e, he, rfl⟩ := List.mem_map.1 hs
    exact (h e he).1
  · rw [List.countP_eq_zero]
    intro s hs
    obtain ⟨e, he, rfl⟩ := List.mem_map.1 hs
    exact Bool.not_eq_true _ ▸ (h e he).2

theorem bounded_record {entry : ι} (h : P entry) (hcounted : counted entry = false) :
    (record entry : Call ι ε Unit).Bounded P counted 0 :=
  bounded_recordAll (List.forall_mem_singleton.2 ⟨h, hcounted⟩)

theorem Bounded.bind (hc : c.Bounded P counted m) (hf : ∀ a, (f a).Bounded P counted n) :
    (c >>= f).Bounded P counted (m + n) := by
  intro t
  change ContentEngine.Bounded P counted (m + n) (c.andThen f t).log
  cases ha : (c t).outcome with
  | error e =>
    simp only [andThen, ha]
    exact (hc t).mono (fun _ h => h) (Nat.le_add_right m n)
  | ok a =>
    simp only [andThen, ha]
    exact (hc t).append (hf a (c t).finish)

theorem Bounded.map (hc : c.Bounded P counted n) (g : α → β) :
    (do return g (← c)).Bounded P counted n :=
  hc.bind (n := 0) fun a => bounded_succeed (g a)

theorem Bounded.both (hc : c.Bounded P counted m) (hd : d.Bounded P counted n) :
    (c.both d).Bounded P counted (m + n) := fun t => Progress.bounded_both (hc t) (hd t)

theorem BoundedAll.mono {cs : List (Call ι ε α)} (h : BoundedAll P counted m cs) (hmn : m ≤ n) :
    BoundedAll P counted n cs := by
  induction h generalizing n with
  | nil m => exact .nil n
  | cons m k c cs hc h ih =>
    have hrest : BoundedAll P counted (n - m) cs := ih (by omega)
    have hsum : n = m + (n - m) := by omega
    rw [hsum]
    exact .cons m (n - m) c cs hc hrest

/-- Calls that count at most `m` entries each. -/
theorem boundedAll_map {γ : Type} {g : γ → Call ι ε α} (xs : List γ)
    (h : ∀ x ∈ xs, (g x).Bounded P counted m) :
    BoundedAll P counted (xs.length * m) (xs.map g) := by
  induction xs with
  | nil => exact .nil _
  | cons x xs ih =>
    rw [List.length_cons, Nat.succ_mul, Nat.add_comm]
    exact .cons m _ _ _ (h x List.mem_cons_self) (ih fun y hy => h y (List.mem_cons_of_mem x hy))

theorem bounded_together {cs : List (Call ι ε α)} (h : BoundedAll P counted n cs) :
    (together cs).Bounded P counted n := by
  induction h with
  | nil n => exact (bounded_succeed []).mono (fun _ h => h) (Nat.zero_le n)
  | cons m n c cs hc h ih => exact (hc.both ih).bind (n := 0) fun p => bounded_succeed (p.1 :: p.2)

/-- Members behind a failure leave what they did before the group ended. -/
theorem bounded_cutOff {cs : List (Call ι ε α)} (h : BoundedAll P counted n cs) (t time : Nat) :
    ContentEngine.Bounded P counted n ((cs.map (· t)).flatMap (·.logUntil time true)) := by
  induction h with
  | nil n => exact .nil n
  | cons m n c cs hc _ ih => exact ((hc t).sublist ((c t).logUntil_sublist time true)).append ih

theorem bounded_logInOrder {cs : List (Call ι ε α)} (h : BoundedAll P counted n cs) (t time : Nat) :
    ContentEngine.Bounded P counted n (Progress.logInOrder time (cs.map (· t))) := by
  induction h with
  | nil n => exact .nil n
  | cons m n c cs hc h ih =>
    have hcut : ∀ strict, ContentEngine.Bounded P counted m ((c t).logUntil time strict) :=
      fun strict => (hc t).sublist ((c t).logUntil_sublist time strict)
    simp only [List.map_cons, Progress.logInOrder]
    split
    · exact (hcut _).append (bounded_cutOff h t time)
    · exact (hcut _).append ih

theorem bounded_all {cs : List (Call ι ε α)} (h : BoundedAll P counted n cs) :
    (all cs).Bounded P counted n := by
  by_cases hsmall : cs.length ≤ smallGroup
  · rw [all_of_small hsmall]
    exact bounded_together h
  · intro t
    rw [all_of_large hsmall]
    exact bounded_logInOrder h t _

end Call

theorem CancelToken.bounded_run (token : CancelToken) (cancelled : Cancelled → ε) {c : Call ι ε α}
    (hc : c.Bounded P counted n) : (token.run cancelled c).Bounded P counted n := by
  intro t
  cases hcheck : token.check t with
  | error r =>
    simp only [CancelToken.run, hcheck]
    exact .nil n
  | ok u =>
    cases hfire : token.firesBy (c t).finish with
    | none =>
      simp only [CancelToken.run, hcheck, hfire]
      exact hc t
    | some fired =>
      simp only [CancelToken.run, hcheck, hfire]
      exact (hc t).sublist ((c t).logUntil_sublist _ true)

namespace StoreCall
variable {P : Entry → Prop} {counted : Entry → Bool}

/-- A call of the store leaves that it was started, and that it was served. -/
theorem bounded_ofStore {call : AdapterCall} (delay : Nat) (result : Except AdapterError α)
    (hstarted : P (.started call)) (hserved : P (.served call))
    (hcount : counted (.served call) = false) :
    (ofStore delay call result).Bounded P counted 1 := by
  have hone : ∀ t, Bounded P counted 1 [⟨t, Entry.started call⟩] := fun t =>
    ⟨List.forall_mem_singleton.2 hstarted, List.countP_le_length⟩
  intro t
  cases result with
  | ok a =>
    have hlast : Bounded P counted 0 [⟨t + Clock.ofMillis delay, Entry.served call⟩] :=
      ⟨List.forall_mem_singleton.2 hserved, by simp [hcount]⟩
    exact (hone t).append hlast
  | error e => exact hone t

theorem bounded_observed {c : StoreCall α} {n : Nat} (hc : c.Bounded P counted n)
    (hreport : P (.metric .cancelled)) (hcount : counted (.metric .cancelled) = false) :
    c.observed.Bounded P counted n := by
  intro t
  have hone : ∀ time, Bounded P counted 0 [⟨time, Entry.metric .cancelled⟩] := fun time =>
    ⟨List.forall_mem_singleton.2 hreport, by simp [hcount]⟩
  have hreports : ∀ x : Except Interruption α,
      Bounded P counted 0 ((reports x).map (Stamped.mk (c t).finish)) := by
    intro x
    rcases x with ⟨_ | _⟩ | _
    · exact .nil 0
    · exact hone (c t).finish
    · exact .nil 0
  exact (hc t).append (hreports (c t).outcome)

end StoreCall
end ContentEngine
