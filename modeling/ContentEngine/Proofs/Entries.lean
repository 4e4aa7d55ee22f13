import ContentEngine.Entries
import Mathlib.Data.List.Forall2

/-!
# Looking up in entries

The entries of a sorted map are determined by what looking up in it gives. A map that is made from
what a function gives for some keys gives the same for these keys. Maps with the same keys and related
values stay so under the same insertions.
-/

namespace ContentEngine.Entries
variable {α β : Type}

theorem mem_of_get? {m : Entries α} {k : String} {v : α} (h : get? m k = some v) : (k, v) ∈ m := by
  induction m with
  | nil => simp at h
  | cons e m ih =>
    obtain ⟨j, w⟩ := e
    by_cases hjk : j = k
    · simp only [get?, hjk, if_true, Option.some.injEq] at h
      simp [hjk, h]
    · simp only [get?, hjk, if_false] at h
      exact List.mem_cons_of_mem _ (ih h)

theorem get?_eq_none_iff {m : Entries α} {k : String} : get? m k = none ↔ k ∉ m.map (·.1) := by
  induction m with
  | nil => simp
  | cons e m ih =>
    obtain ⟨j, w⟩ := e
    by_cases hjk : j = k
    · simp [get?, hjk]
    · simp [get?, hjk, Ne.symm hjk, ih]

theorem mem_insertAll {m : Entries α} {l : List (String × α)} {e : String × α}
    (h : e ∈ insertAll m l) : e ∈ m ∨ e ∈ l := by
  induction l generalizing m with
  | nil => exact .inl h
  | cons d l ih =>
    rcases ih h with h | h
    · rcases mem_insert h with rfl | h
      · exact .inr (List.mem_cons_self ..)
      · exact .inl h
    · exact .inr (List.mem_cons_of_mem _ h)

theorem get?_eq_none_of_lt {m : Entries α} {k : String} (h : ∀ e ∈ m, k < e.1) :
    get? m k = none := by
  cases hk : get? m k with
  | none => rfl
  | some v => exact absurd (h _ (mem_of_get? hk)) (String.lt_irrefl k)

theorem Sorted.get?_of_mem {m : Entries α} (h : Sorted m) {k : String} {v : α}
    (hkv : (k, v) ∈ m) : get? m k = some v := by
  induction m with
  | nil => simp at hkv
  | cons e m ih =>
    obtain ⟨j, w⟩ := e
    have hm := List.pairwise_cons.1 h
    rcases List.mem_cons.1 hkv with heq | hkv
    · obtain ⟨rfl, rfl⟩ := Prod.mk.inj heq
      simp [get?]
    · have hne : ¬ j = k := by
        rintro rfl
        exact String.lt_irrefl j (hm.1 _ hkv)
      simp only [get?, hne, if_false]
      exact ih hm.2 hkv

theorem Sorted.ext {m n : Entries α} (hm : Sorted m) (hn : Sorted n)
    (h : ∀ k, get? m k = get? n k) : m = n := by
  have hmn : ∀ e, e ∈ m ↔ e ∈ n := fun e =>
    ⟨fun he => mem_of_get? ((h e.1).symm.trans (hm.get?_of_mem he)),
      fun he => mem_of_get? ((h e.1).trans (hn.get?_of_mem he))⟩
  have hirr : ∀ e f : String × α, e.1 < f.1 → f.1 < e.1 → e = f := fun e f hef hfe =>
    absurd (String.lt_trans hef hfe) (String.lt_irrefl _)
  have hnodup : ∀ l : Entries α, Sorted l → l.Nodup := by
    intro l hl
    refine List.Pairwise.imp ?_ hl
    rintro e f hef rfl
    exact String.lt_irrefl e.1 hef
  have hperm : m.Perm n := (List.perm_ext_iff_of_nodup (hnodup m hm) (hnodup n hn)).2 hmn
  exact hperm.eq_of_pairwise (fun e f _ _ => hirr e f) hm hn

theorem Sorted.of_keys {m : Entries α} {n : Entries β} (hm : Sorted m)
    (h : n.map (·.1) = m.map (·.1)) : Sorted n := by
  have hkeys : (n.map (·.1)).Pairwise (· < ·) := by
    rw [h]
    exact List.pairwise_map.2 hm
  exact List.pairwise_map.1 hkeys

theorem mem_keys_insert {m : Entries α} {j : String} (k : String) (v : α)
    (h : j ∈ m.map (·.1)) : j ∈ (insert m k v).map (·.1) := by
  by_contra hnone
  rw [← get?_eq_none_iff] at hnone
  by_cases hk : k = j
  · rw [hk, get?_insert_self] at hnone
    exact absurd hnone (by simp)
  · rw [get?_insert_ne m v hk] at hnone
    exact get?_eq_none_iff.1 hnone h

theorem mem_keys_insertAll {m : Entries α} (l : List (String × α)) {j : String}
    (h : j ∈ m.map (·.1)) : j ∈ (insertAll m l).map (·.1) := by
  induction l generalizing m with
  | nil => exact h
  | cons e l ih => exact ih (mem_keys_insert e.1 e.2 h)

theorem mem_keys_insertAll_of_mem (m : Entries α) {l : List (String × α)} {j : String}
    (h : j ∈ l.map (·.1)) : j ∈ (insertAll m l).map (·.1) := by
  induction l generalizing m with
  | nil => exact absurd h List.not_mem_nil
  | cons e l ih =>
    rcases List.mem_cons.1 h with rfl | h
    · exact mem_keys_insertAll l (List.mem_map_of_mem (mem_of_get? (get?_insert_self m e.1 e.2)))
    · exact ih _ h

/-- What is found after several insertions was there before, or is one of the inserted values. -/
theorem get?_insertAll (m : Entries α) (l : List (String × α)) (k : String) :
    get? (insertAll m l) k = get? m k ∨ ∃ v, (k, v) ∈ l ∧ get? (insertAll m l) k = some v := by
  induction l generalizing m with
  | nil => exact .inl rfl
  | cons e l ih =>
    obtain ⟨j, w⟩ := e
    rcases ih (insert m j w) with hold | ⟨v, hv, hfound⟩
    · change get? (insertAll m ((j, w) :: l)) k = _ at hold
      by_cases hj : j = k
      · subst hj
        rw [get?_insert_self] at hold
        exact .inr ⟨w, List.mem_cons_self .., hold⟩
      · rw [get?_insert_ne m w hj] at hold
        exact .inl hold
    · exact .inr ⟨v, List.mem_cons_of_mem _ hv, hfound⟩

/-- After sorted insertions, the inserted value of a key is found, or what was there before. -/
theorem get?_insertAll_of_sorted {l : Entries α} (hl : Sorted l) (m : Entries α) (k : String) :
    get? (insertAll m l) k = (get? l k <|> get? m k) := by
  induction l generalizing m with
  | nil => rfl
  | cons e l ih =>
    obtain ⟨j, w⟩ := e
    have hcons := List.pairwise_cons.1 hl
    change get? (insertAll (insert m j w) l) k = _
    rw [ih hcons.2]
    by_cases hjk : j = k
    · subst hjk
      have hlater : get? l j = none := get?_eq_none_of_lt fun e he => hcons.1 e he
      simp [get?, hlater]
    · simp [get?, hjk, get?_insert_ne m w hjk]

theorem get?_append (m n : Entries α) (k : String) :
    get? (m ++ n) k = (get? m k <|> get? n k) := by
  induction m with
  | nil => simp
  | cons e m ih =>
    obtain ⟨j, w⟩ := e
    by_cases hjk : j = k
    · simp [get?, hjk]
    · simpa [get?, hjk] using ih

theorem get?_map (f : α → β) (m : Entries α) (k : String) :
    get? (m.map fun e => (e.1, f e.2)) k = (get? m k).map f := by
  induction m with
  | nil => rfl
  | cons e m ih =>
    obtain ⟨j, w⟩ := e
    by_cases hjk : j = k <;> simp [get?, hjk, ih]

theorem get?_filter (p : String → Bool) (m : Entries α) (k : String) :
    get? (m.filter fun e => p e.1) k = if p k then get? m k else none := by
  induction m with
  | nil => simp
  | cons e m ih =>
    obtain ⟨j, w⟩ := e
    by_cases hjk : j = k
    · subst hjk
      by_cases hp : p j <;> simp [hp, get?, ih]
    · by_cases hp : p j <;> simp [hp, get?, hjk, ih]

theorem erase_insert_self (m : Entries α) (k : String) (v : α) :
    erase (insert m k v) k = erase m k := by
  induction m with
  | nil => simp [insert, erase]
  | cons e m ih =>
    obtain ⟨j, w⟩ := e
    by_cases hlt : k < j
    · simp [insert, hlt, erase]
    · by_cases heq : j = k
      · subst heq
        simp [insert, erase]
      · simp only [insert, hlt, heq, if_false, erase, List.filter_cons] at ih ⊢
        rw [ih]

/-- What a function keeps of the values. -/
def filterValues (f : α → Option β) (m : Entries α) : Entries β :=
  m.filterMap fun e => (f e.2).map fun v => (e.1, v)

theorem Sorted.filterValues {m : Entries α} (h : Sorted m) (f : α → Option β) :
    Sorted (filterValues f m) := by
  refine List.Pairwise.filterMap _ (fun e e' hee' d hd d' hd' => ?_) h
  obtain ⟨v, -, rfl⟩ := Option.map_eq_some_iff.1 hd
  obtain ⟨v', -, rfl⟩ := Option.map_eq_some_iff.1 hd'
  exact hee'

theorem Sorted.get?_filterValues {m : Entries α} (h : Sorted m) (f : α → Option β) (k : String) :
    get? (Entries.filterValues f m) k = (get? m k).bind f := by
  induction m with
  | nil => rfl
  | cons e m ih =>
    obtain ⟨j, w⟩ := e
    have hm := List.pairwise_cons.1 h
    have hcons : Entries.filterValues f ((j, w) :: m) =
        ((f w).map fun v => (j, v)).toList ++ Entries.filterValues f m := by
      cases hw : f w <;> simp [Entries.filterValues, hw]
    by_cases hjk : j = k
    · subst hjk
      cases hw : f w with
      | some v => simp [hcons, hw, get?]
      | none =>
        have hlt : get? m j = none := get?_eq_none_of_lt fun e he => hm.1 e he
        simp [hcons, hw, get?, ih hm.2, hlt]
    · cases hw : f w <;> simp [hcons, hw, get?, hjk, ih hm.2]

theorem values_filterValues (f : α → Option β) (m : Entries α) :
    values (filterValues f m) = (values m).filterMap f := by
  simp only [values, filterValues, List.map_filterMap, List.filterMap_map]
  congr 1
  funext e
  simp [Function.comp_def]

theorem get?_insertAll_filterMap (f : String → Option α) (ks : List String) (m : Entries α)
    (k : String) :
    get? (insertAll m (ks.filterMap fun j => (f j).map fun v => (j, v))) k =
      if k ∈ ks then f k <|> get? m k else get? m k := by
  induction ks generalizing m with
  | nil => simp [insertAll]
  | cons j ks ih =>
    cases hj : f j with
    | none =>
      simp only [List.filterMap_cons, hj, Option.map_none]
      rw [ih]
      by_cases hkj : k = j
      · subst hkj
        simp [hj]
      · simp [hkj]
    | some v =>
      simp only [List.filterMap_cons, hj, Option.map_some]
      change get? (insertAll (insert m j v) _) k = _
      rw [ih]
      by_cases hkj : k = j
      · subst hkj
        simp [hj]
      · simp [hkj, get?_insert_ne m v (Ne.symm hkj)]

theorem get?_ofList_filterMap (f : String → Option α) (ks : List String) (k : String) :
    get? (ofList (ks.filterMap fun j => (f j).map fun v => (j, v))) k =
      if k ∈ ks then f k else none := by
  rw [ofList, get?_insertAll_filterMap]
  simp

/-! ## Related values -/

/-- Entries of one key with related values. -/
inductive Relates (R : α → β → Prop) : String × α → String × β → Prop
  | intro (k : String) {v : α} {w : β} (h : R v w) : Relates R (k, v) (k, w)

section
variable {R : α → β → Prop} {m : Entries α} {n : Entries β}

theorem contains_of_relates (h : List.Forall₂ (Relates R) m n) (k : String) :
    contains m k = contains n k := by
  unfold contains
  induction h with
  | nil => rfl
  | cons he _ ih =>
    obtain ⟨j, -⟩ := he
    by_cases hjk : j = k
    · simp only [get?, hjk, if_true, Option.isSome_some]
    · simp only [get?, hjk, if_false, ih]

theorem keys_of_relates (h : List.Forall₂ (Relates R) m n) : n.map (·.1) = m.map (·.1) := by
  induction h with
  | nil => rfl
  | cons he _ ih =>
    obtain ⟨k, -⟩ := he
    exact congrArg (k :: ·) ih

theorem sorted_of_relates (h : List.Forall₂ (Relates R) m n) (hm : Sorted m) : Sorted n :=
  hm.of_keys (keys_of_relates h)

theorem relates_insert (h : List.Forall₂ (Relates R) m n) (k : String) {v : α} {w : β} (hvw : R v w) :
    List.Forall₂ (Relates R) (insert m k v) (insert n k w) := by
  induction h with
  | nil => exact .cons (.intro k hvw) .nil
  | @cons e e' m n he hrest ih =>
    obtain ⟨j, hj⟩ := he
    unfold insert
    by_cases hlt : k < j
    · rw [if_pos hlt, if_pos hlt]
      exact .cons (.intro k hvw) (.cons (.intro j hj) hrest)
    · rw [if_neg hlt, if_neg hlt]
      by_cases heq : j = k
      · rw [if_pos heq, if_pos heq]
        exact .cons (.intro k hvw) hrest
      · rw [if_neg heq, if_neg heq]
        exact .cons (.intro j hj) ih

theorem relates_insertAll {l : List (String × α)} {l' : List (String × β)}
    (hl : List.Forall₂ (Relates R) l l') (h : List.Forall₂ (Relates R) m n) :
    List.Forall₂ (Relates R) (insertAll m l) (insertAll n l') := by
  induction hl generalizing m n with
  | nil => exact h
  | cons he _ ih =>
    obtain ⟨k, hvw⟩ := he
    exact ih (relates_insert h k hvw)

theorem values_of_relates (h : List.Forall₂ (Relates R) m n) :
    List.Forall₂ R (values m) (values n) := by
  unfold values
  rw [List.forall₂_map_left_iff, List.forall₂_map_right_iff]
  exact h.imp fun _ _ he => by
    obtain ⟨_, hvw⟩ := he
    exact hvw

end

end ContentEngine.Entries
