import ContentEngine.Clock.Token

/-!
# When a token fires

A token that has not fired yet and fires by some time does so in between, and from the time at which
it fires it refuses with the same reason that it cuts off with.
-/

namespace ContentEngine.CancelToken

theorem check_of_firesBy {token : CancelToken} {time fired : Nat} {c : Cancelled}
    (h : token.firesBy time = some (fired, c)) : token.check fired = .error c := by
  obtain ⟨_ | s, _ | d⟩ := token
  · simp [firesBy] at h
  · by_cases hd : d ≤ time <;> simp [firesBy, hd] at h
    obtain ⟨rfl, rfl⟩ := h
    simp [check, reached]
  · by_cases hs : s ≤ time <;> simp [firesBy, hs] at h
    obtain ⟨rfl, rfl⟩ := h
    simp [check, reached]
  · by_cases hsd : s ≤ d
    · by_cases hs : s ≤ time <;> simp [firesBy, hsd, hs] at h
      obtain ⟨rfl, rfl⟩ := h
      simp [check, reached]
    · by_cases hd : d ≤ time <;> simp [firesBy, hsd, hd] at h
      obtain ⟨rfl, rfl⟩ := h
      simp [check, reached, hsd]

theorem firesBy_bounds {token : CancelToken} {now time fired : Nat} {c : Cancelled}
    (hnow : token.check now = .ok ()) (h : token.firesBy time = some (fired, c)) :
    now < fired ∧ fired ≤ time := by
  obtain ⟨_ | s, _ | d⟩ := token
  · simp [firesBy] at h
  · have hd : ¬ d ≤ now := fun hle => by simp [check, reached, hle] at hnow
    by_cases hle : d ≤ time <;> simp [firesBy, hle] at h
    omega
  · have hs : ¬ s ≤ now := fun hle => by simp [check, reached, hle] at hnow
    by_cases hle : s ≤ time <;> simp [firesBy, hle] at h
    omega
  · have hs : ¬ s ≤ now := fun hle => by simp [check, reached, hle] at hnow
    have hd : ¬ d ≤ now := fun hle => by simp [check, reached, hle, hs] at hnow
    by_cases hsd : s ≤ d
    · by_cases hle : s ≤ time <;> simp [firesBy, hsd, hle] at h
      omega
    · by_cases hle : d ≤ time <;> simp [firesBy, hsd, hle] at h
      omega

end ContentEngine.CancelToken
