/-!
# Places in a list

What is taken out of some places of a list, worked on together and returned in the same order goes
back into those places: `refill_filterMap` says that this is the same as working on each place where
it is, and `regroup_map` says it for a list of lists.
-/

namespace ContentEngine.Places
variable {α β : Type}

/-- Puts elements into the places of a list, in order; `place` says how, and what is no place. -/
def refill (place : α → Option (β → α)) : List α → List β → List α
  | [], _ => []
  | a :: l, bs =>
    match place a, bs with
    | some put, b :: bs => put b :: refill place l bs
    | _, _ => a :: refill place l bs

/-- Cuts a list into groups of the sizes of some other groups. -/
def regroup : List (List β) → List α → List (List α)
  | [], _ => []
  | g :: gs, l => l.take g.length :: regroup gs (l.drop g.length)

theorem refill_filterMap (place : α → Option (β → α)) (f : α → β) (l : List α) :
    refill place l (l.filterMap fun a => (place a).map fun _ => f a) =
      l.map fun a => (place a).elim a fun put => put (f a) := by
  induction l with
  | nil => rfl
  | cons a l ih => cases h : place a <;> simp [refill, h, ih]

theorem regroup_map (f : β → α) (gs : List (List β)) :
    regroup gs (gs.flatten.map f) = gs.map (List.map f) := by
  induction gs with
  | nil => rfl
  | cons g gs ih => simp [regroup, -List.map_flatten, ih]

end ContentEngine.Places
