import ContentEngine.Proofs.Filter.Reading
import ContentEngine.Proofs.Filter.Typing

/-!
# A member and what stands around it

A member of the JSON of a filter stands in the root object, in the object below `$not` or a field,
or in an item of an `$and` or `$or` list. What the parser makes of the rest is a filter with a hole,
the same for every member that writes a condition there. So a member is replaced without parsing the
rest again, and whether the filter selects a document depends on the member only through whether its
condition does.
-/

namespace ContentEngine.Filter

/-- A key that combines the conditions of a list. -/
def isListKey (key : String) : Bool := key = "$and" ∨ key = "$or"

/-- A key below which an object holds conditions. -/
def isScopeKey (key : String) : Bool := key = "$not" ∨ isOperatorKey key = false

/-! ## Parsing objects and lists -/

section
variable {path : Option String} {key : String}

/-- What stands below `$not`. -/
theorem parseMember_not_eq_ok {members : List (String × Json)} {o : Option Filter}
    (h : parseMember path "$not" (.obj members) = .ok o) :
    ∃ fs f, parseMembers path members = .ok fs ∧ conjunction fs = some f ∧ o = some (.not f) := by
  rw [parseMember, if_neg (by decide), if_pos rfl] at h
  cases hfs : parseMembers path members with
  | error e => simp [hfs] at h
  | ok fs =>
    cases hf : conjunction fs with
    | none => simp [hfs, hf] at h
    | some f =>
      simp only [hfs, hf, Except.ok.injEq] at h
      exact ⟨fs, f, rfl, hf, h.symm⟩

theorem parseMember_not {members : List (String × Json)} {fs : List Filter} {f : Filter}
    (hfs : parseMembers path members = .ok fs) (hf : conjunction fs = some f) :
    parseMember path "$not" (.obj members) = .ok (some (.not f)) := by
  simp [parseMember, hfs, hf]

/-- What stands below the key of a field. -/
theorem parseMember_field_obj (h : isOperatorKey key = false) (path : Option String)
    (members : List (String × Json)) :
    parseMember path key (.obj members) =
      (parseMembers (some (extendPath path key)) members).map conjunction := by
  obtain ⟨hand, hor, hnot⟩ := not_combinator h
  simp [parseMember, h, hand, hor, hnot]

theorem parseMembers_cons_iff {value : Json} {rest : List (String × Json)} {fs : List Filter} :
    parseMembers path ((key, value) :: rest) = .ok fs ↔
      ∃ o gs, parseMember path key value = .ok o ∧ parseMembers path rest = .ok gs ∧
        fs = o.toList ++ gs := by
  refine ⟨parseMembers_cons, ?_⟩
  rintro ⟨o, gs, ho, hgs, rfl⟩
  rw [parseMembers, ho, hgs]

theorem parseChildren_cons_iff {members : List (String × Json)} {rest : List Json}
    {fs : List Filter} :
    parseChildren path key (.obj members :: rest) = .ok fs ↔
      ∃ gs hs, parseMembers path members = .ok gs ∧ parseChildren path key rest = .ok hs ∧
        fs = (conjunction gs).toList ++ hs := by
  constructor
  · intro h
    obtain ⟨_, gs, hs, ⟨⟩, hgs, hhs, rfl⟩ := parseChildren_cons h
    exact ⟨gs, hs, hgs, hhs, rfl⟩
  · rintro ⟨gs, hs, hgs, hhs, rfl⟩
    rw [parseChildren, hgs, hhs]

/-- A member among others. -/
theorem parseMembers_mid_iff {before after : List (String × Json)} {value : Json}
    {fs : List Filter} :
    parseMembers path (before ++ (key, value) :: after) = .ok fs ↔
      ∃ bs o as, parseMembers path before = .ok bs ∧ parseMember path key value = .ok o ∧
        parseMembers path after = .ok as ∧ fs = bs ++ (o.toList ++ as) := by
  induction before generalizing fs with
  | nil =>
    rw [List.nil_append, parseMembers_cons_iff]
    simp [parseMembers]
  | cons m before ih =>
    obtain ⟨key', value'⟩ := m
    rw [List.cons_append]
    simp only [parseMembers_cons_iff, ih]
    constructor
    · rintro ⟨p, _, hp, ⟨bs, o, as, hbs, ho, has, rfl⟩, rfl⟩
      exact ⟨p.toList ++ bs, o, as, ⟨p, bs, hp, hbs, rfl⟩, ho, has, by simp⟩
    · rintro ⟨_, o, as, ⟨p, bs, hp, hbs, rfl⟩, ho, has, rfl⟩
      exact ⟨p, _, hp, ⟨bs, o, as, hbs, ho, has, rfl⟩, by simp⟩

/-- An object among the items of a list. -/
theorem parseChildren_mid_iff {left right : List Json} {members : List (String × Json)}
    {fs : List Filter} :
    parseChildren path key (left ++ .obj members :: right) = .ok fs ↔
      ∃ ls ms rs, parseChildren path key left = .ok ls ∧ parseMembers path members = .ok ms ∧
        parseChildren path key right = .ok rs ∧ fs = ls ++ ((conjunction ms).toList ++ rs) := by
  induction left generalizing fs with
  | nil =>
    rw [List.nil_append, parseChildren_cons_iff]
    simp [parseChildren]
  | cons item left ih =>
    rw [List.cons_append]
    cases item with
    | obj members' =>
      simp only [parseChildren_cons_iff, ih]
      constructor
      · rintro ⟨ps, _, hps, ⟨ls, ms, rs, hls, hms, hrs, rfl⟩, rfl⟩
        exact ⟨(conjunction ps).toList ++ ls, ms, rs, ⟨ps, ls, hps, hls, rfl⟩, hms, hrs, by simp⟩
      · rintro ⟨_, ms, rs, ⟨ps, ls, hps, hls, rfl⟩, hms, hrs, rfl⟩
        exact ⟨ps, _, hps, ⟨ls, ms, rs, hls, hms, hrs, rfl⟩, by simp⟩
    | _ => simp [parseChildren]

/-- The list below a key that combines conditions. -/
theorem parseMember_list_eq_ok_iff (hkey : isListKey key) {items : List Json}
    {o : Option Filter} :
    parseMember path key (.arr items) = .ok o ↔ ∃ fs, parseChildren path key items = .ok fs ∧
      some (if key = "$and" then .and fs else .or fs) = o := by
  rcases of_decide_eq_true hkey with rfl | rfl
  · simp [parseMember, Except.map_eq_ok_iff]
  · simp [parseMember, Except.map_eq_ok_iff]

end

/-! ## Filters with a hole -/

/-- A filter with a hole for a condition. -/
inductive Surrounding
  | hole
  | and (before : List Filter) (inner : Surrounding) (after : List Filter)
  | or (before : List Filter) (inner : Surrounding) (after : List Filter)
  | not (inner : Surrounding)

namespace Surrounding

/-- The filter with a condition in the hole. -/
def plug (f : Filter) : Surrounding → Filter
  | hole => f
  | and before inner after => .and (before ++ inner.plug f :: after)
  | or before inner after => .or (before ++ inner.plug f :: after)
  | not inner => .not (inner.plug f)

/-- What the filter says of a document, from what the condition in the hole says of it. -/
def Selects (r : Registry) (lookup : Lookup) (t : DocumentType) (d : Document) (here : Prop) :
    Surrounding → Prop
  | hole => here
  | and before inner after => (∀ f ∈ before, f.Selects r lookup t d) ∧
      inner.Selects r lookup t d here ∧ ∀ f ∈ after, f.Selects r lookup t d
  | or before inner after => (∃ f ∈ before, f.Selects r lookup t d) ∨
      inner.Selects r lookup t d here ∨ ∃ f ∈ after, f.Selects r lookup t d
  | not inner => ¬ inner.Selects r lookup t d here

theorem selects_plug_iff (r : Registry) (lookup : Lookup) (t : DocumentType) (d : Document)
    (f : Filter) (s : Surrounding) :
    (s.plug f).Selects r lookup t d ↔ s.Selects r lookup t d (f.Selects r lookup t d) := by
  induction s with
  | hole => rfl
  | and before inner after ih =>
    simp [plug, Filter.Selects, Selects, selectsAll_iff, or_imp, forall_and, ih]
  | or before inner after ih =>
    simp [plug, Filter.Selects, Selects, selectsAny_iff, or_and_right, exists_or, ih]
  | not inner ih => simp [plug, Filter.Selects, Selects, ih]

/-- Another well-typed condition in the hole of a well-typed filter keeps it well-typed. -/
theorem wellTyped_plug {r : Registry} {t : DocumentType} {f g : Filter} (hg : g.WellTyped r t)
    (s : Surrounding) (h : (s.plug f).WellTyped r t) : (s.plug g).WellTyped r t := by
  induction s with
  | hole => exact hg
  | and before inner after ih =>
    cases h with
    | and _ _ hall =>
      rw [List.forall_mem_append, List.forall_mem_cons] at hall
      obtain ⟨hbefore, hinner, hafter⟩ := hall
      exact .and _ (by simp) (List.forall_mem_append.2
        ⟨hbefore, List.forall_mem_cons.2 ⟨ih hinner, hafter⟩⟩)
  | or before inner after ih =>
    cases h with
    | or _ _ hall =>
      rw [List.forall_mem_append, List.forall_mem_cons] at hall
      obtain ⟨hbefore, hinner, hafter⟩ := hall
      exact .or _ (by simp) (List.forall_mem_append.2
        ⟨hbefore, List.forall_mem_cons.2 ⟨ih hinner, hafter⟩⟩)
  | not inner ih =>
    cases h with
    | not _ hinner => exact .not _ (ih hinner)

/-- The conjunction of an object is a filter with a hole for each of its conditions. -/
theorem exists_conjunction (before : List Filter) (s : Surrounding) (after : List Filter) :
    ∃ s' : Surrounding, ∀ f, conjunction (before ++ s.plug f :: after) = some (s'.plug f) := by
  match before, after with
  | [], [] => exact ⟨s, fun _ => rfl⟩
  | [], g :: gs => exact ⟨.and [] s (g :: gs), fun _ => rfl⟩
  | [b], gs => exact ⟨.and [b] s gs, fun _ => rfl⟩
  | b :: b' :: bs, gs => exact ⟨.and (b :: b' :: bs) s gs, fun _ => rfl⟩

end Surrounding

/-! ## Places in the JSON -/

/-- A place for a member among the members of an object, at any depth. -/
inductive Position
  | here (before after : List (String × Json))
  | under (before : List (String × Json)) (key : String) (hkey : isScopeKey key)
      (inner : Position) (after : List (String × Json))
  | item (before : List (String × Json)) (key : String) (hkey : isListKey key)
      (left : List Json) (inner : Position) (right : List Json) (after : List (String × Json))

namespace Position

/-- The members of the object with a member in its place. -/
def fill (m : String × Json) : Position → List (String × Json)
  | here before after => before ++ m :: after
  | under before key _ inner after => before ++ (key, .obj (inner.fill m)) :: after
  | item before key _ left inner right after =>
    before ++ (key, .arr (left ++ .obj (inner.fill m) :: right)) :: after

/-- The path of the fields that the place is below. -/
def path (above : Option String) : Position → Option String
  | here _ _ => above
  | under _ key _ inner _ =>
    if key = "$not" then inner.path above else inner.path (some (extendPath above key))
  | item _ _ _ _ inner _ _ => inner.path above

/-- A member in its place parses. Around every member that writes a condition there, the object is
the same filter with a hole. -/
theorem exists_surrounding {m : String × Json} (c : Position) (above : Option String)
    {fs : List Filter} (h : parseMembers above (c.fill m) = .ok fs) :
    (∃ o, parseMember (c.path above) m.1 m.2 = .ok o) ∧
      ∃ s : Surrounding, ∀ m' f', parseMember (c.path above) m'.1 m'.2 = .ok (some f') →
        ∃ gs, parseMembers above (c.fill m') = .ok gs ∧ conjunction gs = some (s.plug f') := by
  -- In each case the hole of the object below is put among the conditions of the other members.
  induction c generalizing above fs with
  | here before after =>
    obtain ⟨bs, o, as, hbs, ho, has, -⟩ := parseMembers_mid_iff.1 h
    obtain ⟨s, hs⟩ := Surrounding.exists_conjunction bs .hole as
    exact ⟨⟨o, ho⟩, s, fun m' f' hm' =>
      ⟨_, parseMembers_mid_iff.2 ⟨bs, some f', as, hbs, hm', has, rfl⟩, hs f'⟩⟩
  | under before key hkey inner after ih =>
    obtain ⟨bs, o, as, hbs, ho, has, -⟩ := parseMembers_mid_iff.1 h
    rcases of_decide_eq_true hkey with rfl | hfield
    · obtain ⟨fs, -, hfs, -, -⟩ := parseMember_not_eq_ok ho
      obtain ⟨hm, s, hs⟩ := ih above hfs
      obtain ⟨s', hs'⟩ := Surrounding.exists_conjunction bs (.not s) as
      refine ⟨hm, s', fun m' f' hm' => ?_⟩
      obtain ⟨gs, hgs, hg⟩ := hs m' f' hm'
      exact ⟨_, parseMembers_mid_iff.2
        ⟨bs, some (.not (s.plug f')), as, hbs, parseMember_not hgs hg, has, rfl⟩, hs' f'⟩
    · rw [path, if_neg (not_combinator hfield).2.2]
      rw [parseMember_field_obj hfield] at ho
      obtain ⟨fs, hfs, -⟩ := Except.map_eq_ok_iff.1 ho
      obtain ⟨hm, s, hs⟩ := ih (some (extendPath above key)) hfs
      obtain ⟨s', hs'⟩ := Surrounding.exists_conjunction bs s as
      refine ⟨hm, s', fun m' f' hm' => ?_⟩
      have hfilled : parseMember above key (.obj (inner.fill m')) = .ok (some (s.plug f')) :=
        (parseMember_field_obj hfield ..).trans (Except.map_eq_ok_iff.2 (hs m' f' hm'))
      exact ⟨_, parseMembers_mid_iff.2 ⟨bs, some (s.plug f'), as, hbs, hfilled, has, rfl⟩, hs' f'⟩
  | item before key hkey left inner right after ih =>
    obtain ⟨bs, o, as, hbs, ho, has, -⟩ := parseMembers_mid_iff.1 h
    obtain ⟨fs, hfs, -⟩ := (parseMember_list_eq_ok_iff hkey).1 ho
    obtain ⟨ls, ms, rs, hls, hms, hrs, -⟩ := parseChildren_mid_iff.1 hfs
    obtain ⟨hm, s, hs⟩ := ih above hms
    let list : Surrounding := if key = "$and" then .and ls s rs else .or ls s rs
    obtain ⟨s', hs'⟩ := Surrounding.exists_conjunction bs list as
    refine ⟨hm, s', fun m' f' hm' => ?_⟩
    obtain ⟨gs, hgs, hg⟩ := hs m' f' hm'
    have hfilled : parseChildren above key (left ++ .obj (inner.fill m') :: right) =
        .ok (ls ++ s.plug f' :: rs) :=
      parseChildren_mid_iff.2 ⟨ls, gs, rs, hls, hgs, hrs, by rw [hg]; rfl⟩
    have hlist : parseMember above key (.arr (left ++ .obj (inner.fill m') :: right)) =
        .ok (some (list.plug f')) := by
      refine (parseMember_list_eq_ok_iff hkey).2 ⟨_, hfilled, ?_⟩
      simp only [list]
      split_ifs <;> rfl
    exact ⟨_, parseMembers_mid_iff.2 ⟨bs, some (list.plug f'), as, hbs, hlist, has, rfl⟩, hs' f'⟩

/-- The parsed filter around a member. -/
theorem exists_plug {m : String × Json} (c : Position) {o : Option Filter}
    (h : ofJson (.obj (c.fill m)) = .ok o) :
    (∃ o, parseMember (c.path none) m.1 m.2 = .ok o) ∧
      ∃ s : Surrounding, ∀ m' f', parseMember (c.path none) m'.1 m'.2 = .ok (some f') →
        ofJson (.obj (c.fill m')) = .ok (some (s.plug f')) := by
  obtain ⟨fs, hfs, -⟩ := Except.map_eq_ok_iff.1 h
  obtain ⟨hm, s, hs⟩ := c.exists_surrounding none hfs
  exact ⟨hm, s, fun m' f' hm' => Except.map_eq_ok_iff.2 (hs m' f' hm')⟩

end Position

end ContentEngine.Filter
