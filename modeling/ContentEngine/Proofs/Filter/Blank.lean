import ContentEngine.Proofs.Filter.Position

/-!
# Items without conditions

An object that writes no condition is no filter, and it is left out of the list that it is an item
of. In an `$and` list that changes nothing, and a list with no other items has no condition left and
is refused. An `$or` list with such an item, read as it is written, holds of every document, but it
is parsed as the rest of the list. So a document can match otherwise than with a condition in place
of the list that always holds: it does unless the rest holds of it, or its match does not depend on
what stands there.
-/

namespace ContentEngine.Filter

mutual
/-- The JSON writes no condition: it is an object whose fields hold nothing but such objects. -/
def isBlank : Json → Bool
  | .obj members => areBlank members
  | _ => false

def areBlank : List (String × Json) → Bool
  | [] => true
  | (key, value) :: rest => !isOperatorKey key && isBlank value && areBlank rest
end

/-! ## Objects without conditions -/

theorem conjunction_eq_none_iff {fs : List Filter} : conjunction fs = none ↔ fs = [] :=
  ⟨conjunction_eq_none, fun h => h ▸ rfl⟩

/-- An operator key writes a condition, or the object is malformed. -/
theorem parseMember_obj_ne_none {key : String} (h : isOperatorKey key) (path : Option String)
    (members : List (String × Json)) : parseMember path key (.obj members) ≠ .ok none := by
  intro hnone
  by_cases hnot : key = "$not"
  · subst hnot
    obtain ⟨fs, f, -, -, hsome⟩ := parseMember_not_eq_ok hnone
    cases hsome
  · rw [parseMember] at hnone
    split_ifs at hnone
    exact map_some_ne_none _ _ hnone

theorem map_conjunction_eq_none_iff {x : Except FilterError (List Filter)} :
    x.map conjunction = .ok none ↔ x = .ok [] := by
  cases x <;> simp [Except.map, conjunction_eq_none_iff]

mutual
theorem parseMembers_eq_nil_iff (path : Option String) : ∀ members : List (String × Json),
    parseMembers path members = .ok [] ↔ areBlank members
  | [] => by simp [parseMembers, areBlank]
  | (key, value) :: rest => by
    rw [areBlank, Bool.and_eq_true, Bool.and_eq_true, Bool.not_eq_true',
      ← parseMember_eq_none_iff path key value, ← parseMembers_eq_nil_iff path rest]
    constructor
    · intro h
      obtain ⟨o, gs, ho, hgs, hnil⟩ := parseMembers_cons h
      obtain ⟨ho', rfl⟩ := List.append_eq_nil_iff.1 hnil.symm
      obtain rfl := Option.toList_eq_nil_iff.1 ho'
      exact ⟨ho, hgs⟩
    · rintro ⟨ho, hgs⟩
      rw [parseMembers, ho, hgs]
      rfl

theorem parseMember_eq_none_iff (path : Option String) (key : String) : ∀ value : Json,
    parseMember path key value = .ok none ↔ isOperatorKey key = false ∧ isBlank value
  | .obj members => by
    cases h : isOperatorKey key with
    | true => simpa using parseMember_obj_ne_none h path members
    | false =>
      rw [parseMember_field_obj h, map_conjunction_eq_none_iff,
        parseMembers_eq_nil_iff _ members, isBlank]
      simp
  | .arr _ | .null | .bool _ | .int _ | .double _ | .str _ => by
    refine iff_of_false (fun h => ?_) (by simp [isBlank])
    unfold parseMember at h
    split_ifs at h <;> first | exact map_some_ne_none _ _ h | cases h
end

/-- Exactly the objects without a condition are no filter. -/
theorem ofJson_eq_none_iff (j : Json) : ofJson j = .ok none ↔ isBlank j := by
  cases j with
  | obj members =>
    rw [ofJson, map_conjunction_eq_none_iff, parseMembers_eq_nil_iff, isBlank]
  | _ => simp [ofJson, isBlank]

/-! ## Leaving out blank items -/

mutual
/-- The members of an object without the blank items of the lists under some keys, at any depth. -/
def pruneMembers (lists : String → Bool) : List (String × Json) → List (String × Json)
  | [] => []
  | (key, value) :: rest => (key, pruneMember lists key value) :: pruneMembers lists rest

def pruneMember (lists : String → Bool) (key : String) : Json → Json
  | .arr items => if isListKey key then .arr (pruneItems lists key items) else .arr items
  | .obj members =>
    if isScopeKey key then .obj (pruneMembers lists members) else .obj members
  | value => value

def pruneItems (lists : String → Bool) (key : String) : List Json → List Json
  | [] => []
  | .obj members :: rest =>
    if lists key && areBlank members then pruneItems lists key rest
    else .obj (pruneMembers lists members) :: pruneItems lists key rest
  | item :: rest => item :: pruneItems lists key rest
end

/-- The JSON of a filter without the blank items of the lists under some keys. -/
def prune (lists : String → Bool) : Json → Json
  | .obj members => .obj (pruneMembers lists members)
  | j => j

section
variable (lists : String → Bool)

mutual
theorem parseMembers_prune (path : Option String) : ∀ members : List (String × Json),
    parseMembers path (pruneMembers lists members) = parseMembers path members
  | [] => rfl
  | (key, value) :: rest => by
    rw [pruneMembers, parseMembers, parseMembers, parseMember_prune path key value,
      parseMembers_prune path rest]

theorem parseMember_prune (path : Option String) (key : String) : ∀ value : Json,
    parseMember path key (pruneMember lists key value) = parseMember path key value
  | .arr items => by
    rw [pruneMember]
    split
    · rw [parseMember, parseMember, parseChildren_prune path key items]
      rename_i hlist
      rcases of_decide_eq_true hlist with rfl | rfl <;> simp
    · rfl
  | .obj members => by
    rw [pruneMember]
    split
    · rename_i hscope
      rcases of_decide_eq_true hscope with rfl | hfield
      · rw [parseMember, parseMember, parseMembers_prune path members]
        simp
      · rw [parseMember_field_obj hfield, parseMember_field_obj hfield,
          parseMembers_prune (some (extendPath path key)) members]
    · rfl
  | .null | .bool _ | .int _ | .double _ | .str _ => rfl

theorem parseChildren_prune (path : Option String) (key : String) : ∀ items : List Json,
    parseChildren path key (pruneItems lists key items) = parseChildren path key items
  | [] => rfl
  | .obj members :: rest => by
    rw [pruneItems, parseChildren]
    split
    · rename_i hblank
      rw [(parseMembers_eq_nil_iff path members).2 (Bool.and_eq_true_iff.1 hblank).2,
        parseChildren_prune path key rest]
      cases parseChildren path key rest <;> rfl
    · rw [parseChildren, parseMembers_prune path members, parseChildren_prune path key rest]
  | .arr _ :: _ | .null :: _ | .bool _ :: _ | .int _ :: _ | .double _ :: _ | .str _ :: _ => by
    simp [pruneItems, parseChildren]
end

/-- The items that are left out write nothing, so the filter is the same. -/
theorem ofJson_prune (j : Json) : ofJson (prune lists j) = ofJson j := by
  cases j with
  | obj members => rw [prune, ofJson, ofJson, parseMembers_prune]
  | _ => rfl

end

/-! ## Lists of blank items -/

mutual
/-- An `$and` or `$or` list of an object, at any depth, has no item that writes a condition. -/
def anyExhausted : List (String × Json) → Bool
  | [] => false
  | (key, value) :: rest => exhausted key value || anyExhausted rest

def exhausted (key : String) : Json → Bool
  | .arr items => isListKey key && (items.all isBlank || itemsExhausted items)
  | .obj members => isScopeKey key && anyExhausted members
  | _ => false

def itemsExhausted : List Json → Bool
  | [] => false
  | .obj members :: rest => anyExhausted members || itemsExhausted rest
  | _ :: rest => itemsExhausted rest
end

/-- No document type accepts the filter. -/
def Refused (f : Filter) : Prop := ∀ r t, ∃ e, f.compile r t = .error e

theorem compileAll_refused {f : Filter} {fs : List Filter} (hf : Refused f) (hmem : f ∈ fs)
    (r : Registry) (t : DocumentType) : ∃ e, compileAll r t fs = .error e := by
  cases h : compileAll r t fs with
  | error e => exact ⟨e, rfl⟩
  | ok ps =>
    induction fs generalizing ps with
    | nil => cases hmem
    | cons g gs ih =>
      obtain ⟨p, qs, hp, hqs, -⟩ := compileAll_cons h
      rcases List.mem_cons.1 hmem with rfl | hmem
      · obtain ⟨e, he⟩ := hf r t
        exact absurd (hp.symm.trans he) (by simp)
      · obtain ⟨e, he⟩ := ih hmem qs hqs
        exact absurd he (by simp)

/-- A list is refused if it has no condition, or one that is refused. -/
theorem refused_list {fs : List Filter} (h : fs = [] ∨ ∃ f ∈ fs, Refused f) :
    Refused (.and fs) ∧ Refused (.or fs) := by
  rcases h with rfl | ⟨f, hmem, hf⟩
  · exact ⟨fun _ _ => ⟨_, rfl⟩, fun _ _ => ⟨_, rfl⟩⟩
  · have hlist : ∀ r t, (∃ e, (Filter.and fs).compile r t = .error e) ∧
        ∃ e, (Filter.or fs).compile r t = .error e := by
      intro r t
      obtain ⟨e, he⟩ := compileAll_refused hf hmem r t
      rw [compile, compile, he]
      split <;> exact ⟨⟨_, rfl⟩, ⟨_, rfl⟩⟩
    exact ⟨fun r t => (hlist r t).1, fun r t => (hlist r t).2⟩

theorem refused_not {f : Filter} (hf : Refused f) : Refused (.not f) := by
  intro r t
  obtain ⟨e, he⟩ := hf r t
  exact ⟨e, by rw [compile, he]; rfl⟩

/-- An object with a condition that is refused is refused. -/
theorem refused_conjunction {fs : List Filter} (h : ∃ f ∈ fs, Refused f) :
    ∃ f ∈ conjunction fs, Refused f := by
  obtain ⟨f, hmem, hf⟩ := h
  match fs with
  | [g] =>
    obtain rfl := List.mem_singleton.1 hmem
    exact ⟨f, rfl, hf⟩
  | g :: g' :: gs => exact ⟨_, rfl, (refused_list (.inr ⟨f, hmem, hf⟩)).1⟩

theorem parseChildren_blank {path : Option String} {key : String} : ∀ {items : List Json},
    items.all isBlank → parseChildren path key items = .ok []
  | [], _ => rfl
  | .obj members :: rest, h => by
    rw [List.all_cons, Bool.and_eq_true, isBlank] at h
    rw [parseChildren, (parseMembers_eq_nil_iff path members).2 h.1, parseChildren_blank h.2]
    rfl

mutual
theorem refused_of_anyExhausted (path : Option String) : ∀ (members : List (String × Json))
    (fs : List Filter), parseMembers path members = .ok fs → anyExhausted members →
    ∃ f ∈ fs, Refused f
  | (key, value) :: rest, fs, h, hex => by
    obtain ⟨o, gs, ho, hgs, rfl⟩ := parseMembers_cons h
    rw [anyExhausted, Bool.or_eq_true] at hex
    rcases hex with hhere | hrest
    · obtain ⟨f, hmem, hf⟩ := refused_of_exhausted path key value o ho hhere
      exact ⟨f, List.mem_append_left _ (Option.mem_toList.2 hmem), hf⟩
    · obtain ⟨f, hmem, hf⟩ := refused_of_anyExhausted path rest gs hgs hrest
      exact ⟨f, List.mem_append_right _ hmem, hf⟩

theorem refused_of_exhausted (path : Option String) (key : String) : ∀ (value : Json)
    (o : Option Filter), parseMember path key value = .ok o → exhausted key value →
    ∃ f ∈ o, Refused f
  | .arr items, o, h, hex => by
    rw [exhausted, Bool.and_eq_true, Bool.or_eq_true] at hex
    obtain ⟨hlist, hitems⟩ := hex
    have hchildren : ∀ fs, parseChildren path key items = .ok fs →
        fs = [] ∨ ∃ f ∈ fs, Refused f := by
      intro fs hfs
      rcases hitems with hblank | hinner
      · exact .inl (Except.ok.inj (hfs.symm.trans (parseChildren_blank hblank)))
      · exact .inr (refused_of_itemsExhausted path key items fs hfs hinner)
    obtain ⟨fs, hfs, rfl⟩ := (parseMember_list_eq_ok_iff hlist).1 h
    refine ⟨_, rfl, ?_⟩
    split_ifs
    · exact (refused_list (hchildren fs hfs)).1
    · exact (refused_list (hchildren fs hfs)).2
  | .obj members, o, h, hex => by
    rw [exhausted, Bool.and_eq_true] at hex
    obtain ⟨hscope, hinner⟩ := hex
    rcases of_decide_eq_true hscope with rfl | hfield
    · obtain ⟨fs, f, hfs, hf, rfl⟩ := parseMember_not_eq_ok h
      obtain ⟨g, hg, hrefused⟩ :=
        refused_conjunction (refused_of_anyExhausted path members fs hfs hinner)
      obtain rfl := Option.some.inj (hf.symm.trans hg)
      exact ⟨_, rfl, refused_not hrefused⟩
    · rw [parseMember_field_obj hfield] at h
      obtain ⟨fs, hfs, rfl⟩ := Except.map_eq_ok_iff.1 h
      exact refused_conjunction (refused_of_anyExhausted _ members fs hfs hinner)

theorem refused_of_itemsExhausted (path : Option String) (key : String) : ∀ (items : List Json)
    (fs : List Filter), parseChildren path key items = .ok fs → itemsExhausted items →
    ∃ f ∈ fs, Refused f
  | .obj members :: rest, fs, h, hex => by
    obtain ⟨_, gs, hs, ⟨⟩, hgs, hhs, rfl⟩ := parseChildren_cons h
    rw [itemsExhausted, Bool.or_eq_true] at hex
    rcases hex with hhere | hrest
    · obtain ⟨f, hmem, hf⟩ :=
        refused_conjunction (refused_of_anyExhausted path members gs hgs hhere)
      exact ⟨f, List.mem_append_left _ (Option.mem_toList.2 hmem), hf⟩
    · obtain ⟨f, hmem, hf⟩ := refused_of_itemsExhausted path key rest hs hhs hrest
      exact ⟨f, List.mem_append_right _ hmem, hf⟩
  | .arr _ :: _, _, h, _ | .null :: _, _, h, _ | .bool _ :: _, _, h, _ | .int _ :: _, _, h, _
  | .double _ :: _, _, h, _ | .str _ :: _, _, h, _ => by simp [parseChildren] at h
end

/-- A filter with a list of blank items is refused. -/
theorem refused_of_ofJson {members : List (String × Json)} {o : Option Filter}
    (h : ofJson (.obj members) = .ok o) (hex : anyExhausted members) :
    ∃ f ∈ o, Refused f := by
  obtain ⟨fs, hfs, rfl⟩ := Except.map_eq_ok_iff.1 h
  exact refused_conjunction (refused_of_anyExhausted none members fs hfs hex)

/-! ## Blank items of `$or` lists -/

section
variable (r : Registry) (lookup : Lookup) (t : DocumentType) (d : Document)

mutual
/-- An object without a condition holds of every document. -/
theorem readsAll_of_areBlank (path : Option String) : ∀ members : List (String × Json),
    areBlank members → ReadsAll r lookup t d path members
  | [], _ => trivial
  | (key, value) :: rest, h => by
    rw [areBlank, Bool.and_eq_true, Bool.and_eq_true, Bool.not_eq_true'] at h
    exact ⟨reads_of_isBlank path key h.1.1 value h.1.2, readsAll_of_areBlank path rest h.2⟩

theorem reads_of_isBlank (path : Option String) (key : String) (hkey : isOperatorKey key = false) :
    ∀ value : Json, isBlank value → Reads r lookup t d path key value
  | .obj members, h => by
    rw [Reads, if_neg (not_combinator hkey).2.2, hkey]
    exact readsAll_of_areBlank _ members h
end

/-- A list with a blank item is a disjunction that always holds. -/
theorem readsSome_of_blank (path : Option String) {items : List Json}
    (hobj : ∀ item ∈ items, ∃ members, item = .obj members) (hblank : items.any isBlank) :
    ReadsSome r lookup t d path items := by
  induction items with
  | nil => cases hblank
  | cons item rest ih =>
    obtain ⟨members, rfl⟩ := hobj item List.mem_cons_self
    rw [List.any_cons, Bool.or_eq_true] at hblank
    rw [ReadsSome]
    rcases hblank with hhere | hrest
    · exact .inl (readsAll_of_areBlank r lookup t d path members hhere)
    · exact .inr (ih (fun i hi => hobj i (List.mem_cons_of_mem _ hi)) hrest)

mutual
theorem membersFilter_prune : ∀ members : List (String × Json),
    MembersFilter (pruneMembers (fun _ => true) members)
  | [] => trivial
  | (key, value) :: rest => ⟨memberFilters_prune key value, membersFilter_prune rest⟩

theorem memberFilters_prune (key : String) : ∀ value : Json,
    MemberFilters key (pruneMember (fun _ => true) key value)
  | .arr items => by
    rw [pruneMember]
    split
    · exact fun _ => itemsFilter_prune key items
    · rename_i hlist
      exact fun h => absurd (decide_eq_true h) hlist
  | .obj members => by
    rw [pruneMember]
    split
    · exact fun _ => membersFilter_prune members
    · rename_i hscope
      exact fun h => absurd (decide_eq_true h) hscope
  | .null | .bool _ | .int _ | .double _ | .str _ => trivial

theorem itemsFilter_prune (key : String) : ∀ items : List Json,
    ItemsFilter (pruneItems (fun _ => true) key items)
  | [] => trivial
  | .obj members :: rest => by
    rw [pruneItems]
    split
    · exact itemsFilter_prune key rest
    · rename_i hblank
      refine ⟨?_, membersFilter_prune members, itemsFilter_prune key rest⟩
      rw [Ne, ← prune, ofJson_prune, ofJson_eq_none_iff, isBlank]
      simpa using hblank
  | .arr _ :: rest | .null :: rest | .bool _ :: rest | .int _ :: rest | .double _ :: rest
  | .str _ :: rest => itemsFilter_prune key rest
end

end

/-- The members of an object are the JSON of a filter that a type accepts as a predicate. -/
def CompilesTo (r : Registry) (t : DocumentType) (members : List (String × Json))
    (p : Predicate) : Prop :=
  ∃ f, ofJson (.obj members) = .ok (some f) ∧ f.compile r t = .ok p

/-- A statement that is only used through whether it holds can be replaced by a true one exactly if
it holds or makes no difference. -/
theorem iff_of_true_iff {a : Prop} (F : Prop → Prop) :
    (F a ↔ F True) ↔ a ∨ (F True ↔ F False) := by
  by_cases ha : a <;> simp [ha, iff_comm]

section
variable {r : Registry} {t : DocumentType} {c : Position} {items : List Json}
  {always : String × Json} {g : Filter} {p q : Predicate}

/-- An `$or` list selects what the items that are left of it select. -/
theorem selects_or_iff {path : Option String} {fs : List Filter}
    (h : parseChildren path "$or" items = .ok fs) (lookup : Lookup) (d : Document) :
    (Filter.or fs).Selects r lookup t d ↔
      ReadsSome r lookup t d path (pruneItems (fun _ => true) "$or" items) := by
  rw [← selects_iff_readsSome r lookup t d path "$or" _ fs
    ((parseChildren_prune _ path "$or" items).trans h) (itemsFilter_prune "$or" items)]
  exact selectsAny_iff r lookup t d fs

/-- Where an `$or` list stands, a type that accepts the filter accepts it with another condition,
and a document sees of the condition only whether it holds. -/
theorem exists_replaced (hp : CompilesTo r t (c.fill ("$or", .arr items)) p) :
    ∃ (s : Surrounding) (fs : List Filter), parseChildren (c.path none) "$or" items = .ok fs ∧
      (∀ lookup d, p.holds lookup d = true ↔
        s.Selects r lookup t d ((Filter.or fs).Selects r lookup t d)) ∧
      ∀ m g q, parseMember (c.path none) m.1 m.2 = .ok (some g) → g.compile r t = .ok q →
        ∃ p', CompilesTo r t (c.fill m) p' ∧ ∀ lookup d, p'.holds lookup d = true ↔
          s.Selects r lookup t d (q.holds lookup d = true) := by
  obtain ⟨f, hf, hp⟩ := hp
  obtain ⟨⟨o, ho⟩, s, hs⟩ := c.exists_plug hf
  obtain ⟨fs, hfs, rfl⟩ := (parseMember_list_eq_ok_iff (show isListKey "$or" by decide)).1 ho
  obtain rfl : f = s.plug (.or fs) :=
    Option.some.inj (Except.ok.inj (hf.symm.trans (hs ("$or", .arr items) _ ho)))
  refine ⟨s, fs, hfs, fun lookup d => ?_, fun m g q hg hq => ?_⟩
  · rw [holds_iff_of_compile lookup d _ p hp, s.selects_plug_iff]
  · obtain ⟨p', hp'⟩ := exists_compile_of_wellTyped
      (s.wellTyped_plug (wellTyped_of_compile g q hq) (wellTyped_of_compile _ p hp))
    refine ⟨p', ⟨_, hs m g hg, hp'⟩, fun lookup d => ?_⟩
    rw [holds_iff_of_compile lookup d _ p' hp', s.selects_plug_iff,
      holds_iff_of_compile lookup d g q hq]

/-- With a condition in place of an `$or` list that always holds, a document matches as before
exactly if what is left of the list holds of it or the place makes no difference. -/
theorem same_match_iff (hp : CompilesTo r t (c.fill ("$or", .arr items)) p)
    (hg : parseMember (c.path none) always.1 always.2 = .ok (some g)) (hq : g.compile r t = .ok q)
    (halways : ∀ lookup d, q.holds lookup d = true) :
    ∃ p' p'', CompilesTo r t (c.fill always) p' ∧
      CompilesTo r t (c.fill ("$not", .obj [always])) p'' ∧
      ∀ lookup d, p.holds lookup d = p'.holds lookup d ↔
        ReadsSome r lookup t d (c.path none) (pruneItems (fun _ => true) "$or" items) ∨
          p'.holds lookup d = p''.holds lookup d := by
  obtain ⟨s, fs, hfs, hholds, hreplaced⟩ := exists_replaced hp
  have hnever : parseMember (c.path none) "$not" (.obj [always]) = .ok (some (.not g)) :=
    parseMember_not (by rw [parseMembers, hg]; rfl) rfl
  have hnot : (Filter.not g).compile r t = .ok (.not q) := by rw [compile, hq]; rfl
  obtain ⟨p', hp', hholds'⟩ := hreplaced always g q hg hq
  obtain ⟨p'', hp'', hholds''⟩ := hreplaced ("$not", .obj [always]) _ _ hnever hnot
  refine ⟨p', p'', hp', hp'', fun lookup d => ?_⟩
  have htrue : p'.holds lookup d = true ↔ s.Selects r lookup t d True := by
    simp [hholds', halways]
  have hfalse : p''.holds lookup d = true ↔ s.Selects r lookup t d False := by
    simp [hholds'', Predicate.holds, halways]
  calc p.holds lookup d = p'.holds lookup d
      ↔ (s.Selects r lookup t d ((Filter.or fs).Selects r lookup t d) ↔
          s.Selects r lookup t d True) := by rw [Bool.eq_iff_iff, hholds, htrue]
    _ ↔ (Filter.or fs).Selects r lookup t d ∨
          (s.Selects r lookup t d True ↔ s.Selects r lookup t d False) :=
        iff_of_true_iff fun here => s.Selects r lookup t d here
    _ ↔ _ := by rw [selects_or_iff hfs, Bool.eq_iff_iff, htrue, hfalse]

end

/-! ## The laws -/

/-- An object is no filter exactly if it writes no condition. Such items are left out of every list.
In `$and` lists that changes nothing, and a list without any other items has the filter refused. An
`$or` list with such an item holds of every document, read as it is written; but with a condition in
its place that always holds, a document matches as it does with the list exactly if one of the other
items holds of it, or if it matches in the same way with a condition that never holds. -/
theorem blank_items (r : Registry) (t : DocumentType) :
    (∀ j : Json, ofJson j = .ok none ↔ isBlank j) ∧
    (∀ (lists : String → Bool) (j : Json), ofJson (prune lists j) = ofJson j) ∧
    (∀ items : List Json, items.all isBlank → ofJson (.obj [("$and", .arr items)]) =
      .ok (some (.and [])) ∧ ofJson (.obj [("$or", .arr items)]) = .ok (some (.or []))) ∧
    (Filter.and []).compile r t = .error (.operator (.emptyCombinator "$and")) ∧
    (Filter.or []).compile r t = .error (.operator (.emptyCombinator "$or")) ∧
    (∀ (members : List (String × Json)) (f : Filter), ofJson (.obj members) = .ok (some f) →
      anyExhausted members → ∃ e, f.compile r t = .error e) ∧
    (∀ (lookup : Lookup) (d : Document) (path : Option String) (items : List Json),
      (∀ item ∈ items, ∃ members, item = .obj members) → items.any isBlank →
        ReadsSome r lookup t d path items) ∧
    ∀ (c : Position) (items : List Json) (always : String × Json) (g : Filter) (p q : Predicate),
      CompilesTo r t (c.fill ("$or", .arr items)) p →
      parseMember (c.path none) always.1 always.2 = .ok (some g) → g.compile r t = .ok q →
      (∀ lookup d, q.holds lookup d = true) →
      ∃ p' p'', CompilesTo r t (c.fill always) p' ∧
        CompilesTo r t (c.fill ("$not", .obj [always])) p'' ∧
        ∀ lookup d, p.holds lookup d = p'.holds lookup d ↔
          ReadsSome r lookup t d (c.path none) (pruneItems (fun _ => true) "$or" items) ∨
            p'.holds lookup d = p''.holds lookup d := by
  refine ⟨ofJson_eq_none_iff, ofJson_prune, ?_, rfl, rfl, ?_,
    fun lookup d path _ => readsSome_of_blank r lookup t d path, ?_⟩
  · intro items hblank
    have hlist : ∀ key, isListKey key → ofJson (.obj [(key, .arr items)]) =
        .ok (some (if key = "$and" then .and [] else .or [])) := fun key hkey =>
      (conjunction_parseMembers ..).trans
        ((parseMember_list_eq_ok_iff hkey).2 ⟨[], parseChildren_blank hblank, rfl⟩)
    exact ⟨hlist "$and" (by decide), hlist "$or" (by decide)⟩
  · intro members f hparse hex
    obtain ⟨g, hg, hrefused⟩ := refused_of_ofJson hparse hex
    obtain rfl := Option.some.inj hg
    exact hrefused r t
  · intro c items always g p q hp hg hq halways
    exact same_match_iff hp hg hq halways

/-- Articles titled `x`: in an `$and` list with an empty object, and below `$not` in an `$or` list
with one, which is replaced by a condition that always holds. -/
theorem blank_items_blog :
    let x : Json := .obj [("title", .str "x")]
    let nested : List (String × Json) := [("$or", .arr [x, .obj [("$and", .arr [.obj []])]])]
    let f : Filter := .or [.leaf "title" .eq (.text "x"), .and []]
    let c : Position := .under [] "$not" (by decide) (.here [] []) []
    let always : String × Json := ("$not", .obj [("title", .obj [("$in", .arr [])])])
    let g : Filter := .not (.leaf "title" .isIn (.list []))
    let title : FieldPath := ⟨[], "title", .scalar .text⟩
    let p : Predicate := .not (.or [.compare ⟨title, .eq, .one (.text "x")⟩])
    let q : Predicate := .not (.compare ⟨title, .isIn, .many []⟩)
    let r : Registry := ⟨[("article", Blog.article)]⟩
    let t : DocumentType := Blog.article
    ofJson (.obj [("$and", .arr [x])]) = ofJson (.obj [("$and", .arr [.obj [], x])]) ∧
      ofJson (.obj [("$and", .arr [.obj []])]) = .ok (some (.and [])) ∧
      (ofJson (.obj nested) = .ok (some f) ∧ anyExhausted nested ∧
        ∃ e, f.compile r t = .error e) ∧
      ReadsSome r Lookup.empty t ⟨"article", "a", none, []⟩ none [.obj [], x] ∧
      CompilesTo r t (c.fill ("$or", .arr [.obj [], x])) p ∧
      parseMember (c.path none) always.1 always.2 = .ok (some g) ∧ g.compile r t = .ok q ∧
      (∀ lookup d, q.holds lookup d = true) ∧
      ∃ p' p'', CompilesTo r t (c.fill always) p' ∧
        CompilesTo r t (c.fill ("$not", .obj [always])) p'' ∧
        ∀ lookup d, p.holds lookup d = p'.holds lookup d ↔
          ReadsSome r lookup t d (c.path none) (pruneItems (fun _ => true) "$or" [.obj [], x]) ∨
            p'.holds lookup d = p''.holds lookup d := by
  intro x nested f c always g title p q r t
  have hf : ofJson (.obj nested) = .ok (some f) := rfl
  have hex : anyExhausted nested := by decide +kernel
  have hp : CompilesTo r t (c.fill ("$or", .arr [.obj [], x])) p := ⟨_, rfl, rfl⟩
  have hg : parseMember (c.path none) always.1 always.2 = .ok (some g) := rfl
  have hq : g.compile r t = .ok q := rfl
  have halways : ∀ lookup d, q.holds lookup d = true := fun _ _ => rfl
  obtain ⟨-, hprune, hblank, -, -, hrefused, hreads, hreplaced⟩ := blank_items r t
  refine ⟨hprune (· = "$and") (.obj [("$and", .arr [.obj [], x])]),
    (hblank [.obj []] (by decide +kernel)).1, ⟨hf, hex, hrefused nested f hf hex⟩,
    hreads _ _ none [.obj [], x] ?_ (by decide +kernel), hp, hg, hq, halways,
    hreplaced c [.obj [], x] always g p q hp hg hq halways⟩
  intro item hitem
  rcases List.mem_pair.1 hitem with rfl | rfl <;> exact ⟨_, rfl⟩

/-- An empty object in an `$or` list is left out and the rest of the list restricts, though the
object alone is no filter; an `$and` list of one empty object is refused, and not no filter. -/
theorem blank_item_of_or_restricts :
    let x : Json := .obj [("title", .str "x")]
    let r : Registry := ⟨[("article", Blog.article)]⟩
    let p : Predicate := .or [.compare ⟨⟨[], "title", .scalar .text⟩, .eq, .one (.text "x")⟩]
    let d : Document := ⟨"article", "a", none, [("title", .text "y")]⟩
    (∃ f, ofJson (.obj [("$or", .arr [.obj [], x])]) = .ok (some f) ∧
        f.compile r Blog.article = .ok p) ∧
      p.holds (fun _ _ => none) d = false ∧ ofJson (.obj []) = .ok none ∧
      ∃ f, ofJson (.obj [("$and", .arr [.obj []])]) = .ok (some f) ∧
        f.compile r Blog.article = .error (.operator (.emptyCombinator "$and")) :=
  ⟨⟨_, rfl, rfl⟩, by decide +kernel, rfl, _, rfl, rfl⟩

end ContentEngine.Filter
