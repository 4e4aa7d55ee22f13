import ContentEngine.Filter.Parser
import ContentEngine.Proofs.Filter.Compilation

/-!
# The direct reading of a filter in JSON

`Filter.Reads` says of a document what the JSON of a filter asks for, member by member and without
a filter tree. It agrees with the predicate that is parsed and compiled from the JSON, unless an
item of an `$and` or `$or` list writes no condition: such an item holds of every document, but the
parser leaves it out of the list.
-/

namespace ContentEngine.Filter

section
variable (r : Registry) (lookup : Lookup) (t : DocumentType) (d : Document)

/-- An operator key speaks of the enclosing path. -/
def OperatorReads (path : Option String) (key : String) (operand : Json) : Prop :=
  ∃ p op, path = some p ∧ FilterOp.ofKey? key = some op ∧
    LeafSelects r lookup t d p op (Value.ofJson operand)

mutual
/-- An object is the conjunction of its members. -/
def ReadsAll (path : Option String) : List (String × Json) → Prop
  | [] => True
  | (key, value) :: rest => Reads path key value ∧ ReadsAll path rest

def Reads (path : Option String) (key : String) : Json → Prop
  | .arr items =>
    if key = "$and" then ReadsEvery path items
    else if key = "$or" then ReadsSome path items
    else if isOperatorKey key then OperatorReads r lookup t d path key (.arr items)
    else LeafSelects r lookup t d (extendPath path key) .isIn (Value.ofJson (.arr items))
  | .obj members =>
    if key = "$not" then ¬ ReadsAll path members
    else if isOperatorKey key then OperatorReads r lookup t d path key (.obj members)
    else ReadsAll (some (extendPath path key)) members
  | operand =>
    if isOperatorKey key then OperatorReads r lookup t d path key operand
    else LeafSelects r lookup t d (extendPath path key) .eq (Value.ofJson operand)

def ReadsEvery (path : Option String) : List Json → Prop
  | [] => True
  | .obj members :: rest => ReadsAll path members ∧ ReadsEvery path rest
  | _ :: _ => False

def ReadsSome (path : Option String) : List Json → Prop
  | [] => False
  | .obj members :: rest => ReadsAll path members ∨ ReadsSome path rest
  | _ :: _ => False
end

/-- What the JSON of a whole filter says of a document. -/
def ReadsJson : Json → Prop
  | .obj members => ReadsAll r lookup t d none members
  | _ => False

end

/-! ## Items without conditions -/

mutual
/-- In no `$and` or `$or` list of an object is there an item that parses to no filter. -/
def MembersFilter : List (String × Json) → Prop
  | [] => True
  | (key, value) :: rest => MemberFilters key value ∧ MembersFilter rest

def MemberFilters (key : String) : Json → Prop
  | .arr items => key = "$and" ∨ key = "$or" → ItemsFilter items
  | .obj members => key = "$not" ∨ isOperatorKey key = false → MembersFilter members
  | _ => True

def ItemsFilter : List Json → Prop
  | [] => True
  | .obj members :: rest =>
    ofJson (.obj members) ≠ .ok none ∧ MembersFilter members ∧ ItemsFilter rest
  | _ :: rest => ItemsFilter rest
end

def EveryItemFilters : Json → Prop
  | .obj members => MembersFilter members
  | _ => True

theorem conjunction_eq_none {fs : List Filter} (h : conjunction fs = none) : fs = [] := by
  cases fs with
  | nil => rfl
  | cons f fs => cases fs <;> cases h

/-! ## Parsing, one member and one item at a time -/

section
variable {path : Option String} {key : String} {value : Json} {members : List (String × Json)}
  {rest : List (String × Json)} {items : List Json} {fs : List Filter} {o : Option Filter}

theorem parseMembers_cons (h : parseMembers path ((key, value) :: rest) = .ok fs) :
    ∃ o gs, parseMember path key value = .ok o ∧ parseMembers path rest = .ok gs ∧
      fs = o.toList ++ gs := by
  rw [parseMembers] at h
  cases ho : parseMember path key value with
  | error e => simp [ho] at h
  | ok o =>
    cases hgs : parseMembers path rest with
    | error e => simp [ho, hgs] at h
    | ok gs =>
      simp only [ho, hgs, Except.ok.injEq] at h
      exact ⟨o, gs, rfl, rfl, h.symm⟩

theorem parseChildren_cons (h : parseChildren path key (value :: items) = .ok fs) :
    ∃ members gs hs, value = .obj members ∧ parseMembers path members = .ok gs ∧
      parseChildren path key items = .ok hs ∧ fs = (conjunction gs).toList ++ hs := by
  cases value with
  | obj members =>
    rw [parseChildren] at h
    cases hgs : parseMembers path members with
    | error e => simp [hgs] at h
    | ok gs =>
      cases hhs : parseChildren path key items with
      | error e => simp [hgs, hhs] at h
      | ok hs =>
        simp only [hgs, hhs, Except.ok.injEq] at h
        exact ⟨members, gs, hs, rfl, hgs, rfl, h.symm⟩
  | _ => simp [parseChildren] at h

theorem operatorLeaf_eq_ok {operand : Json} {f : Filter}
    (h : operatorLeaf path key operand = .ok f) :
    ∃ p op, path = some p ∧ FilterOp.ofKey? key = some op ∧
      f = .leaf p op (Value.ofJson operand) := by
  unfold operatorLeaf at h
  cases path with
  | none => simp at h
  | some p =>
    cases hop : FilterOp.ofKey? key with
    | none => simp [hop] at h
    | some op =>
      simp only [hop, Except.ok.injEq] at h
      exact ⟨p, op, rfl, rfl, h.symm⟩

theorem selects_conjunction (r : Registry) (lookup : Lookup) (t : DocumentType) (d : Document)
    (fs : List Filter) :
    (∀ f ∈ conjunction fs, f.Selects r lookup t d) ↔ ∀ f ∈ fs, f.Selects r lookup t d := by
  match fs with
  | [] => simp [conjunction]
  | [f] => simp [conjunction]
  | f :: g :: fs => simp [conjunction, Selects, selectsAll_iff]

theorem selects_operatorLeaf {r : Registry} {lookup : Lookup} {t : DocumentType} {d : Document}
    {operand : Json} (h : (operatorLeaf path key operand).map some = .ok o) :
    (∀ f ∈ o, f.Selects r lookup t d) ↔ OperatorReads r lookup t d path key operand := by
  obtain ⟨f, hf, rfl⟩ := Except.map_eq_ok_iff.mp h
  obtain ⟨p, op, rfl, hop, rfl⟩ := operatorLeaf_eq_ok hf
  simp [OperatorReads, hop, Selects]

end

/-! ## An object that writes no condition -/

theorem map_some_ne_none {ε α β : Type} (x : Except ε α) (g : α → β) :
    (x.map fun a => some (g a)) ≠ .ok none := by
  cases x <;> simp [Except.map]

mutual
/-- Whether an object writes a condition does not depend on the path above it. -/
theorem parseMembers_nil (path path' : Option String) : ∀ members : List (String × Json),
    parseMembers path members = .ok [] → parseMembers path' members = .ok []
  | [], _ => rfl
  | (key, value) :: rest, h => by
    obtain ⟨o, gs, ho, hgs, hnil⟩ := parseMembers_cons h
    obtain ⟨ho', rfl⟩ := List.append_eq_nil_iff.mp hnil.symm
    obtain rfl := Option.toList_eq_nil_iff.mp ho'
    rw [parseMembers, parseMember_none path path' key value ho,
      parseMembers_nil path path' rest hgs]
    rfl

theorem parseMember_none (path path' : Option String) (key : String) : ∀ value : Json,
    parseMember path key value = .ok none → parseMember path' key value = .ok none
  | .obj members, h => by
    rw [parseMember] at h ⊢
    by_cases hlist : key = "$and" ∨ key = "$or"
    · rw [if_pos hlist] at h
      cases h
    rw [if_neg hlist] at h ⊢
    by_cases hnot : key = "$not"
    · rw [if_pos hnot] at h
      cases hfs : parseMembers path members with
      | error e => simp [hfs] at h
      | ok fs => cases hf : conjunction fs <;> simp [hfs, hf] at h
    rw [if_neg hnot] at h ⊢
    by_cases hop : isOperatorKey key
    · rw [if_pos hop] at h
      exact absurd h (map_some_ne_none _ _)
    rw [if_neg hop] at h ⊢
    obtain ⟨fs, hfs, hf⟩ := Except.map_eq_ok_iff.mp h
    obtain rfl := conjunction_eq_none hf
    rw [parseMembers_nil _ (some (extendPath path' key)) members hfs]
    rfl
  | .arr _, h | .null, h | .bool _, h | .int _, h | .double _, h | .str _, h => by
    unfold parseMember at h
    split_ifs at h <;> first | exact absurd h (map_some_ne_none _ _) | cases h
end

/-- An item of a list that does not parse to no filter adds a condition to the list. -/
theorem conjunction_ne_none {path : Option String} {members : List (String × Json)}
    {fs : List Filter} (hfs : parseMembers path members = .ok fs)
    (hitem : ofJson (.obj members) ≠ .ok none) : conjunction fs ≠ none := by
  intro hnone
  obtain rfl := conjunction_eq_none hnone
  apply hitem
  rw [ofJson, parseMembers_nil path none members hfs]
  rfl

/-! ## The reading -/

section
variable (r : Registry) (lookup : Lookup) (t : DocumentType) (d : Document)

/-- A member that writes one leaf, with the operator of its key or one that its value stands for. -/
theorem selects_iff_leaf {path : Option String} {key : String} {operand : Json} {op : FilterOp}
    {o : Option Filter}
    (h : (if isOperatorKey key then (operatorLeaf path key operand).map some
      else .ok (some (.leaf (extendPath path key) op (Value.ofJson operand)))) = .ok o) :
    (∀ f ∈ o, f.Selects r lookup t d) ↔
      if isOperatorKey key then OperatorReads r lookup t d path key operand
      else LeafSelects r lookup t d (extendPath path key) op (Value.ofJson operand) := by
  by_cases hop : isOperatorKey key
  · rw [if_pos hop] at h ⊢
    exact selects_operatorLeaf h
  · rw [if_neg hop] at h ⊢
    obtain rfl := Except.ok.inj h
    simp [Selects]

mutual
theorem selects_iff_readsAll (path : Option String) : ∀ (members : List (String × Json))
    (fs : List Filter), parseMembers path members = .ok fs → MembersFilter members →
    ((∀ f ∈ fs, f.Selects r lookup t d) ↔ ReadsAll r lookup t d path members)
  | [], fs, h, _ => by
    obtain rfl := Except.ok.inj h
    simp [ReadsAll]
  | (key, value) :: rest, fs, h, hitems => by
    obtain ⟨o, gs, ho, hgs, rfl⟩ := parseMembers_cons h
    rw [MembersFilter] at hitems
    rw [ReadsAll, ← selects_iff_reads path key value o ho hitems.1,
      ← selects_iff_readsAll path rest gs hgs hitems.2]
    simp [or_imp, forall_and]

theorem selects_iff_reads (path : Option String) (key : String) : ∀ (value : Json)
    (o : Option Filter), parseMember path key value = .ok o → MemberFilters key value →
    ((∀ f ∈ o, f.Selects r lookup t d) ↔ Reads r lookup t d path key value)
  | .arr items, o, h, hitems => by
    rw [parseMember] at h
    rw [MemberFilters] at hitems
    rw [Reads]
    by_cases hand : key = "$and"
    · rw [if_pos hand] at h ⊢
      obtain ⟨fs, hfs, rfl⟩ := Except.map_eq_ok_iff.mp h
      rw [← selects_iff_readsEvery path key items fs hfs (hitems (.inl hand))]
      simp [Selects, selectsAll_iff]
    by_cases hor : key = "$or"
    · rw [if_neg hand, if_pos hor] at h ⊢
      obtain ⟨fs, hfs, rfl⟩ := Except.map_eq_ok_iff.mp h
      rw [← selects_iff_readsSome path key items fs hfs (hitems (.inr hor))]
      simp [Selects, selectsAny_iff]
    by_cases hnot : key = "$not"
    · rw [if_neg hand, if_neg hor, if_pos hnot] at h
      cases h
    rw [if_neg hand, if_neg hor, if_neg hnot] at h
    rw [if_neg hand, if_neg hor]
    exact selects_iff_leaf r lookup t d h
  | .obj members, o, h, hitems => by
    rw [parseMember] at h
    rw [MemberFilters] at hitems
    rw [Reads]
    by_cases hlist : key = "$and" ∨ key = "$or"
    · rw [if_pos hlist] at h
      cases h
    rw [if_neg hlist] at h
    by_cases hnot : key = "$not"
    · rw [if_pos hnot] at h ⊢
      cases hfs : parseMembers path members with
      | error e => simp [hfs] at h
      | ok fs =>
        rw [← selects_iff_readsAll path members fs hfs (hitems (.inl hnot)),
          ← selects_conjunction]
        cases hf : conjunction fs with
        | none => simp [hfs, hf] at h
        | some f =>
          simp only [hfs, hf, Except.ok.injEq] at h
          subst h
          simp [Selects]
    rw [if_neg hnot] at h ⊢
    by_cases hop : isOperatorKey key
    · rw [if_pos hop] at h ⊢
      exact selects_operatorLeaf h
    · rw [if_neg hop] at h ⊢
      obtain ⟨fs, hfs, rfl⟩ := Except.map_eq_ok_iff.mp h
      rw [selects_conjunction]
      exact selects_iff_readsAll _ members fs hfs (hitems (.inr (eq_false_of_ne_true hop)))
  | .null, o, h, _ | .bool _, o, h, _ | .int _, o, h, _ | .double _, o, h, _ | .str _, o, h, _ => by
    unfold parseMember at h
    unfold Reads
    by_cases hlist : key = "$and" ∨ key = "$or"
    · rw [if_pos hlist] at h
      cases h
    by_cases hnot : key = "$not"
    · rw [if_neg hlist, if_pos hnot] at h
      cases h
    rw [if_neg hlist, if_neg hnot] at h
    exact selects_iff_leaf r lookup t d h

theorem selects_iff_readsEvery (path : Option String) (key : String) : ∀ (items : List Json)
    (fs : List Filter), parseChildren path key items = .ok fs → ItemsFilter items →
    ((∀ f ∈ fs, f.Selects r lookup t d) ↔ ReadsEvery r lookup t d path items)
  | [], fs, h, _ => by
    obtain rfl := Except.ok.inj h
    simp [ReadsEvery]
  | .obj members :: items, fs, h, hitems => by
    obtain ⟨_, gs, hs, ⟨⟩, hgs, hhs, rfl⟩ := parseChildren_cons h
    rw [ItemsFilter] at hitems
    rw [ReadsEvery, ← selects_iff_readsAll path members gs hgs hitems.2.1,
      ← selects_iff_readsEvery path key items hs hhs hitems.2.2,
      ← selects_conjunction r lookup t d gs]
    simp [or_imp, forall_and]
  | .arr _ :: _, _, h, _ | .null :: _, _, h, _ | .bool _ :: _, _, h, _ | .int _ :: _, _, h, _
  | .double _ :: _, _, h, _ | .str _ :: _, _, h, _ => by simp [parseChildren] at h

theorem selects_iff_readsSome (path : Option String) (key : String) : ∀ (items : List Json)
    (fs : List Filter), parseChildren path key items = .ok fs → ItemsFilter items →
    ((∃ f ∈ fs, f.Selects r lookup t d) ↔ ReadsSome r lookup t d path items)
  | [], fs, h, _ => by
    obtain rfl := Except.ok.inj h
    simp [ReadsSome]
  | .obj members :: items, fs, h, hitems => by
    obtain ⟨_, gs, hs, ⟨⟩, hgs, hhs, rfl⟩ := parseChildren_cons h
    rw [ItemsFilter] at hitems
    rw [ReadsSome, ← selects_iff_readsAll path members gs hgs hitems.2.1,
      ← selects_iff_readsSome path key items hs hhs hitems.2.2,
      ← selects_conjunction r lookup t d gs]
    cases hf : conjunction gs with
    | none => exact absurd hf (conjunction_ne_none hgs hitems.1)
    | some f => simp
  | .arr _ :: _, _, h, _ | .null :: _, _, h, _ | .bool _ :: _, _, h, _ | .int _ :: _, _, h, _
  | .double _ :: _, _, h, _ | .str _ :: _, _, h, _ => by simp [parseChildren] at h
end

/-- A filter in JSON as it is parsed selects what the JSON says. -/
theorem selects_iff_readsJson {j : Json} {f : Option Filter} (hparse : ofJson j = .ok f)
    (hitems : EveryItemFilters j) :
    (∀ g ∈ f, g.Selects r lookup t d) ↔ ReadsJson r lookup t d j := by
  cases j with
  | obj members =>
    obtain ⟨fs, hfs, rfl⟩ := Except.map_eq_ok_iff.mp hparse
    rw [selects_conjunction]
    exact selects_iff_readsAll r lookup t d none members fs hfs hitems
  | _ => cases hparse

end

/-! ## Dotted keys -/

theorem not_combinator {key : String} (h : isOperatorKey key = false) :
    key ≠ "$and" ∧ key ≠ "$or" ∧ key ≠ "$not" := by
  refine ⟨?_, ?_, ?_⟩ <;> rintro rfl <;> exact absurd h (by decide)

theorem isOperatorKey_dotted {a : String} (b : String) (h : isOperatorKey a = false) :
    isOperatorKey (a ++ "." ++ b) = false := by
  simp only [isOperatorKey, decide_eq_false_iff_not] at h ⊢
  cases hl : a.toList with
  | nil => simp [hl]
  | cons c l => simpa [hl] using h

/-- What a field key and its value write depends only on the path to the field. -/
theorem parseMember_field {path path' : Option String} {key key' : String}
    (h : isOperatorKey key = false) (h' : isOperatorKey key' = false)
    (hpath : extendPath path key = extendPath path' key') (value : Json) :
    parseMember path key value = parseMember path' key' value := by
  obtain ⟨hand, hor, hnot⟩ := not_combinator h
  obtain ⟨hand', hor', hnot'⟩ := not_combinator h'
  cases value <;> simp [parseMember, h, hand, hor, hnot, h', hand', hor', hnot', hpath]

theorem conjunction_parseMembers (path : Option String) (key : String) (value : Json) :
    (parseMembers path [(key, value)]).map conjunction = parseMember path key value := by
  rw [parseMembers]
  cases parseMember path key value with
  | error e => rfl
  | ok o => cases o <;> rfl

/-- A field below a field is the field at their dotted path. -/
theorem ofJson_nested {a b : String} (ha : isOperatorKey a = false) (hb : isOperatorKey b = false)
    (x : Json) : ofJson (.obj [(a, .obj [(b, x)])]) = ofJson (.obj [(a ++ "." ++ b, x)]) := by
  obtain ⟨hand, hor, hnot⟩ := not_combinator ha
  calc ofJson (.obj [(a, .obj [(b, x)])])
      = parseMember none a (.obj [(b, x)]) := conjunction_parseMembers ..
    _ = (parseMembers (some a) [(b, x)]).map conjunction := by
      simp [parseMember, ha, hand, hor, hnot, extendPath]
    _ = parseMember (some a) b x := conjunction_parseMembers ..
    _ = parseMember none (a ++ "." ++ b) x :=
      parseMember_field hb (isOperatorKey_dotted b ha) rfl x
    _ = ofJson (.obj [(a ++ "." ++ b, x)]) := (conjunction_parseMembers ..).symm

/-- The JSON of a filter means what it says, and nesting a field is the same as dotting its key. -/
theorem json_reading :
    (∀ (r : Registry) (t : DocumentType) (j : Json) (f : Option Filter) (p : Predicate),
      ofJson j = .ok f → EveryItemFilters j → f.elim (.ok .always) (·.compile r t) = .ok p →
      ∀ (lookup : Lookup) (d : Document), p.holds lookup d = true ↔ ReadsJson r lookup t d j) ∧
    ∀ (a b : String) (x : Json), a.toList.head? ≠ some '$' → b.toList.head? ≠ some '$' →
      ofJson (.obj [(a, .obj [(b, x)])]) = ofJson (.obj [(a ++ "." ++ b, x)]) := by
  constructor
  · intro r t j f p hparse hitems hcompile lookup d
    rw [← selects_iff_readsJson r lookup t d hparse hitems]
    cases f with
    | none =>
      obtain rfl := Except.ok.inj hcompile
      simp [Predicate.holds]
    | some f => simpa using holds_iff_of_compile lookup d f p hcompile
  · intro a b x ha hb
    exact ofJson_nested (decide_eq_false ha) (decide_eq_false hb) x

/-- A disjunction below a relation next to a negation, on a document whose author is a reference. -/
theorem json_reading_blog :
    let j : Json := .obj [("$not", .obj [("title", .obj [("$null", .bool true)])]),
      ("author", .obj [("$or", .arr [.obj [("name", .str "Ada")],
        .obj [("name", .obj [("$startsWith", .str "Gr")])]])])]
    let f : Filter := .and [.not (.leaf "title" .null (.bool true)),
      .or [.leaf "author.name" .eq (.text "Ada"), .leaf "author.name" .startsWith (.text "Gr")]]
    let r : Registry := ⟨[("article", Blog.article), ("author", Blog.author)]⟩
    let name : FieldPath := ⟨[⟨"author", "author"⟩], "name", .scalar .text⟩
    let p : Predicate := .and [.not (.compare ⟨⟨[], "title", .scalar .text⟩, .null, .none⟩),
      .or [.compare ⟨name, .eq, .one (.text "Ada")⟩,
        .compare ⟨name, .startsWith, .one (.text "Gr")⟩]]
    let d : Document := ⟨"article", "a", none, [("author", .ref "u"), ("title", .text "Notes")]⟩
    let lookup : Lookup := fun _ id =>
      if id = "u" then some ⟨"author", "u", none, [("name", .text "Grace")]⟩ else none
    ofJson j = .ok (some f) ∧ EveryItemFilters j ∧ f.compile r Blog.article = .ok p ∧
      p.holds lookup d = true ∧ ReadsJson r lookup Blog.article d j ∧
      ofJson (.obj [("author", .obj [("name", .str "Ada")])]) =
        ofJson (.obj [("author.name", .str "Ada")]) := by
  intro j f r name p d lookup
  have hparse : ofJson j = .ok (some f) := rfl
  have hada : ofJson (.obj [("name", .str "Ada")]) = .ok (some (.leaf "name" .eq (.text "Ada"))) :=
    rfl
  have hgrace : ofJson (.obj [("name", .obj [("$startsWith", .str "Gr")])]) =
    .ok (some (.leaf "name" .startsWith (.text "Gr"))) := rfl
  have hitems : EveryItemFilters j := by
    simp [j, EveryItemFilters, MembersFilter, MemberFilters, ItemsFilter, hada, hgrace]
  have hcompile : f.compile r Blog.article = .ok p := rfl
  have hd : p.holds lookup d = true := by decide +kernel
  exact ⟨hparse, hitems, hcompile, hd,
    (json_reading.1 r Blog.article j (some f) p hparse hitems hcompile lookup d).mp hd,
    json_reading.2 "author" "name" (.str "Ada") (by decide) (by decide)⟩

end ContentEngine.Filter
