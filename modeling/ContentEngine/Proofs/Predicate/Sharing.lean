import ContentEngine.Predicate.Cache
import ContentEngine.Proofs.Filter.Encoding
import ContentEngine.Proofs.Schema.Registry
import ContentEngine.Sample.Blog

/-!
# Sharing a predicate cache

A call of `getOrCompile` looks a filter up, compiles it if nothing is there, and then stores what it
compiled. Callers that share a cache may come between the two halves of a call in any order. Whatever
they do, every call answers what compiling its filter gives, and the cache keeps to its capacity.

The invariant is that everything that is stored or about to be stored is what compiling one of the
filters asked for gives under its key. The digest has to tell the filters asked for apart.
-/

namespace ContentEngine

namespace PredicateCache

def keyOf (t : DocumentType) (f : Filter) : String × List UInt8 := (t.name, f.fingerprint)

/-- A predicate that a caller has compiled and is about to store. -/
structure Pending where
  key : String × List UInt8
  predicate : Predicate

/-- The first half of a call: its answer, and what is left to be stored. -/
def look (c : PredicateCache) (r : Registry) (t : DocumentType) (f : Filter) :
    Except FilterError (Predicate × Bool) × Option Pending :=
  if c.capacity = 0 then ((f.compile r t).map (·, false), none)
  else
    match c.find? (keyOf t f) with
    | some p => (.ok (p, true), none)
    | none =>
      match f.compile r t with
      | .error e => (.error e, none)
      | .ok p => (.ok (p, false), some ⟨keyOf t f, p⟩)

/-- The second half of a call. -/
def finish (c : PredicateCache) : Option Pending → PredicateCache
  | none => c
  | some p => c.store p.key p.predicate

theorem getOrCompile_eq (c : PredicateCache) (r : Registry) (t : DocumentType) (f : Filter) :
    c.getOrCompile r t f = ((c.look r t f).1, c.finish (c.look r t f).2) := by
  unfold getOrCompile look
  by_cases hcapacity : c.capacity = 0
  · rw [if_pos hcapacity, if_pos hcapacity]
    rfl
  · rw [if_neg hcapacity, if_neg hcapacity]
    simp only [keyOf]
    cases c.find? (t.name, f.fingerprint) with
    | some p => rfl
    | none => cases f.compile r t <;> rfl

theorem mem_of_find? {c : PredicateCache} {key : String × List UInt8} {p : Predicate}
    (h : c.find? key = some p) : (key, p) ∈ c.entries := by
  obtain ⟨entry, hentry, rfl⟩ := Option.map_eq_some_iff.1 h
  have hkey : entry.1 = key := by simpa using List.find?_some hentry
  exact hkey ▸ List.mem_of_find?_eq_some hentry

theorem mem_store {c : PredicateCache} {key : String × List UInt8} {p : Predicate}
    {e : (String × List UInt8) × Predicate} (h : e ∈ (c.store key p).entries) :
    e = (key, p) ∨ e ∈ c.entries := by
  rcases List.mem_cons.1 h with h | h
  · exact .inl h
  · have hkept := (List.mem_filter.1 h).1
    by_cases hfull : c.capacity ≤ c.size
    · rw [if_pos hfull] at hkept
      exact absurd hkept List.not_mem_nil
    · rw [if_neg hfull] at hkept
      exact .inr hkept

end PredicateCache

open PredicateCache

/-- A filter on a type, as a caller asks for it. -/
structure Asked where
  docType : DocumentType
  filter : Filter

/-- What a caller that shares a cache does next: a whole call, the first half of one, the second half
of the call that waits at some place, or emptying the cache. -/
inductive CacheMove where
  | call (a : Asked)
  | look (a : Asked)
  | store (waiting : Nat)
  | clear

def CacheMove.asked? : CacheMove → Option Asked
  | .call a => some a
  | .look a => some a
  | .store _ => none
  | .clear => none

/-- A cache with the calls between their halves, and what all calls have answered so far. -/
structure SharedCache where
  cache : PredicateCache
  waiting : List Pending
  answers : List (Asked × Except FilterError (Predicate × Bool))

namespace SharedCache

/-- The answers, without whether they were found in the cache. -/
def predicates (s : SharedCache) : List (Asked × Except FilterError Predicate) :=
  s.answers.map fun e => (e.1, e.2.map (·.1))

def start (capacity : Nat) : SharedCache := ⟨.empty capacity, [], []⟩

def step (r : Registry) (s : SharedCache) : CacheMove → SharedCache
  | .call a =>
    let (answer, cache) := s.cache.getOrCompile r a.docType a.filter
    { s with cache := cache, answers := s.answers ++ [(a, answer)] }
  | .look a =>
    let (answer, left) := s.cache.look r a.docType a.filter
    { s with waiting := s.waiting ++ left.toList, answers := s.answers ++ [(a, answer)] }
  | .store n => { s with cache := s.cache.finish s.waiting[n]?, waiting := s.waiting.eraseIdx n }
  | .clear => { s with cache := s.cache.clear }

def run (r : Registry) (s : SharedCache) (moves : List CacheMove) : SharedCache :=
  moves.foldl (step r) s

end SharedCache

/-- Filters that a cache can tell apart: their types are registered, their encodings have a length,
and the digest of one is not that of another. -/
structure Distinguished (r : Registry) (asked : Asked → Prop) : Prop where
  registered : ∀ a, asked a → r.get? a.docType.name = some a.docType
  sized : ∀ a, asked a → a.filter.encode.length < 2 ^ 64
  digests : ∀ a b, asked a → asked b →
    Sha256.digest a.filter.encode = Sha256.digest b.filter.encode → a.filter.encode = b.filter.encode

/-- A predicate is what compiling one of the filters asked for gives, under the key of the filter. -/
def Explained (r : Registry) (asked : Asked → Prop) (key : String × List UInt8) (p : Predicate) :
    Prop :=
  ∃ a, asked a ∧ keyOf a.docType a.filter = key ∧ a.filter.compile r a.docType = .ok p

variable {r : Registry} {asked : Asked → Prop} {capacity : Nat}

/-- Filters asked for that have one key compile alike. -/
theorem Distinguished.compile_eq (h : Distinguished r asked) {a b : Asked} (ha : asked a)
    (hb : asked b) (hkey : keyOf a.docType a.filter = keyOf b.docType b.filter) :
    a.filter.compile r a.docType = b.filter.compile r b.docType := by
  obtain ⟨hname, hdigest⟩ := Prod.mk.inj hkey
  have htype : a.docType = b.docType := by
    have hget := h.registered a ha
    rw [hname, h.registered b hb] at hget
    exact (Option.some.inj hget).symm
  rw [htype]
  exact Filter.compile_eq_of_encode_eq r b.docType (h.sized a ha) (h.sized b hb)
    (h.digests a b ha hb hdigest)

/-! ## One call -/

namespace PredicateCache
variable {c : PredicateCache} {a : Asked}

/-- All that is stored is explained by a filter that was asked for. -/
def Faithful (r : Registry) (asked : Asked → Prop) (c : PredicateCache) : Prop :=
  ∀ e ∈ c.entries, Explained r asked e.1 e.2

theorem faithful_empty (r : Registry) (asked : Asked → Prop) (capacity : Nat) :
    (empty capacity).Faithful r asked := by
  simp [Faithful, empty]

/-- A call answers what compiling gives, and leaves only that to be stored. -/
theorem Faithful.look (h : c.Faithful r asked) (hd : Distinguished r asked) (ha : asked a) :
    (c.look r a.docType a.filter).1.map (·.1) = a.filter.compile r a.docType ∧
      ∀ p ∈ (c.look r a.docType a.filter).2,
        0 < c.capacity ∧ Explained r asked p.key p.predicate := by
  unfold PredicateCache.look
  by_cases hcapacity : c.capacity = 0
  · rw [if_pos hcapacity]
    refine ⟨?_, by simp⟩
    cases a.filter.compile r a.docType <;> rfl
  · rw [if_neg hcapacity]
    cases hfind : c.find? (keyOf a.docType a.filter) with
    | some p =>
      obtain ⟨b, hb, hkey, hcompile⟩ := h _ (mem_of_find? hfind)
      refine ⟨?_, by simp⟩
      rw [hd.compile_eq ha hb hkey.symm, hcompile]
      rfl
    | none =>
      cases hcompile : a.filter.compile r a.docType with
      | error e => exact ⟨rfl, by simp⟩
      | ok p =>
        refine ⟨rfl, ?_⟩
        rintro _ ⟨⟩
        exact ⟨Nat.pos_of_ne_zero hcapacity, a, ha, rfl, hcompile⟩

theorem Faithful.finish (h : c.Faithful r asked) {left : Option Pending}
    (hleft : ∀ p ∈ left, Explained r asked p.key p.predicate) :
    (c.finish left).Faithful r asked := by
  cases left with
  | none => exact h
  | some p =>
    intro e he
    rcases mem_store he with rfl | he
    · exact hleft p rfl
    · exact h e he

theorem Faithful.getOrCompile (h : c.Faithful r asked) (hd : Distinguished r asked) (ha : asked a) :
    (c.getOrCompile r a.docType a.filter).1.map (·.1) = a.filter.compile r a.docType ∧
      (c.getOrCompile r a.docType a.filter).2.Faithful r asked := by
  obtain ⟨hanswer, hleft⟩ := h.look hd ha
  rw [getOrCompile_eq]
  exact ⟨hanswer, h.finish fun p hp => (hleft p hp).2⟩

end PredicateCache

/-! ## Runs -/

namespace SharedCache

/-- What holds of a shared cache whatever its callers have done. -/
structure Sound (r : Registry) (asked : Asked → Prop) (capacity : Nat) (s : SharedCache) : Prop where
  bound : s.cache.capacity = capacity
  size : s.cache.size ≤ capacity
  faithful : s.cache.Faithful r asked
  waiting : ∀ p ∈ s.waiting, 0 < capacity ∧ Explained r asked p.key p.predicate

variable {s : SharedCache}

theorem sound_start (r : Registry) (asked : Asked → Prop) (capacity : Nat) :
    (start capacity).Sound r asked capacity where
  bound := rfl
  size := Nat.zero_le _
  faithful := faithful_empty r asked capacity
  waiting := by simp [start]

/-- Storing what one of the filters asked for compiles to keeps the invariant. -/
theorem Sound.finish (h : s.Sound r asked capacity) {left : Option Pending}
    (hleft : ∀ p ∈ left, 0 < capacity ∧ Explained r asked p.key p.predicate) :
    ({ s with cache := s.cache.finish left } : SharedCache).Sound r asked capacity := by
  have hfaithful := h.faithful.finish fun p hp => (hleft p hp).2
  cases left with
  | none => exact h
  | some p =>
    have hroom : 0 < s.cache.capacity := h.bound.symm ▸ (hleft p rfl).1
    exact ⟨h.bound, h.bound ▸ size_store_le s.cache p.key p.predicate hroom, hfaithful, h.waiting⟩

/-- Every move keeps the invariant, and a move that asks is answered with what compiling gives. -/
theorem Sound.step (h : s.Sound r asked capacity) (hd : Distinguished r asked) {move : CacheMove}
    (hmove : ∀ a ∈ move.asked?, asked a) :
    (s.step r move).Sound r asked capacity ∧
      (s.step r move).predicates =
        s.predicates ++ move.asked?.toList.map fun a => (a, a.filter.compile r a.docType) := by
  cases move with
  | call a =>
    obtain ⟨hanswer, hleft⟩ := h.faithful.look hd (hmove a rfl)
    rw [h.bound] at hleft
    have hsound := h.finish hleft
    simp only [SharedCache.step, getOrCompile_eq]
    refine ⟨⟨hsound.bound, hsound.size, hsound.faithful, hsound.waiting⟩, ?_⟩
    simp [predicates, CacheMove.asked?, hanswer]
  | look a =>
    obtain ⟨hanswer, hleft⟩ := h.faithful.look hd (hmove a rfl)
    rw [h.bound] at hleft
    refine ⟨⟨h.bound, h.size, h.faithful, fun p hp => ?_⟩, ?_⟩
    · rcases List.mem_append.1 hp with hp | hp
      · exact h.waiting p hp
      · exact hleft p (Option.mem_toList.1 hp)
    · simp [predicates, SharedCache.step, CacheMove.asked?, hanswer]
  | store n =>
    have hwaiting : ∀ p ∈ s.waiting[n]?, 0 < capacity ∧ Explained r asked p.key p.predicate :=
      fun p hp => h.waiting p (List.mem_of_getElem? hp)
    have hsound := h.finish hwaiting
    refine ⟨⟨hsound.bound, hsound.size, hsound.faithful, fun q hq => ?_⟩, ?_⟩
    · exact h.waiting q (List.mem_of_mem_eraseIdx hq)
    · simp [predicates, SharedCache.step, CacheMove.asked?]
  | clear =>
    have hempty := faithful_empty r asked s.cache.capacity
    refine ⟨⟨h.bound, Nat.zero_le _, hempty, h.waiting⟩, ?_⟩
    simp [predicates, SharedCache.step, CacheMove.asked?]

theorem Sound.run (h : s.Sound r asked capacity) (hd : Distinguished r asked)
    {moves : List CacheMove} (hmoves : ∀ a ∈ moves.filterMap CacheMove.asked?, asked a) :
    (s.run r moves).Sound r asked capacity ∧
      (s.run r moves).predicates =
        s.predicates ++
          (moves.filterMap CacheMove.asked?).map fun a => (a, a.filter.compile r a.docType) := by
  induction moves generalizing s with
  | nil => exact ⟨h, by simp [SharedCache.run]⟩
  | cons move moves ih =>
    have hall : (move :: moves).filterMap CacheMove.asked? =
        move.asked?.toList ++ moves.filterMap CacheMove.asked? := by
      cases hmove : move.asked? <;> simp [hmove]
    rw [hall] at hmoves ⊢
    obtain ⟨hstep, hanswers⟩ := h.step hd fun a ha =>
      hmoves a (List.mem_append_left _ (Option.mem_toList.2 ha))
    obtain ⟨hrun, hrest⟩ := ih hstep fun a ha => hmoves a (List.mem_append_right _ ha)
    refine ⟨hrun, ?_⟩
    change ((s.step r move).run r moves).predicates = _
    rw [hrest, hanswers, List.map_append, List.append_assoc]

/-- Callers share a cache of any capacity and make any moves. Every call answers what compiling its
filter on its type gives, be it a predicate or an error, and the cache holds at most as many
predicates as its capacity allows. -/
theorem invisible_and_bounded {types : List DocumentType} (hr : Registry.build types = .ok r)
    (capacity : Nat) (moves : List CacheMove)
    (hregistered : ∀ a ∈ moves.filterMap CacheMove.asked?, ∃ name, r.get? name = some a.docType)
    (hsized : ∀ a ∈ moves.filterMap CacheMove.asked?, a.filter.encode.length < 2 ^ 64)
    (hdigests : ∀ a ∈ moves.filterMap CacheMove.asked?, ∀ b ∈ moves.filterMap CacheMove.asked?,
      Sha256.digest a.filter.encode = Sha256.digest b.filter.encode →
        a.filter.encode = b.filter.encode) :
    ((start capacity).run r moves).predicates =
        (moves.filterMap CacheMove.asked?).map (fun a => (a, a.filter.compile r a.docType)) ∧
      ((start capacity).run r moves).cache.size ≤ capacity := by
  have hdistinguished : Distinguished r (· ∈ moves.filterMap CacheMove.asked?) := by
    refine ⟨fun a ha => ?_, hsized, fun a b ha hb => hdigests a ha b hb⟩
    obtain ⟨name, hname⟩ := hregistered a ha
    rw [Registry.name_of_build hr hname, hname]
  obtain ⟨hsound, hanswers⟩ := (sound_start r _ capacity).run hdistinguished fun a ha => ha
  exact ⟨hanswers, hsound.size⟩

/-- A filter on articles with an author, with the author as far as the caller has it. -/
def authored (fields : Entries Value) : Asked :=
  ⟨Blog.article.withSystemAttributes,
    .leaf "author" .notNull (.doc ⟨"author", "x", none, fields⟩)⟩

def titled : Asked := ⟨Blog.article.withSystemAttributes, .leaf "title" .eq (.text "x")⟩

/-- A caller looks a filter up and waits while another one stores its own; then the first one stores,
in place of the other, and a third one finds it there under a filter that differs in the fields of its
author. -/
def overlapping : List CacheMove :=
  [.look (authored []), .call titled, .store 0, .call (authored [("name", .text "N")]), .clear,
    .call titled]

theorem invisible_and_bounded_blog :
    (overlapping.filterMap CacheMove.asked? =
        [authored [], titled, authored [("name", .text "N")], titled]) ∧
      ((start 1).run Blog.registry overlapping).answers.map (fun e => e.2.toOption.map (·.2)) =
        [some false, some false, some true, some false] ∧
      ((start 1).run Blog.registry overlapping).predicates =
        [authored [], titled, authored [("name", .text "N")], titled].map
          (fun a => (a, a.filter.compile Blog.registry a.docType)) ∧
      ((start 1).run Blog.registry overlapping).cache.size ≤ 1 := by
  have hasked : overlapping.filterMap CacheMove.asked? =
      [authored [], titled, authored [("name", .text "N")], titled] := rfl
  have hregistered : ∀ a ∈ overlapping.filterMap CacheMove.asked?,
      ∃ name, Blog.registry.get? name = some a.docType := by
    rw [hasked]
    simp only [List.forall_mem_cons, List.not_mem_nil, false_implies, implies_true, and_true]
    exact ⟨⟨"article", rfl⟩, ⟨"article", rfl⟩, ⟨"article", rfl⟩, ⟨"article", rfl⟩⟩
  have hsized : ∀ a ∈ overlapping.filterMap CacheMove.asked?, a.filter.encode.length < 2 ^ 64 := by
    decide +kernel
  have hdigests : ∀ a ∈ overlapping.filterMap CacheMove.asked?,
      ∀ b ∈ overlapping.filterMap CacheMove.asked?,
        Sha256.digest a.filter.encode = Sha256.digest b.filter.encode →
          a.filter.encode = b.filter.encode := by
    decide +kernel
  refine ⟨hasked, by decide +kernel, ?_⟩
  exact invisible_and_bounded Blog.build_types 1 overlapping hregistered hsized hdigests

end SharedCache
end ContentEngine
