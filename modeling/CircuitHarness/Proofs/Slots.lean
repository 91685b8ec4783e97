import CircuitHarness.Proofs.Offered
import CircuitHarness.Scenario.Shelf

/-! A cache beside the plain slots that it stands for, one for each circuit kind, which is empty or holds a value; nothing is
a value, too. What the cache has besides is a validity flag, and it is left and entered again while a builder runs. -/
namespace CircuitHarness

theorem Value.ofOption_stored (v : Value) : Value.ofOption (Shelf.stored v) = v := by
  cases v <;> rfl

theorem Shelf.stored_of_ne {v : Value} (h : v ≠ .none) : stored v = some v := by
  cases v <;> first | rfl | exact absurd rfl h

namespace Builder

def answer : Builder → Except Failure Value
  | .value v | .invalidating v => .ok v
  | .fail f => .error f

def drops : Builder → Bool
  | .invalidating _ => true
  | .value _ | .fail _ => false

end Builder

namespace Shelf

inductive Request where
  | get (k : CircuitKind)
  | put (k : CircuitKind) (v : Value)
  | getOrBuild (k : CircuitKind) (b : Builder)
  | invalidate
  | clearStats

def Request.looks? : Request → Option CircuitKind
  | .get k | .getOrBuild k _ => some k
  | .put _ _ | .invalidate | .clearStats => none

def perform : Request → Action Shelf Value
  | .get k => get k
  | .put k v => do
    put k v
    return .none
  | .getOrBuild k b => getOrBuild b k
  | .invalidate => do
    onCache Cache.invalidate
    return .none
  | .clearStats => do
    onCache Cache.clearStats
    return .none

def after (s : Shelf) (r : Request) : Shelf := (perform r s).state

def afterAll (rs : List Request) (s : Shelf) : Shelf := rs.foldl after s

def looked (k : CircuitKind) (s : Shelf) : Shelf := { s with cache := s.cache.counted k }

def filled (k : CircuitKind) (v : Value) (s : Shelf) : Shelf :=
  { s with cache := { s.cache.fill (stored v) k with valid := true } }

def dropped (s : Shelf) : Shelf :=
  { s with cache := { s.cache with
      pureSlot := none
      impureSlot := none
      valid := false
      generation := s.cache.generation+1 } }

def built (b : Builder) (s : Shelf) : Shelf :=
  let t := { s with builds := s.builds+1 }
  if b.drops then t.dropped else t

theorem build_eq (b : Builder) (s : Shelf) :
    (build b s).result = b.answer.map stored ∧ (build b s).state = s.built b := by
  cases b <;> exact ⟨rfl, rfl⟩

theorem get_eq (k : CircuitKind) (s : Shelf) :
    (get k s).result = .ok (.ofOption (s.cache.ready k)) ∧ (get k s).state = s.looked k := by
  simp [get, onCache, looked, Action.bind_result, Action.bind_state, Cache.lookup_result, Cache.lookup_state]

theorem put_eq (k : CircuitKind) (v : Value) (s : Shelf) :
    (put k v s).result = .ok () ∧ (put k v s).state = s.filled k v := by
  simp [put, onCache, filled, Cache.put_result, Cache.put_state]

theorem getOrBuild_eq (b : Builder) (k : CircuitKind) (s : Shelf) :
    (getOrBuild b k s).result = (match s.cache.ready k with
      | some v => .ok v
      | none => b.answer) ∧
    (getOrBuild b k s).state = match s.cache.ready k, b.answer with
      | some _, _ => s.looked k
      | none, .ok v => ((s.looked k).built b).filled k v
      | none, .error _ => (s.looked k).built b := by
  obtain ⟨hr, hs⟩ := build_eq b (s.looked k)
  simp only [getOrBuild, Action.bind_result, Action.bind_state, Action.pure_result, Action.pure_state]
  cases h : s.cache.ready k with
  | some v =>
    obtain ⟨hresult, hstate⟩ := Cache.getOrBuild_of_ready Shelf.cache (fun c s => { s with cache := c }) (build b) h
    rw [hresult, hstate]
    exact ⟨rfl, rfl⟩
  | none =>
    cases ha : b.answer with
    | ok v =>
      rw [ha] at hr
      obtain ⟨hresult, hstate⟩ :=
        Cache.getOrBuild_of_built Shelf.cache (fun c s => { s with cache := c }) (build b) h hr
      rw [hresult, hstate]
      change _ = _ ∧ (build b (s.looked k)).state.filled k v = _
      rw [hs]
      exact ⟨congrArg Except.ok (Value.ofOption_stored v), rfl⟩
    | error f =>
      rw [ha] at hr
      obtain ⟨hresult, hstate⟩ :=
        Cache.getOrBuild_of_failed Shelf.cache (fun c s => { s with cache := c }) (build b) h hr
      rw [hresult, hstate]
      exact ⟨rfl, hs⟩

end Shelf

/-- A slot for each kind, and counts of what was done. `lookups` and `hits` are those since they were last cleared. -/
structure Slots where
  held : CircuitKind → Option Value
  invalidations : Nat
  lookups : Nat
  hits : Nat
  builds : Nat

namespace Slots

def start : Slots := ⟨fun _ => none, 0, 0, 0, 0⟩

def look (k : CircuitKind) (p : Slots) : Slots :=
  { p with
    lookups := p.lookups+1
    hits := p.hits + if (p.held k).isSome then 1 else 0 }

def store (k : CircuitKind) (v : Value) (p : Slots) : Slots :=
  { p with held := fun j => if j = k then some v else p.held j }

def drop (p : Slots) : Slots :=
  { p with
    held := fun _ => none
    invalidations := p.invalidations+1 }

def build (b : Builder) (p : Slots) : Slots :=
  let q := { p with builds := p.builds+1 }
  if b.drops then q.drop else q

def ready (p : Slots) (k : CircuitKind) : Option Value := (p.held k).bind Shelf.stored

def answer (p : Slots) : Shelf.Request → Except Failure Value
  | .get k => .ok ((p.held k).getD .none)
  | .getOrBuild k b =>
    match p.ready k with
    | some v => .ok v
    | none => b.answer
  | .put _ _ | .invalidate | .clearStats => .ok .none

def after (p : Slots) : Shelf.Request → Slots
  | .get k => p.look k
  | .put k v => p.store k v
  | .getOrBuild k b =>
    match p.ready k, b.answer with
    | some _, _ => p.look k
    | none, .ok v => ((p.look k).build b).store k v
    | none, .error _ => (p.look k).build b
  | .invalidate => p.drop
  | .clearStats => { p with lookups := 0, hits := 0 }

def afterAll (rs : List Shelf.Request) (p : Slots) : Slots := rs.foldl after p

theorem ready_eq_some_iff (p : Slots) (k : CircuitKind) (v : Value) :
    p.ready k = some v ↔ p.held k = some v ∧ v ≠ .none := by
  rw [ready]
  cases p.held k with
  | none => simp
  | some w =>
    by_cases hw : w = .none
    · subst hw
      simp +contextual [Shelf.stored, eq_comm]
    · have hvw : w = v → v ≠ .none := fun h => h ▸ hw
      simpa [Shelf.stored_of_ne hw] using hvw

theorem build_counts (b : Builder) (p : Slots) : (p.build b).lookups = p.lookups ∧ (p.build b).hits = p.hits := by
  rw [build]
  split <;> exact ⟨rfl, rfl⟩

theorem after_counts (p : Slots) {r : Shelf.Request} {k : CircuitKind} (h : r.looks? = some k) :
    (p.after r).lookups = (p.look k).lookups ∧ (p.after r).hits = (p.look k).hits := by
  cases r with
  | get j =>
    cases h
    exact ⟨rfl, rfl⟩
  | getOrBuild j b =>
    cases h
    rw [after]
    split
    · exact ⟨rfl, rfl⟩
    · exact build_counts b (p.look k)
    · exact build_counts b (p.look k)
  | put j v => cases h
  | invalidate => cases h
  | clearStats => cases h

theorem after_held (p : Slots) {k : CircuitKind} {b : Builder} {v : Value}
    (h : p.answer (.getOrBuild k b) = .ok v) : (p.after (.getOrBuild k b)).held k = some v := by
  rw [answer] at h
  rw [after]
  cases hr : p.ready k with
  | none =>
    rw [hr] at h
    dsimp only at h
    rw [h]
    simp [store]
  | some w =>
    rw [hr] at h
    cases h
    exact ((p.ready_eq_some_iff k v).mp hr).1

end Slots

namespace Shelf

/-- The shelf stands for these slots. -/
structure Holds (s : Shelf) (p : Slots) : Prop where
  slot (k : CircuitKind) : s.cache.slot k = (p.held k).map stored
  valid : s.cache.valid = true ↔ ∃ k, (p.held k).isSome
  generation : s.cache.generation = p.invalidations
  hits : s.cache.hits = p.hits
  lookups : s.cache.hits+s.cache.misses = p.lookups
  builds : s.builds = p.builds

theorem holds_start : Holds start .start where
  slot k := by cases k <;> rfl
  valid := by simp [start, Cache.empty, Slots.start]
  generation := rfl
  hits := rfl
  lookups := rfl
  builds := rfl

section
variable {s : Shelf} {p : Slots} (h : s.Holds p)
include h

theorem Holds.live (k : CircuitKind) : s.cache.live k = (p.held k).map stored := by
  rw [Cache.live, h.slot]
  cases hk : p.held k with
  | some v => rw [if_pos (h.valid.mpr ⟨k, by rw [hk]; rfl⟩)]
  | none => exact ite_self none

theorem Holds.ready (k : CircuitKind) : s.cache.ready k = p.ready k := by
  rw [Cache.ready, h.live, Slots.ready]
  cases p.held k <;> rfl

theorem Holds.looked_cache (k : CircuitKind) : (s.looked k).cache =
    if (p.held k).isSome then { s.cache with hits := s.cache.hits+1 }
    else { s.cache with misses := s.cache.misses+1 } := by
  rw [looked, Cache.counted, h.live, Option.isSome_map]

theorem Holds.look (k : CircuitKind) : (s.looked k).Holds (p.look k) where
  slot j := by
    rw [looked, Cache.slot_counted]
    exact h.slot j
  valid := by
    rw [looked, Cache.valid_counted]
    exact h.valid
  generation := by
    rw [h.looked_cache]
    split <;> exact h.generation
  hits := by
    have hits := h.hits
    rw [h.looked_cache, Slots.look]
    split <;> simpa using hits
  lookups := by
    have lookups := h.lookups
    rw [h.looked_cache, Slots.look]
    split <;> simp only <;> omega
  builds := h.builds

theorem Holds.store (k : CircuitKind) (v : Value) : (s.filled k v).Holds (p.store k v) where
  slot j := by
    have hs : (s.filled k v).cache.slot j = (s.cache.fill (stored v) k).slot j := by cases j <;> rfl
    rw [hs, Cache.slot_fill, h.slot, Slots.store]
    by_cases hj : j = k
    · simp [hj]
    · simp [hj]
  valid := by
    refine ⟨fun _ => ⟨k, ?_⟩, fun _ => rfl⟩
    simp [Slots.store]
  generation := by
    cases k <;> exact h.generation
  hits := by
    cases k <;> exact h.hits
  lookups := by
    cases k <;> exact h.lookups
  builds := h.builds

theorem Holds.drop : s.dropped.Holds p.drop where
  slot j := by
    cases j <;> rfl
  valid := by
    simp [dropped, Slots.drop]
  generation := congrArg (·+1) h.generation
  hits := h.hits
  lookups := h.lookups
  builds := h.builds

theorem Holds.build (b : Builder) : (s.built b).Holds (p.build b) := by
  have hb : Holds { s with builds := s.builds+1 } { p with builds := p.builds+1 } :=
    ⟨h.slot, h.valid, h.generation, h.hits, h.lookups, congrArg (·+1) h.builds⟩
  rw [built, Slots.build]
  split
  · exact hb.drop
  · exact hb

/-- Any request is answered as the slots answer it, and leaves a shelf that stands for them again. -/
theorem Holds.after (r : Request) : (perform r s).result = p.answer r ∧ (s.after r).Holds (p.after r) := by
  rw [Shelf.after]
  cases r with
  | get k =>
    obtain ⟨hresult, hstate⟩ := get_eq k s
    rw [perform, hresult, hstate, h.ready]
    refine ⟨?_, h.look k⟩
    rw [Slots.ready, Slots.answer]
    cases p.held k with
    | none => rfl
    | some v => exact congrArg Except.ok (Value.ofOption_stored v)
  | put k v =>
    obtain ⟨hresult, hstate⟩ := put_eq k v s
    simp only [perform, Action.bind_result, Action.bind_state, hresult, hstate]
    exact ⟨rfl, h.store k v⟩
  | getOrBuild k b =>
    obtain ⟨hresult, hstate⟩ := getOrBuild_eq b k s
    rw [perform, hresult, hstate, h.ready, Slots.answer, Slots.after]
    refine ⟨rfl, ?_⟩
    cases p.ready k with
    | some v => exact h.look k
    | none =>
      cases b.answer with
      | ok v => exact ((h.look k).build b).store k v
      | error f => exact (h.look k).build b
  | invalidate => exact ⟨rfl, h.drop⟩
  | clearStats => exact ⟨rfl, h.slot, h.valid, h.generation, rfl, rfl, h.builds⟩

theorem Holds.afterAll (rs : List Request) : (afterAll rs s).Holds (p.afterAll rs) := by
  induction rs generalizing s p with
  | nil => exact h
  | cons r rs ih => exact ih (h.after r).2

theorem Holds.counts {r : Request} {k : CircuitKind} (hr : r.looks? = some k) :
    (s.after r).cache.hits = s.cache.hits+(if (s.cache.slot k).isSome then 1 else 0) ∧
      (s.after r).cache.misses = s.cache.misses+(if (s.cache.slot k).isSome then 0 else 1) := by
  obtain ⟨hlookups, hhits⟩ := p.after_counts hr
  have hs := h.lookups
  have ht := (h.after r).2.lookups
  have hits := h.hits
  have hits' := (h.after r).2.hits
  rw [hhits, Slots.look] at hits'
  rw [hlookups, Slots.look] at ht
  rw [h.slot, Option.isSome_map]
  by_cases hk : (p.held k).isSome <;> simp [hk] at hits' ht ⊢ <;> omega

theorem Holds.failed {k : CircuitKind} (f : Failure) (hk : p.ready k = none) :
    s.after (.getOrBuild k (.fail f)) = ⟨(s.looked k).cache, s.builds+1⟩ := by
  rw [Shelf.after, perform, (getOrBuild_eq (.fail f) k s).2, h.ready, hk]
  rfl

end

/-- Whatever is asked of a new cache, one thing after another, it stands for plain slots and answers as they do: it is
valid exactly if an entry is filled, its generation counts the invalidations, its hits and misses together the lookups. A
lookup is a hit exactly if the entry of its kind is filled, and hands out what is held there; a builder is let in only if
that is nothing, and what it answers is held from then on. If it fails, everything is as before but for one miss, or for one
hit where a nothing is held. -/
theorem cache_keeps_plain_slots (rs : List Request) :
    let s := afterAll rs start
    let p := Slots.start.afterAll rs
    s.Holds p ∧ (s.cache.valid = true ↔ ∃ k, (s.cache.slot k).isSome) ∧
    (∀ r, (perform r s).result = p.answer r ∧ (s.after r).Holds (p.after r)) ∧
    ∀ k,
      (∀ r : Request, r.looks? = some k →
        (s.after r).cache.hits = s.cache.hits+(if (s.cache.slot k).isSome then 1 else 0) ∧
        (s.after r).cache.misses = s.cache.misses+(if (s.cache.slot k).isSome then 0 else 1)) ∧
      (∀ v, p.held k = some v → (perform (.get k) s).result = .ok v ∧
        ∀ b, v ≠ .none → (perform (.getOrBuild k b) s).result = .ok v ∧ (s.after (.getOrBuild k b)).builds = s.builds) ∧
      (∀ b v, (perform (.getOrBuild k b) s).result = .ok v → (p.after (.getOrBuild k b)).held k = some v) ∧
      ∀ f,
        (p.held k = none → s.after (.getOrBuild k (.fail f)) =
          ⟨{ s.cache with misses := s.cache.misses+1 }, s.builds+1⟩) ∧
        (p.held k = some .none → s.after (.getOrBuild k (.fail f)) =
          ⟨{ s.cache with hits := s.cache.hits+1 }, s.builds+1⟩) := by
  intro s p
  have h : s.Holds p := holds_start.afterAll rs
  refine ⟨h, ?_, h.after, fun k => ⟨fun r hr => h.counts hr, fun v hv => ?_, fun b v hb => ?_, fun f => ?_⟩⟩
  · simp only [h.valid, h.slot, Option.isSome_map]
  · refine ⟨by rw [(h.after _).1, Slots.answer, hv]; rfl, fun b hne => ?_⟩
    have hready : p.ready k = some v := (p.ready_eq_some_iff k v).mpr ⟨hv, hne⟩
    refine ⟨by rw [(h.after _).1, Slots.answer, hready], ?_⟩
    rw [Shelf.after, perform, (getOrBuild_eq b k s).2, h.ready, hready]
    rfl
  · exact p.after_held ((h.after _).1.symm.trans hb)
  · refine ⟨fun hk => ?_, fun hk => ?_⟩
    · rw [h.failed f (by rw [Slots.ready, hk]; rfl), h.looked_cache, hk]
      rfl
    · rw [h.failed f (by rw [Slots.ready, hk]; rfl), h.looked_cache, hk]
      rfl

theorem failing_over_nothing :
    let s := afterAll [.put .pure .none, .getOrBuild .impure (.invalidating (.int 5)), .put .pure .none] start
    (perform (.get .impure) s).result = .ok (.int 5) ∧
      s.after (.getOrBuild .pure (.fail (.runtime "no"))) = ⟨⟨some none, some (some (.int 5)), true, 1, 1, 1⟩, 2⟩ := by
  obtain ⟨-, -, -, h⟩ :=
    cache_keeps_plain_slots [.put .pure .none, .getOrBuild .impure (.invalidating (.int 5)), .put .pure .none]
  obtain ⟨-, hget, -, -⟩ := h .impure
  obtain ⟨-, -, -, hfail⟩ := h .pure
  exact ⟨(hget (.int 5) rfl).1, (hfail (.runtime "no")).2 rfl⟩

end Shelf
end CircuitHarness
