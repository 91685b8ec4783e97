import CircuitHarness.Proofs.Keeping
import CircuitHarness.Proofs.Offered

/-! What becomes of a value when the cache is invalidated while it is being built: it is stored all the same. Beside a
cache a watch is kept on when the building of its values began; whatever is stored in it or handed out by it is of the
current generation, but for the values that met an invalidation on the way. -/
namespace CircuitHarness
namespace Cache
variable {α β : Type}

/-- What can be done with a cache, one thing after another. Builders use the cache, too, for as long as they build. -/
inductive Use (α : Type) where
  | done (v : Option α)
  | fail (f : Failure)
  | get (k : CircuitKind) (next : Option α → Use α)
  | getOrBuild (k : CircuitKind) (builder : Use α) (next : Except Failure (Option α) → Use α)
  | invalidate (next : Use α)
  | clearStats (next : Use α)

def Use.run : Use α → Action (Cache α) (Option α)
  | .done v => return v
  | .fail f => Action.fail f
  | .get k next => do (next (← lookup k)).run
  | .getOrBuild k builder next => do
    let answer ← Action.attempt (Cache.getOrBuild id (fun c _ => c) builder.run k)
    (next answer).run
  | .invalidate next => do
    Cache.invalidate
    next.run
  | .clearStats next => do
    Cache.clearStats
    next.run

/-- The generation in which the building of a value began, and how many invalidations it met until it was done. -/
structure Birth where
  generation : Nat
  met : Nat
deriving DecidableEq

/-- A value that a hit handed out or, otherwise, that was stored, and the generation at that time. -/
structure Sighting (α : Type) where
  hit : Bool
  kind : CircuitKind
  value : Option α
  birth : Birth
  generation : Nat

def Sighting.Current (x : Sighting α) : Prop := x.birth.generation = x.generation

/-- `births` are those of the values stored last, and the latest sighting comes first. -/
structure Watched (α : Type) where
  cache : Cache α
  births : CircuitKind → Birth
  invalidations : Nat
  log : List (Sighting α)

namespace Watched

def start : Watched α := ⟨.empty, fun _ => ⟨0, 0⟩, 0, []⟩

def setCache (c : Cache α) (w : Watched α) : Watched α := { w with cache := c }

def onCache (x : Action (Cache α) β) : Action (Watched α) β := x.within cache setCache

def sight (k : CircuitKind) (w : Watched α) : Watched α :=
  match w.cache.live k with
  | some v => { w with log := ⟨true, k, v, w.births k, w.cache.generation⟩ :: w.log }
  | none => w

def bear (k : CircuitKind) (v : Option α) (b : Birth) (w : Watched α) : Watched α :=
  { w with
    births := fun j => if j = k then b else w.births j
    log := ⟨false, k, v, b, w.cache.generation⟩ :: w.log }

def invalidate : Action (Watched α) Unit := do
  onCache Cache.invalidate
  Action.update fun w => { w with invalidations := w.invalidations+1 }

def building (k : CircuitKind) (x : Action (Watched α) (Option α)) : Action (Watched α) (Option α) := do
  let before ← Action.read
  let v ← x
  Action.update fun w => w.bear k v ⟨before.cache.generation, w.invalidations-before.invalidations⟩
  return v

end Watched

def Use.watch : Use α → Action (Watched α) (Option α)
  | .done v => return v
  | .fail f => Action.fail f
  | .get k next => do
    Action.update (Watched.sight k)
    (next (← Watched.onCache (lookup k))).watch
  | .getOrBuild k builder next => do
    Action.update (Watched.sight k)
    let answer ← Action.attempt (Cache.getOrBuild Watched.cache Watched.setCache
      (Watched.building k builder.watch) k)
    (next answer).watch
  | .invalidate next => do
    Watched.invalidate
    next.watch
  | .clearStats next => do
    Watched.onCache Cache.clearStats
    next.watch

def Use.InvalidatesIf (A B : Prop) : Use α → Prop
  | .done _ | .fail _ => True
  | .get _ next => ∀ v, (next v).InvalidatesIf A B
  | .getOrBuild _ builder next => builder.InvalidatesIf B B ∧ ∀ answer, (next answer).InvalidatesIf A B
  | .invalidate next => A ∧ next.InvalidatesIf A B
  | .clearStats next => next.InvalidatesIf A B

/-- No builder invalidates the cache, and nothing that a builder builds on the way does. -/
def Use.Calm (p : Use α) : Prop := p.InvalidatesIf True False

theorem Use.invalidatesIf_true (p : Use α) : p.InvalidatesIf True True := by
  induction p with
  | done v => trivial
  | fail f => trivial
  | get k next ih => exact ih
  | getOrBuild k builder next ihb ih => exact ⟨ihb, ih⟩
  | invalidate next ih => exact ⟨trivial, ih⟩
  | clearStats next ih => exact ih

namespace Watched
open CircuitHarness.Action (Relates)

def Follows (w : Watched α) (c : Cache α) : Prop := w.cache = c

theorem follows_onCache (x : Action (Cache α) β) : Relates Follows Follows Eq (onCache x) x := by
  rintro w _ rfl
  exact ⟨.of_eq _, rfl⟩

theorem follows_after {f : Watched α → Watched α} (hf : ∀ w, (f w).cache = w.cache) {x : Action (Watched α) β}
    {y : Action (Cache α) β} (h : Relates Follows Follows Eq x y) :
    Relates Follows Follows Eq (Action.update f >>= fun _ => x) y := by
  intro w c hwc
  rw [Action.bind_result, Action.bind_state]
  exact h (f w) c ((hf w).trans hwc)

theorem sight_cache (k : CircuitKind) (w : Watched α) : (w.sight k).cache = w.cache := by
  rw [sight]
  cases w.cache.live k <;> rfl

theorem building_eq (k : CircuitKind) (x : Action (Watched α) (Option α)) (w : Watched α) :
    (building k x w).result = (x w).result ∧
      (building k x w).state =
        match (x w).result with
        | .ok v => (x w).state.bear k v ⟨w.cache.generation, (x w).state.invalidations-w.invalidations⟩
        | .error _ => (x w).state := by
  simp only [building, Action.bind_result, Action.bind_state, Action.read_result, Action.read_state,
    Action.update_result, Action.update_state, Action.pure_result, Action.pure_state]
  cases (x w).result <;> exact ⟨rfl, rfl⟩

theorem follows_building (k : CircuitKind) {x : Action (Watched α) (Option α)} {y : Action (Cache α) (Option α)}
    (h : Relates Follows Follows Eq x y) : Relates Follows Follows Eq (building k x) y := by
  intro w c hwc
  obtain ⟨hr, hs⟩ := h w c hwc
  obtain ⟨hresult, hstate⟩ := building_eq k x w
  rw [hresult, hstate]
  refine ⟨hr, ?_⟩
  cases (x w).result <;> exact hs

theorem follows_watch (p : Use α) : Relates Follows Follows Eq p.watch p.run := by
  induction p with
  | done v => exact .pure rfl
  | fail f => exact .fail f
  | get k next ih =>
    exact follows_after (sight_cache k) ((follows_onCache (lookup k)).bind_eq ih)
  | getOrBuild k builder next ihb ih =>
    refine follows_after (sight_cache k) (Relates.attempt ?_ |>.bind_eq ih)
    refine (follows_onCache (lookup k)).bind_eq fun found => ?_
    cases found with
    | some v => exact .pure rfl
    | none => exact (follows_building k ihb).bind_eq fun v => (follows_onCache (put k v)).bind_eq fun _ => .pure rfl
  | invalidate next ih =>
    refine Relates.bind_eq ?_ fun _ => ih
    rintro w _ rfl
    exact ⟨.ok rfl, rfl⟩
  | clearStats next ih => exact (follows_onCache Cache.clearStats).bind_eq fun _ => ih

structure Rises (A : Prop) (w v : Watched α) : Prop where
  le : w.invalidations ≤ v.invalidations
  none : ¬A → v.invalidations = w.invalidations

instance (A : Prop) : Std.Refl (Rises A : Watched α → Watched α → Prop) := ⟨fun _ => ⟨Nat.le_refl _, fun _ => rfl⟩⟩
instance (A : Prop) : Trans (Rises A : Watched α → Watched α → Prop) (Rises A) (Rises A) :=
  ⟨fun h g => ⟨Nat.le_trans h.le g.le, fun hA => (g.none hA).trans (h.none hA)⟩⟩

def Stored (w : Watched α) (k : CircuitKind) (v : Option α) (b : Birth) : Prop :=
  ∃ x ∈ w.log, x.hit = false ∧ x.kind = k ∧ x.value = v ∧ x.birth = b

/-- What a slot holds was stored there, and nothing has been invalidated since it was done. -/
structure Born (w : Watched α) (k : CircuitKind) (v : Option α) (b : Birth) : Prop where
  age : b.generation+b.met = w.cache.generation
  stored : w.Stored k v b

/-- What holds of a cache under watch at all times, if builders invalidate only if `B`. -/
structure Kept (B : Prop) (w : Watched α) : Prop where
  count : w.cache.generation = w.invalidations
  slots : ∀ k v, w.cache.slot k = some v → w.Born k v (w.births k)
  age : ∀ x ∈ w.log, x.birth.generation+x.birth.met = x.generation
  stored : ∀ x ∈ w.log, w.Stored x.kind x.value x.birth
  calm : ¬B → ∀ x ∈ w.log, x.birth.met = 0

section
variable {A B : Prop} {w : Watched α} {k : CircuitKind} {v : Option α} {b : Birth}

theorem kept_start (B : Prop) : (start : Watched α).Kept B where
  count := rfl
  slots k v h := by cases k <;> cases h
  age := nofun
  stored := nofun
  calm _ := nofun

theorem Kept.moved (h : w.Kept B) {c : Cache α} (hgeneration : c.generation = w.cache.generation)
    (hslot : ∀ k, c.slot k = w.cache.slot k) : (w.setCache c).Kept B where
  count := hgeneration.trans h.count
  slots k v hv := by
    obtain ⟨hage, hstored⟩ := h.slots k v ((hslot k).symm.trans hv)
    exact ⟨hage.trans hgeneration.symm, hstored⟩
  age := h.age
  stored := h.stored
  calm := h.calm

theorem Kept.counted (h : w.Kept B) (k : CircuitKind) : (w.setCache (w.cache.counted k)).Kept B := by
  refine h.moved ?_ fun j => slot_counted w.cache j k
  rw [Cache.counted]
  split <;> rfl

theorem Stored.noted (h : w.Stored k v b) {u : Watched α} {x : Sighting α} (hu : u.log = x :: w.log) : u.Stored k v b := by
  obtain ⟨y, hy, hstored⟩ := h
  refine ⟨y, ?_, hstored⟩
  rw [hu]
  exact List.mem_cons_of_mem x hy

theorem Kept.noted (h : w.Kept B) {u : Watched α} {x : Sighting α}
    (hgeneration : u.cache.generation = w.cache.generation) (hinvalidations : u.invalidations = w.invalidations)
    (hlog : u.log = x :: w.log) (hslots : ∀ k v, u.cache.slot k = some v → u.Born k v (u.births k))
    (hage : x.birth.generation+x.birth.met = x.generation) (hstored : u.Stored x.kind x.value x.birth)
    (hcalm : ¬B → x.birth.met = 0) : u.Kept B where
  count := by
    rw [hgeneration, hinvalidations]
    exact h.count
  slots := hslots
  age y hy := by
    rw [hlog] at hy
    obtain rfl | hy := List.mem_cons.mp hy
    · exact hage
    · exact h.age y hy
  stored y hy := by
    rw [hlog] at hy
    obtain rfl | hy := List.mem_cons.mp hy
    · exact hstored
    · exact (h.stored y hy).noted hlog
  calm hB y hy := by
    rw [hlog] at hy
    obtain rfl | hy := List.mem_cons.mp hy
    · exact hcalm hB
    · exact h.calm hB y hy

theorem Kept.sight (h : w.Kept B) (k : CircuitKind) : (w.sight k).Kept B := by
  rw [Watched.sight]
  cases hl : w.cache.live k with
  | none => exact h
  | some v =>
    have hslot : w.cache.slot k = some v := by
      rw [Cache.live] at hl
      split at hl
      · exact hl
      · cases hl
    obtain ⟨hage, hstored⟩ := h.slots k v hslot
    refine h.noted rfl rfl rfl (fun j u hu => ?_) hage (hstored.noted rfl) fun hB => ?_
    · exact ⟨(h.slots j u hu).age, (h.slots j u hu).stored.noted rfl⟩
    · obtain ⟨x, hx, -, -, -, hbirth⟩ := hstored
      exact hbirth ▸ h.calm hB x hx

theorem Kept.store (h : w.Kept B) (hage : b.generation+b.met = w.cache.generation) (hcalm : ¬B → b.met = 0)
    (k : CircuitKind) (v : Option α) :
    ((w.bear k v b).setCache { w.cache.fill v k with valid := true }).Kept B := by
  have hgeneration : (w.cache.fill v k).generation = w.cache.generation := by cases k <;> rfl
  refine h.noted (x := ⟨false, k, v, b, w.cache.generation⟩) hgeneration rfl rfl (fun j u hu => ?_) hage
    ⟨_, List.mem_cons_self, rfl, rfl, rfl, rfl⟩ hcalm
  have hslot : (w.cache.fill v k).slot j = some u := by
    rw [← hu]
    cases j <;> rfl
  rw [slot_fill] at hslot
  by_cases hj : j = k
  · subst hj
    rw [if_pos rfl] at hslot
    cases hslot
    have hbirth : (w.bear j v b).births j = b := if_pos rfl
    refine ⟨?_, _, List.mem_cons_self, rfl, rfl, rfl, hbirth.symm⟩
    change ((w.bear j v b).births j).generation+((w.bear j v b).births j).met = (w.cache.fill v j).generation
    rw [hbirth, hgeneration]
    exact hage
  · rw [if_neg hj] at hslot
    have hbirth : (w.bear k v b).births j = w.births j := if_neg hj
    obtain ⟨hold, hstored⟩ := h.slots j u hslot
    refine ⟨?_, ?_⟩
    · change ((w.bear k v b).births j).generation+((w.bear k v b).births j).met = (w.cache.fill v k).generation
      rw [hbirth, hgeneration]
      exact hold
    · exact hbirth ▸ hstored.noted rfl

theorem Kept.built (h : w.Kept B) {u : Watched α} (hu : u.Kept B) (hrises : Rises B w u) (k : CircuitKind) (v : Option α) :
    ((u.bear k v ⟨w.cache.generation, u.invalidations-w.invalidations⟩).setCache
      { u.cache.fill v k with valid := true }).Kept B := by
  refine hu.store ?_ (fun hB => ?_) k v
  · have hle : w.invalidations ≤ u.invalidations := hrises.le
    change w.cache.generation+(u.invalidations-w.invalidations) = u.cache.generation
    rw [hu.count, h.count]
    omega
  · rw [hrises.none hB]
    exact Nat.sub_self _

theorem Rises.weaken {u : Watched α} (h : Rises B w u) (hBA : B → A) : Rises A w u :=
  ⟨h.le, fun hA => h.none fun hB => hA (hBA hB)⟩

theorem ends_sight (h : w.Kept B) (k : CircuitKind) :
    Ends (Rises A) (Kept B) (fun _ _ => True) w (Action.update (sight k) w) := by
  refine ⟨h.sight k, ?_, fun _ _ => trivial⟩
  change Rises A w (w.sight k)
  rw [Watched.sight]
  cases w.cache.live k <;> exact ⟨Nat.le_refl _, fun _ => rfl⟩

theorem ends_lookup (h : w.Kept B) (k : CircuitKind) :
    Ends (Rises A) (Kept B) (fun _ _ => True) w (onCache (lookup k) w) := by
  have hstate : (onCache (lookup k) w).state = w.setCache (w.cache.counted k) :=
    congrArg (fun c => w.setCache c) (lookup_state k w.cache)
  refine ⟨?_, ?_, fun _ _ => trivial⟩
  · rw [hstate]
    exact h.counted k
  · exact ⟨Nat.le_refl _, fun _ => rfl⟩

theorem ends_invalidate (hA : A) (h : w.Kept B) :
    Ends (Rises A) (Kept B) (fun _ _ => True) w (Watched.invalidate w) where
  keeps :=
    { count := congrArg (·+1) h.count
      slots := fun j u hu => by cases j <;> cases hu
      age := h.age
      stored := h.stored
      calm := h.calm }
  rises := ⟨Nat.le_succ _, fun hno => absurd hA hno⟩
  answer _ _ := trivial

theorem ends_clearStats (h : w.Kept B) :
    Ends (Rises A) (Kept B) (fun _ _ => True) w (onCache Cache.clearStats w) :=
  ⟨h.moved rfl fun k => by cases k <;> rfl, ⟨Nat.le_refl _, fun _ => rfl⟩, fun _ _ => trivial⟩

end

theorem ends_getOrBuild {A B : Prop} (hBA : B → A) {x : Action (Watched α) (Option α)}
    (hx : ∀ w, w.Kept B → Ends (Rises B) (Kept B) (fun _ _ => True) w (x w)) (k : CircuitKind) {w : Watched α}
    (h : w.Kept B) :
    Ends (Rises A) (Kept B) (fun _ _ => True) w (Cache.getOrBuild Watched.cache setCache (building k x) k w) := by
  have hcounted : (setCache (w.cache.counted k) w).Kept B := h.counted k
  obtain ⟨hkept, hrises, -⟩ := hx _ hcounted
  obtain ⟨hresult, hstate⟩ := building_eq k x (setCache (w.cache.counted k) w)
  have hmet : Rises A w (x (setCache (w.cache.counted k) w)).state := ⟨hrises.le, (hrises.weaken hBA).none⟩
  cases hready : w.cache.ready k with
  | some v =>
    obtain ⟨-, hs⟩ := getOrBuild_of_ready Watched.cache setCache (building k x) hready
    rw [← hs] at hcounted
    exact ⟨hcounted, hs ▸ ⟨Nat.le_refl _, fun _ => rfl⟩, fun _ _ => trivial⟩
  | none =>
    cases hr : (x (setCache (w.cache.counted k) w)).result with
    | error e =>
      rw [hr] at hresult hstate
      dsimp only at hstate
      obtain ⟨-, hs⟩ := getOrBuild_of_failed Watched.cache setCache (building k x) hready hresult
      rw [hstate] at hs
      rw [← hs] at hkept hmet
      exact ⟨hkept, hmet, fun _ _ => trivial⟩
    | ok v =>
      rw [hr] at hresult hstate
      dsimp only at hstate
      obtain ⟨-, hs⟩ := getOrBuild_of_built Watched.cache setCache (building k x) hready hresult
      have hbuilt := hcounted.built hkept hrises k v
      rw [hstate] at hs
      refine ⟨?_, ?_, fun _ _ => trivial⟩
      · rw [hs]
        exact hbuilt
      · rw [hs]
        exact ⟨hmet.le, hmet.none⟩

/-- Under watch everything is kept, where builders invalidate only if `B`. -/
theorem ends_watch {A B : Prop} (hBA : B → A) {p : Use α} (hp : p.InvalidatesIf A B) {w : Watched α} (h : w.Kept B) :
    Ends (Rises A) (Kept B) (fun _ _ => True) w (p.watch w) := by
  induction p generalizing A w with
  | done v => exact .pure h trivial
  | fail f => exact .fail h
  | get k next ih =>
    have hsight := ends_sight (A := A) h k
    have hlookup := ends_lookup (A := A) hsight.keeps k
    exact hsight.bind fun _ _ => hlookup.bind fun v _ => ih v hBA (hp v) hlookup.keeps
  | getOrBuild k builder next ihb ih =>
    have hsight := ends_sight (A := A) h k
    have hbuild := (ends_getOrBuild hBA (fun u hu => ihb id hp.1 hu) k hsight.keeps).attempt
    exact hsight.bind fun _ _ => hbuild.bind fun answer _ => ih answer hBA (hp.2 answer) hbuild.keeps
  | invalidate next ih =>
    have hinvalidate := ends_invalidate hp.1 h
    exact hinvalidate.bind fun _ _ => ih hBA hp.2 hinvalidate.keeps
  | clearStats next ih =>
    have hclear := ends_clearStats (A := A) h
    exact hclear.bind fun _ _ => ih hBA hp hclear.keeps

end Watched

/-- Whatever is done with a new cache, and whatever its builders do with it: a value that is stored or handed out was
done in the generation of that moment, and began to be built as many generations before as it met invalidations on the
way. So all of them are built within the generation of the moment if and only if nothing stored has met any; and that is
so if no builder invalidates. -/
theorem sightings_are_current_iff (p : Use α) :
    let w := (p.watch Watched.start).state
    (p.watch Watched.start).result = (p.run Cache.empty).result ∧ w.cache = (p.run Cache.empty).state ∧
    w.cache.generation = w.invalidations ∧
    (∀ x ∈ w.log, x.birth.generation+x.birth.met = x.generation ∧ w.Stored x.kind x.value x.birth) ∧
    ((∀ x ∈ w.log, x.Current) ↔ ∀ x ∈ w.log, x.hit = false → x.birth.met = 0) ∧
    (p.Calm → ∀ x ∈ w.log, x.Current) := by
  intro w
  obtain ⟨hresult, hcache⟩ := Watched.follows_watch p Watched.start Cache.empty rfl
  have hkept : w.Kept True := (Watched.ends_watch id p.invalidatesIf_true (Watched.kept_start True)).keeps
  have hcurrent (x : Sighting α) (hx : x ∈ w.log) : x.Current ↔ x.birth.met = 0 := by
    have hage : x.birth.generation+x.birth.met = x.generation := hkept.age x hx
    rw [Sighting.Current]
    omega
  refine ⟨hresult.eq, hcache, hkept.count, fun x hx => ⟨hkept.age x hx, hkept.stored x hx⟩, ?_, fun hcalm x hx => ?_⟩
  · refine ⟨fun h x hx _ => (hcurrent x hx).mp (h x hx), fun h x hx => (hcurrent x hx).mpr ?_⟩
    obtain ⟨y, hy, hhit, -, -, hbirth⟩ := hkept.stored x hx
    rw [← hbirth]
    exact h y hy hhit
  · have hcalmly : w.Kept False := (Watched.ends_watch nofun hcalm (Watched.kept_start False)).keeps
    exact (hcurrent x hx).mpr (hcalmly.calm id x hx)

def Use.refilled : Use Nat :=
  .getOrBuild .pure (.done (some 1)) fun _ => .invalidate (.getOrBuild .pure (.done (some 2)) fun _ => .get .pure .done)

theorem refilled_is_current :
    (Use.refilled.run Cache.empty).result = .ok (some 2) ∧ ∀ x ∈ (Use.refilled.watch Watched.start).state.log, x.Current := by
  obtain ⟨-, -, -, -, -, hcalm⟩ := sightings_are_current_iff Use.refilled
  refine ⟨rfl, hcalm ?_⟩
  simp [Use.Calm, Use.refilled, Use.InvalidatesIf]

def Use.overtaken : Use Nat := .getOrBuild .pure (.invalidate (.done (some 5))) fun _ => .get .pure .done

/-- What it has begun to build in one generation is stored, and handed out, in the next. -/
theorem overtaken_is_handed_out :
    (Use.overtaken.run Cache.empty).result = .ok (some 5) ∧ (Use.overtaken.run Cache.empty).state.hits = 1 ∧
    ∃ x ∈ (Use.overtaken.watch Watched.start).state.log, x.hit = true ∧ x.value = some 5 ∧ x.birth = ⟨0, 1⟩ ∧
      x.generation = 1 ∧ ¬x.Current :=
  ⟨rfl, rfl, _, List.mem_cons_self, rfl, rfl, rfl, rfl, Nat.zero_ne_one⟩

end Cache
end CircuitHarness
