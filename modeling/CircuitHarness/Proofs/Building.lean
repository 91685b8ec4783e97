import CircuitHarness.Proofs.Slots

/-! How often something is built between two invalidations. A value that was built serves every later lookup of its kind,
but for nothing, which is kept like any other value and yet built anew. -/
namespace CircuitHarness
namespace Shelf

/-- A lookup of a kind; one with a builder says what the builder comes to if it is let in. -/
structure Lookup where
  kind : CircuitKind
  builder : Option (Except Failure Value)

def Lookup.request (l : Lookup) : Request :=
  match l.builder with
  | none => .get l.kind
  | some (.ok v) => .getOrBuild l.kind (.value v)
  | some (.error f) => .getOrBuild l.kind (.fail f)

def wanted (k : CircuitKind) (ls : List Lookup) : List (Except Failure Value) :=
  ls.filterMap fun l => if l.kind = k then l.builder else none

/-- The first builder to return has something to return, or is the last one. -/
def Settles : List (Except Failure Value) → Prop
  | [] => True
  | .error _ :: bs => Settles bs
  | .ok v :: bs => v = .none → bs = []

structure Seen where
  lookup : Lookup
  before : Shelf
  answer : Except Failure Value
  after : Shelf

namespace Seen

def Asks (x : Seen) (k : CircuitKind) : Prop := x.lookup.kind = k ∧ x.lookup.builder.isSome

def Returned (x : Seen) (k : CircuitKind) (v : Value) : Prop :=
  x.Asks k ∧ x.before.builds < x.after.builds ∧ x.answer = .ok v

def Served (x : Seen) (k : CircuitKind) (v : Value) : Prop :=
  x.answer = .ok v ∧ x.after.builds = x.before.builds ∧ x.after.cache.slot k = x.before.cache.slot k

end Seen

def seen (l : Lookup) (s : Shelf) : Seen := ⟨l, s, (perform l.request s).result, s.after l.request⟩

def watch : List Lookup → Shelf → List Seen
  | [], _ => []
  | l :: ls, s => seen l s :: watch ls (s.after l.request)

/-- Later lookups are served what a builder returned before. -/
def LaterServed (x y : Seen) : Prop := ∀ k v, x.Returned k v → y.Asks k → y.Served k v

structure BuiltOnce (s : Shelf) (ls : List Lookup) : Prop where
  once : (watch ls s).Pairwise fun x y => ∀ k v w, ¬(x.Returned k v ∧ y.Returned k w)
  served : (watch ls s).Pairwise LaterServed
  counted : (∀ l ∈ ls, l.builder.isSome) →
    let t := afterAll (ls.map Lookup.request) s
    t.cache.misses+s.builds = s.cache.misses+t.builds

def Begins (s : Shelf) : Prop := s = start ∨ ∃ t : Shelf, s = t.after .invalidate

theorem Begins.holds {s : Shelf} (h : s.Begins) :
    s.Holds ⟨fun _ => none, s.cache.generation, s.cache.hits+s.cache.misses, s.cache.hits, s.builds⟩ where
  slot k := by
    rcases h with rfl | ⟨t, rfl⟩ <;> cases k <;> rfl
  valid := by
    have hv : s.cache.valid = false := by rcases h with rfl | ⟨t, rfl⟩ <;> rfl
    simp [hv]
  generation := rfl
  hits := rfl
  lookups := rfl
  builds := rfl

end Shelf

namespace Slots
open CircuitHarness.Shelf

def pending (p : Slots) (k : CircuitKind) (ls : List Lookup) : List (Except Failure Value) :=
  (p.held k).toList.map .ok ++ wanted k ls

/-- No builder is let in over what is held. -/
def Untroubled (p : Slots) (l : Lookup) : Prop := l.builder.isSome → p.held l.kind ≠ some .none

theorem ready_eq_none_iff (p : Slots) (k : CircuitKind) :
    p.ready k = none ↔ p.held k = none ∨ p.held k = some .none := by
  rw [ready]
  cases p.held k with
  | none => simp
  | some v => cases v <;> simp [stored]

def refilled (held : Option Value) : Option (Except Failure Value) → Option Value
  | some (.ok v) => if (held.bind stored).isSome then held else some v
  | some (.error _) | none => held

theorem after_held_eq (p : Slots) (l : Lookup) (k : CircuitKind) :
    (p.after l.request).held k = if k = l.kind then refilled (p.held k) l.builder else p.held k := by
  obtain ⟨j, b⟩ := l
  by_cases hk : k = j
  · subst hk
    rcases b with _ | f | v <;> cases hr : (p.held k).bind stored <;>
      simp [Lookup.request, after, ready, hr, refilled, look, store, build, Builder.answer, Builder.drops]
  · rcases b with _ | f | v <;> cases hr : (p.held j).bind stored <;>
      simp [Lookup.request, after, ready, hr, hk, look, store, build, Builder.answer, Builder.drops]

theorem after_builds (p : Slots) (l : Lookup) :
    (p.after l.request).builds = p.builds+(if l.builder.isSome ∧ p.ready l.kind = none then 1 else 0) := by
  obtain ⟨k, b⟩ := l
  rcases b with _ | f | v <;> cases hr : p.ready k <;>
    simp [Lookup.request, after, hr, look, store, build, Builder.answer, Builder.drops]

theorem refilled_of_ne {v : Value} (hv : v ≠ .none) (b : Option (Except Failure Value)) :
    refilled (some v) b = some v := by
  rcases b with _ | _ | w <;> simp [refilled, stored_of_ne hv]

theorem settles_refilled (held : Option Value) (b : Except Failure Value) (bs : List (Except Failure Value)) :
    Settles (held.toList.map .ok ++ b :: bs) ↔
      held ≠ some .none ∧ Settles ((refilled held (some b)).toList.map .ok ++ bs) := by
  cases held with
  | none => cases b <;> simp [Settles, refilled]
  | some v =>
    by_cases hv : v = .none
    · simp [hv, Settles]
    · simp [hv, Settles, refilled_of_ne hv]

theorem settles_cons (p : Slots) (l : Lookup) (ls : List Lookup) :
    (∀ k, Settles (p.pending k (l :: ls))) ↔
      p.Untroubled l ∧ ∀ k, Settles ((p.after l.request).pending k ls) := by
  obtain ⟨j, b⟩ := l
  have hstep (k : CircuitKind) : Settles (p.pending k (⟨j, b⟩ :: ls)) ↔
      (j = k → b.isSome → p.held k ≠ some .none) ∧ Settles ((p.after (Lookup.request ⟨j, b⟩)).pending k ls) := by
    rw [pending, pending, after_held_eq]
    by_cases hk : j = k
    · subst hk
      cases b with
      | none => simp [wanted, refilled]
      | some b => simp [wanted, settles_refilled]
    · simp [wanted, hk, Ne.symm hk]
  simp only [hstep, forall_and, Untroubled, forall_eq']

theorem answer_request (p : Slots) (k : CircuitKind) (b : Except Failure Value) :
    p.answer (Lookup.request ⟨k, some b⟩) = match p.ready k with
      | some v => .ok v
      | none => b := by
  cases b <;> rfl

theorem Untroubled.keeps {p : Slots} {l : Lookup} (hl : p.Untroubled l) {k : CircuitKind} {v : Value}
    (hv : p.held k = some v) : (p.after l.request).held k = some v := by
  rw [after_held_eq]
  by_cases hk : k = l.kind
  · subst hk
    rw [if_pos rfl, hv]
    cases hb : l.builder with
    | none => rfl
    | some b =>
      have hne : v ≠ .none := fun h => hl (by rw [hb]; rfl) (h ▸ hv)
      exact refilled_of_ne hne (some b)
  · rw [if_neg hk]
    exact hv

end Slots

namespace Shelf
open Slots

def Kept (p : Slots) (xs : List Seen) : Prop :=
  ∀ k v, p.held k = some v → ∀ y ∈ xs, y.Asks k → y.Served k v

section
variable {s : Shelf} {p : Slots} (h : s.Holds p) {l : Lookup} {k : CircuitKind} {v : Value}
include h

theorem Holds.builds_after : (s.after l.request).builds =
    s.builds+(if l.builder.isSome ∧ p.ready l.kind = none then 1 else 0) := by
  rw [(h.after _).2.builds, after_builds, h.builds]

theorem Holds.serves (hv : p.held k = some v) (hne : v ≠ .none) (hl : (seen l s).Asks k) : (seen l s).Served k v := by
  obtain ⟨j, b⟩ := l
  obtain ⟨rfl, hb⟩ := hl
  obtain ⟨b, rfl⟩ := Option.isSome_iff_exists.mp hb
  change p.held j = some v at hv
  have hready : p.ready j = some v := (p.ready_eq_some_iff j v).mpr ⟨hv, hne⟩
  refine ⟨?_, ?_, ?_⟩
  · change (perform _ s).result = _
    rw [(h.after _).1, answer_request, hready]
  · change (s.after _).builds = s.builds
    rw [h.builds_after, hready]
    simp
  · change (s.after _).cache.slot j = s.cache.slot j
    rw [(h.after _).2.slot, h.slot, after_held_eq, if_pos rfl, hv, refilled_of_ne hne]

theorem Holds.builds_over_nothing (hv : p.held k = some .none) (hl : (seen l s).Asks k) :
    ¬(seen l s).Served k v := by
  rintro ⟨-, hbuilds, -⟩
  change (s.after l.request).builds = s.builds at hbuilds
  have hready : p.ready k = none := (p.ready_eq_none_iff k).mpr (.inr hv)
  obtain ⟨rfl, hb⟩ := hl
  rw [h.builds_after, if_pos ⟨hb, hready⟩] at hbuilds
  omega

theorem Holds.held_of_returned (hx : (seen l s).Returned k v) : (p.after l.request).held k = some v := by
  obtain ⟨j, b⟩ := l
  obtain ⟨⟨rfl, hb⟩, -, hanswer⟩ := hx
  obtain ⟨b, rfl⟩ := Option.isSome_iff_exists.mp hb
  cases b <;> exact p.after_held ((h.after _).1.symm.trans hanswer)

theorem Holds.returned_of_held (hv : (p.after l.request).held k = some v) :
    p.held k = some v ∨ (seen l s).Returned k v := by
  obtain ⟨j, b⟩ := l
  rw [after_held_eq] at hv
  by_cases hk : k = j
  · subst hk
    rw [if_pos rfl] at hv
    cases hready : p.ready k with
    | some w =>
      obtain ⟨hw, hne⟩ := (p.ready_eq_some_iff k w).mp hready
      rw [hw, refilled_of_ne hne] at hv
      exact .inl (hw.trans hv)
    | none =>
      rcases b with _ | f | w
      · exact .inl hv
      · exact .inl hv
      · have hw : refilled (p.held k) (some (.ok w)) = some w := by
          rw [refilled, show (p.held k).bind stored = none from hready]
          rfl
        obtain rfl : w = v := Option.some.inj (hw.symm.trans hv)
        refine .inr ⟨⟨rfl, rfl⟩, ?_, ?_⟩
        · change s.builds < (s.after _).builds
          rw [h.builds_after, if_pos ⟨rfl, hready⟩]
          omega
        · change (perform _ s).result = _
          rw [(h.after _).1, answer_request, hready]
  · rw [if_neg hk] at hv
    exact .inl hv

/-- Whatever is held and whatever is built serves every later lookup, exactly if the builders settle. -/
theorem Holds.served_iff (ls : List Lookup) :
    (Kept p (watch ls s) ∧ (watch ls s).Pairwise LaterServed) ↔ ∀ k, Settles (p.pending k ls) := by
  induction ls generalizing s p with
  | nil =>
    refine iff_of_true ⟨fun _ _ _ _ hy => absurd hy List.not_mem_nil, .nil⟩ fun k => ?_
    rw [pending]
    cases p.held k <;> simp [wanted, Settles]
  | cons l ls ih =>
    rw [settles_cons, ← ih (h.after l.request).2, watch, List.pairwise_cons]
    constructor
    · rintro ⟨hkept, hfirst, hrest⟩
      refine ⟨fun hl hnothing => ?_, fun k v hv y hy hasks => ?_, hrest⟩
      · have hasks : (seen l s).Asks l.kind := ⟨rfl, hl⟩
        exact h.builds_over_nothing hnothing hasks (hkept l.kind .none hnothing (seen l s) List.mem_cons_self hasks)
      · cases h.returned_of_held hv with
        | inl hv => exact hkept k v hv y (List.mem_cons_of_mem _ hy) hasks
        | inr hx => exact hfirst y hy k v hx hasks
    · rintro ⟨hl, hkept, hrest⟩
      refine ⟨fun k v hv y hy hasks => ?_, fun y hy k v hx hasks => ?_, hrest⟩
      · cases hy with
        | head =>
          obtain ⟨rfl, hsome⟩ := hasks
          refine h.serves hv (fun hnothing => hl hsome ?_) ⟨rfl, hsome⟩
          rw [← hnothing]
          exact hv
        | tail _ hy => exact hkept k v (hl.keeps hv) y hy hasks
      · exact hkept k v (h.held_of_returned hx) y hy hasks

theorem Holds.misses_eq {ls : List Lookup} (hs : ∀ k, Settles (p.pending k ls)) (hb : ∀ l ∈ ls, l.builder.isSome) :
    (Shelf.afterAll (ls.map Lookup.request) s).cache.misses+s.builds =
      s.cache.misses+(Shelf.afterAll (ls.map Lookup.request) s).builds := by
  induction ls generalizing s p with
  | nil => rfl
  | cons l ls ih =>
    obtain ⟨hl, hs⟩ := (settles_cons p l ls).mp hs
    have hsome : l.builder.isSome := hb l List.mem_cons_self
    have hrest := ih (h.after l.request).2 hs fun l hl => hb l (List.mem_cons_of_mem _ hl)
    have hlooks : l.request.looks? = some l.kind := by
      rw [Lookup.request]
      split <;> rfl
    have hmisses := (h.counts hlooks).2
    have hbuilds := h.builds_after (l := l)
    have hsame : (s.cache.slot l.kind).isSome = false ↔ p.ready l.kind = none := by
      rw [h.slot, Option.isSome_map, ready_eq_none_iff]
      simp [hl hsome]
    rw [List.map_cons]
    change (Shelf.afterAll (ls.map Lookup.request) (s.after l.request)).cache.misses+s.builds =
      s.cache.misses+(Shelf.afterAll (ls.map Lookup.request) (s.after l.request)).builds
    by_cases hr : p.ready l.kind = none
    · simp [hsome, hr, hsame.mpr hr] at hbuilds hmisses
      omega
    · have hfilled : (s.cache.slot l.kind).isSome = true := (Bool.not_eq_false _).mp (mt hsame.mp hr)
      simp [hr, hfilled] at hbuilds hmisses
      omega

end

theorem settles_of_something {bs : List (Except Failure Value)} (h : ∀ b ∈ bs, b ≠ .ok .none) : Settles bs := by
  induction bs with
  | nil => trivial
  | cons b bs ih =>
    cases b with
    | error f => exact ih fun b hb => h b (List.mem_cons_of_mem _ hb)
    | ok v => exact fun hv => absurd (congrArg Except.ok hv) (h _ List.mem_cons_self)

/-- In any run of lookups from the beginning of a generation on, whatever their builders return or raise: at most one
builder of a kind returns, what it returned serves every later lookup of that kind that comes with a builder, and lookups
with builders alone miss as often as one is let in, all that exactly if for either kind the first builder to return has
something to return, or is the last one of its kind. So it is where no builder returns nothing. -/
theorem built_once_iff {s : Shelf} (h : s.Begins) (ls : List Lookup) :
    (s.BuiltOnce ls ↔ ∀ k, Settles (wanted k ls)) ∧
      ((∀ l ∈ ls, l.builder ≠ some (.ok .none)) → s.BuiltOnce ls) := by
  have hiff : s.BuiltOnce ls ↔ ∀ k, Settles (wanted k ls) := by
    have hserved := h.holds.served_iff ls
    refine ⟨fun hb => hserved.mp ⟨fun k v hv => (nomatch hv), hb.served⟩, fun hs => ?_⟩
    obtain ⟨-, hlater⟩ := hserved.mpr hs
    refine ⟨hlater.imp fun hxy k v w ⟨hx, hy⟩ => ?_, hlater, h.holds.misses_eq hs⟩
    have hbuilds := (hxy k v hx hy.1).2.1
    have hlt := hy.2.1
    omega
  refine ⟨hiff, fun hb => hiff.mpr fun k => settles_of_something fun b hmem hnothing => ?_⟩
  obtain ⟨l, hl, hk⟩ := List.mem_filterMap.mp hmem
  subst hnothing
  refine hb l hl ?_
  by_cases hkind : l.kind = k
  · rwa [if_pos hkind] at hk
  · rw [if_neg hkind] at hk
    cases hk

theorem failure_then_built_once : start.BuiltOnce
    [⟨.pure, some (.error (.runtime "no"))⟩, ⟨.pure, some (.ok (.int 5))⟩, ⟨.impure, some (.ok .none)⟩,
      ⟨.pure, some (.ok (.int 6))⟩, ⟨.impure, none⟩] := by
  refine (built_once_iff (.inl rfl) _).1.mpr fun k => ?_
  cases k <;> simp [wanted, Settles]

/-- A nothing is built and stored; the next lookup finds it, counts it as a hit, and builds again all the same. -/
theorem nothing_is_built_again :
    let ls : List Lookup := [⟨.pure, some (.ok .none)⟩, ⟨.pure, some (.ok (.int 5))⟩]
    let s := afterAll (ls.map Lookup.request) start
    start.Begins ∧ ¬start.BuiltOnce ls ∧ (watch ls start).map Seen.answer = [.ok .none, .ok (.int 5)] ∧
      s.builds = 2 ∧ s.cache.misses = 1 ∧ s.cache.hits = 1 := by
  refine ⟨.inl rfl, fun h => ?_, rfl, rfl, rfl, rfl⟩
  obtain ⟨hfirst, -⟩ := List.pairwise_cons.mp h.served
  obtain ⟨hanswer, -⟩ := hfirst _ List.mem_cons_self .pure .none ⟨⟨rfl, rfl⟩, Nat.one_pos, rfl⟩ ⟨rfl, rfl⟩
  cases hanswer

end Shelf
end CircuitHarness
