import CircuitHarness.Proofs.Desk
import CircuitHarness.Proofs.Reachable

/-! Simulators that came about in different ways and cannot be told apart from now on. Each knows the contexts that both
deal with by marks of its own, but where the one would return from a context to another sender, so would the other. -/
namespace CircuitHarness

/-- The same context, either not marked yet or under marks that are paired. -/
def Handed.Tied (L : List (Mark × Mark)) (g g' : Handed) : Prop :=
  g.context = g'.context ∧ (g.mark = none ∧ g'.mark = none ∨ ∃ x ∈ L, g.mark = some x.1 ∧ g'.mark = some x.2)

theorem Handed.Tied.mono {L M : List (Mark × Mark)} {g g' : Handed} (h : g.Tied L g') (hM : ∀ x ∈ L, x ∈ M) : g.Tied M g' :=
  ⟨h.1, h.2.imp_right fun ⟨x, hx, hm⟩ => ⟨x, hM x hx, hm⟩⟩

theorem Handed.Tied.fresh (L : List (Mark × Mark)) (c : CircuitContext) : Tied L (.fresh c) (.fresh c) :=
  ⟨rfl, .inl ⟨rfl, rfl⟩⟩

def Operation.Neutral (C : CircuitKind → Circuit → Prop) : Operation → Prop
  | .write g => g.mark = none
  | .callHeld c _ => c.Of C
  | _ => True

namespace Simulator
open CircuitHarness.Action (Relates)

/-- The key to return to from the context of the mark, should that be the current one. -/
def returning (s : Simulator) (k : Mark) : Option Key :=
  s.override.bind fun o => if o.mark = k then some o.home else none

theorem home_eq (s : Simulator) : s.home = (s.returning s.current.mark).getD s.context.key := by
  rw [home, returning]
  cases s.override with
  | none => rfl
  | some o =>
    simp only [Option.bind_some]
    split <;> rfl

def pairs (L : List (Mark × Mark)) (s t : Simulator) : List (Mark × Mark) := (s.current.mark, t.current.mark) :: L

structure Ties (L : List (Mark × Mark)) (s t : Simulator) : Prop where
  left : ∀ x ∈ pairs L s t, s.manager.Gave x.1
  right : ∀ x ∈ pairs L s t, t.manager.Gave x.2
  returning : ∀ x ∈ pairs L s t, t.returning x.2 = s.returning x.1
  exact : ∀ x ∈ pairs L s t, ∀ y ∈ pairs L s t, x.1 = y.1 ↔ x.2 = y.2

structure Holding (s u : Simulator) : Prop where
  mark : u.current.mark = s.current.mark
  override : u.override = s.override
  maker : u.manager.maker = s.manager.maker
  made : s.manager.made ≤ u.manager.made

variable {L : List (Mark × Mark)} {s t u v : Simulator}

theorem Steady.holding (h : Steady s u) : Holding s u where
  mark := by rw [h.rest]; rfl
  override := by rw [h.rest]
  maker := by rw [h.rest]
  made := h.made

namespace Ties

theorem start (hs : s.Marked) (ht : t.Marked) (h : t.returning t.current.mark = s.returning s.current.mark) :
    Ties [] s t := by
  refine ⟨fun x hx => ?_, fun x hx => ?_, fun x hx => ?_, fun x hx y hy => ?_⟩
  · cases List.mem_singleton.mp hx
    exact hs.current
  · cases List.mem_singleton.mp hx
    exact ht.current
  · cases List.mem_singleton.mp hx
    exact h
  · cases List.mem_singleton.mp hx
    cases List.mem_singleton.mp hy
    exact iff_of_true rfl rfl

theorem holding (h : Ties L s t) (hu : Holding s u) (hv : Holding t v) : Ties L u v := by
  have hpairs : pairs L u v = pairs L s t := by rw [pairs, hu.mark, hv.mark]; rfl
  refine ⟨?_, ?_, ?_, ?_⟩
  · rw [hpairs]
    exact fun x hx => gave_mono hu.maker hu.made (h.left x hx)
  · rw [hpairs]
    exact fun x hx => gave_mono hv.maker hv.made (h.right x hx)
  · simp only [hpairs, Simulator.returning, hu.override, hv.override]
    exact h.returning
  · rw [hpairs]
    exact h.exact

theorem remember (h : Ties L s t) : Ties (pairs L s t) s t := by
  have hmem : ∀ x ∈ pairs (pairs L s t) s t, x ∈ pairs L s t := fun x hx => by
    obtain rfl | hx := List.mem_cons.mp hx
    · exact List.mem_cons_self
    · exact hx
  exact ⟨fun x hx => h.left x (hmem x hx), fun x hx => h.right x (hmem x hx),
    fun x hx => h.returning x (hmem x hx), fun x hx y hy => h.exact x (hmem x hx) y (hmem y hy)⟩

theorem forget {x : Mark × Mark} (h : Ties (x :: L) s t) : Ties L s t := by
  have hmem : ∀ y ∈ pairs L s t, y ∈ pairs (x :: L) s t := fun y hy => by
    obtain rfl | hy := List.mem_cons.mp hy
    · exact List.mem_cons_self
    · exact List.mem_cons_of_mem _ (List.mem_cons_of_mem _ hy)
  exact ⟨fun y hy => h.left y (hmem y hy), fun y hy => h.right y (hmem y hy),
    fun y hy => h.returning y (hmem y hy), fun y hy z hz => h.exact y (hmem y hy) z (hmem z hz)⟩

theorem known_left (h : Ties L s t) {g g' : Handed} (hg : g.Tied (pairs L s t) g') : g.Known s.manager := by
  intro k hk
  obtain ⟨hn, -⟩ | ⟨x, hx, hm, -⟩ := hg.2
  · rw [hn] at hk
    cases hk
  · rw [hm] at hk
    cases hk
    exact h.left x hx

theorem known_right (h : Ties L s t) {g g' : Handed} (hg : g.Tied (pairs L s t) g') : g'.Known t.manager := by
  intro k hk
  obtain ⟨-, hn⟩ | ⟨x, hx, -, hm⟩ := hg.2
  · rw [hn] at hk
    cases hk
  · rw [hm] at hk
    cases hk
    exact h.right x hx

theorem not_given {m : Manager} {k : Mark} (h : m.Gave k) : k ≠ ⟨m.maker, m.made⟩ := by
  rintro rfl
  exact absurd (h rfl) (Nat.lt_irrefl _)

/-- Where a context is held, its marks tell it from the others on both sides alike. -/
theorem held (h : Ties L s t) {g g' : Handed} (hg : g.Tied (pairs L s t) g') :
    ∀ x ∈ pairs L s t, x.1 = (s.manager.hold g).1.mark ↔ x.2 = (t.manager.hold g').1.mark := by
  intro x hx
  obtain ⟨c, m⟩ := g
  obtain ⟨c', m'⟩ := g'
  obtain ⟨hm, hm'⟩ | ⟨y, hy, hm, hm'⟩ := hg.2
  · cases hm
    cases hm'
    exact iff_of_false (not_given (h.left x hx)) (not_given (h.right x hx))
  · cases hm
    cases hm'
    exact h.exact x hx y hy

theorem returning_fresh (hs : s.Marked) : s.returning ⟨s.manager.maker, s.manager.made⟩ = none := by
  rw [Simulator.returning]
  cases ho : s.override with
  | none => rfl
  | some o => exact if_neg (not_given (hs.override o ho))

theorem held_returning (h : Ties L s t) (hs : s.Marked) (ht : t.Marked) {g g' : Handed}
    (hg : g.Tied (pairs L s t) g') :
    t.returning (t.manager.hold g').1.mark = s.returning (s.manager.hold g).1.mark := by
  obtain ⟨c, m⟩ := g
  obtain ⟨c', m'⟩ := g'
  obtain ⟨hm, hm'⟩ | ⟨y, hy, hm, hm'⟩ := hg.2
  · cases hm
    cases hm'
    exact (returning_fresh ht).trans (returning_fresh hs).symm
  · cases hm
    cases hm'
    exact h.returning y hy

theorem enter (h : Ties L s t) {g g' : Handed} (hg : g.Tied (pairs L s t) g')
    (hu : u.manager = s.manager.adopt g) (hv : v.manager = t.manager.adopt g')
    (hreturning : ∀ x ∈ pairs L s t, v.returning x.2 = u.returning x.1)
    (hcurrent : v.returning v.current.mark = u.returning u.current.mark) : Ties L u v := by
  have hmark : u.current.mark = (s.manager.hold g).1.mark := by rw [current, hu]; rfl
  have hmark' : v.current.mark = (t.manager.hold g').1.mark := by rw [current, hv]; rfl
  have hmade : u.manager.maker = s.manager.maker ∧ s.manager.made ≤ u.manager.made := by
    rw [hu]
    exact hold_made s.manager g
  have hmade' : v.manager.maker = t.manager.maker ∧ t.manager.made ≤ v.manager.made := by
    rw [hv]
    exact hold_made t.manager g'
  have hmem {x : Mark × Mark} (hx : x ∈ L) : x ∈ pairs L s t := List.mem_cons_of_mem _ hx
  have hheld : ∀ x ∈ pairs L s t, x.1 = u.current.mark ↔ x.2 = v.current.mark := by
    rw [hmark, hmark']
    exact h.held hg
  refine ⟨fun x hx => ?_, fun x hx => ?_, fun x hx => ?_, fun x hx y hy => ?_⟩
  · obtain rfl | hx := List.mem_cons.mp hx
    · rw [hu, hmark]
      exact hold_gave (h.known_left hg)
    · exact gave_mono hmade.1 hmade.2 (h.left x (hmem hx))
  · obtain rfl | hx := List.mem_cons.mp hx
    · rw [hv, hmark']
      exact hold_gave (h.known_right hg)
    · exact gave_mono hmade'.1 hmade'.2 (h.right x (hmem hx))
  · obtain rfl | hx := List.mem_cons.mp hx
    · exact hcurrent
    · exact hreturning x (hmem hx)
  · obtain rfl | hx := List.mem_cons.mp hx
    · obtain rfl | hy := List.mem_cons.mp hy
      · exact iff_of_true rfl rfl
      · exact (eq_comm.trans (hheld y (hmem hy))).trans eq_comm
    · obtain rfl | hy := List.mem_cons.mp hy
      · exact hheld x (hmem hx)
      · exact h.exact x (hmem hx) y (hmem hy)

end Ties

/-- What is pending is the same if `i.2` holds; `i.1` are the marks of contexts that were seen before. -/
structure Twin (config : Config) (i : List (Mark × Mark) × Prop) (s t : Simulator) : Prop where
  rest : t = { s with
    name := t.name
    cache := t.cache
    dispatchers := t.dispatchers
    override := t.override
    pending := t.pending
    manager := ⟨t.manager.maker, t.manager.made, ⟨t.current.mark, s.context⟩, s.manager.carryover⟩ }
  pending : i.2 → t.pending = s.pending
  ties : Ties i.1 s t
  offers : Offers s t
  left : s.Rooted config
  right : t.Rooted config

theorem adopt_eq (m : Manager) (g : Handed) :
    m.adopt g = ⟨m.maker, (m.hold g).2.made, ⟨(m.hold g).1.mark, g.context⟩, m.carryover⟩ := by
  obtain ⟨c, mark⟩ := g
  cases mark <;> rfl

theorem commit_state (g : Handed) (s : Simulator) : (commit g s).state = { s with
    manager := s.manager.adopt g
    override := s.pending.map fun k => ⟨(s.manager.hold g).1.mark, k⟩
    pending := none } := rfl

variable {config : Config} {i : List (Mark × Mark) × Prop} {p q : Prop} {g g' : Handed}

namespace Twin

theorem context (h : Twin config i s t) : t.context = s.context := by rw [h.rest]; rfl

theorem contract (h : Twin config i s t) : t.contract = s.contract := by rw [h.rest]

theorem home (h : Twin config i s t) : t.home = s.home := by
  rw [home_eq, home_eq, h.context, h.ties.returning _ List.mem_cons_self]

theorem refl (h : s.Rooted config) : Twin config ([], p) s s :=
  ⟨rfl, fun _ => rfl, .start h.marked h.marked rfl, .refl s, h, h⟩

theorem weaken (h : Twin config (L, p) s t) (hq : q → p) : Twin config (L, q) s t :=
  ⟨h.rest, fun hx => h.pending (hq hx), h.ties, h.offers, h.left, h.right⟩

theorem remember (h : Twin config (L, p) s t) : Twin config (pairs L s t, p) s t :=
  ⟨h.rest, h.pending, h.ties.remember, h.offers, h.left, h.right⟩

theorem forget {x : Mark × Mark} (h : Twin config (x :: L, p) s t) : Twin config (L, p) s t :=
  ⟨h.rest, h.pending, h.ties.forget, h.offers, h.left, h.right⟩

theorem holding (h : Twin config (L, p) s t) (hu : Holding s u) (hv : Holding t v)
    (rest : v = { u with
      name := v.name
      cache := v.cache
      dispatchers := v.dispatchers
      override := v.override
      pending := v.pending
      manager := ⟨v.manager.maker, v.manager.made, ⟨v.current.mark, u.context⟩, u.manager.carryover⟩ })
    (pending : q → v.pending = u.pending) (offers : Offers u v) (left : u.Rooted config) (right : v.Rooted config) :
    Twin config (L, q) u v :=
  ⟨rest, pending, h.ties.holding hu hv, offers, left, right⟩

theorem handed (h : Twin config i s t) :
    Answers (Handed.Tied (pairs i.1 s t)) s.handed t.handed := by
  have hcurrent : Handed.Tied (pairs i.1 s t) s.current.handed t.current.handed :=
    ⟨h.context.symm, .inr ⟨_, List.mem_cons_self, rfl, rfl⟩⟩
  have hactive : t.activeCaller = s.activeCaller := by rw [h.rest]; rfl
  have hcarry : t.manager.carryover = s.manager.carryover := by rw [h.rest]
  have hrebuild (c : String) : t.manager.rebuild c none = s.manager.rebuild c none := by
    have hcontext : t.manager.current.context = s.manager.current.context := h.context
    rw [Manager.rebuild, Manager.rebuild, hcontext, hcarry]
  rw [handed_eq, handed_eq, hactive, h.context, h.home]
  cases s.activeCaller with
  | none =>
    dsimp only
    split
    · exact .ok hcurrent
    · exact .ok (.fresh _ _)
  | some c =>
    cases c with
    | text c =>
      dsimp only
      rw [hrebuild]
      split
      · exact .ok hcurrent
      · cases s.manager.rebuild c none with
        | error e => exact .error e
        | ok d => exact .ok (.fresh _ d)
    | bytes bs => exact .error _
    | other => exact .error _

theorem adopt (h : Twin config (L, p) s t) (hg : g.Tied (pairs L s t) g') :
    Twin config (L, p) { s with manager := s.manager.adopt g } { t with manager := t.manager.adopt g' } where
  rest := by
    rw [adopt_eq, adopt_eq, ← hg.1, h.rest]
    rfl
  pending := h.pending
  ties := h.ties.enter hg rfl rfl h.ties.returning (h.ties.held_returning h.left.marked h.right.marked hg)
  offers := h.offers.moved ⟨rfl, rfl⟩ ⟨rfl, rfl⟩
  left := h.left.later (later_adopt fun _ => h.ties.known_left hg)
  right := h.right.later (later_adopt fun _ => h.ties.known_right hg)

theorem commit (h : Twin config (L, True) s t) (hg : g.Tied (pairs L s t) g') :
    Twin config (L, True) (commit g s).state (commit g' t).state where
  rest := by
    rw [commit_state, commit_state, adopt_eq, adopt_eq, ← hg.1, h.rest]
    rfl
  pending _ := rfl
  ties := by
    have hpending : t.pending = s.pending := h.pending trivial
    have hreturning (x : Mark × Mark) (hx : x.1 = (s.manager.hold g).1.mark ↔ x.2 = (t.manager.hold g').1.mark) :
        (Simulator.commit g' t).state.returning x.2 = (Simulator.commit g s).state.returning x.1 := by
      rw [commit_state, commit_state, returning, returning, hpending]
      cases s.pending with
      | none => rfl
      | some k =>
        change (if _ = x.2 then some k else none) = if _ = x.1 then some k else none
        simp only [eq_comm (b := x.1), eq_comm (b := x.2), hx]
    exact h.ties.enter hg rfl rfl (fun x hx => hreturning x (h.ties.held hg x hx)) (hreturning (_, _) (iff_of_true rfl rfl))
  offers := h.offers.moved ⟨rfl, rfl⟩ ⟨rfl, rfl⟩
  left := h.left.later ((Later.refl s).commit fun _ => h.ties.known_left hg)
  right := h.right.later ((Later.refl t).commit fun _ => h.ties.known_right hg)

theorem steady (h : Twin config i s t) (hu : Steady s u) (hv : Steady t v) (witnesses : v.witnesses = u.witnesses)
    (contract : v.contract = u.contract) (carryover : v.manager.carryover = u.manager.carryover) (offers : Offers u v) :
    Twin config i u v where
  rest := by
    rw [hv.rest, hu.rest, witnesses, contract, carryover, h.rest]
    rfl
  pending hi := by
    have hup : u.pending = s.pending := by rw [hu.rest]
    have hvp : v.pending = t.pending := by rw [hv.rest]
    rw [hup, hvp, h.pending hi]
  ties := h.ties.holding hu.holding hv.holding
  offers := offers
  left := h.left.steady hu
  right := h.right.steady hv

theorem idle (h : Twin config i s t) (hu : Idle s u) (hv : Idle t v) : Twin config i u v := by
  refine h.steady hu.steady hv.steady ?_ ?_ ?_ ((hu.offered h.left.sound).symm.trans (h.offers.trans (hv.offered h.right.sound)))
  · rw [hu.rest, hv.rest, h.rest]
  · rw [hu.rest, hv.rest, h.rest]
  · rw [hu.rest, hv.rest, h.rest]

end Twin

section
variable {C : CircuitKind → Circuit → Prop}

theorem Rooted.offered_of (hs : s.Rooted config) (hC : config.Of C) (k : CircuitKind) : (s.offered k).Of C := by
  cases hx : s.offered k with
  | standIn label => trivial
  | dispatcher m d =>
    obtain ⟨ws, hws⟩ := hs.contract
    rw [hs.sound.offered hx]
    exact hC ws s.contract hws k

theorem twin_surface (hC : config.Of C) (k : CircuitKind) : Relates (Twin config i) (Twin config i)
    (fun x y => x.Same y ∧ x.Of C) (surface k) (surface k) := by
  intro s t hst
  rw [surface_result, surface_result]
  exact ⟨.ok ⟨(hst.offers k).symm, hst.left.offered_of hC k⟩, hst.idle (idle_surface s k) (idle_surface t k)⟩

theorem twin_mark : Relates (Twin config i) (Twin config i) (fun _ _ => True) (onManager Manager.nextMark)
    (onManager Manager.nextMark) :=
  fun s t hst => ⟨.ok trivial, hst.idle (idle_mark s) (idle_mark t)⟩

theorem twin_asCaller (c : Option Caller) :
    Relates (Twin config i) (Twin config i) Eq (Action.update (asCaller c)) (Action.update (asCaller c)) := by
  refine .update fun s t hst => hst.holding ⟨rfl, rfl, rfl, Nat.le_refl _⟩ ⟨rfl, rfl, rfl, Nat.le_refl _⟩ ?_ hst.pending
    hst.offers (hst.left.later (later_asCaller c s)) (hst.right.later (later_asCaller c t))
  rw [hst.rest]
  rfl

theorem twin_callerContext (M : List (Mark × Mark)) :
    Relates (fun s t => Twin config (L, p) s t ∧ pairs L s t = M) (Twin config (M, True)) (Handed.Tied M)
      callerContext callerContext := by
  rintro s t ⟨hst, rfl⟩
  have hpending : t.consumed.pending = s.consumed.pending := by
    have hactive : t.activeCaller = s.activeCaller := by rw [hst.rest]; rfl
    simp only [consumed, hactive, hst.home]
  rw [callerContext_state, callerContext_state]
  refine ⟨hst.handed, hst.remember.holding ⟨rfl, rfl, rfl, Nat.le_refl _⟩ ⟨rfl, rfl, rfl, Nat.le_refl _⟩ ?_
    (fun _ => hpending) hst.offers (hst.left.later (later_consumed s)) (hst.right.later (later_consumed t))⟩
  rw [hst.rest]
  rfl

theorem twin_source (k : CircuitKind) (M : List (Mark × Mark)) :
    Relates (fun s t => Twin config (L, p) s t ∧ pairs L s t = M) (Twin config (M, p ∨ k = .impure)) (Handed.Tied M)
      (source k) (source k) := by
  cases k with
  | pure =>
    rintro s t ⟨hst, rfl⟩
    refine ⟨.ok ⟨hst.context.symm, .inr ⟨_, List.mem_cons_self, rfl, rfl⟩⟩, hst.remember.weaken fun h => ?_⟩
    exact h.resolve_right (by simp)
  | impure => exact (twin_callerContext M).weaken fun s t hst => hst.weaken fun _ => trivial

theorem twin_call (hblind : ∀ k f, C k f → f.Blind) {sv tv : Services Simulator}
    (hsv : Services.Match (Twin config) (fun _ _ => True) sv tv) (L : List (Mark × Mark)) (p : Prop) (m n : Mark)
    {b : Bound Circuit} (hb : C b.kind b.circuit) (args : List Value) :
    Relates (Twin config (L, p)) (Twin config (L, p)) Eq (callCallable sv args (.bound m b))
      (callCallable tv args (.bound n b)) := by
  intro s t hst
  -- The context handed out may be the current one; its marks are to be known while the circuit runs.
  have hsource : Relates (fun s' t' => Twin config (L, p) s' t' ∧ pairs L s' t' = pairs L s t)
      (Twin config (pairs L s t, p ∨ b.kind = .impure)) (Handed.Tied (pairs L s t)) (source b.kind) (source b.kind) :=
    twin_source b.kind (pairs L s t)
  have hrun (g g' : Handed) (hg : g.Tied (pairs L s t) g') :
      Relates (Twin config (pairs L s t, p ∨ b.kind = .impure)) (Twin config (pairs L s t, p ∨ b.kind = .impure))
        (fun x y => x.1 = y.1 ∧ x.2.Tied (pairs L s t) y.2) ((b.circuit g.context args).run sv g)
        ((b.circuit g'.context args).run tv g') := by
    rw [← hg.1]
    exact hsv.run (Handed.Tied.fresh _) _ hg (hblind _ _ hb _ _)
  have hcommit (hk : b.kind = .impure) (g g' : Handed) (hg : g.Tied (pairs L s t) g') :
      Relates (Twin config (pairs L s t, p ∨ b.kind = .impure)) (Twin config (pairs L s t, p ∨ b.kind = .impure)) Eq
        (commit g) (commit g') := by
    refine .update fun s' t' h => ?_
    have hg' : g.Tied (pairs (pairs L s t) s' t') g' := hg.mono fun x hx => List.mem_cons_of_mem _ hx
    exact ((h.weaken fun _ => .inr hk).commit hg').weaken fun _ => trivial
  have hcall : Relates (fun s' t' => Twin config (L, p) s' t' ∧ pairs L s' t' = pairs L s t)
      (Twin config (pairs L s t, p ∨ b.kind = .impure)) Eq (callCallable sv args (.bound m b))
      (callCallable tv args (.bound n b)) := Bound.call_relates b args hsource hrun hcommit
  obtain ⟨hr, hend⟩ := hcall s t ⟨hst, rfl⟩
  exact ⟨hr, hend.forget.weaken .inl⟩

theorem twin_get {α : Type} {f : Simulator → α} (h : ∀ s t, Twin config i s t → f t = f s) :
    Relates (Twin config i) (Twin config i) Eq (do return f (← Action.read)) (do return f (← Action.read)) :=
  Relates.read.bind fun s t hst => .pure (h s t hst).symm

theorem twin_ask {α : Type} {f : Simulator → Except Failure α} (h : ∀ s t, Twin config i s t → f t = f s) :
    Relates (Twin config i) (Twin config i) Eq (ask f) (ask f) :=
  Relates.read.bind fun s t hst => .lift (by
    rw [h s t hst]
    exact .of_eq _)

theorem twin_tell {x : Action Simulator Unit} (h : Relates (Twin config i) (Twin config i) Eq x x) :
    Relates (Twin config i) (Twin config i) Eq (tell x) (tell x) :=
  h.bind_eq fun _ => .pure rfl

theorem twin_onCache {x : Action (Cache Surface) Unit} (hok : ∀ c, (x c).result = .ok ())
    (hsteady : ∀ s, Steady s (onCache x s).state)
    (hoffers : ∀ s t, Twin config i s t → Offers (onCache x s).state (onCache x t).state) :
    Relates (Twin config i) (Twin config i) Eq (onCache x) (onCache x) := by
  intro s t hst
  refine ⟨?_, hst.steady (hsteady s) (hsteady t) ?_ ?_ ?_ (hoffers s t hst)⟩
  · simp only [onCache, Action.within_result, hok]
    exact .ok rfl
  · rw [hst.rest]
    rfl
  · rw [hst.rest]
    rfl
  · rw [hst.rest]
    rfl

section
variable [Limits]

theorem twin_setWitnesses (table : Value) :
    Relates (Twin config i) (Twin config i) Eq (setWitnesses table) (setWitnesses table) := by
  intro s t hst
  have hconfig : t.config = s.config := by rw [hst.rest]
  have hs := steady_setWitnesses s table
  have ht := steady_setWitnesses t table
  simp only [setWitnesses, Action.bind_result, Action.bind_state, Action.lift_result, Action.lift_state] at hs ht ⊢
  cases hw : Witnesses.validate table with
  | error e => exact ⟨.error e, hst⟩
  | ok ws =>
    simp only [hw, Action.update_result, Action.update_state, Action.read_result, Action.read_state, hconfig] at hs ht ⊢
    cases ha : s.config.contract (Witnesses.ofValue ws) with
    | error e =>
      rw [ha] at hs ht
      refine ⟨.error e, hst.steady hs ht rfl hst.contract ?_ (hst.offers.moved ⟨rfl, rfl⟩ ⟨rfl, rfl⟩)⟩
      rw [hst.rest]
    | ok a =>
      rw [ha] at hs ht
      refine ⟨.ok rfl, hst.steady hs ht rfl rfl ?_ fun k => .dispatcher _ _ _⟩
      rw [hst.rest]
      rfl

theorem twin_overrideWitness (name fn : Value) :
    Relates (Twin config i) (Twin config i) Eq (overrideWitness name fn) (overrideWitness name fn) := by
  refine Relates.read.bind fun s t hst => ?_
  have hw : t.witnesses = s.witnesses := by rw [hst.rest]
  rw [hw]
  split
  · exact twin_setWitnesses _
  · exact .fail _

theorem twin_write {g g' : Handed} (hg : g.Tied L g') :
    Relates (Twin config (L, p)) (Twin config (L, p)) Eq (perform (.write g)) (perform (.write g')) := by
  intro s t hst
  exact ⟨.ok rfl, hst.adopt (hg.mono fun x hx => List.mem_cons_of_mem _ hx)⟩

end

theorem twin_updatePrivate (v : Value) :
    Relates (Twin config (L, p)) (Twin config (L, p)) Eq (onManager (Action.update (Manager.updatePrivate v)))
      (onManager (Action.update (Manager.updatePrivate v))) := by
  intro s t hst
  have hcontext : t.manager.current.context = s.manager.current.context := hst.context
  simp only [onManager, Action.within_result, Action.within_state, Action.update_result, Action.update_state,
    Manager.updatePrivate, hcontext]
  exact ⟨.ok rfl, hst.adopt (.fresh _ _)⟩

theorem twin_switchSender (sender : Value) (carryover : Option Carryover) :
    Relates (Twin config (L, p)) (Twin config (L, p)) Eq (onManager (Manager.switchSender sender carryover))
      (onManager (Manager.switchSender sender carryover)) := by
  intro s t hst
  have hcontext : t.manager.current.context = s.manager.current.context := hst.context
  have hcarry : t.manager.carryover = s.manager.carryover := by rw [hst.rest]
  constructor
  · simp only [onManager, Action.within_result, Manager.switchSender_result, Manager.rebuild, hcontext, hcarry]
    exact .of_eq _
  · rw [switchSender_state, switchSender_state, hst.context, hcarry]
    cases sender.key? with
    | none => exact hst
    | some k => exact hst.adopt (.fresh _ _)

section
variable [Limits]

theorem twin_current : Relates (Twin config i) (Twin config i) (fun r r' => r.unmarked = r'.unmarked)
    (perform .current) (perform .current) := by
  refine Relates.read.bind fun s t hst => .pure ?_
  have hcontext : t.current.context = s.current.context := hst.context
  simp only [Reply.unmarked, Held.handed, hcontext]

theorem twin_rest {op : Operation} (hop : op.calls = false) (hwrite : ∀ g, op = .write g → g.mark = none) :
    Relates (Twin config (L, p)) (Twin config (L, p)) (fun r r' => r.unmarked = r'.unmarked) (perform op)
      (perform op) := by
  have same {op : Operation} (h : Relates (Twin config (L, p)) (Twin config (L, p)) Eq (perform op) (perform op)) :
      Relates (Twin config (L, p)) (Twin config (L, p)) (fun r r' => r.unmarked = r'.unmarked) (perform op)
        (perform op) :=
    h.mono fun r r' h => by rw [h]
  cases op with
  | asCaller c => exact same ((twin_asCaller c).bind_eq fun _ => .pure rfl)
  | persistentCaller c =>
    have hafter {s : Simulator} (hs : s.Rooted config) : (s.after (.persistentCaller c)).Rooted config := hs.after trivial
    refine same (twin_tell (.update fun s t hst => hst.holding ⟨rfl, rfl, rfl, Nat.le_refl _⟩
      ⟨rfl, rfl, rfl, Nat.le_refl _⟩ ?_ hst.pending hst.offers (hafter hst.left) (hafter hst.right)))
    rw [hst.rest]
    rfl
  | resetCaller =>
    have hafter {s : Simulator} (hs : s.Rooted config) : (s.after .resetCaller).Rooted config := hs.after trivial
    refine same (twin_tell (.update fun s t hst => hst.holding ⟨rfl, rfl, rfl, Nat.le_refl _⟩
      ⟨rfl, rfl, rfl, Nat.le_refl _⟩ ?_ hst.pending hst.offers (hafter hst.left) (hafter hst.right)))
    rw [hst.rest]
    rfl
  | callerContext =>
    intro s t hst
    have hread : Relates (fun s' t' => Twin config (L, p) s' t' ∧ pairs L s' t' = pairs L s t)
        (Twin config (pairs L s t, True)) (fun r r' => r.unmarked = r'.unmarked) (perform .callerContext)
        (perform .callerContext) :=
      (twin_callerContext _).bind fun g g' hg => .pure (by simp only [Reply.unmarked, hg.1])
    obtain ⟨hr, hend⟩ := hread s t ⟨hst, rfl⟩
    exact ⟨hr, hend.forget.weaken fun _ => trivial⟩
  | current => exact twin_current
  | write g =>
    obtain ⟨c, m⟩ := g
    cases hwrite _ rfl
    exact same (twin_write (.fresh L c))
  | updatePrivate v => exact (twin_updatePrivate v).bind_eq fun _ => twin_current
  | rebuild sender carryover =>
    refine (Relates.lift (.of_eq _)).bind_eq fun text => (twin_ask fun s t hst => ?_).bind_eq fun c => .pure rfl
    have hcontext : t.manager.current.context = s.manager.current.context := hst.context
    have hcarry : t.manager.carryover = s.manager.carryover := by rw [hst.rest]
    simp only [Manager.rebuild, hcontext, hcarry]
  | switchSender sender carryover => exact (twin_switchSender sender carryover).bind_eq fun _ => twin_current
  | setCarryover c =>
    have hsettled : (Operation.setCarryover c).Settled := trivial
    refine same (twin_tell fun s t hst => ⟨.ok rfl, ?_⟩)
    refine hst.steady (steady_perform hsettled s) (steady_perform hsettled t) ?_ ?_ rfl (hst.offers.moved ⟨rfl, rfl⟩ ⟨rfl, rfl⟩)
    · rw [hst.rest]
      rfl
    · rw [hst.rest]
      rfl
  | senderContext sender =>
    refine same ((Relates.lift (.of_eq _)).bind_eq fun text => (twin_ask fun s t hst => ?_).bind_eq fun c => .pure rfl)
    rw [hst.rest]
    rfl
  | publicState => exact same ((twin_ask fun s t hst => by rw [hst.rest]; rfl).bind_eq fun v => .pure rfl)
  | privateState => exact same (twin_get fun s t hst => by rw [hst.rest]; rfl)
  | contractState => exact same (twin_get fun s t hst => by rw [hst.rest]; rfl)
  | witnessContext => exact same ((twin_ask fun s t hst => by rw [hst.rest]; rfl).bind_eq fun w => .pure rfl)
  | witnesses => exact same (twin_get fun s t hst => by rw [hst.rest])
  | setWitnesses t => exact same (twin_tell (twin_setWitnesses t))
  | overrideWitness n f => exact same (twin_tell (twin_overrideWitness n f))
  | resetDispatchers =>
    exact same (twin_tell (twin_onCache (fun _ => rfl) steady_resetDispatchers fun _ _ hst =>
      offers_resetDispatchers hst.contract))
  | cachePut k label =>
    exact same (twin_tell (twin_onCache (fun _ => Cache.put_result _ _ _) (fun s => steady_put s k label) fun _ _ hst =>
      hst.offers.put hst.contract hst.left.sound hst.right.sound k label))
  | cacheClearStats =>
    exact same (twin_tell (twin_onCache (fun _ => rfl) steady_clearStats fun _ _ hst => hst.offers.clearStats))
  | call | callHeld | direct | names => cases hop

theorem twin_match (hC : config.Of C) (hblind : ∀ k f, C k f → f.Blind) :
    machine.Match (Twin config) (fun _ _ => True) C machine where
  surface _ k := twin_surface hC k
  bound hsv i m n _ args hb := twin_call hblind hsv i.1 i.2 m n hb args
  mark _ := twin_mark
  asCaller _ c := twin_asCaller c
  contract _ s t hst := by
    obtain ⟨ws, hws⟩ := hst.left.contract
    exact ⟨hst.contract.symm, hC ws _ hws⟩
  blind := hblind

/-- Whatever is done to twins, they show the same; contexts that were seen before are written back under the marks that
each of them knows. -/
theorem twin_front (hC : config.Of C) (hblind : ∀ k f, C k f → f.Blind) :
    Simulator.front.Match (fun L => Twin config (L, False)) C (Operation.Neutral C) Simulator.front := by
  have hmatch := twin_match hC hblind
  rw [← front_machine]
  refine ⟨fun L k => hmatch.surface (L, False) k, fun L c d args hcd hc => hmatch.call (L, False) hcd hc args,
    fun L op hop => hmatch.perform (L, False) (fun c args h => ?_) fun hcalls => twin_rest hcalls fun g hg => ?_,
    fun L x c hx => ?_, fun L s t hst => ⟨hst.context.symm, hst.remember⟩⟩
  · rw [h] at hop
    exact hop
  · rw [hg] at hop
    exact hop
  · have hg : Handed.Tied L ⟨c, some x.1⟩ ⟨c, some x.2⟩ := ⟨rfl, .inr ⟨x, hx, rfl, rfl⟩⟩
    exact (twin_write hg).mono fun r r' h => by rw [h]

end

end

end Simulator
end CircuitHarness
