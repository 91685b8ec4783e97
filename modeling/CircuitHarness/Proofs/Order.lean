import CircuitHarness.Proofs.Keeping
import CircuitHarness.Proofs.Log

/-! What the log of a run tells: calls begin and end like brackets, an impure call whose circuit comes to a result
commits once, as the last thing it does and exactly what the circuit left behind, and nothing else commits. Every circuit
is one of the contract that its dispatcher was built over, and runs on what was last committed or written. -/
namespace CircuitHarness

namespace Logged

def latest (first : CircuitContext) : List Event → CircuitContext
  | [] => first
  | .committed c :: _ => c
  | .wrote c :: _ => c
  | _ :: log => latest first log

def closing (b : Bound Circuit) : Came → List Event
  | .ok (_, c) =>
    match b.kind with
    | .pure => []
    | .impure => [.committed c]
  | .error _ => []

def cameTo (o : Outcome Logged (Except Failure Value × Handed)) : Came :=
  o.result.map fun x => (x.1, x.2.context)

/-- The circuit was run on the context given and came to that, whoever answered what it asked for. -/
def Ran (b : Bound Circuit) (args : List Value) (given : CircuitContext) (came : Came) : Prop :=
  ∃ (sv : Services Logged) (g : Handed) (l : Logged), g.context = given ∧
    came = cameTo ((b.circuit given args).run sv g l)

/-- Every call that began has ended, after all calls made meanwhile, and was followed by its commit if there was to be
one; there are no other commits. -/
inductive Balanced : List Event → Prop where
  | nil : Balanced []
  | built {m : Mark} {k : CircuitKind} {a : Artifact} {log : List Event} (h : Balanced log) :
    Balanced (.built m k a :: log)
  | wrote {c : CircuitContext} {log : List Event} (h : Balanced log) : Balanced (.wrote c :: log)
  | call {m : Mark} {b : Bound Circuit} {args : List Value} {given : CircuitContext}
    {came : Came} {inner log : List Event} (hran : Ran b args given came)
    (hinner : Balanced inner) (h : Balanced log) :
    Balanced (closing b came ++ .ended b came :: (inner ++ .began m b args given :: log))

def Told (m : Mark) (b : Bound Circuit) (args : List Value) (log log' : List Event) (answer : Except Failure Value) :
    Prop :=
  (∃ e, answer = .error e ∧ log' = log) ∨
    ∃ given came inner, Ran b args given came ∧ Balanced inner ∧ answer = came.bind Prod.fst ∧
      log' = closing b came ++ .ended b came :: (inner ++ .began m b args given :: log)

/-- The circuit is the one that goes by its name in the contract that the dispatcher of the mark was built over. -/
def Sourced (log : List Event) (m : Mark) (b : Bound Circuit) : Prop :=
  ∃ a, .built m b.kind a ∈ log ∧ (a.circuits b.kind).get? b.name = some b.circuit

/-- Every dispatcher was built over a contract of the configuration, under a mark of its own; every circuit that ran
comes from the dispatcher named, and was handed what was then the latest context, coin records and their key apart. -/
def Consistent (config : Config) (first : CircuitContext) : List Event → Prop
  | [] => True
  | .built m _ a :: log =>
    (∃ ws, config.contract ws = .ok a) ∧ (∀ k' a', .built m k' a' ∉ log) ∧ Consistent config first log
  | .began m b _ given :: log =>
    Sourced log m b ∧ given = { latest first log with localState := given.localState } ∧ Consistent config first log
  | _ :: log => Consistent config first log

def Recorded (log : List Event) : Surface → Prop
  | .dispatcher m d => ∃ a, .built m d.kind a ∈ log ∧ d.circuits = a.circuits d.kind
  | .standIn _ => True

def SourcedCallable (log : List Event) : Callable → Prop
  | .bound m b => Sourced log m b
  | .standIn .. => True

section
variable {log log' : List Event} {first : CircuitContext} {config : Config}

theorem Balanced.ran (h : Balanced log) {b : Bound Circuit} {came : Came} (he : .ended b came ∈ log) :
    ∃ args given, Ran b args given came := by
  induction h with
  | nil => cases he
  | built _ ih | wrote _ ih =>
    obtain he | he := List.mem_cons.mp he
    · cases he
    · exact ih he
  | @call m b' args given came' inner log hran _ _ ihinner ih =>
    obtain he | he := List.mem_append.mp he
    · obtain ⟨k, name, f⟩ := b'
      cases came' with
      | error e => cases he
      | ok x => cases k <;> simp [closing] at he
    · obtain he | he := List.mem_cons.mp he
      · cases he
        exact ⟨args, given, hran⟩
      · obtain he | he := List.mem_append.mp he
        · exact ihinner he
        · obtain he | he := List.mem_cons.mp he
          · cases he
          · exact ih he

theorem Ran.failed {b : Bound Circuit} {args : List Value} {given : CircuitContext} {came : Came} {e : Failure}
    (h : Ran b args given came) (hb : b.circuit.Whole) (he : came.bind Prod.fst = .error e) : came = .error e := by
  obtain ⟨sv, g, l, -, rfl⟩ := h
  rw [cameTo] at he ⊢
  cases hx : ((b.circuit given args).run sv g l).result with
  | error f =>
    rw [hx] at he
    cases he
    rfl
  | ok x =>
    obtain ⟨w, hw⟩ := Program.run_whole (hb given args) hx
    rw [hx] at he
    have hbad : (.ok w : Except Failure Value) = .error e := hw.symm.trans he
    cases hbad

theorem Recorded.mono {x : Surface} (h : Recorded log x) (hl : log <:+ log') : Recorded log' x := by
  cases x with
  | standIn label => trivial
  | dispatcher m d =>
    obtain ⟨a, hm, ha⟩ := h
    exact ⟨a, hl.subset hm, ha⟩

theorem SourcedCallable.mono {c : Callable} (h : SourcedCallable log c) (hl : log <:+ log') :
    SourcedCallable log' c := by
  cases c with
  | standIn label name => trivial
  | bound m b =>
    obtain ⟨a, hm, ha⟩ := h
    exact ⟨a, hl.subset hm, ha⟩

theorem Recorded.find {x : Surface} (h : Recorded log x) {name : Value} {route : Route} {c : Callable}
    (hc : x.find name route = .ok c) : SourcedCallable log c := by
  cases x with
  | standIn label => cases route <;> cases hc <;> trivial
  | dispatcher m d =>
    obtain ⟨b, rfl, hk, hb⟩ := Surface.find_spec hc
    obtain ⟨a, hm, ha⟩ := h
    refine ⟨a, hk ▸ hm, ?_⟩
    rw [hk, ← ha]
    exact hb

theorem Told.grown {m : Mark} {b : Bound Circuit} {args : List Value} {answer : Except Failure Value}
    (h : Told m b args log log' answer) : log <:+ log' := by
  obtain ⟨e, -, rfl⟩ | ⟨given, came, inner, -, -, -, rfl⟩ := h
  · exact List.suffix_refl _
  · have hbegan : log <:+ inner ++ .began m b args given :: log :=
      (List.suffix_cons _ _).trans (List.suffix_append _ _)
    exact hbegan.trans ((List.suffix_cons _ _).trans (List.suffix_append _ _))

theorem consistent_closing (b : Bound Circuit) (came : Came) (h : Consistent config first log) :
    Consistent config first (closing b came ++ .ended b came :: log) := by
  cases came with
  | error e => exact h
  | ok x =>
    simp only [closing]
    cases b.kind <;> exact h

theorem mem_closing {b : Bound Circuit} {came : Came} {m : Mark} {k : CircuitKind} {a : Artifact}
    (h : .built m k a ∈ closing b came ++ .ended b came :: log) : .built m k a ∈ log := by
  cases came with
  | error e => simpa [closing] using h
  | ok x =>
    simp only [closing] at h
    cases hb : b.kind <;> simpa [hb] using h

end

/-- The log tells of the simulator beside it, and every call that began since `base` has ended. -/
structure InOrder (config : Config) (first : CircuitContext) (base : List Event) (l : Logged) : Prop where
  balanced : ∃ inner, l.log = inner ++ base ∧ Balanced inner
  consistent : Consistent config first l.log
  context : l.host.context = latest first l.log
  marks : ∀ m k a, .built m k a ∈ l.log → m.maker = l.host.manager.maker ∧ m.serial < l.host.dispatchers
  cached : ∀ k x, l.host.cache.slot k = some (some x) → Recorded l.log x
  made : ∃ ws, config.contract ws = .ok l.host.contract
  config : l.host.config = config

variable {config : Config} {first : CircuitContext} {base : List Event} {l : Logged} {s : Simulator}

namespace InOrder

theorem move (h : InOrder config first base l) {c : Option CircuitContext} (hcontext : s.context = c.getD l.host.context)
    (hcache : ∀ k x, s.cache.slot k = some (some x) → Recorded l.log x) (hdispatchers : s.dispatchers = l.host.dispatchers)
    (hmaker : s.manager.maker = l.host.manager.maker) (hmade : ∃ ws, config.contract ws = .ok s.contract)
    (hconfig : s.config = l.host.config) : InOrder config first base { l.noting c with host := s } := by
  have hbuilt (m : Mark) (k : CircuitKind) (a : Artifact) (hm : .built m k a ∈ (l.noting c).log) :
      .built m k a ∈ l.log := by
    cases c <;> simpa [noting] using hm
  have hgrown : l.log <:+ (l.noting c).log := by cases c <;> simp [noting]
  obtain ⟨inner, hinner, hbalanced⟩ := h.balanced
  refine ⟨?_, ?_, ?_, fun m k a hm => ?_, fun k x hx => (hcache k x hx).mono hgrown, hmade, hconfig.trans h.config⟩
  · cases c with
    | none => exact ⟨inner, hinner, hbalanced⟩
    | some c => exact ⟨_ :: inner, congrArg (List.cons _) hinner, .wrote hbalanced⟩
  · cases c <;> exact h.consistent
  · cases c with
    | none => exact hcontext.trans h.context
    | some c => exact hcontext
  · rw [hmaker, hdispatchers]
    exact h.marks m k a (hbuilt m k a hm)

theorem same (h : InOrder config first base l)
    (hs : s = { l.host with
      manager := { l.host.manager with made := s.manager.made }
      caller := s.caller
      persistentCaller := s.persistentCaller
      pending := s.pending }) : InOrder config first base { l with host := s } := by
  refine h.move (c := none) ?_ ?_ ?_ ?_ ?_ ?_
  · rw [hs]; rfl
  · rw [hs]; exact h.cached
  · rw [hs]
  · rw [hs]
  · rw [hs]; exact h.made
  · rw [hs]

end InOrder

def Grows (l l' : Logged) : Prop := l.log <:+ l'.log

instance : Std.Refl Grows := ⟨fun l => List.suffix_refl l.log⟩
instance : Trans Grows Grows Grows := ⟨List.IsSuffix.trans⟩

theorem ready_slot {c : Cache Surface} {k : CircuitKind} {x : Surface} (h : c.ready k = some x) :
    c.slot k = some (some x) := by
  have hl : c.live k = some (some x) := Option.join_eq_some_iff.mp h
  rw [Cache.live] at hl
  split at hl
  · exact hl
  · cases hl

def next (k : CircuitKind) (l : Logged) : Surface :=
  .dispatcher ⟨l.host.manager.maker, l.host.dispatchers⟩ ⟨k, l.host.contract.circuits k⟩

theorem InOrder.build (h : InOrder config first base l) (k : CircuitKind) :
    InOrder config first base ⟨{ l.host with
        cache := { (l.host.cache.counted k).fill (some (l.next k)) k with valid := true }
        dispatchers := l.host.dispatchers+1 },
      .built ⟨l.host.manager.maker, l.host.dispatchers⟩ k l.host.contract :: l.log⟩ := by
  obtain ⟨inner, hinner, hbalanced⟩ := h.balanced
  refine ⟨⟨_ :: inner, congrArg (List.cons _) hinner, .built hbalanced⟩, ⟨h.made, fun k' a' hm => ?_, h.consistent⟩,
    h.context, fun m j a hm => ?_, fun j y hy => ?_, h.made, h.config⟩
  · exact Nat.lt_irrefl _ (h.marks _ k' a' hm).2
  · obtain hm | hm := List.mem_cons.mp hm
    · cases hm
      exact ⟨rfl, Nat.lt_succ_self _⟩
    · exact ⟨(h.marks m j a hm).1, Nat.lt_succ_of_lt (h.marks m j a hm).2⟩
  · have hslot : ((l.host.cache.counted k).fill (some (l.next k)) k).slot j = some (some y) := by
      cases j <;> exact hy
    rw [Cache.slot_fill, Cache.slot_counted] at hslot
    split at hslot
    · cases hslot
      exact ⟨_, List.mem_cons_self, rfl⟩
    · exact (h.cached j y hslot).mono (List.suffix_cons _ _)

theorem ends_surface [Limits] (h : InOrder config first base l) (k : CircuitKind) :
    Ends Grows (InOrder config first base) (fun l x => Recorded l.log x) l (machine.surface k l) := by
  obtain ⟨hr, hs⟩ := surface_eq k l
  have hhost := (Simulator.surface_eq l.host k).2
  cases hready : l.host.cache.ready k with
  | some x =>
    have hlog : l.lookedUp k = l.log := by rw [lookedUp, hready]; rfl
    have hoffered : l.host.offered k = x := by rw [Simulator.offered, hready]; rfl
    simp only [hready, Option.isSome_some, and_true, reduceCtorEq, and_false, or_false] at hhost
    rw [hlog, hhost] at hs
    have hcached (j : CircuitKind) (y : Surface) (hy : (l.host.cache.counted k).slot j = some (some y)) :
        Recorded l.log y := h.cached j y ((Cache.slot_counted _ _ _).symm.trans hy)
    refine ⟨?_, ?_, fun y hy => ?_⟩
    · rw [hs]
      exact h.move (c := none) rfl hcached rfl rfl h.made rfl
    · rw [hs]
      exact List.suffix_refl l.log
    · rw [hr, hoffered] at hy
      cases hy
      rw [hs]
      exact h.cached k x (ready_slot hready)
  | none =>
    have hlog : l.lookedUp k = .built ⟨l.host.manager.maker, l.host.dispatchers⟩ k l.host.contract :: l.log := by
      rw [lookedUp, hready]
      rfl
    have hoffered : l.host.offered k = l.next k := by
      rw [Simulator.offered, hready]
      rfl
    simp only [hready, Option.isSome_none, and_true, Bool.false_eq_true, and_false, false_or, hoffered] at hhost
    rw [hlog, hhost] at hs
    refine ⟨?_, ?_, fun y hy => ?_⟩
    · rw [hs]
      exact h.build k
    · rw [hs]
      exact List.suffix_cons _ _
    · rw [hr, hoffered] at hy
      cases hy
      rw [hs]
      exact ⟨_, List.mem_cons_self, rfl⟩

theorem InOrder.source (h : InOrder config first base l) (k : CircuitKind) :
    InOrder config first base { l with host := (Simulator.source k l.host).state } := by
  cases k with
  | pure => exact h
  | impure =>
    have hs : (Simulator.source .impure l.host).state = l.host.consumed := Simulator.callerContext_state l.host
    rw [hs]
    exact h.same rfl

theorem source_given {k : CircuitKind} {s : Simulator} {g : Handed} (h : (Simulator.source k s).result = .ok g) :
    g.context = { s.context with localState := g.context.localState } := by
  cases k with
  | pure =>
    cases h
    rfl
  | impure => exact (Simulator.handed_spec h).2

def settled (b : Bound Circuit) (o : Outcome Logged (Except Failure Value × Handed)) : Logged where
  host := match b.kind, o.result with
    | .impure, .ok x => (Simulator.commit x.2 o.state.host).state
    | _, _ => o.state.host
  log := closing b (cameTo o) ++ .ended b (cameTo o) :: o.state.log

variable {m : Mark} {b : Bound Circuit} {args : List Value}

theorem bound_unread [Limits] (sv : Services Logged) (m : Mark) (args : List Value) {e : Failure}
    (h : (Simulator.source b.kind l.host).result = .error e) :
    (machine.bound sv m b args l).result = .error e ∧
      (machine.bound sv m b args l).state = { l with host := (Simulator.source b.kind l.host).state } := by
  simp only [machine, Bound.call, source, onHost, Action.bind_state, Action.bind_result, Action.within_result,
    Action.within_state, h, and_self]

theorem bound_ran [Limits] (sv : Services Logged) (m : Mark) (args : List Value) {g : Handed}
    (h : (Simulator.source b.kind l.host).result = .ok g) :
    let o := (b.circuit g.context args).run sv g
      ⟨(Simulator.source b.kind l.host).state, .began m b args g.context :: l.log⟩
    (machine.bound sv m b args l).result = (cameTo o).bind Prod.fst ∧
      (machine.bound sv m b args l).state = settled b o := by
  simp only [machine, Bound.call, source, onHost, record, Action.bind_state, Action.bind_result, Action.within_result,
    Action.within_state, h, Action.update_result, Action.update_state, Action.pure_result, Action.pure_state,
    Action.note_result, Action.note_state, run_eq, settled, cameTo]
  cases ((b.circuit g.context args).run sv g
      ⟨(Simulator.source b.kind l.host).state, .began m b args g.context :: l.log⟩).result with
  | error e => cases b.kind <;> exact ⟨rfl, rfl⟩
  | ok x =>
    cases hk : b.kind with
    | pure | impure =>
      simp only [closing, hk, Except.map]
      exact ⟨Action.lift_result x.1 _, Action.lift_state x.1 _⟩

/-- Once a circuit has begun, the log is in order again when all that has begun since has ended. -/
theorem InOrder.begin (h : InOrder config first base l) (hb : Sourced l.log m b) (args : List Value) {g : Handed}
    (hg : (Simulator.source b.kind l.host).result = .ok g) :
    InOrder config first (.began m b args g.context :: l.log)
      ⟨(Simulator.source b.kind l.host).state, .began m b args g.context :: l.log⟩ := by
  have hsame := h.source b.kind
  refine ⟨⟨[], rfl, .nil⟩, ⟨hb, ?_, h.consistent⟩, hsame.context, fun m k a hm => ?_, fun k x hx => ?_, hsame.made,
    hsame.config⟩
  · rw [← h.context]
    exact source_given hg
  · obtain hm | hm := List.mem_cons.mp hm
    · cases hm
    · exact hsame.marks m k a hm
  · exact (hsame.cached k x hx).mono (List.suffix_cons _ _)

theorem settled_host {o : Outcome Logged (Except Failure Value × Handed)} (b : Bound Circuit)
    (ho : o.state.host.context = latest first o.state.log) :
    let s := (settled b o).host
    s.cache = o.state.host.cache ∧ s.dispatchers = o.state.host.dispatchers ∧
      s.manager.maker = o.state.host.manager.maker ∧ s.contract = o.state.host.contract ∧
      s.config = o.state.host.config ∧ s.context = latest first (settled b o).log := by
  simp only [settled, cameTo]
  cases o.result with
  | error e => cases b.kind <;> exact ⟨rfl, rfl, rfl, rfl, rfl, ho⟩
  | ok x =>
    cases hk : b.kind with
    | pure => simpa [closing, hk, Except.map, latest] using ho
    | impure =>
      simp only [closing, hk, Except.map]
      exact ⟨rfl, rfl, (Simulator.hold_made _ _).1, rfl, rfl, Simulator.hold_context _ _⟩

theorem InOrder.settle (h : InOrder config first base l) {given : CircuitContext}
    {o : Outcome Logged (Except Failure Value × Handed)} (hran : Ran b args given (cameTo o))
    (ho : InOrder config first (.began m b args given :: l.log) o.state) :
    InOrder config first base (settled b o) := by
  obtain ⟨inner, hinner, hbalanced⟩ := h.balanced
  obtain ⟨run, hrun, hinside⟩ := ho.balanced
  obtain ⟨hcache, hdispatchers, hmaker, hcontract, hconfig, hcontext⟩ := settled_host b ho.context
  have hlog : o.state.log <:+ (settled b o).log := (List.suffix_cons _ _).trans (List.suffix_append _ _)
  have hcall : Balanced (closing b (cameTo o) ++ .ended b (cameTo o) :: (run ++ .began m b args given :: inner)) :=
    .call hran hinside hbalanced
  refine ⟨⟨_, ?_, hcall⟩, consistent_closing _ _ ho.consistent, hcontext, fun m k a hm => ?_, fun k x hx => ?_,
    hcontract ▸ ho.made, hconfig.trans ho.config⟩
  · rw [settled, hrun, hinner]
    simp only [List.append_assoc, List.cons_append]
  · rw [hmaker, hdispatchers]
    exact ho.marks m k a (mem_closing hm)
  · rw [hcache] at hx
    exact (ho.cached k x hx).mono hlog

theorem InOrder.bound [Limits] {sv : Services Logged} (hsv : sv.Keep Grows (InOrder config first))
    (h : InOrder config first base l)
    (hb : Sourced l.log m b) (args : List Value) :
    InOrder config first base (machine.bound sv m b args l).state ∧
      Told m b args l.log (machine.bound sv m b args l).state.log (machine.bound sv m b args l).result := by
  cases hg : (Simulator.source b.kind l.host).result with
  | error e =>
    obtain ⟨hr, hs⟩ := bound_unread sv m args hg
    rw [hr, hs]
    exact ⟨h.source b.kind, .inl ⟨e, rfl, rfl⟩⟩
  | ok g =>
    obtain ⟨hr, hs⟩ := bound_ran sv m args hg
    have hrun := (hsv.run g (b.circuit g.context args) (h.begin hb args hg)).keeps
    obtain ⟨inner, hinner, hbalanced⟩ := hrun.balanced
    have hran : Ran b args g.context (cameTo ((b.circuit g.context args).run sv g
        ⟨(Simulator.source b.kind l.host).state, .began m b args g.context :: l.log⟩)) := ⟨sv, g, _, rfl, rfl⟩
    rw [hr, hs]
    exact ⟨h.settle hran hrun, .inr ⟨_, _, inner, hran, hbalanced, rfl, by rw [settled, hinner]⟩⟩

theorem keeps_order [Limits] : machine.Keep Grows (InOrder config first) (fun l => Recorded l.log)
    (fun l => SourcedCallable l.log) where
  surface _ _ k h := ends_surface h k
  find _ _ _ _ _ hx hc := hx.find hc
  surfaceMono _ _ _ hl hx := hx.mono hl
  callableMono _ _ _ hl hc := hc.mono hl
  bound sv hsv base l m b args h hb := by
    obtain ⟨horder, htold⟩ := InOrder.bound hsv h hb args
    exact ⟨horder, htold.grown, fun _ _ => trivial⟩
  mark _ l h := ⟨h.same rfl, List.suffix_refl l.log, fun _ _ => trivial⟩
  asCaller _ l _ h := ⟨h.same rfl, List.suffix_refl l.log, fun _ _ => trivial⟩

end Logged
end CircuitHarness
