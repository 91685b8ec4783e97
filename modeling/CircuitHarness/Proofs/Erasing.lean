import CircuitHarness.Proofs.Twin
import CircuitHarness.Proofs.Uncached

/-! Pure calls, lookups and reads can be left out of a run. What remains shows the same: a pure call may give marks away
and fill the cache, and nothing later depends on either. -/
namespace CircuitHarness

structure Circuit.Plain (k : CircuitKind) (f : Circuit) : Prop where
  blind : f.Blind
  quiet : k = .pure → f.Quiet

def Operation.Reads : Operation → Prop
  | .current | .publicState | .privateState | .contractState | .witnessContext | .witnesses => True
  | _ => False

/-- Can be left out: it calls a pure circuit, or finds none to call, or looks up a dispatcher that is not kept, or drops
those that are cached, or reads. -/
def Move.Erasable (d : Desk Simulator) : Move → Prop
  | .access _ keep => keep = false
  | .through place name _ route =>
    ∀ x, d.kept[place]? = some x → x.Of (fun k _ => k = .pure) ∨ ∃ e, x.find name route = .error e
  | .operate (.call k name _ route) => k = .pure ∨ ∃ e, (d.host.offered k).find name route = .error e
  | .operate (.callHeld c _) => c.Of fun k _ => k = .pure
  | .operate .resetDispatchers => True
  | .operate op => op.Reads
  | .save | .restore _ => False

def Move.callee (d : Desk Simulator) : Move → Option Callable
  | .operate op => (op.callee d.host).map Prod.fst
  | .through place name _ route => d.kept[place]?.bind fun x => (x.find name route).toOption
  | _ => none

def Callable.seen (s : Simulator) : Callable → Option (Except Failure CircuitContext)
  | .bound _ b =>
    match b.kind with
    | .pure => some (.ok s.context)
    | .impure => some (s.handed.map Handed.context)
  | .standIn .. => none

/-- What is seen of a move: its answer, the context its circuit runs on, and the context that is current afterwards. -/
structure Sight where
  answer : Except Failure Shown
  seen : Option (Except Failure CircuitContext)
  current : CircuitContext

namespace Simulator
open CircuitHarness.Action (Relates)

section
variable [Limits]

def sight (d : Desk Simulator) (m : Move) : Sight where
  answer := (Simulator.front.move m d).result
  seen := (m.callee d).bind (Callable.seen d.host)
  current := (Simulator.front.after d m).host.context

def sights : List (Move × Bool) → Desk Simulator → List Sight
  | [], _ => []
  | (m, true) :: ms, d => sight d m :: sights ms (Simulator.front.after d m)
  | (m, false) :: ms, d => sights ms (Simulator.front.after d m)

/-- Every move of a run that is not looked at can be left out where it stands. -/
def Leavable : List (Move × Bool) → Desk Simulator → Prop
  | [], _ => True
  | (m, looked) :: ms, d => (looked = false → m.Erasable d) ∧ Leavable ms (Simulator.front.after d m)

end

variable {config : Config} {C : CircuitKind → Circuit → Prop} {L : List (Mark × Mark)} {s t : Simulator}
  {d e : Desk Simulator}

theorem idle_reads [Limits] {op : Operation} (h : op.Reads) (s : Simulator) : s.after op = s := by
  cases op with
  | publicState | witnessContext => exact bind_stays (ask_state _ s) fun _ => rfl
  | current | privateState | contractState | witnesses => rfl
  | _ => cases h

theorem Rooted.pureQuiet_of (hs : s.Rooted config) (hC : config.Of C) (hquiet : ∀ f, C .pure f → f.Quiet) :
    s.PureQuiet := by
  obtain ⟨ws, hws⟩ := hs.contract
  exact fun name f hf => hquiet f (hC ws _ hws .pure name f hf)

theorem Twin.reset_left {p : Prop} (h : Twin config (L, p) s t) (hclear : s.Clear) :
    Twin config (L, p) (resetDispatchers s).state t := by
  refine h.steady (steady_resetDispatchers s) (.refl t) ?_ h.contract ?_ fun k => ?_
  · rw [h.rest]
    rfl
  · rw [h.rest]
    rfl
  · obtain ⟨m, hm⟩ := hclear.offered h.left.sound k
    have hk := h.offers k
    rw [hm] at hk
    simp only [offered, resetDispatchers, onCache, Action.within_state, ready_invalidated, Option.getD_none]
    exact hk.trans (.dispatcher _ _ _)

section
variable [Limits]

theorem idle_call (hs : s.Rooted config) (hC : config.Of C) (hquiet : ∀ f, C .pure f → f.Quiet) {c : Callable}
    (hpure : c.Of fun k _ => k = .pure) (hc : c.Of C) (args : List Value) : Idle s (call c args s).state := by
  refine idle_call_pure hs.sound (hs.pureQuiet_of hC hquiet) ?_ args
  cases c with
  | standIn label name => trivial
  | bound m b =>
    have hb : b.kind = .pure := hpure
    exact ⟨hb, hquiet _ (hb ▸ hc)⟩

theorem idle_perform_call (hs : s.Rooted config) (hC : config.Of C) (hquiet : ∀ f, C .pure f → f.Quiet)
    {k : CircuitKind} {name : Value} {args : List Value} {route : Route}
    (h : k = .pure ∨ ∃ e, (s.offered k).find name route = .error e) : Idle s (s.after (.call k name args route)) := by
  cases hf : (s.offered k).find name route with
  | error e =>
    have hmiss : (Operation.call k name args route).Misses s := ⟨e, hf⟩
    exact (perform_misses hs.sound hmiss).2.1
  | ok c =>
    obtain rfl | ⟨e, he⟩ := h
    · have hcallee : (Operation.call .pure name args route).callee s = some (c, args) := by
        simp only [Operation.callee, hf, Except.toOption, Option.map_some]
      obtain ⟨ws, hws⟩ := hs.contract
      have hC' : s.contract.Of C := hC ws _ hws
      have hc : c.Of C := hs.sound.find (hC' .pure) hf
      have hpure : c.Of fun k _ => k = .pure := hs.sound.find (fun _ _ _ => rfl) hf
      obtain ⟨t, hi, -, ht⟩ := perform_callee hs.sound hcallee
      rw [after, ht]
      exact hi.trans (idle_call (hs.later hi.later) hC hquiet hpure hc args)
    · rw [hf] at he
      cases he

/-- What is left out would have changed nothing on the desk but the host, and that only by standing still or by dropping
its dispatchers. -/
theorem erasable_spec {m : Move} (hs : d.host.Rooted config) (hC : config.Of C) (hquiet : ∀ f, C .pure f → f.Quiet)
    (hkept : ∀ x ∈ d.kept, x.Of C) (hheld : ∀ c args, m = .operate (.callHeld c args) → c.Of C) (hm : m.Erasable d) :
    ∃ u, Simulator.front.after d m = { d with host := u } ∧ (Idle d.host u ∨ u = (resetDispatchers d.host).state) := by
  cases m with
  | access k keep =>
    have hkeep : keep = false := hm
    subst hkeep
    exact ⟨_, Simulator.front.after_access k d, .inl (idle_surface d.host k)⟩
  | through place name args route =>
    rw [Simulator.front.after_through]
    cases hx : d.kept[place]? with
    | none => exact ⟨d.host, rfl, .inl (.refl _)⟩
    | some x =>
      cases hf : x.find name route with
      | error e =>
        simp only [Option.bind_some, hf, Except.toOption]
        exact ⟨d.host, rfl, .inl (.refl _)⟩
      | ok c =>
        have hof : x.Of C := hkept x (List.mem_of_getElem? hx)
        obtain hpure | ⟨e, he⟩ := hm x hx
        · simp only [Option.bind_some, hf, Except.toOption]
          exact ⟨_, rfl, .inl (idle_call hs hC hquiet (hpure.find hf) (hof.find hf) args)⟩
        · rw [hf] at he
          cases he
  | save => cases hm
  | restore place => cases hm
  | operate op =>
    have hreads {op : Operation} (h : op.Reads) : ∃ u, Simulator.front.after d (.operate op) = { d with host := u } ∧
        (Idle d.host u ∨ u = (resetDispatchers d.host).state) :=
      ⟨d.host, (Simulator.front.after_operate op d).trans (congrArg (Desk.mk · d.kept d.saved) (idle_reads h d.host)),
        .inl (.refl _)⟩
    cases op with
    | call k name args route =>
      exact ⟨_, Simulator.front.after_operate _ d, .inl (idle_perform_call hs hC hquiet hm)⟩
    | callHeld c args =>
      refine ⟨_, Simulator.front.after_operate _ d, .inl ?_⟩
      have hi := idle_call hs hC hquiet hm (hheld c args rfl) args
      rw [← after_callHeld] at hi
      exact hi
    | resetDispatchers =>
      refine ⟨_, Simulator.front.after_operate _ d, .inr ?_⟩
      exact tell_state _ _
    | current | publicState | privateState | contractState | witnessContext | witnesses => exact hreads trivial
    | _ => cases hm

end

theorem Twin.seen {i : List (Mark × Mark) × Prop} (h : Twin config i s t) {c c' : Callable} (hc : c.Same c') :
    c'.seen t = c.seen s := by
  cases hc with
  | standIn label name => rfl
  | bound m n b =>
    simp only [Callable.seen]
    cases b.kind with
    | pure =>
      dsimp only
      rw [h.context]
    | impure =>
      have hhanded := h.handed
      dsimp only
      generalize s.handed = x at hhanded ⊢
      generalize t.handed = y at hhanded ⊢
      cases hhanded with
      | error e => rfl
      | ok hg => exact congrArg (some ∘ Except.ok) hg.1.symm

variable (config C L) in
def TwinDesks (d e : Desk Simulator) : Prop := Desk.Match (fun L => Twin config (L, False)) C L d e

theorem TwinDesks.callee (h : TwinDesks config C L d e) (m : Move) :
    m.callee d = none ∧ m.callee e = none ∨
      ∃ c c', m.callee d = some c ∧ m.callee e = some c' ∧ c.Same c' := by
  have found {x y : Surface} (hxy : x.Same y) (name : Value) (route : Route) :
      (x.find name route).toOption = none ∧ (y.find name route).toOption = none ∨
        ∃ c c', (x.find name route).toOption = some c ∧ (y.find name route).toOption = some c' ∧ c.Same c' := by
    obtain ⟨f, hx, hy⟩ | ⟨c, c', hx, hy, hsame⟩ := hxy.find name route
    · rw [hx, hy]
      exact .inl ⟨rfl, rfl⟩
    · rw [hx, hy]
      exact .inr ⟨c, c', rfl, rfl, hsame⟩
  cases m with
  | access k keep => exact .inl ⟨rfl, rfl⟩
  | save => exact .inl ⟨rfl, rfl⟩
  | restore place => exact .inl ⟨rfl, rfl⟩
  | through place name args route =>
    obtain ⟨hx, hy⟩ | ⟨x, y, hx, hy, hxy⟩ := forall₂_at h.kept place
    · simp only [Move.callee, hx, hy]
      exact .inl ⟨rfl, rfl⟩
    · simp only [Move.callee, hx, hy]
      exact found hxy.1 name route
  | operate op =>
    cases op with
    | callHeld c args => exact .inr ⟨c, c, rfl, rfl, .refl c⟩
    | call k name args route =>
      simp only [Move.callee, Operation.callee, Option.map_map, Function.comp_def, Option.map_id']
      exact found (h.host.offers k).symm name route
    | _ => exact .inl ⟨rfl, rfl⟩

theorem TwinDesks.sight [Limits] (hC : config.Of C) (hblind : ∀ k f, C k f → f.Blind) (h : TwinDesks config C L d e)
    {m : Move} (hm : ∀ op, m = .operate op → op.Neutral C) :
    sight d m = sight e m ∧ ∃ L, TwinDesks config C L (Simulator.front.after d m) (Simulator.front.after e m) := by
  obtain ⟨hr, L', hnext⟩ := (twin_front hC hblind).move h hm
  have hseen : (m.callee d).bind (Callable.seen d.host) = (m.callee e).bind (Callable.seen e.host) := by
    obtain ⟨hd, he⟩ | ⟨c, c', hd, he, hsame⟩ := h.callee m
    · rw [hd, he]
      rfl
    · rw [hd, he]
      exact (h.host.seen hsame).symm
  refine ⟨?_, L', hnext⟩
  rw [Simulator.sight, Simulator.sight, hr.eq, hseen, hnext.host.context]

theorem TwinDesks.kept_of (h : TwinDesks config C L d e) : ∀ x ∈ d.kept, x.Of C := by
  intro x hx
  obtain ⟨n, hn, rfl⟩ := List.mem_iff_getElem.mp hx
  obtain ⟨hd, -⟩ | ⟨y, z, hd, -, hyz⟩ := forall₂_at h.kept n
  · rw [List.getElem?_eq_getElem hn] at hd
    cases hd
  · rw [List.getElem?_eq_getElem hn] at hd
    cases hd
    exact hyz.2

section
variable [Limits]

theorem TwinDesks.leave (hC : config.Of C) (hquiet : ∀ f, C .pure f → f.Quiet) (h : TwinDesks config C L d e)
    (hclear : d.host.Clear) {m : Move} (hm : ∀ op, m = .operate op → op.Neutral C) (herase : m.Erasable d) :
    TwinDesks config C L (Simulator.front.after d m) e := by
  have hheld (c : Callable) (args : List Value) (hop : m = .operate (.callHeld c args)) : c.Of C := hm _ hop
  obtain ⟨u, hu, hidle | hreset⟩ := erasable_spec h.host.left hC hquiet h.kept_of hheld herase
  · rw [hu]
    exact ⟨h.host.idle hidle (.refl _), h.kept, h.saved⟩
  · rw [hu, hreset]
    exact ⟨h.host.reset_left hclear, h.kept, h.saved⟩

/-- A run side by side with one in which what can be left out is. -/
theorem TwinDesks.sights (hC : config.Of C) (hblind : ∀ k f, C k f → f.Blind) (hquiet : ∀ f, C .pure f → f.Quiet)
    (h : TwinDesks config C L d e) {M : List (Mark × Mark)} {u : Desk Simulator}
    (hmirror : Desk.Match Mirrors (fun _ _ => True) M d u) {ms : List (Move × Bool)}
    (hms : ∀ op looked, (Move.operate op, looked) ∈ ms → op.Neutral C ∧ ¬op.Puts) (hleave : Leavable ms d) :
    sights ms d = sights (ms.filter Prod.snd) e ∧
      ∃ L, TwinDesks config C L (Simulator.front.run (ms.map Prod.fst) d)
        (Simulator.front.run ((ms.filter Prod.snd).map Prod.fst) e) := by
  induction ms generalizing L d e M u with
  | nil => exact ⟨rfl, L, h⟩
  | cons x ms ih =>
    obtain ⟨m, looked⟩ := x
    have hm (op : Operation) (hop : m = .operate op) : op.Neutral C ∧ ¬op.Puts := hms op looked (hop ▸ List.mem_cons_self)
    have hrest (op : Operation) (looked : Bool) (hop : (Move.operate op, looked) ∈ ms) : op.Neutral C ∧ ¬op.Puts :=
      hms op looked (List.mem_cons_of_mem _ hop)
    obtain ⟨-, M', hmirror'⟩ := uncached_front.move hmirror fun op hop => (hm op hop).2
    cases looked with
    | true =>
      obtain ⟨hsight, L', hnext⟩ := h.sight hC hblind fun op hop => (hm op hop).1
      obtain ⟨hsights, hend⟩ := ih hnext hmirror' hrest hleave.2
      exact ⟨congrArg₂ List.cons hsight hsights, hend⟩
    | false =>
      exact ih (h.leave hC hquiet hmirror.host.clear (fun op hop => (hm op hop).1) (hleave.1 rfl)) hmirror' hrest hleave.2

/-- In every run of a simulator that was built, without direct puts into its cache, any of the pure calls, the lookups
that are not kept or find nothing, the resets of dispatchers and the reads can be left out. What remains answers the same
and has its circuits run on the same contexts, and in the end the callers and the current context are the same. -/
theorem erased_calls_leave_no_trace {name : String} {maker : Nat} {args options : Value} {start : Simulator}
    (hb : build name config maker args options = .ok start) (hC : config.Of Circuit.Plain) {ms : List (Move × Bool)}
    (hms : ∀ op looked, (Move.operate op, looked) ∈ ms → op.Neutral Circuit.Plain ∧ ¬op.Puts)
    (hleave : Leavable ms (Desk.start start)) :
    let whole := Simulator.front.run (ms.map Prod.fst) (Desk.start start)
    let rest := Simulator.front.run ((ms.filter Prod.snd).map Prod.fst) (Desk.start start)
    sights ms (Desk.start start) = sights (ms.filter Prod.snd) (Desk.start start) ∧
    whole.host.caller = rest.host.caller ∧ whole.host.persistentCaller = rest.host.persistentCaller ∧
    whole.host.context = rest.host.context := by
  have htwins : TwinDesks config Circuit.Plain [] (Desk.start start) (Desk.start start) :=
    ⟨.refl (Rooted.of_build hb), .nil, .nil⟩
  obtain ⟨hsights, L, hend⟩ := htwins.sights hC (fun _ _ h => h.blind) (fun _ h => h.quiet rfl) (mirrors_start hb) hms hleave
  refine ⟨hsights, ?_, ?_, hend.host.context.symm⟩
  · rw [hend.host.rest]
  · rw [hend.host.rest]

end

def setAmongReads : List (Move × Bool) :=
  [(.operate (.call .impure (.str "reset") [] .item), false), (.operate (.asCaller (some (.text "ab"))), true),
    (.operate (.call .pure (.str "scratchVal") [.int 9] .item), false), (.access .impure false, false),
    (.operate (.call .impure (.str "setVal") [.int 5] .item), true), (.operate .resetDispatchers, false),
    (.operate .publicState, false), (.operate (.call .pure (.str "getVal") [] .item), true)]

theorem setAmongReads_erased :
    let whole := Simulator.front.run (setAmongReads.map Prod.fst) (Desk.start counter)
    let rest := Simulator.front.run ((setAmongReads.filter Prod.snd).map Prod.fst) (Desk.start counter)
    sights setAmongReads (Desk.start counter) = sights (setAmongReads.filter Prod.snd) (Desk.start counter) ∧
    whole.host.caller = rest.host.caller ∧ whole.host.persistentCaller = rest.host.persistentCaller ∧
    whole.host.context = rest.host.context := by
  have hplain : Simple.config.Of Circuit.Plain := fun ws a h k name f hf =>
    ⟨Simple.blind ws a h k name f hf, fun _ => (Simple.tidy ws a h k name f hf).quiet⟩
  have hmiss : ∃ e, (counter.offered .impure).find (.str "reset") .item = .error e := ⟨_, rfl⟩
  refine erased_calls_leave_no_trace counter_built hplain (fun op looked hop => ?_) ?_
  · simp only [setAmongReads, List.mem_cons, Prod.mk.injEq, Move.operate.injEq, reduceCtorEq, false_and,
      List.not_mem_nil, or_false, false_or] at hop
    obtain ⟨rfl, -⟩ | ⟨rfl, -⟩ | ⟨rfl, -⟩ | ⟨rfl, -⟩ | ⟨rfl, -⟩ | ⟨rfl, -⟩ | ⟨rfl, -⟩ := hop <;> exact ⟨trivial, id⟩
  · exact ⟨fun _ => .inr hmiss, nofun, fun _ => .inl rfl, fun _ => rfl, nofun, fun _ => trivial, fun _ => trivial, nofun,
      trivial⟩

end Simulator
end CircuitHarness
