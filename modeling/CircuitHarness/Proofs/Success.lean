import CircuitHarness.Proofs.Failing
import CircuitHarness.Proofs.Injection
import CircuitHarness.Proofs.Sequential

/-! Runs of operations over circuits that leave their simulator alone: all that one operation can come to, and the impure
calls of a run that succeed. -/
namespace CircuitHarness

/-- A circuit found under its name in one of the contracts. -/
def Bound.From (A : Artifact → Prop) (b : Bound Circuit) : Prop :=
  ∃ a, A a ∧ (a.circuits b.kind).get? b.name = some b.circuit

def Callable.From (A : Artifact → Prop) : Callable → Prop
  | .bound _ b => b.From A
  | .standIn .. => True

def Config.Makes (config : Config) (a : Artifact) : Prop := ∃ ws, config.contract ws = .ok a

theorem Config.Of.congr {P : CircuitKind → Circuit → Prop} {c d : Config} (hP : d.Of P) (h : c.contract = d.contract) :
    c.Of P := by
  intro ws a ha
  rw [h] at ha
  exact hP ws a ha

theorem Callable.From.of {A : Artifact → Prop} {P : CircuitKind → Circuit → Prop} {c : Callable} (h : c.From A)
    (hA : ∀ a, A a → a.Of P) : c.Of P := by
  cases c with
  | bound m b =>
    obtain ⟨a, ha, hb⟩ := h
    exact hA a ha b.kind b.name b.circuit hb
  | standIn label name => trivial

namespace Operation

/-- A circuit that is called by itself was kept from a dispatcher over one of the contracts. -/
def Drawn (A : Artifact → Prop) : Operation → Prop
  | .callHeld c _ => c.From A
  | _ => True

def Unwritten : Operation → Prop
  | .write _ => False
  | _ => True

theorem Unwritten.known {op : Operation} (h : op.Unwritten) (s : Simulator) : op.Known s := by
  cases op with
  | write w => cases h
  | _ => trivial

/-- The impure circuit that is called with success, and its arguments. -/
def succeeds [Limits] (s : Simulator) (op : Operation) : Option (Bound Circuit × List Value) :=
  match op.callee s, (Simulator.perform op s).result with
  | some (.bound _ b, args), .ok _ => if b.kind = .impure then some (b, args) else none
  | _, _ => none

theorem Drawn.mono {A B : Artifact → Prop} (hAB : ∀ a, A a → B a) {op : Operation} (h : op.Drawn A) : op.Drawn B := by
  cases op with
  | callHeld c args =>
    cases c with
    | bound m b =>
      obtain ⟨a, ha, hb⟩ := h
      exact ⟨a, hAB a ha, hb⟩
    | standIn label name => trivial
  | _ => trivial

def namesCaller : Operation → Bool
  | .asCaller _ | .persistentCaller _ | .resetCaller => true
  | _ => false

end Operation

namespace Simulator

section
variable [Limits]

/-- What holds of each operation of a run in the state it meets. -/
def Throughout (P : Simulator → Operation → Prop) : List Operation → Simulator → Prop
  | [], _ => True
  | op :: ops, s => P s op ∧ Throughout P ops (s.after op)

def succeeded : List Operation → Simulator → List (Bound Circuit × List Value)
  | [], _ => []
  | op :: ops, s => (op.succeeds s).toList ++ succeeded ops (s.after op)

def successes (names : List String) (ops : List Operation) (s : Simulator) : Nat :=
  (succeeded ops s).countP (·.1.name ∈ names)

end

variable {config : Config} {A : Artifact → Prop} {s t : Simulator} {op : Operation} {m : Mark} {b : Bound Circuit}
  {args : List Value}

theorem Sound.find_from (hs : s.Sound) (hA : A s.contract) {k : CircuitKind} {name : Value} {route : Route} {c : Callable}
    (h : (s.offered k).find name route = .ok c) : c.From A := by
  cases ho : s.offered k with
  | dispatcher m d =>
    rw [ho] at h
    obtain ⟨b, rfl, hkind, hb⟩ := Surface.find_spec h
    have hd := hs.offered ho
    subst hd
    refine ⟨s.contract, hA, ?_⟩
    rw [hkind]
    exact hb
  | standIn label =>
    rw [ho] at h
    cases route <;> cases h <;> trivial

theorem Sound.callee_from (hs : s.Sound) (hA : A s.contract) (hop : op.Drawn A) {c : Callable}
    (h : op.callee s = some (c, args)) : c.From A := by
  cases op with
  | call k name as route =>
    obtain ⟨d, hd, he⟩ := Option.map_eq_some_iff.mp h
    cases he
    cases hf : (s.offered k).find name route with
    | error e => rw [hf] at hd; cases hd
    | ok c =>
      rw [hf] at hd
      cases hd
      exact hs.find_from hA hf
  | callHeld d as =>
    cases h
    exact hop
  | _ => cases h

theorem Rooted.drawn_of (hs : s.Rooted config) {P : CircuitKind → Circuit → Prop} (hP : config.Of P)
    (hop : op.Drawn config.Makes) {c : Callable} (h : op.callee s = some (c, args)) : c.Of P :=
  (hs.sound.callee_from hs.contract hop h).of fun a ⟨ws, hws⟩ => hP ws a hws

section
variable [Limits]

/-- How an impure call ends: it fails with the context read and no more, or commits what its circuit leaves behind. -/
inductive ImpureCall (s : Simulator) (op : Operation) (b : Bound Circuit) (args : List Value) : Prop where
  | failed (e : Failure) (result : (perform op s).result = .error e) (state : Idle s.consumed (s.after op))
  | committed (g : Handed) (v : Value) (left : Handed) (t u : Simulator) (handed : s.handed = .ok g)
    (ran : ((b.circuit g.context args).run (services Limits.calls) g t).result = .ok (.ok v, left))
    (result : (perform op s).result = .ok (.value v)) (idle : Idle s.consumed u)
    (state : s.after op = (commit left u).state)

theorem impureCall (hs : s.Sound) (hq : s.PureQuiet) (hc : op.callee s = some (.bound m b, args)) (hb : b.kind = .impure)
    (hquiet : b.circuit.Quiet) (hwhole : b.circuit.Whole) : ImpureCall s op b args := by
  obtain ⟨t, hi, hr, ht⟩ := perform_callee hs hc
  have hrun (g : Handed) :
      Idle t.consumed ((b.circuit g.context args).run (services Limits.calls) g t.consumed).state :=
    (still_services Limits.calls).run g (hquiet _ _) ((hi.sound hs).moved rfl rfl) (hi.pureQuiet hq)
  have hread : Idle s.consumed t.consumed := hi.consumed
  cases impureEnd (services Limits.calls) args m hb t with
  | unread e hg hres hst =>
    refine .failed e ?_ ?_
    · rw [hr, call, hres]
      rfl
    · rw [after, ht, call, hst]
      exact hread
  | failed g e hg hx hres hst =>
    refine .failed e ?_ ?_
    · rw [hr, call, hres]
      rfl
    · rw [after, ht, call, hst]
      exact hread.trans (hrun g)
  | committed g v left hg hx hres hst =>
    rw [hi.handed] at hg
    obtain ⟨w, rfl⟩ := Program.run_whole (hwhole _ _) hx
    refine .committed g w left _ _ hg hx ?_ (hread.trans (hrun g)) ?_
    · rw [hr, call, hres]
      rfl
    · rw [after, ht, call, hst]

/-- All that an operation can come to. -/
inductive OperationEnd (s : Simulator) (op : Operation) : Prop where
  | committed (m : Mark) (b : Bound Circuit) (args : List Value) (callee : op.callee s = some (.bound m b, args))
    (kind : b.kind = .impure) (succeeds : op.succeeds s = some (b, args)) (g : Handed) (v : Value) (left : Handed)
    (t u : Simulator) (handed : s.handed = .ok g)
    (ran : ((b.circuit g.context args).run (services Limits.calls) g t).result = .ok (.ok v, left))
    (result : (perform op s).result = .ok (.value v)) (idle : Idle s.consumed u)
    (state : s.after op = (commit left u).state)
  | consumed (succeeds : op.succeeds s = none) (written : op.written s = none) (state : Idle s.consumed (s.after op))
  | steady (succeeds : op.succeeds s = none) (written : op.written s = none) (state : Steady s (s.after op))
  | named (succeeds : op.succeeds s = none) (written : op.written s = none) (hop : op.namesCaller = true)
    (context : (s.after op).context = s.context)
  | wrote (succeeds : op.succeeds s = none) (h : Handed) (written : op.written s = some h.context)
    (state : s.after op = { s with manager := s.manager.adopt h })

theorem OperationEnd.of_callee (hs : s.Sound) (hq : s.PureQuiet) {c : Callable} (hc : op.callee s = some (c, args))
    (hof : c.Of Circuit.Tidy) : OperationEnd s op := by
  have hwritten : op.written s = none := by cases op <;> first | rfl | cases hc
  cases c with
  | standIn label name =>
    obtain ⟨t, hi, -, ht⟩ := perform_callee hs hc
    refine .steady (by simp [Operation.succeeds, hc]) hwritten ?_
    rw [after, ht]
    exact hi.steady
  | bound m b =>
    cases hb : b.kind with
    | pure =>
      obtain ⟨t, hi, -, ht⟩ := perform_callee hs hc
      have hpure : (Callable.bound m b).Of fun k f => k = .pure ∧ Circuit.Quiet f := ⟨hb, hof.quiet⟩
      have hcall : Idle t (call (.bound m b) args t).state :=
        idle_call_pure (hi.sound hs) (hi.pureQuiet hq) hpure args
      refine .steady ?_ hwritten ?_
      · cases hr : (perform op s).result <;> simp [Operation.succeeds, hc, hr, hb]
      · rw [after, ht]
        exact (hi.trans hcall).steady
    | impure =>
      cases impureCall hs hq hc hb hof.quiet hof.whole with
      | failed e hr ht => exact .consumed (by simp [Operation.succeeds, hc, hr]) hwritten ht
      | committed g v left t u hg hx hr hi ht =>
        exact .committed m b args hc hb (by simp [Operation.succeeds, hc, hr, hb]) g v left t u hg hx hr hi ht

theorem Rooted.ends (hs : s.Rooted config) (ho : config.Of Circuit.Tidy) (hop : op.Drawn config.Makes) :
    OperationEnd s op := by
  cases hc : op.callee s with
  | some x =>
    obtain ⟨c, args⟩ := x
    exact .of_callee hs.sound (hs.pureQuiet ho.orderly) hc (hs.drawn_of ho hop hc)
  | none =>
    have hnone : op.succeeds s = none := by simp [Operation.succeeds, hc]
    by_cases hset : op.Settled
    · exact .steady hnone (hset.unwritten s) (steady_perform hset s)
    · cases op with
      | call k name args route =>
        exact .steady hnone rfl (perform_misses hs.sound (Operation.misses_of_callee hc)).2.1.steady
      | callHeld c args => cases hc
      | direct k name given args =>
        have hk (n : String) (f : Circuit) (hf : (s.contract.circuits k).get? n = some f) : Circuit.Quiet f :=
          (hs.of_config ho k n f hf).quiet
        exact .steady hnone rfl (idle_perform_direct hs.sound (hs.pureQuiet ho.orderly) hk name given args).steady
      | callerContext =>
        refine .consumed hnone rfl ?_
        rw [after_callerContext]
        exact .refl _
      | asCaller c | persistentCaller c | resetCaller => exact .named hnone rfl rfl rfl
      | write h => exact .wrote hnone h rfl rfl
      | updatePrivate p => exact .wrote hnone (.fresh { s.context with privateState := p }) rfl rfl
      | switchSender sender carryover =>
        cases hk : sender.key? with
        | none =>
          refine .steady hnone (by simp [Operation.written, hk]) ?_
          rw [after_switchSender, hk]
          exact .refl s
        | some k =>
          refine .wrote hnone (.fresh (s.context.rekey k (carryover.getD s.manager.carryover))) ?_ ?_
          · simp [Operation.written, hk, Handed.fresh]
          · rw [after_switchSender, hk]
      | _ => exact absurd trivial hset

end

theorem context_commit (h : Handed) (u : Simulator) : (commit h u).state.context = h.context :=
  hold_context u.manager h

theorem Idle.context (h : Idle s t) : t.context = s.context := by
  rw [h.rest]
  rfl

theorem Steady.context (h : Steady s t) : t.context = s.context := by
  rw [h.rest]
  rfl

section
variable [Limits]

theorem Rooted.succeeds_spec (hs : s.Rooted config) (ho : config.Of Circuit.Tidy) (hop : op.Drawn config.Makes)
    (h : op.succeeds s = some (b, args)) :
    b.kind = .impure ∧ b.From config.Makes ∧ ∃ g v left t, s.handed = .ok g ∧
      ((b.circuit g.context args).run (services Limits.calls) g t).result = .ok (.ok v, left) ∧
      (perform op s).result = .ok (.value v) ∧ (s.after op).context = left.context := by
  cases hs.ends ho hop with
  | committed m b' args' hc hb hsome g v left t u hg hx hr hi ht =>
    rw [hsome] at h
    cases h
    have hfrom : (Callable.bound m b).From config.Makes := hs.sound.callee_from hs.contract hop hc
    refine ⟨hb, hfrom, g, v, left, t, hg, hx, hr, ?_⟩
    rw [ht, context_commit]
  | consumed hnone | steady hnone | named hnone | wrote hnone =>
    rw [hnone] at h
    cases h

theorem Rooted.context_kept (hs : s.Rooted config) (ho : config.Of Circuit.Tidy) (hop : op.Drawn config.Makes)
    (h : op.succeeds s = none) : (s.after op).context = (op.written s).getD s.context := by
  cases hs.ends ho hop with
  | committed m b args hc hb hsome =>
    rw [hsome] at h
    cases h
  | consumed _ hw ht =>
    rw [hw]
    exact ht.context
  | steady _ hw ht =>
    rw [hw]
    exact ht.context
  | named _ hw _ ht =>
    rw [hw]
    exact ht
  | wrote _ h hw ht =>
    rw [hw, ht]
    exact hold_context s.manager h

theorem succeeds_callee (h : op.succeeds s = some (b, args)) :
    b.kind = .impure ∧ ∃ m, op.callee s = some (.bound m b, args) := by
  rw [Operation.succeeds] at h
  split at h
  · rename_i m b' args' r hc hr
    split at h
    · rename_i hb
      cases h
      exact ⟨hb, m, hc⟩
    · cases h
  · cases h

theorem successes_cons (names : List String) (op : Operation) (ops : List Operation) (s : Simulator) :
    successes names (op :: ops) s = successes names [op] s+successes names ops (s.after op) := by
  simp [successes, succeeded, List.countP_append]

theorem successes_none {names : List String} (h : op.succeeds s = none) : successes names [op] s = 0 := by
  simp [successes, succeeded, h]

theorem successes_some {names : List String} (h : op.succeeds s = some (b, args)) :
    successes names [op] s = if b.name ∈ names then 1 else 0 := by
  simp [successes, succeeded, h, List.countP_cons]

end

end Simulator

theorem Program.run_ofResult {σ : Type} (sv : Services σ) (given : Handed) (x : Except Failure (Value × CircuitContext))
    (s : σ) : (ofResult x).run sv given s = ⟨x.map fun y => (.ok y.1, .fresh y.2), s, []⟩ := by
  cases x <;> rfl

namespace Simulator
variable {config : Config} {s : Simulator} {op : Operation} {m : Mark} {b : Bound Circuit} {args : List Value}
  {f : CircuitContext → List Value → Except Failure (Value × CircuitContext)}

theorem Rooted.succeeds_ofResult [Limits] (hs : s.Rooted config) (ho : config.Of Circuit.Tidy)
    (hop : op.Drawn config.Makes) (h : op.succeeds s = some (b, args))
    (hf : b.circuit = fun c as => .ofResult (f c as)) :
    ∃ g v d, s.handed = .ok g ∧ f g.context args = .ok (v, d) ∧ (perform op s).result = .ok (.value v) ∧
      (s.after op).context = d := by
  obtain ⟨-, -, g, v, left, t, hg, hx, hr, hcontext⟩ := hs.succeeds_spec ho hop h
  rw [hf, Program.run_ofResult] at hx
  cases hd : f g.context args with
  | error e =>
    rw [hd] at hx
    cases hx
  | ok y =>
    rw [hd] at hx
    cases hx
    exact ⟨g, y.1, y.2, hg, hd, hr, hcontext⟩

theorem call_ofResult [Limits] (hs : s.Sound) (hc : op.callee s = some (.bound m b, args)) (hb : b.kind = .impure)
    (hf : b.circuit = fun c as => .ofResult (f c as)) :
    let x := s.handed >>= fun g => f g.context args
    (perform op s).result = x.map (fun y => .value y.1) ∧ (∀ e, x = .error e → (s.after op).current = s.current) ∧
      ∀ v d, x = .ok (v, d) → (s.after op).context = d := by
  intro x
  obtain ⟨t, hi, hr, ht⟩ := perform_callee hs hc
  obtain ⟨hresult, hstate⟩ := callCallable_impure (services Limits.calls) args m hb t
  have hcurrent : t.consumed.current = s.current := by
    rw [hi.rest]
    rfl
  simp only [hi.handed, hf, Program.run_ofResult] at hresult hstate
  rw [after, hr, ht, call, hresult, hstate]
  cases hg : s.handed with
  | error e =>
    have hx : x = .error e := by
      simp only [x, hg]
      rfl
    rw [hx]
    exact ⟨rfl, fun _ _ => hcurrent, fun v d hd => by cases hd⟩
  | ok g =>
    have hx : x = f g.context args := by
      simp only [x, hg]
      rfl
    rw [hx]
    dsimp only
    cases f g.context args with
    | error e => exact ⟨rfl, fun _ _ => hcurrent, fun v d hd => by cases hd⟩
    | ok y =>
      refine ⟨rfl, fun e he => (by cases he), fun v d hd => ?_⟩
      cases hd
      exact context_commit _ _

end Simulator
end CircuitHarness
