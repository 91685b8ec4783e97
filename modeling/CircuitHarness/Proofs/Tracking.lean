import Mathlib
import CircuitHarness.Proofs.Reachable
import CircuitHarness.Proofs.Samples

/-! Whom impure calls are meant to run as, told from the operations alone, and that the simulator knows it: its fields
say the same after every operation, though the home key is kept nowhere but beside the mark of an override's commit. -/
namespace CircuitHarness

/-- The caller named for the next impure call, the one named for all of them, and the key that calls without a caller
run under. -/
structure Intent where
  caller : Option Caller
  persistent : Option Caller
  home : Key

def Caller.Paired : Caller → Prop
  | .text t => Hex.Pairs t
  | _ => False

theorem Caller.Paired.key {c : Caller} (h : c.Paired) : ∃ k, c.key = .ok k := by
  cases c with
  | text t =>
    obtain ⟨k, hk, -⟩ := Key.ofHex_pairs h
    exact ⟨k, hk⟩
  | _ => cases h

namespace Intent

def active (i : Intent) : Option Caller := i.caller <|> i.persistent

def key (i : Intent) : Except Failure Key :=
  match i.active with
  | some c => c.key
  | none => .ok i.home

/-- What an operation means, given whether it attempts an impure call. -/
def next (i : Intent) (attempted : Bool) : Operation → Intent
  | .asCaller c => { i with caller := Simulator.named c }
  | .persistentCaller c => { i with persistent := Simulator.named c }
  | .resetCaller => { i with caller := none, persistent := none }
  | .write h => { i with home := h.context.key }
  | .switchSender sender _ => { i with home := sender.key?.getD i.home }
  | _ => if attempted then { i with caller := none } else i

end Intent

def Callable.isImpure : Callable → Bool
  | .bound _ b => b.kind = .impure
  | .standIn .. => false

def Operation.attempts (s : Simulator) : Operation → Bool
  | .callerContext => true
  | op => (op.callee s).any (·.1.isImpure)

namespace Operation

def Ordinary : Operation → Prop
  | .callHeld c _ => c.Of Circuit.Orderly
  | .updatePrivate _ => False
  | _ => True

def Paired : Operation → Prop
  | .asCaller c | .persistentCaller c => ∀ x, Simulator.named c = some x → x.Paired
  | _ => True

def New (past : List Mark) : Operation → Prop
  | .write h => ∀ m, h.mark = some m → m ∉ past
  | _ => True

end Operation

namespace Simulator

/-- The runs from a simulator: the marks of all contexts that have been current, what the operations so far mean, and
the simulator they lead to. -/
inductive Course [Limits] (s₀ : Simulator) : List Mark → Intent → Simulator → Prop where
  | start : Course s₀ [s₀.current.mark] ⟨none, none, s₀.context.key⟩ s₀
  | step {past : List Mark} {i : Intent} {s : Simulator} {op : Operation} (h : Course s₀ past i s)
    (hop : op.Ordinary) (hpaired : op.Paired) (hknown : op.Known s) (hnew : op.New past) :
    Course s₀ ((s.after op).current.mark :: past) (i.next (op.attempts s) op) (s.after op)

/-- The simulator's fields say what was meant, and the mark that the override goes by is one of the past. -/
structure Tracked (past : List Mark) (i : Intent) (s : Simulator) : Prop where
  caller : s.caller = i.caller
  persistent : s.persistentCaller = i.persistent
  home : s.home = i.home
  override : ∀ o, s.override = some o → o.mark ∈ past

variable {config : Config} {past : List Mark} {i : Intent} {s t : Simulator}

theorem Tracked.longer (h : Tracked past i s) (m : Mark) : Tracked (m :: past) i s :=
  ⟨h.caller, h.persistent, h.home, fun o ho => List.mem_cons_of_mem m (h.override o ho)⟩

theorem Steady.home (h : Steady s t) : t.home = s.home := by
  rw [h.rest]
  rfl

theorem Tracked.steady (h : Tracked past i s) (hs : Steady s t) : Tracked past i t where
  caller := by
    rw [hs.rest]
    exact h.caller
  persistent := by
    rw [hs.rest]
    exact h.persistent
  home := hs.home.trans h.home
  override := by
    rw [hs.rest]
    exact h.override

theorem Tracked.active (h : Tracked past i s) : s.activeCaller = i.active := by
  rw [activeCaller, Intent.active, h.caller, h.persistent]

theorem Tracked.callerKey (h : Tracked past i s) : s.callerKey = i.key := by
  rw [Simulator.callerKey, h.active, h.home]
  rfl

theorem Tracked.consumed (h : Tracked past i s) : Tracked past { i with caller := none } s.consumed :=
  ⟨rfl, h.persistent, h.home, h.override⟩

theorem Tracked.commit (h : Tracked past i s) (ht : Idle s.consumed t) {g left : Handed} (hg : s.handed = .ok g)
    (hkey : left.context.key = g.context.key) :
    Tracked ((commit left t).state.current.mark :: past) { i with caller := none } (commit left t).state where
  caller := by
    change t.caller = none
    rw [ht.rest]
    rfl
  persistent := by
    change t.persistentCaller = i.persistent
    rw [ht.rest]
    exact h.persistent
  home := by
    have hp : t.pending = if s.activeCaller.isSome then some s.home else none := by
      rw [ht.rest]
      rfl
    rw [home_commit, hp]
    -- With a caller home is what is pending; without one the circuit was given home's key, and kept it.
    cases ha : s.activeCaller with
    | some c => exact h.home
    | none =>
      have hk : s.handed.map (·.context.key) = .ok s.home := by
        rw [handed_key, Simulator.callerKey, ha]
      rw [hg] at hk
      exact hkey.trans ((Except.ok.inj hk).trans h.home)
  override := by
    intro o ho
    obtain ⟨k, -, rfl⟩ := Option.map_eq_some_iff.mp ho
    exact List.mem_cons_self

theorem Tracked.adopt (h : Tracked past i s) (hs : s.Marked) {g : Handed} (hnew : ∀ m, g.mark = some m → m ∉ past) :
    Tracked past { i with home := g.context.key } { s with manager := s.manager.adopt g } where
  caller := h.caller
  persistent := h.persistent
  home := by
    have hmark : ∀ o, s.override = some o → o.mark ≠ (s.manager.hold g).1.mark := by
      intro o ho he
      cases hg : g.mark with
      | none =>
        have hgave : s.manager.Gave o.mark := hs.override o ho
        rw [he, Manager.hold, hg] at hgave
        exact Nat.lt_irrefl _ (hgave rfl)
      | some m =>
        have hm : o.mark = m := by
          rw [he, Manager.hold, hg]
        exact hnew m hg (hm ▸ h.override o ho)
    cases ho : s.override with
    | none =>
      change (s.manager.hold g).1.context.key = g.context.key
      rw [hold_context]
    | some o =>
      change (if o.mark = (s.manager.hold g).1.mark then o.home else (s.manager.hold g).1.context.key) = g.context.key
      rw [if_neg (hmark o ho), hold_context]
  override := h.override

theorem Tracked.switchSender [Limits] (h : Tracked past i s) (hs : s.Marked) (sender : Value)
    (carryover : Option Carryover) :
    Tracked past { i with home := sender.key?.getD i.home } (s.after (.switchSender sender carryover)) := by
  rw [after_switchSender]
  cases sender.key? with
  | none => exact h
  | some k =>
    let g : Handed := .fresh (s.context.rekey k (carryover.getD s.manager.carryover))
    have hkey : g.context.key = k := CircuitContext.key_rekey k _ _
    have hadopt : Tracked past { i with home := g.context.key } { s with manager := s.manager.adopt g } :=
      h.adopt hs fun m hm => by cases hm
    rw [hkey] at hadopt
    exact hadopt

theorem Tracked.call [Limits] (h : Tracked past i s) (hs : s.Sound) (hq : s.PureQuiet) {c : Callable}
    (hc : c.Of Circuit.Orderly) (args : List Value) :
    Tracked ((call c args s).state.current.mark :: past) (if c.isImpure then { i with caller := none } else i)
      (call c args s).state := by
  cases c with
  | standIn label name => exact h.longer _
  | bound m b =>
    cases hb : b.kind with
    | pure =>
      have hpure : (Callable.bound m b).Of fun k f => k = .pure ∧ Circuit.Quiet f := ⟨hb, hc.quiet⟩
      have hi : Idle s (Simulator.call (.bound m b) args s).state := idle_call_pure hs hq hpure args
      simp only [Callable.isImpure, hb, reduceCtorEq, decide_false, Bool.false_eq_true, if_false]
      exact (h.steady hi.steady).longer _
    | impure =>
      simp only [Callable.isImpure, hb, decide_true, if_true]
      have hrun (g : Handed) :
          Idle s.consumed ((b.circuit g.context args).run (services Limits.calls) g s.consumed).state :=
        (still_services Limits.calls).run g (hc.quiet _ _) (hs.moved rfl rfl) hq
      cases impureEnd (services Limits.calls) args m hb s with
      | unread e hg hr ht =>
        rw [Simulator.call, ht]
        exact h.consumed.longer _
      | failed g e hg hx hr ht =>
        rw [Simulator.call, ht]
        exact (h.consumed.steady (hrun g).steady).longer _
      | committed g v left hg hx hr ht =>
        rw [Simulator.call, ht]
        refine h.commit (hrun g) hg ?_
        obtain rfl | ⟨d, rfl, hd⟩ := Program.run_left (hc.key hb g.context args) hx
        · rfl
        · exact hd

theorem Rooted.of_config {P : CircuitKind → Circuit → Prop} (hs : s.Rooted config) (hP : config.Of P) :
    s.contract.Of P := by
  obtain ⟨ws, hw⟩ := hs.contract
  exact hP ws s.contract hw

theorem Rooted.pureQuiet (hs : s.Rooted config) (ho : config.Of Circuit.Orderly) : s.PureQuiet :=
  fun name f hf => (hs.of_config ho .pure name f hf).quiet

section
variable [Limits]

theorem idle_perform_direct (hs : s.Sound) (hq : s.PureQuiet) {k : CircuitKind}
    (hk : ∀ n f, (s.contract.circuits k).get? n = some f → Circuit.Quiet f) (name : Value) (given : Held)
    (args : List Value) : Idle s (s.after (.direct k name given args)) := by
  simp only [Simulator.after, perform, Action.bind_state, ask_state, Action.pure_state]
  cases hf : (ask (fun s => s.contract.circuit k name) s).result with
  | error e => exact .refl s
  | ok f =>
    have hf' : s.contract.circuit k name = .ok f := by
      simpa only [ask, Action.bind_result, Action.read_result, Action.read_state, Action.lift_result] using hf
    obtain ⟨n, hn⟩ := Artifact.circuit_mem hf'
    have hi : Idle s (execute given.handed (f given.context args) s).state :=
      (still_services Limits.calls).run _ (hk n f hn _ _) hs hq
    dsimp only
    cases (execute given.handed (f given.context args) s).result with
    | error e => exact hi
    | ok x =>
      simp only [Action.lift_state, Action.lift_result]
      cases x.1 <;> exact hi

theorem Tracked.after_callee (h : Tracked past i s) (hs : s.Rooted config) (ho : config.Of Circuit.Orderly)
    {op : Operation} {c : Callable} {args : List Value} (hc : op.callee s = some (c, args))
    (hof : c.Of Circuit.Orderly) :
    Tracked ((s.after op).current.mark :: past) (if c.isImpure then { i with caller := none } else i) (s.after op) := by
  obtain ⟨t, hi, -, ht⟩ := perform_callee hs.sound hc
  rw [Simulator.after, ht]
  exact (h.steady hi.steady).call (hi.sound hs.sound) (hi.pureQuiet (hs.pureQuiet ho)) hof args

theorem Tracked.after (h : Tracked past i s) (hs : s.Rooted config) (ho : config.Of Circuit.Orderly)
    {op : Operation} (hop : op.Ordinary) (hnew : op.New past) :
    Tracked ((s.after op).current.mark :: past) (i.next (op.attempts s) op) (s.after op) := by
  by_cases hset : op.Settled
  · have hnext : i.next (op.attempts s) op = i := by cases op <;> first | rfl | cases hset
    rw [hnext]
    exact (h.steady (steady_perform hset s)).longer _
  · cases op with
    | call k name args route =>
      cases hc : (Operation.call k name args route).callee s with
      | none =>
        have hm : Idle s (s.after (.call k name args route)) :=
          (perform_misses hs.sound (Operation.misses_of_callee hc)).2.1
        have ha : (Operation.call k name args route).attempts s = false := by
          simp only [Operation.attempts, hc, Option.any_none]
        rw [ha]
        exact (h.steady hm.steady).longer _
      | some x =>
        obtain ⟨c, as⟩ := x
        have ha : (Operation.call k name args route).attempts s = c.isImpure := by
          simp only [Operation.attempts, hc, Option.any_some]
        rw [ha]
        refine h.after_callee hs ho hc (hs.sound.callee_of (hs.of_config ho) hc fun d as he => ?_)
        cases he
    | callHeld c args => exact h.after_callee hs ho rfl hop
    | direct k name given args =>
      have hi : Idle s (s.after (.direct k name given args)) :=
        idle_perform_direct hs.sound (hs.pureQuiet ho) (fun n f hf => (hs.of_config ho k n f hf).quiet) name given args
      exact (h.steady hi.steady).longer _
    | asCaller c => exact ⟨rfl, h.persistent, h.home, fun o hx => List.mem_cons_of_mem _ (h.override o hx)⟩
    | persistentCaller c => exact ⟨h.caller, rfl, h.home, fun o hx => List.mem_cons_of_mem _ (h.override o hx)⟩
    | resetCaller => exact ⟨rfl, rfl, h.home, fun o hx => List.mem_cons_of_mem _ (h.override o hx)⟩
    | callerContext =>
      rw [after_callerContext]
      exact h.consumed.longer _
    | write g => exact (h.adopt hs.marked hnew).longer _
    | switchSender sender carryover => exact (h.switchSender hs.marked sender carryover).longer _
    | updatePrivate p => cases hop
    | _ => exact absurd trivial hset

end

section
variable {s₀ : Simulator}

section
variable [Limits]

theorem Course.rooted (h : Course s₀ past i s) (h₀ : s₀.Rooted config) : s.Rooted config := by
  induction h with
  | start => exact h₀
  | step _ _ _ hknown _ ih => exact ih.after hknown

theorem Course.tracked (h : Course s₀ past i s) (h₀ : s₀.Rooted config) (ho : config.Of Circuit.Orderly)
    (hc : s₀.caller = none) (hp : s₀.persistentCaller = none) (hv : s₀.override = none) : Tracked past i s := by
  induction h with
  | start =>
    refine ⟨hc, hp, ?_, fun o h => ?_⟩
    · simp only [Simulator.home, hv]
    · rw [hv] at h
      cases h
  | step h hop _ _ hnew ih => exact ih.after (h.rooted h₀) ho hop hnew

theorem Course.paired (h : Course s₀ past i s) :
    (∀ c, i.caller = some c → c.Paired) ∧ ∀ c, i.persistent = some c → c.Paired := by
  have dropped {i : Intent} {attempted : Bool}
      (h : (∀ c, i.caller = some c → c.Paired) ∧ ∀ c, i.persistent = some c → c.Paired) :
      (∀ c, (if attempted then { i with caller := none } else i).caller = some c → c.Paired) ∧
        ∀ c, (if attempted then { i with caller := none } else i).persistent = some c → c.Paired := by
    cases attempted with
    | false => exact h
    | true => exact ⟨fun c hc => (by cases hc), h.2⟩
  induction h with
  | start => exact ⟨fun c hc => (by cases hc), fun c hc => (by cases hc)⟩
  | @step past i s op h _ hpaired _ _ ih =>
    cases op with
    | asCaller c => exact ⟨fun x hx => hpaired x hx, ih.2⟩
    | persistentCaller c => exact ⟨ih.1, fun x hx => hpaired x hx⟩
    | resetCaller => exact ⟨fun c hc => (by cases hc), fun c hc => (by cases hc)⟩
    | write g => exact ih
    | switchSender sender carryover => exact ih
    | _ => exact dropped ih

theorem Course.key (h : Course s₀ past i s) : ∃ k, i.key = .ok k := by
  rw [Intent.key]
  cases ha : i.active with
  | none => exact ⟨i.home, rfl⟩
  | some c =>
    rw [Intent.active] at ha
    cases hc : i.caller with
    | some x =>
      rw [hc] at ha
      cases ha
      exact (h.paired.1 c hc).key
    | none =>
      rw [hc] at ha
      exact (h.paired.2 c ha).key

end

theorem Idle.handed (h : Idle s t) : t.handed = s.handed := by
  rw [h.rest, handed_eq, handed_eq]
  rfl

/-- In every run from a simulator just built over orderly circuits, each impure call runs its circuit on the current
context under the key of whom it is meant to run as, and on nothing else of its own. -/
theorem impure_call_runs_as_meant [Limits] {name : String} {maker : Nat} {args options : Value}
    (ho : config.Of Circuit.Orderly) (hb : build name config maker args options = .ok s₀) (h : Course s₀ past i s)
    {op : Operation} {m : Mark} {b : Bound Circuit} {as : List Value} (hop : op.callee s = some (.bound m b, as))
    (hk : b.kind = .impure) :
    ∃ k g t, i.key = .ok k ∧ g.context.key = k ∧
      g.context = { s.context with localState := g.context.localState } ∧ Idle s t ∧
      (perform op s).result =
        (((b.circuit g.context as).run (services Limits.calls) g t.consumed).result.bind Prod.fst).map .value := by
  have h₀ : s₀.Rooted config := .of_build hb
  obtain ⟨ws, contract, context, -, rfl⟩ := build_spec hb
  have htracked : Tracked past i s := h.tracked h₀ ho rfl rfl rfl
  obtain ⟨k, hkey⟩ := h.key
  have hmap : s.handed.map (·.context.key) = .ok k := by
    rw [handed_key, htracked.callerKey, hkey]
  obtain ⟨t, hi, hr, -⟩ := perform_callee (h.rooted h₀).sound hop
  cases hg : s.handed with
  | error e =>
    rw [hg] at hmap
    cases hmap
  | ok g =>
    rw [hg] at hmap
    refine ⟨k, g, t, hkey, Except.ok.inj hmap, (handed_spec hg).2, hi, ?_⟩
    rw [hr, call]
    rw [← hi.handed] at hg
    cases impureEnd (services Limits.calls) as m hk t with
    | unread e hg' hres ht =>
      rw [hg] at hg'
      cases hg'
    | failed g' e hg' hx hres ht =>
      rw [hg] at hg'
      cases hg'
      rw [hx, hres]
      rfl
    | committed g' v left hg' hx hres ht =>
      rw [hg] at hg'
      cases hg'
      rw [hx, hres]
      rfl

end

theorem counter_runs_as_meant :
    build "Counter" Simple.config 0 (.list []) .none = .ok counter ∧
    Course counter [⟨0, 0⟩, ⟨0, 0⟩] ⟨some (.text "aB"), none, List.replicate 32 0⟩
      (counter.after (.asCaller (some (.text "aB")))) ∧
    ∃ k g t, (Intent.mk (some (.text "aB")) none (List.replicate 32 0)).key = .ok k ∧ g.context.key = k ∧
      g.context = { counter.context with localState := g.context.localState } ∧
      Idle (counter.after (.asCaller (some (.text "aB")))) t ∧
      (perform (.call .impure (.str "setVal") [.int 5] .item) (counter.after (.asCaller (some (.text "aB"))))).result =
        (((Program.ofResult (Simple.setVal g.context [.int 5])).run (services Limits.calls) g t.consumed).result.bind
          Prod.fst).map .value := by
  have hb : build "Counter" Simple.config 0 (.list []) .none = .ok counter := counter_built
  have hordinary : (Operation.asCaller (some (.text "aB"))).Ordinary := trivial
  have hpaired : (Operation.asCaller (some (.text "aB"))).Paired := by
    intro x hx
    cases hx
    exact ⟨by rfl, by rfl⟩
  have hrun : Course counter [⟨0, 0⟩, ⟨0, 0⟩] ⟨some (.text "aB"), none, List.replicate 32 0⟩
      (counter.after (.asCaller (some (.text "aB")))) := .step .start hordinary hpaired trivial trivial
  have hcall : Operation.callee (counter.after (.asCaller (some (.text "aB"))))
      (.call .impure (.str "setVal") [.int 5] .item) =
      some (.bound ⟨0, 0⟩ ⟨.impure, "setVal", fun c as => .ofResult (Simple.setVal c as)⟩, [.int 5]) := by rfl
  exact ⟨hb, hrun, impure_call_runs_as_meant Simple.tidy.orderly hb hrun hcall rfl⟩

end Simulator

namespace Nested

def circuits : List (String × Circuit) :=
  [("idle", fun _ _ => .done (.ok .none) none),
    ("calling", fun _ _ => .call .impure (.str "idle") (.list []) fun _ => .done (.ok .none) none),
    ("naming", fun _ _ => .asCaller (some (.text "ab")) (.done (.ok .none) none))]

def contract : Artifact := ⟨.ofList [], .ofList circuits, fun c _ => .ok ⟨Simple.start, c.privateState⟩⟩

def config : Config := { Simple.config with contract := fun _ => .ok contract }

def simulator : Simulator := { Simulator.counter with name := "Nested", config := config, contract := contract }

theorem keepsKey : config.Of fun _ f => f.KeepsKey := by
  rintro ws a h
  cases h
  have hp : ∀ e ∈ ([] : List (String × Circuit)), Circuit.KeepsKey e.2 := fun e he => by cases he
  refine Artifact.of_lists (P := fun _ f => Circuit.KeepsKey f) hp fun e he => ?_
  simp only [circuits, List.mem_cons, List.not_mem_nil, or_false] at he
  obtain rfl | rfl | rfl := he
  · exact fun c args => trivial
  · exact fun c args answer => trivial
  · exact fun c args => trivial

end Nested

namespace Simulator

/-- A circuit that calls another one loses the home key of the call it is in, and one that names a caller has the next
call run as nobody outside asked for. -/
theorem nested_call_runs_as_another :
    Nested.config.Of (fun _ f => f.KeepsKey) ∧
    build "Nested" Nested.config 0 (.list []) .none = .ok Nested.simulator ∧
    (∃ past i, Course Nested.simulator past i
        ((Nested.simulator.after (.asCaller (some (.text "ab")))).after (.call .impure (.str "calling") [] .item)) ∧
      i.key = .ok (List.replicate 32 0) ∧
      ((Nested.simulator.after (.asCaller (some (.text "ab")))).after
        (.call .impure (.str "calling") [] .item)).handed.map (·.context.key) = .ok [0xab]) ∧
    ∃ past i, Course Nested.simulator past i (Nested.simulator.after (.call .impure (.str "naming") [] .item)) ∧
      i.key = .ok (List.replicate 32 0) ∧
      (Nested.simulator.after (.call .impure (.str "naming") [] .item)).handed.map (·.context.key) = .ok [0xab] := by
  have hpaired : (Operation.asCaller (some (.text "ab"))).Paired := by
    intro x hx
    cases hx
    exact ⟨by rfl, by rfl⟩
  refine ⟨Nested.keepsKey, by rfl,
    ⟨_, _, .step (.step .start trivial hpaired trivial trivial) trivial trivial trivial trivial, ?_, ?_⟩,
    _, _, .step .start trivial trivial trivial trivial, ?_, ?_⟩
  · cbv
  · cbv
  · cbv
  · cbv

end Simulator
end CircuitHarness
