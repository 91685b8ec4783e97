import CircuitHarness.Proofs.Tracking

/-! A private state put in from outside makes a new context, and so the simulator no longer knows the one that an
override call committed. What this changes, and when, in the run that follows. -/
namespace CircuitHarness

namespace Operation

def Plain : Operation → Prop
  | .call .. | .asCaller _ | .persistentCaller _ | .resetCaller | .switchSender .. => True
  | .callHeld c _ => c.Of Circuit.Orderly
  | _ => False

def switches : Operation → Bool
  | .switchSender sender _ => sender.key?.isSome
  | _ => false

theorem Plain.ordinary {op : Operation} (h : op.Plain) : op.Ordinary := by
  cases op with
  | callHeld c args => exact h
  | updatePrivate p => cases h
  | _ => trivial

theorem Plain.known {op : Operation} (h : op.Plain) (s : Simulator) : op.Known s := by
  cases op with
  | write w => cases h
  | _ => trivial

theorem Plain.new {op : Operation} (h : op.Plain) (past : List Mark) : op.New past := by
  cases op with
  | write w => cases h
  | _ => trivial

end Operation

namespace Simulator

section
variable [Limits]

def afterAll : List Operation → Simulator → Simulator
  | [], s => s
  | op :: ops, s => afterAll ops (s.after op)

def keys : List Operation → Simulator → List (Except Failure Key)
  | [], _ => []
  | op :: ops, s =>
    if op.attempts s then s.handed.map (·.context.key) :: keys ops (s.after op) else keys ops (s.after op)

/-- Some impure call of the run has no active caller, and nobody switched the sender before. -/
def Exposed : List Operation → Simulator → Prop
  | [], _ => False
  | op :: ops, s => op.attempts s ∧ s.activeCaller = none ∨ op.switches = false ∧ Exposed ops (s.after op)

end

variable {config : Config} {past : List Mark} {i j : Intent} {s t u : Simulator} {op : Operation}

theorem Offers.attempts (h : Offers s t) (op : Operation) : op.attempts t = op.attempts s := by
  cases op with
  | call k name args route =>
    obtain ⟨e, ht, hs⟩ | ⟨c, d, ht, hs, hsame⟩ := (h k).find name route
    · simp only [Operation.attempts, Operation.callee, ht, hs]
    · simp only [Operation.attempts, Operation.callee, ht, hs, Except.toOption, Option.map_some, Option.any_some]
      cases hsame <;> rfl
  | _ => rfl

theorem offers_call [Limits] (hs : s.Sound) (hq : s.PureQuiet) {c : Callable} (hc : c.Of Circuit.Orderly)
    (args : List Value) : Offers s (call c args s).state := by
  cases c with
  | standIn label name => exact offers_of_eq rfl rfl
  | bound m b =>
    cases hb : b.kind with
    | pure =>
      have hpure : (Callable.bound m b).Of fun k f => k = .pure ∧ Circuit.Quiet f := ⟨hb, hc.quiet⟩
      have hi : Idle s (call (.bound m b) args s).state := idle_call_pure hs hq hpure args
      exact hi.offered hs
    | impure =>
      have hconsumed : s.consumed.Sound := hs.moved rfl rfl
      have hread : Offers s s.consumed := offers_of_eq rfl rfl
      have hrun (g : Handed) : Offers s ((b.circuit g.context args).run (services Limits.calls) g s.consumed).state :=
        hread.trans (((still_services Limits.calls).run g (hc.quiet _ _) hconsumed hq).offered hconsumed)
      cases impureEnd (services Limits.calls) args m hb s with
      | unread e hg hr ht =>
        rw [call, ht]
        exact hread
      | failed g e hg hx hr ht =>
        rw [call, ht]
        exact hrun g
      | committed g v left hg hx hr ht =>
        rw [call, ht]
        exact (hrun g).trans (offers_of_eq rfl rfl)

theorem offers_after [Limits] (hs : s.Rooted config) (ho : config.Of Circuit.Orderly) (hop : op.Plain) :
    Offers s (s.after op) := by
  cases hc : op.callee s with
  | some x =>
    obtain ⟨c, args⟩ := x
    obtain ⟨t, hi, -, ht⟩ := perform_callee hs.sound hc
    have hof : c.Of Circuit.Orderly := by
      refine hs.sound.callee_of (hs.of_config ho) hc fun d as he => ?_
      subst he
      exact hop
    rw [after, ht]
    exact (hi.offered hs.sound).trans (offers_call (hi.sound hs.sound) (hi.pureQuiet (hs.pureQuiet ho)) hof args)
  | none =>
    cases op with
    | call k name args route =>
      exact (perform_misses hs.sound (Operation.misses_of_callee hc)).2.1.offered hs.sound
    | callHeld c args => cases hc
    | asCaller c | persistentCaller c | resetCaller => exact offers_of_eq rfl rfl
    | switchSender sender carryover =>
      rw [after_switchSender]
      cases sender.key? <;> exact offers_of_eq rfl rfl
    | _ => cases hop

/-- Two simulators of one configuration that offer the same and know of the same callers, if not of the same home. -/
structure Beside (config : Config) (i j : Intent) (s t : Simulator) : Prop where
  left : s.Rooted config
  right : t.Rooted config
  offers : Offers s t
  first : ∃ past, Tracked past i s
  second : ∃ past, Tracked past j t
  callers : i.caller = j.caller ∧ i.persistent = j.persistent

theorem Beside.handed_keys (h : Beside config i j s t) :
    s.handed.map (·.context.key) = i.key ∧ t.handed.map (·.context.key) = j.key := by
  obtain ⟨_, hi⟩ := h.first
  obtain ⟨_, hj⟩ := h.second
  rw [handed_key, handed_key, hi.callerKey, hj.callerKey]
  exact ⟨rfl, rfl⟩

theorem Beside.after [Limits] (h : Beside config i j s t) (ho : config.Of Circuit.Orderly) (hop : op.Plain) :
    Beside config (i.next (op.attempts s) op) (j.next (op.attempts s) op) (s.after op) (t.after op) where
  left := h.left.after (hop.known s)
  right := h.right.after (hop.known t)
  offers := (offers_after h.left ho hop).symm.trans (h.offers.trans (offers_after h.right ho hop))
  first := by
    obtain ⟨_, hi⟩ := h.first
    exact ⟨_, hi.after h.left ho hop.ordinary (hop.new _)⟩
  second := by
    obtain ⟨_, hj⟩ := h.second
    rw [← h.offers.attempts]
    exact ⟨_, hj.after h.right ho hop.ordinary (hop.new _)⟩
  callers := by
    obtain ⟨hc, hp⟩ := h.callers
    cases op with
    | asCaller c => exact ⟨rfl, hp⟩
    | persistentCaller c => exact ⟨hc, rfl⟩
    | resetCaller => exact ⟨rfl, rfl⟩
    | switchSender sender carryover => exact ⟨hc, hp⟩
    | write g => exact ⟨hc, hp⟩
    | _ =>
      simp only [Intent.next]
      split
      · exact ⟨rfl, hp⟩
      · exact ⟨hc, hp⟩

theorem next_home (hop : op.Plain) (attempted : Bool) :
    (i.next attempted op).home = (j.next attempted op).home ↔ op.switches ∨ i.home = j.home := by
  cases op with
  | asCaller c | persistentCaller c | resetCaller => simp [Intent.next, Operation.switches]
  | switchSender sender carryover => cases hk : sender.key? <;> simp [Intent.next, Operation.switches, hk]
  | call k name args route | callHeld c args => cases attempted <;> simp [Intent.next, Operation.switches]
  | _ => cases hop

theorem Beside.key_iff (h : Beside config i j s t) : j.key = i.key ↔ i.home = j.home ∨ s.activeCaller ≠ none := by
  obtain ⟨_, hi⟩ := h.first
  have hactive : j.active = i.active := by rw [Intent.active, Intent.active, h.callers.1, h.callers.2]
  rw [Intent.key, Intent.key, hactive, hi.active]
  cases i.active with
  | none => simp [eq_comm]
  | some c => simp

section
variable [Limits]

/-- Runs that know of the same home execute their calls under the same keys; others differ in the first call exposed. -/
theorem Beside.keys_iff (h : Beside config i j s t) (ho : config.Of Circuit.Orderly) {ops : List Operation}
    (hops : ∀ op ∈ ops, op.Plain) : keys ops t = keys ops s ↔ i.home = j.home ∨ ¬Exposed ops s := by
  induction ops generalizing i j s t with
  | nil => simp [keys, Exposed]
  | cons op ops ih =>
    have hop : op.Plain := hops op List.mem_cons_self
    have hrest := ih (h.after ho hop) fun x hx => hops x (List.mem_cons_of_mem op hx)
    have hkey := h.key_iff
    rw [next_home hop] at hrest
    rw [keys, keys, h.offers.attempts, h.handed_keys.1, h.handed_keys.2, Exposed]
    cases op.attempts s with
    | false =>
      simp only [Bool.false_eq_true, if_false, false_and, false_or, hrest]
      cases op.switches <;> simp
    | true =>
      simp only [if_true, List.cons.injEq, hrest, hkey, true_and]
      cases op.switches with
      | true => simp
      | false => simp [or_and_left]

theorem tracked_afterAll (hs : s.Rooted config) (h : ∃ past i, Tracked past i s) (ho : config.Of Circuit.Orderly)
    {ops : List Operation} (hops : ∀ op ∈ ops, op.Plain) :
    (afterAll ops s).Rooted config ∧ ∃ past i, Tracked past i (afterAll ops s) := by
  induction ops generalizing s with
  | nil => exact ⟨hs, h⟩
  | cons op ops ih =>
    have hop : op.Plain := hops op List.mem_cons_self
    obtain ⟨past, i, hi⟩ := h
    exact ih (hs.after (hop.known s)) ⟨_, _, hi.after hs ho hop.ordinary (hop.new past)⟩
      fun x hx => hops x (List.mem_cons_of_mem op hx)

/-- A private state put in keeps the run that follows on its keys just when home is the current sender's anyway, or no
call of the run is exposed. -/
theorem injection_keeps_keys_iff {name : String} {maker : Nat} {args options : Value} {s₀ : Simulator}
    (ho : config.Of Circuit.Orderly) (hb : build name config maker args options = .ok s₀) {pre post : List Operation}
    (hpre : ∀ op ∈ pre, op.Plain) (hpost : ∀ op ∈ post, op.Plain) (p : Value) :
    keys post ((afterAll pre s₀).after (.updatePrivate p)) = keys post (afterAll pre s₀) ↔
      (afterAll pre s₀).home = (afterAll pre s₀).context.key ∨ ¬Exposed post (afterAll pre s₀) := by
  have h₀ : s₀.Rooted config := .of_build hb
  have ht₀ : ∃ past i, Tracked past i s₀ := by
    obtain ⟨ws, contract, context, -, rfl⟩ := build_spec hb
    exact ⟨[], ⟨none, none, context.key⟩, rfl, rfl, rfl, fun o h => (by cases h)⟩
  obtain ⟨hs, past, i, hi⟩ := tracked_afterAll h₀ ht₀ ho hpre
  have hadopt := hi.adopt hs.marked (g := .fresh { (afterAll pre s₀).context with privateState := p })
    fun m hm => by cases hm
  have hbeside : Beside config i { i with home := (afterAll pre s₀).context.key } (afterAll pre s₀)
      ((afterAll pre s₀).after (.updatePrivate p)) := by
    rw [after_updatePrivate]
    exact ⟨hs, hs.later (later_adopt fun _ => known_fresh _ _), offers_of_eq rfl rfl, ⟨past, hi⟩, ⟨past, hadopt⟩,
      rfl, rfl⟩
  rw [hbeside.keys_iff ho hpost, hi.home]

end

def calledAs : List Operation := [.asCaller (some (.text "ab")), .call .impure (.str "setVal") [.int 5] .item]
def calledAgain : List Operation := [.call .impure (.str "setVal") [.int 6] .item]

theorem counter_keys_iff :
    build "Counter" Simple.config 0 (.list []) .none = .ok counter ∧ (∀ op ∈ calledAs, op.Plain) ∧
    (∀ op ∈ calledAgain, op.Plain) ∧
    (keys calledAgain ((afterAll calledAs counter).after (.updatePrivate (.map [(.str "n", .int 1)]))) =
        keys calledAgain (afterAll calledAs counter) ↔
      (afterAll calledAs counter).home = (afterAll calledAs counter).context.key ∨
        ¬Exposed calledAgain (afterAll calledAs counter)) := by
  have hb : build "Counter" Simple.config 0 (.list []) .none = .ok counter := counter_built
  have hpre : ∀ op ∈ calledAs, op.Plain := by simp [calledAs, Operation.Plain]
  have hpost : ∀ op ∈ calledAgain, op.Plain := by simp [calledAgain, Operation.Plain]
  exact ⟨hb, hpre, hpost, injection_keeps_keys_iff Simple.tidy.orderly hb hpre hpost _⟩

/-- The override leaks: with a private state put in between, the second call runs as "ab", too. -/
theorem injection_leaks_override :
    build "Counter" Simple.config 0 (.list []) .none = .ok counter ∧
    keys calledAgain (afterAll calledAs counter) = [.ok (List.replicate 32 0)] ∧
    keys calledAgain ((afterAll calledAs counter).after (.updatePrivate (.map [(.str "n", .int 1)]))) =
      [.ok [0xab]] := by
  refine ⟨by rfl, ?_, ?_⟩
  · cbv
  · cbv

end Simulator
end CircuitHarness
