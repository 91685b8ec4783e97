import CircuitHarness.Proofs.Tracking

/-! A context written from outside is handed out as it is, unless it is the very one that an override call committed
last: writing that back does not make it an explicit one. -/
namespace CircuitHarness

def Operation.Silent (s : Simulator) : Operation → Prop
  | .call k name args route => (Operation.call k name args route).attempts s = false ∧ s.PureQuiet
  | .callHeld c _ => (c.Of fun k f => k = .pure ∧ Circuit.Quiet f) ∧ s.PureQuiet
  | .direct k .. => k = .pure ∧ s.PureQuiet
  | .write _ | .updatePrivate _ | .switchSender .. | .callerContext => False
  | _ => True

theorem Operation.Silent.known {s : Simulator} {op : Operation} (h : op.Silent s) : op.Known s := by
  cases op with
  | write w => cases h
  | _ => trivial

namespace Simulator

/-- The operations that happen between a write and the next impure call. -/
inductive Silence [Limits] (s : Simulator) : Simulator → Prop where
  | start : Silence s s
  | step {t : Simulator} {op : Operation} (h : Silence s t) (hop : op.Silent t) : Silence s (t.after op)

variable {config : Config} {s t : Simulator} {op : Operation}

structure InPlace (s t : Simulator) : Prop where
  current : t.current = s.current
  override : t.override = s.override

theorem Steady.inPlace (h : Steady s t) : InPlace s t := by
  constructor <;> rw [h.rest]
  rfl

theorem inPlace_after [Limits] (hs : s.Rooted config) (hop : op.Silent s) : InPlace s (s.after op) := by
  by_cases hset : op.Settled
  · exact (steady_perform hset s).inPlace
  · cases op with
    | call k name args route =>
      obtain ⟨hpure, hq⟩ := hop
      cases hc : (Operation.call k name args route).callee s with
      | none => exact (perform_misses hs.sound (Operation.misses_of_callee hc)).2.1.steady.inPlace
      | some x =>
        obtain ⟨c, as⟩ := x
        obtain ⟨t, hi, -, ht⟩ := perform_callee hs.sound hc
        have hcontract : s.contract.Of fun k f => k = .pure → Circuit.Quiet f := by
          rintro k name f hf rfl
          exact hq name f hf
        have hof := hs.sound.callee_of hcontract hc fun d as he => by cases he
        simp only [Operation.attempts, hc, Option.any_some] at hpure
        have hcall : Idle t (call c as t).state := by
          refine idle_call_pure (hi.sound hs.sound) (hi.pureQuiet hq) ?_ as
          cases c with
          | standIn label name => trivial
          | bound m b =>
            cases hb : b.kind with
            | pure => exact ⟨hb, hof hb⟩
            | impure => simp [Callable.isImpure, hb] at hpure
        rw [after, ht]
        exact (hi.trans hcall).steady.inPlace
    | callHeld c args =>
      rw [after_callHeld]
      exact (idle_call_pure hs.sound hop.2 hop.1 args).steady.inPlace
    | direct k name given args =>
      obtain ⟨rfl, hq⟩ := hop
      have hk : ∀ n f, (s.contract.circuits .pure).get? n = some f → Circuit.Quiet f := hq
      exact (idle_perform_direct hs.sound hq hk name given args).steady.inPlace
    | asCaller c | persistentCaller c | resetCaller => exact ⟨rfl, rfl⟩
    | write h | updatePrivate p | switchSender sender carryover | callerContext => cases hop
    | _ => exact absurd trivial hset

theorem Silence.inPlace [Limits] (h : Silence s t) (hs : s.Rooted config) : t.Rooted config ∧ InPlace s t := by
  induction h with
  | start => exact ⟨hs, rfl, rfl⟩
  | step _ hop ih =>
    obtain ⟨hr, hi⟩ := ih
    have hj := inPlace_after hr hop
    exact ⟨hr.after hop.known, hj.current.trans hi.current, hj.override.trans hi.override⟩

theorem handed_current_iff (h : s.activeCaller = none) : s.handed = .ok s.current.handed ↔ s.home = s.context.key := by
  rw [handed_eq, h]
  dsimp only
  split
  · rename_i hk
    exact ⟨fun _ => hk, fun _ => rfl⟩
  · rename_i hk
    refine ⟨fun he => ?_, fun he => absurd he hk⟩
    have hmark : (none : Option Mark) = some s.current.mark := congrArg Handed.mark (Except.ok.inj he)
    cases hmark

/-- Home is the key of a context just written, but for the one an override call committed last. -/
theorem home_written [Limits] (hs : s.Marked) {w : Handed} (hi : InPlace (s.after (.write w)) t) :
    t.home = t.context.key ↔ ¬∃ o, s.override = some o ∧ w.mark = some o.mark ∧ o.home ≠ w.context.key := by
  have hcurrent : t.current = (s.manager.hold w).1 := hi.current
  have hoverride : t.override = s.override := hi.override
  rw [home, hoverride, context, hcurrent, hold_context]
  cases ho : s.override with
  | none => simp
  | some o =>
    have hmark : o.mark = (s.manager.hold w).1.mark ↔ w.mark = some o.mark := by
      cases hw : w.mark with
      | none =>
        have hgave : s.manager.Gave o.mark := hs.override o ho
        refine ⟨fun he => ?_, fun he => by cases he⟩
        rw [he, Manager.hold, hw] at hgave
        exact absurd (hgave rfl) (Nat.lt_irrefl _)
      | some m =>
        rw [Manager.hold, hw]
        exact ⟨fun he => congrArg some he.symm, fun he => (Option.some.inj he).symm⟩
    dsimp only
    split
    · rename_i he
      simp [hmark.mp he]
    · rename_i he
      have hne : w.mark ≠ some o.mark := fun h => he (hmark.mpr h)
      simp [hne]

/-- A context written into any simulator is the one that the next impure call hands to its circuit, just when it is not
the one that the last commit of an override left behind, with another key to return to. -/
theorem written_handed_iff [Limits] (hs : Reachable config s) {w : Handed} (hw : w.Known s.manager)
    (h : Silence (s.after (.write w)) t) (hactive : t.activeCaller = none) :
    t.handed = .ok (s.manager.hold w).1.handed ↔
      ¬∃ o, s.override = some o ∧ w.mark = some o.mark ∧ o.home ≠ w.context.key := by
  have hknown : Operation.Known s (.write w) := hw
  have hi : InPlace (s.after (.write w)) t := (h.inPlace (hs.rooted.after hknown)).2
  have hcurrent : t.current = (s.manager.hold w).1 := hi.current
  rw [← hcurrent, handed_current_iff hactive, home_written hs.rooted.marked hi]

def overridden : Simulator :=
  (counter.after (.asCaller (some (.text "ab")))).after (.call .impure (.str "setVal") [.int 5] .item)

theorem overridden_reachable : Reachable Simple.config overridden := by
  have hb : build "Counter" Simple.config 0 (.list []) .none = .ok counter := counter_built
  have hnamed : Operation.Known counter (.asCaller (some (.text "ab"))) := trivial
  exact .step (.step (.build hb) hnamed) trivial

theorem written_handed_overridden :
    Reachable Simple.config overridden ∧ overridden.current.handed.Known overridden.manager ∧
    (overridden.after (.write overridden.current.handed)).activeCaller = none ∧
    ((overridden.after (.write overridden.current.handed)).handed =
        .ok (overridden.manager.hold overridden.current.handed).1.handed ↔
      ¬∃ o, overridden.override = some o ∧ overridden.current.handed.mark = some o.mark ∧
        o.home ≠ overridden.current.handed.context.key) := by
  have hr : Reachable Simple.config overridden := overridden_reachable
  have hw : overridden.current.handed.Known overridden.manager := by
    intro k hk
    cases hk
    exact hr.rooted.marked.current
  have hactive : (overridden.after (.write overridden.current.handed)).activeCaller = none := by cbv
  exact ⟨hr, hw, hactive, written_handed_iff hr hw .start hactive⟩

/-- Written back at once, the context that the call as "ab" left behind is handed out under another key than its own. -/
theorem saved_context_is_rekeyed :
    Reachable Simple.config overridden ∧ overridden.context.key = [0xab] ∧
    (overridden.after (.write overridden.current.handed)).activeCaller = none ∧
    (overridden.after (.write overridden.current.handed)).handed.map (·.context.key) =
      .ok (List.replicate 32 0) := by
  refine ⟨overridden_reachable, ?_, ?_, ?_⟩
  · cbv
  · cbv
  · cbv

end Simulator
end CircuitHarness
