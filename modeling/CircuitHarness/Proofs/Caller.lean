import CircuitHarness.Proofs.Hex
import CircuitHarness.Proofs.Quiet

/-! One impure call: it reads the context for its caller, runs its circuit and commits what the circuit leaves behind.
The home key is read with the context, kept while the circuit runs, and set down by the commit. -/
namespace CircuitHarness

def Caller.key : Caller → Except Failure Key
  | .text c => Key.ofHex c
  | .bytes _ => .error .wrongType
  | .other => .error .noAttribute

@[simp] theorem CircuitContext.key_rekey (k : Key) (policy : Carryover) (c : CircuitContext) :
    (c.rekey k policy).key = k := by
  cases policy <;> rfl

namespace Simulator

def handed (s : Simulator) : Except Failure Handed := (callerContext s).result

def callerKey (s : Simulator) : Except Failure Key :=
  match s.activeCaller with
  | some c => c.key
  | none => .ok s.home

/-- What stands once the context for a call has been read. -/
def consumed (s : Simulator) : Simulator :=
  { s with caller := none, pending := if s.activeCaller.isSome then some s.home else none }

theorem handed_eq (s : Simulator) : s.handed =
    match s.activeCaller with
    | some .other => .error .noAttribute
    | some (.bytes _) => .error .wrongType
    | some (.text c) =>
      if c.map Char.toLower = s.context.sender then .ok s.current.handed
      else (s.manager.rebuild c none).map .fresh
    | none =>
      if s.home = s.context.key then .ok s.current.handed
      else .ok (.fresh (s.context.rekey s.home .preserve)) := by
  simp only [handed, callerContext, Action.bind_result, Action.read_result, Action.read_state, Action.write_result,
    Action.write_state]
  cases s.activeCaller with
  | none =>
    dsimp only
    split <;> rfl
  | some caller =>
    cases caller with
    | text c =>
      dsimp only
      split
      · rfl
      · simp only [Action.bind_result, Action.note_result, Action.lift_result]
        cases s.manager.rebuild c none <;> rfl
    | bytes bs => rfl
    | other => rfl

theorem callerContext_state (s : Simulator) : (callerContext s).state = s.consumed := by
  simp only [callerContext, consumed, Action.bind_state, Action.read_result, Action.read_state, Action.write_result,
    Action.write_state]
  cases s.activeCaller with
  | none =>
    dsimp only
    split <;> rfl
  | some caller =>
    cases caller with
    | text c =>
      dsimp only
      split
      · rfl
      · simp only [Action.bind_state, Action.note_result, Action.note_state, Action.lift_result, Action.lift_state]
        cases s.manager.rebuild c none <;> rfl
    | bytes bs => rfl
    | other => rfl

theorem handed_key (s : Simulator) : s.handed.map (·.context.key) = s.callerKey := by
  rw [handed_eq, callerKey]
  cases s.activeCaller with
  | none =>
    dsimp only
    split
    · rename_i h
      rw [h]
      rfl
    · rfl
  | some caller =>
    cases caller with
    | text c =>
      dsimp only
      split
      · rename_i h
        rw [Caller.key, Key.ofHex_of_lower h]
        rfl
      · rw [Manager.rebuild, Caller.key]
        cases Key.ofHex c with
        | error e => rfl
        | ok k => cases s.manager.carryover <;> rfl
    | bytes bs => rfl
    | other => rfl

theorem handed_spec {s : Simulator} {h : Handed} (hh : s.handed = .ok h) :
    (h = s.current.handed ∨ h.mark = none) ∧ h.context = { s.context with localState := h.context.localState } := by
  have fresh {l : LocalState} : (Handed.fresh { s.context with localState := l } = s.current.handed ∨
      (Handed.fresh { s.context with localState := l }).mark = none) ∧
      (Handed.fresh { s.context with localState := l }).context = { s.context with localState := l } :=
    ⟨.inr rfl, rfl⟩
  rw [handed_eq] at hh
  generalize s.activeCaller = caller at hh
  cases caller with
  | none =>
    dsimp only at hh
    split at hh
    · cases hh
      exact ⟨.inl rfl, rfl⟩
    · cases hh
      exact fresh
  | some caller =>
    cases caller with
    | text c =>
      dsimp only at hh
      split at hh
      · cases hh
        exact ⟨.inl rfl, rfl⟩
      · rw [Manager.rebuild] at hh
        cases hk : Key.ofHex c with
        | error e => rw [hk] at hh; cases hh
        | ok k =>
          rw [hk] at hh
          cases hh
          exact fresh
    | bytes bs => cases hh
    | other => cases hh

/-- After a commit home is what was pending, or else the key of what was committed. -/
theorem home_commit (h : Handed) (t : Simulator) : (commit h t).state.home = t.pending.getD h.context.key := by
  cases h with
  | mk c mark => cases mark <;> cases hp : t.pending <;>
    simp [commit, home, Manager.hold, Manager.set, current, context, hp]

theorem callCallable_impure (sv : Services Simulator) (args : List Value) (m : Mark) {b : Bound Circuit}
    (hb : b.kind = .impure) (s : Simulator) :
    ((callCallable sv args (.bound m b) s).result =
        match s.handed with
        | .error e => .error e
        | .ok h => ((b.circuit h.context args).run sv h s.consumed).result.bind Prod.fst) ∧
      (callCallable sv args (.bound m b) s).state =
        match s.handed with
        | .error _ => s.consumed
        | .ok h =>
          match ((b.circuit h.context args).run sv h s.consumed).result with
          | .error _ => ((b.circuit h.context args).run sv h s.consumed).state
          | .ok x => (commit x.2 ((b.circuit h.context args).run sv h s.consumed).state).state := by
  have hr : (callerContext s).result = s.handed := rfl
  simp only [callCallable, Bound.callCircuit, Bound.call, hb, source, Action.bind_result, Action.bind_state,
    callerContext_state, hr]
  cases s.handed with
  | error e => exact ⟨rfl, rfl⟩
  | ok h =>
    simp only [Action.note_result, Action.note_state]
    cases ((b.circuit h.context args).run sv h s.consumed).result with
    | error e => exact ⟨rfl, rfl⟩
    | ok x => exact ⟨Action.lift_result x.1 _, Action.lift_state x.1 _⟩

/-- The three ends of an impure call: no context to hand out, a circuit that fails, a commit before the
value is looked at. -/
inductive ImpureEnd (sv : Services Simulator) (args : List Value) (f : Circuit) (s : Simulator)
    (o : Outcome Simulator Value) : Prop where
  | unread (e : Failure) (handed : s.handed = .error e) (result : o.result = .error e) (state : o.state = s.consumed)
  | failed (h : Handed) (e : Failure) (handed : s.handed = .ok h)
    (ran : ((f h.context args).run sv h s.consumed).result = .error e) (result : o.result = .error e)
    (state : o.state = ((f h.context args).run sv h s.consumed).state)
  | committed (h : Handed) (v : Except Failure Value) (left : Handed) (handed : s.handed = .ok h)
    (ran : ((f h.context args).run sv h s.consumed).result = .ok (v, left)) (result : o.result = v)
    (state : o.state = (commit left ((f h.context args).run sv h s.consumed).state).state)

theorem impureEnd (sv : Services Simulator) (args : List Value) (m : Mark) {b : Bound Circuit} (hb : b.kind = .impure)
    (s : Simulator) : ImpureEnd sv args b.circuit s (callCallable sv args (.bound m b) s) := by
  obtain ⟨hr, ht⟩ := callCallable_impure sv args m hb s
  cases hg : s.handed with
  | error e =>
    rw [hg] at hr ht
    exact .unread e hg hr ht
  | ok h =>
    rw [hg] at hr ht
    dsimp only at hr ht
    cases hx : ((b.circuit h.context args).run sv h s.consumed).result with
    | error e =>
      rw [hx] at hr ht
      exact .failed h e hg hx hr ht
    | ok x =>
      rw [hx] at hr ht
      exact .committed h x.1 x.2 hg hx hr ht

end Simulator
end CircuitHarness
