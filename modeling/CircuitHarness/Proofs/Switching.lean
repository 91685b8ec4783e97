import CircuitHarness.Manager.Bare
import CircuitHarness.Proofs.Deployed

/-! Switches of the sender, one after another. All of them together are one switch, to the last sender that reads as a
key; whatever else is in the context stays, and so do the coin records unless some switch on the way drops them. -/
namespace CircuitHarness

namespace Manager

structure Switch where
  sender : String
  carryover : Option Carryover

namespace Switch

def key? (w : Switch) : Option Key := (Key.ofHex w.sender).toOption

def policy (w : Switch) (usual : Carryover) : Carryover := w.carryover.getD usual

def perform (w : Switch) : Action Manager CircuitContext := switchSender (.str w.sender) w.carryover

def operation (w : Switch) : Operation := .switchSender (.str w.sender) w.carryover

end Switch

def switched (m : Manager) (w : Switch) : Manager := (w.perform m).state

def switchedAll (m : Manager) (ws : List Switch) : Manager := ws.foldl switched m

/-- The local state that switches leave: under the last key, and emptied by any switch that does not preserve. -/
def collapsed (usual : Carryover) (ws : List Switch) (l : LocalState) : LocalState :=
  let k := ((ws.filterMap Switch.key?).getLast?).getD l.key
  if ∀ w ∈ ws, w.key?.isSome → w.policy usual = .preserve then { l with key := k } else .empty k

section
variable (m : Manager) (w : Switch)

theorem switched_eq : m.switched w =
    match w.key? with
    | some k => m.adopt (.fresh (m.current.context.rekey k (w.policy m.carryover)))
    | none => m :=
  switchSender_state m (.str w.sender) w.carryover

theorem perform_switch_result :
    (w.perform m).result = (Key.ofHex w.sender).map fun k => m.current.context.rekey k (w.policy m.carryover) := by
  rw [Switch.perform, switchSender_result]
  rfl

theorem switched_carryover : (m.switched w).carryover = m.carryover := by
  rw [switched_eq]
  cases w.key? <;> rfl

end

theorem collapsed_cons (usual : Carryover) (w : Switch) (ws : List Switch) (l : LocalState) :
    collapsed usual (w :: ws) l =
      match w.key? with
      | some k => collapsed usual ws (l.rekey k (w.policy usual))
      | none => collapsed usual ws l := by
  cases hk : w.key? with
  | none => simp [collapsed, hk]
  | some k =>
    cases hp : w.policy usual with
    | preserve => simp [collapsed, hk, hp, LocalState.rekey, List.getLast?_cons]
    | reset => simp [collapsed, hk, hp, LocalState.rekey, LocalState.empty, List.getLast?_cons]

theorem switchedAll_spec (m : Manager) (ws : List Switch) :
    (m.switchedAll ws).carryover = m.carryover ∧
      (m.switchedAll ws).current.context =
        { m.current.context with localState := collapsed m.carryover ws m.current.context.localState } := by
  induction ws generalizing m with
  | nil => simp [switchedAll, collapsed]
  | cons w ws ih =>
    obtain ⟨hcarryover, hcontext⟩ := ih (m.switched w)
    rw [switched_carryover] at hcarryover hcontext
    refine ⟨hcarryover, hcontext.trans ?_⟩
    rw [collapsed_cons, switched_eq]
    cases w.key? <;> rfl

theorem afterAll_switches [Limits] (m : Manager) (ws : List Switch) (s : Simulator) :
    Simulator.afterAll (ws.map Switch.operation) { s with manager := m } = { s with manager := m.switchedAll ws } := by
  induction ws generalizing m with
  | nil => rfl
  | cons w ws ih =>
    have hstep : Simulator.after { s with manager := m } w.operation = { s with manager := m.switched w } := by
      rw [Switch.operation, Simulator.after_switchSender, switched_eq]
      change (match w.key? with | some _ => _ | none => _) = _
      cases w.key? <;> rfl
    rw [List.map_cons, Simulator.afterAll, hstep, ih]
    rfl

theorem rebuild_own (m : Manager) : m.rebuild m.current.context.sender (some .preserve) = .ok m.current.context := by
  rw [rebuild, CircuitContext.sender, Key.ofHex_toHex]
  rfl

theorem bare_rebuild_state [Limits] (sender : Value) (carryover : Option Carryover) (b : Bare) :
    (Bare.perform (.rebuild sender carryover) b).state = b := by
  simp only [Bare.perform, Action.bind_state, Action.lift_result, Action.lift_state, Action.read_result,
    Action.read_state, Action.pure_state]
  split
  · split <;> rfl
  · rfl

/-- Wherever a manager starts from, after any switches its context is the first one, but for the local state: that is
under the last key that could be read, with its coin records if no switch to a key dropped them and emptied otherwise. A
switch to what is no key fails with a bad value, and nothing changes. Rebuilt for its own key with its records preserved, a
context is as it was, and to rebuild changes neither a simulator nor a bare manager. -/
theorem switches_collapse [Limits] (m : Manager) (ws : List Switch) :
    let c := m.current.context
    let n := m.switchedAll ws
    n.current.context = { c with localState := collapsed m.carryover ws c.localState } ∧
    (∀ w : Switch,
      (∃ k, Key.ofHex w.sender = .ok k ∧ (w.perform n).result = .ok (n.switched w).current.context) ∨
      ∃ f, Key.ofHex w.sender = .error f ∧ f.kind = "ValueError" ∧
        (w.perform n).result = .error f ∧ n.switched w = n) ∧
    n.rebuild n.current.context.sender (some .preserve) = .ok n.current.context ∧
    ∀ (s : Simulator) (b : Bare),
      Simulator.afterAll (ws.map Switch.operation) { s with manager := m } = { s with manager := n } ∧
      ∀ sender carryover, s.after (.rebuild sender carryover) = s ∧
        (Bare.perform (.rebuild sender carryover) b).state = b := by
  intro c n
  have hcontext : n.current.context = { c with localState := collapsed m.carryover ws c.localState } :=
    (switchedAll_spec m ws).2
  refine ⟨hcontext, fun w => ?_, rebuild_own n, fun s b => ⟨afterAll_switches m ws s, fun sender carryover => ?_⟩⟩
  · rw [perform_switch_result, switched_eq, Switch.key?]
    cases hk : Key.ofHex w.sender with
    | ok k => exact .inl ⟨k, rfl, rfl⟩
    | error f => exact .inr ⟨f, rfl, Key.ofHex_error hk, rfl, rfl⟩
  · have hsimulator : s.after (.rebuild sender carryover) = s := by
      rw [Simulator.after, Simulator.perform_rebuild]
    exact ⟨hsimulator, bare_rebuild_state sender carryover b⟩

example : collapsed .preserve [⟨"ab", none⟩, ⟨"cd", some .reset⟩, ⟨"EF", none⟩, ⟨"no", none⟩]
    ⟨[1], .int 2, [.int 7], []⟩ = .empty [0xef] := by cbv

end Manager
end CircuitHarness
