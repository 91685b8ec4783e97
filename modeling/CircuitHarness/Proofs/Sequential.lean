import Mathlib
import CircuitHarness.Proofs.Order
import CircuitHarness.Proofs.Samples

/-! However many dispatchers are kept and whatever is done with them, between accesses, replaced witnesses and writes, a
run is one sequence of calls that each see what the one before has committed. -/
namespace CircuitHarness

/-- Calls no circuit that was taken along from elsewhere; those of a kept dispatcher are called through it. -/
def Operation.Dispatched : Operation → Prop
  | .callHeld (.bound ..) _ => False
  | _ => True

theorem Operation.Settled.unwritten {op : Operation} (h : op.Settled) (s : Simulator) : op.written s = none := by
  cases op <;> first | rfl | cases h

namespace Simulator
variable {s t : Simulator}

/-- What calls nothing makes `c` the current context, and a contract it puts in place is one of the configuration. -/
structure Rests (s t : Simulator) (c : CircuitContext) : Prop where
  context : t.context = c
  config : t.config = s.config
  maker : t.manager.maker = s.manager.maker
  contract : t.contract = s.contract ∨ ∃ ws, s.config.contract ws = .ok t.contract

theorem Rests.adopt (s : Simulator) (h : Handed) : Rests s { s with manager := s.manager.adopt h } h.context :=
  ⟨hold_context s.manager h, rfl, (hold_made s.manager h).1, .inl rfl⟩

theorem Steady.rests (h : Steady s t) : Rests s t s.context where
  context := by
    rw [h.rest]
    rfl
  config := by rw [h.rest]
  maker := by rw [h.rest]
  contract := h.contract

theorem rests_after [Limits] {op : Operation} (h : op.calls = false) (s : Simulator) :
    Rests s (s.after op) ((op.written s).getD s.context) := by
  by_cases hset : op.Settled
  · rw [hset.unwritten]
    exact (steady_perform hset s).rests
  · cases op with
    | asCaller c | persistentCaller c | resetCaller => exact ⟨rfl, rfl, rfl, .inl rfl⟩
    | callerContext =>
      rw [after_callerContext]
      exact ⟨rfl, rfl, rfl, .inl rfl⟩
    | write given =>
      rw [after_write]
      exact .adopt s given
    | updatePrivate p =>
      rw [after_updatePrivate]
      exact .adopt s _
    | switchSender sender carryover =>
      rw [after_switchSender, Operation.written]
      cases sender.key? with
      | none => exact ⟨rfl, rfl, rfl, .inl rfl⟩
      | some k => exact .adopt s _
    | call | callHeld | direct | names => cases h
    | _ => exact absurd trivial hset

end Simulator

namespace Logged
variable {config : Config} {first : CircuitContext} {base : List Event} {l : Logged}

section
variable [Limits]

theorem rest_state (op : Operation) (l : Logged) :
    (machine.rest op l).state = { l.noting (op.written l.host) with host := l.host.after op } := by
  have hhost : (l.noting (op.written l.host)).host = l.host := by cases op.written l.host <;> rfl
  simp only [machine, recordWrite, onHost, Action.bind_state, Action.update_result, Action.update_state,
    Action.within_state, hhost]
  rfl

theorem ends_rest (h : InOrder config first base l) {op : Operation} (hop : op.calls = false) :
    Ends Grows (InOrder config first base) (fun _ _ => True) l (machine.rest op l) := by
  have hrests := Simulator.rests_after hop l.host
  have hslot (k : CircuitKind) (x : Surface) (hx : (l.host.after op).cache.slot k = some (some x)) :
      Recorded l.log x := by
    obtain ⟨-, hsame | hnone | ⟨label, -, hput⟩⟩ := Simulator.slot_after hop l.host k
    · exact h.cached k x (hsame ▸ hx)
    · rw [hnone] at hx
      cases hx
    · rw [hput] at hx
      cases label <;> cases hx
      trivial
  have hmade : ∃ ws, config.contract ws = .ok (l.host.after op).contract := by
    obtain hsame | ⟨ws, hws⟩ := hrests.contract
    · rw [hsame]
      exact h.made
    · exact ⟨ws, h.config ▸ hws⟩
  have hgrown : l.log <:+ (l.noting (op.written l.host)).log := by cases op.written l.host <;> simp [noting]
  refine ⟨?_, ?_, fun _ _ => trivial⟩
  · rw [rest_state]
    exact h.move hrests.context hslot (Simulator.slot_after hop l.host .pure).1 hrests.maker hmade hrests.config
  · rw [rest_state]
    exact hgrown

theorem ends_perform (h : InOrder config first base l) {op : Operation} (hop : op.Dispatched) :
    Ends Grows (InOrder config first base) (fun _ _ => True) l (machine.perform op l) := by
  refine keeps_order.perform h (fun c args hc => ?_) (ends_rest h)
  subst hc
  cases c with
  | bound m b => cases hop
  | standIn label name => trivial

end

/-- A desk whose log is in order, with all that is kept recorded in it. -/
structure OrderlyDesk (config : Config) (first : CircuitContext) (d : Desk Logged) : Prop where
  host : InOrder config first [] d.host
  kept : ∀ x ∈ d.kept, Recorded d.host.log x

namespace OrderlyDesk
variable {d : Desk Logged}

theorem onHost (h : OrderlyDesk config first d) {α : Type} {R : Logged → α → Prop} {o : Outcome Logged α}
    (ho : Ends Grows (InOrder config first []) R d.host o) : OrderlyDesk config first { d with host := o.state } where
  host := ho.keeps
  kept x hx := (h.kept x hx).mono ho.rises

theorem found (h : OrderlyDesk config first d) {place : Nat} {x : Surface} (hx : d.kept[place]? = some x) {name : Value}
    {route : Route} {c : Callable} (hc : x.find name route = .ok c) : SourcedCallable d.host.log c :=
  (h.kept x (List.mem_of_getElem? hx)).find hc

theorem move [Limits] (h : OrderlyDesk config first d) {m : Move} (hm : ∀ op, m = .operate op → op.Dispatched) :
    OrderlyDesk config first (front.after d m) := by
  cases m with
  | access k keep =>
    have hsurface : Ends Grows (InOrder config first []) (fun l x => Recorded l.log x) d.host (front.surface k d.host) :=
      ends_surface h.host k
    have hnext := h.onHost hsurface
    cases keep with
    | false =>
      rw [Front.after_access]
      exact hnext
    | true =>
      rw [Front.after_keep]
      cases hr : (front.surface k d.host).result with
      | error e => exact hnext
      | ok x =>
        refine ⟨hnext.host, fun y hy => ?_⟩
        obtain hy | hy := List.mem_append.mp hy
        · exact hnext.kept y hy
        · rw [List.mem_singleton.mp hy]
          exact hsurface.answer x hr
  | through place name args route =>
    rw [Front.after_through]
    cases hc : d.kept[place]?.bind fun x => (x.find name route).toOption with
    | none => exact h
    | some c =>
      obtain ⟨x, hx, hc⟩ := Option.bind_eq_some_iff.mp hc
      have hfind : x.find name route = .ok c := by
        cases hf : x.find name route with
        | error e =>
          rw [hf] at hc
          cases hc
        | ok c' =>
          rw [hf] at hc
          cases hc
          rfl
      exact h.onHost (keeps_order.call h.host (h.found hx hfind) args)
  | save => exact ⟨h.host, h.kept⟩
  | restore place =>
    rw [Front.after_restore]
    cases d.saved[place]? with
    | none => exact h
    | some c =>
      have hwrite : Ends Grows (InOrder config first []) (fun _ _ => True) d.host (machine.perform (.write c.handed) d.host) :=
        ends_perform h.host trivial
      exact h.onHost hwrite
  | operate op =>
    rw [Front.after_operate]
    exact h.onHost (ends_perform h.host (hm op rfl))

theorem run [Limits] (h : OrderlyDesk config first d) {ms : List Move} (hms : ∀ op, .operate op ∈ ms → op.Dispatched) :
    OrderlyDesk config first (front.run ms d) := by
  induction ms generalizing d with
  | nil => exact h
  | cons m ms ih =>
    have hm (op : Operation) (hop : m = .operate op) : op.Dispatched := hms op (hop ▸ List.mem_cons_self)
    exact ih (h.move hm) fun op hop => hms op (List.mem_cons_of_mem m hop)

end OrderlyDesk

theorem OrderlyDesk.of_build [Limits] {name : String} {maker : Nat} {args options : Value} {start : Simulator}
    (hb : Simulator.build name config maker args options = .ok start) :
    OrderlyDesk config start.context (Desk.start ⟨start, []⟩) := by
  obtain ⟨ws, contract, context, hc, rfl⟩ := Simulator.build_spec hb
  have hempty (k : CircuitKind) (x : Surface) : (Cache.empty : Cache Surface).slot k ≠ some (some x) := by
    cases k <;> nofun
  exact ⟨⟨⟨[], rfl, .nil⟩, trivial, rfl, nofun, fun k x hx => (hempty k x hx).elim, ⟨ws, hc⟩, rfl⟩, nofun⟩

end Logged

namespace Simulator

end Simulator
end CircuitHarness
