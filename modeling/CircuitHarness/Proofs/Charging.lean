import CircuitHarness.Contracts
import CircuitHarness.Proofs.Success

/-! What the runs of the sample contracts cost: every impure call that succeeds is charged once, and nothing else is. -/
namespace CircuitHarness

namespace Cost

def counted (sets draws : Nat) : Cost := ⟨.int 0, .int sets, .int 0, .int (8*sets+draws), .int 0⟩

theorem charge_set (m n : Nat) :
    (counted m n).charge [("compute_time", .int 1), ("bytes_written", .int 8)] = .ok (counted (m+1) n) := by
  have hwritten : (8*m+n+8 : Int) = 8*((m+1 : Nat) : Int)+n := by omega
  rw [counted, counted, ← hwritten]
  rfl

theorem charge_draw (m n : Nat) : (counted m n).charge [("bytes_written", .int 1)] = .ok (counted m (n+1)) := by
  have hwritten : (8*m+n+1 : Int) = 8*m+((n+1 : Nat) : Int) := by omega
  rw [counted, counted, ← hwritten]
  rfl

end Cost

namespace Witness

def circuitNames : List String := parts.map (·.name)

end Witness

structure CircuitContext.Billed (sets draws : Nat) (c : CircuitContext) : Prop where
  cost : c.cost = .counted sets draws
  gas : c.gas = .none

/-- A circuit that comes down to one result and charges for what goes by its name. -/
def Circuit.Bills (name : String) (f : Circuit) : Prop :=
  ∃ r : CircuitContext → List Value → Except Failure (Value × CircuitContext), f = (fun c as => .ofResult (r c as)) ∧
    ∀ c as v d m n, r c as = .ok (v, d) → c.Billed m n →
      d.Billed (m+if name ∈ ["setVal"] then 1 else 0) (n+if name ∈ Witness.circuitNames then 1 else 0)

namespace Fixture

def configOf (call : WitnessCall) : Fixture → Config
  | .simple => Simple.config
  | .witness => Witness.configOf call
  | .ownable => Ownable.config

theorem configOf_call (fx : Fixture) : fx.configOf Witness.call = fx.sample.config := by
  cases fx <;> rfl

theorem tidy (call : WitnessCall) (fx : Fixture) : (fx.configOf call).Of Circuit.Tidy := by
  cases fx with
  | simple => exact Simple.tidy
  | witness => exact Witness.tidy call
  | ownable => exact Ownable.tidy

theorem bills {call : WitnessCall} {fx : Fixture} {ws : Witnesses} {a : Artifact} {name : String} {f : Circuit}
    (ha : (fx.configOf call).contract ws = .ok a) (hf : a.impure.get? name = some f) : f.Bills name := by
  cases fx with
  | simple =>
    cases ha
    obtain ⟨rfl, rfl⟩ := Simple.mem_impure hf
    refine ⟨_, rfl, fun c as v d m n hd hc => ?_⟩
    obtain ⟨x, es, l, cost, -, -, -, -, hcost, rfl⟩ := Simple.setVal_spec hd
    rw [hc.cost, Cost.charge_set] at hcost
    cases hcost
    exact ⟨rfl, hc.gas⟩
  | witness =>
    cases ha
    obtain ⟨p, hp, rfl, rfl⟩ := Witness.mem_impure hf
    refine ⟨_, rfl, fun c as v d m n hd hc => ?_⟩
    obtain ⟨seen, q, w, es, cost, -, -, -, -, -, hcost, rfl⟩ := Witness.circuit_spec hd
    rw [hc.cost, Cost.charge_draw] at hcost
    cases hcost
    have hname : p.name ∈ Witness.circuitNames := List.mem_map_of_mem hp
    have hother : ∀ p ∈ Witness.parts, p.name ∉ ["setVal"] := by decide
    rw [if_pos hname, if_neg (hother p hp)]
    exact ⟨rfl, hc.gas⟩
  | ownable =>
    cases ha
    obtain ⟨rfl, rfl⟩ := Ownable.mem_impure hf
    refine ⟨_, rfl, fun c as v d m n hd hc => ?_⟩
    obtain ⟨next, es, now, -, -, -, -, -, rfl⟩ := Ownable.transferOwnership_spec hd
    exact ⟨hc.cost, hc.gas⟩

end Fixture

namespace Simulator
variable {call : WitnessCall} {fx : Fixture} {s : Simulator} {op : Operation} {m n : Nat}

theorem billed_written (hop : op.Unwritten) (h : s.context.Billed m n) :
    ((op.written s).getD s.context).Billed m n := by
  cases op with
  | write g => cases hop
  | updatePrivate p => exact ⟨h.cost, h.gas⟩
  | switchSender sender carryover => cases hk : sender.key? <;> simpa [Operation.written, hk] using ⟨h.cost, h.gas⟩
  | _ => exact h

section
variable [Limits]

/-- One step: the bill goes up with a call that succeeds, and only then. -/
theorem billed_after (hs : s.Rooted (fx.configOf call)) (hop : op.Unwritten)
    (hdrawn : op.Drawn (fx.configOf call).Makes) (h : s.context.Billed m n) :
    (s.after op).context.Billed (m+successes ["setVal"] [op] s) (n+successes Witness.circuitNames [op] s) := by
  cases hsome : op.succeeds s with
  | none =>
    rw [hs.context_kept (fx.tidy call) hdrawn hsome, successes_none hsome, successes_none hsome]
    exact billed_written hop h
  | some x =>
    obtain ⟨b, args⟩ := x
    obtain ⟨hkind, ⟨a, ⟨ws, ha⟩, hb⟩, -⟩ := hs.succeeds_spec (fx.tidy call) hdrawn hsome
    rw [hkind] at hb
    obtain ⟨r, hr, hbills⟩ := Fixture.bills ha hb
    obtain ⟨g, v, d, hg, hd, -, hcontext⟩ := hs.succeeds_ofResult (fx.tidy call) hdrawn hsome hr
    have hgiven : g.context.Billed m n := by
      rw [(handed_spec hg).2]
      exact ⟨h.cost, h.gas⟩
    rw [hcontext, successes_some hsome, successes_some hsome]
    exact hbills _ _ _ _ _ _ hd hgiven

theorem billed_afterAll {ops : List Operation} (hs : s.Rooted (fx.configOf call))
    (hops : ∀ op ∈ ops, op.Unwritten ∧ op.Drawn (fx.configOf call).Makes) (h : s.context.Billed m n) :
    (afterAll ops s).context.Billed (m+successes ["setVal"] ops s) (n+successes Witness.circuitNames ops s) := by
  induction ops generalizing s m n with
  | nil => exact h
  | cons op ops ih =>
    obtain ⟨hop, hdrawn⟩ := hops op List.mem_cons_self
    rw [successes_cons ["setVal"], successes_cons Witness.circuitNames, ← Nat.add_assoc, ← Nat.add_assoc]
    apply ih (hs.after (hop.known s))
    · intro next hnext
      exact hops next (List.mem_cons_of_mem op hnext)
    · exact billed_after hs hop hdrawn h

/-- In every run of a sample simulator that writes no context from outside, each call that succeeds is charged what its
circuit charges, once, and nothing else is charged, whoever calls and whatever context is made anew on the way. -/
theorem cost_counts_successes {name : String} {maker : Nat} {args options : Value}
    (hb : build name (fx.configOf call) maker args options = .ok s) {ops : List Operation}
    (hops : ∀ op ∈ ops, op.Unwritten ∧ op.Drawn (fx.configOf call).Makes) :
    (afterAll ops s).context.cost = .counted (successes ["setVal"] ops s) (successes Witness.circuitNames ops s) ∧
      (afterAll ops s).context.gas = .none := by
  have hstart : s.context.Billed 0 0 := by
    obtain ⟨ws, contract, given, as, first, address, k, -, -, rfl⟩ := build_made hb
    exact ⟨rfl, rfl⟩
  have hend := billed_afterAll (.of_build hb) hops hstart
  simp only [Nat.zero_add] at hend
  exact ⟨hend.cost, hend.gas⟩

end

def setForTwo : List Operation :=
  [.call .impure (.str "setVal") [.int 5] .item, .updatePrivate (.int 1), .asCaller (some (.text "ab")),
    .call .impure (.str "setVal") [.int 6] .item, .switchSender (.str "cd") none,
    .call .impure (.str "setVal") [.int (-1)] .item, .call .pure (.str "scratchVal") [.int 9] .item]

theorem setForTwo_cost :
    build "Counter" Fixture.simple.sample.config 0 (.list []) .none = .ok counter ∧
    successes ["setVal"] setForTwo counter = 2 ∧
    (afterAll setForTwo counter).context.cost =
      .counted (successes ["setVal"] setForTwo counter) (successes Witness.circuitNames setForTwo counter) ∧
    (afterAll setForTwo counter).context.gas = .none := by
  have hops : ∀ op ∈ setForTwo, op.Unwritten ∧ op.Drawn (Fixture.simple.configOf Witness.call).Makes := by
    simp [setForTwo, Operation.Unwritten, Operation.Drawn]
  have hb : build "Counter" Fixture.simple.sample.config 0 (.list []) .none = .ok counter := counter_built
  refine ⟨hb, by decide +kernel, ?_⟩
  rw [← Fixture.configOf_call] at hb
  exact cost_counts_successes hb hops

end Simulator
end CircuitHarness
