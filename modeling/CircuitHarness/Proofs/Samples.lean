import CircuitHarness.Contracts.Ownable
import CircuitHarness.Contracts.Witness
import CircuitHarness.Proofs.Machine

/-! The circuits of the sample contracts leave their simulator alone, keep the key and do not look at marks, whatever
their witnesses answer. -/
namespace CircuitHarness

theorem LocalState.addOutput_key {l m : LocalState} {record : Value} (h : l.addOutput record = .ok m) :
    m.key = l.key := by
  rw [addOutput] at h
  cases hi : l.index.add (.int 1) with
  | error e => rw [hi] at h; cases h
  | ok n =>
    rw [hi] at h
    cases h
    rfl

theorem Circuit.tidy_ofResult {f : CircuitContext → List Value → Except Failure (Value × CircuitContext)}
    (h : ∀ c args v d, f c args = .ok (v, d) → d.key = c.key) (k : CircuitKind) :
    Circuit.Tidy k fun c args => .ofResult (f c args) where
  quiet c args := by
    dsimp only
    cases f c args <;> trivial
  key _ c args := by
    dsimp only
    cases hf : f c args with
    | error e => trivial
    | ok x => exact h c args x.1 x.2 hf
  whole c args := by
    dsimp only
    cases f c args with
    | error e => trivial
    | ok x => exact ⟨x.1, rfl⟩

theorem Artifact.mem_of_lists {ps is : List (String × Circuit)}
    {initial : ConstructorContext → List Value → Except Failure ConstructorResult} {k : CircuitKind} {name : String}
    {f : Circuit} (h : ((Artifact.mk (.ofList ps) (.ofList is) initial).circuits k).get? name = some f) :
    (name, f) ∈ match k with
      | .pure => ps
      | .impure => is := by
  cases k with
  | pure => exact Table.mem_ofList (Table.mem_entries h)
  | impure => exact Table.mem_ofList (Table.mem_entries h)

theorem Artifact.of_lists {P : CircuitKind → Circuit → Prop} {ps is : List (String × Circuit)}
    {initial : ConstructorContext → List Value → Except Failure ConstructorResult} (hp : ∀ e ∈ ps, P .pure e.2)
    (hi : ∀ e ∈ is, P .impure e.2) : (Artifact.mk (.ofList ps) (.ofList is) initial).Of P := by
  intro k name f hf
  have hmem := Artifact.mem_of_lists hf
  cases k with
  | pure => exact hp (name, f) hmem
  | impure => exact hi (name, f) hmem

namespace Simple

theorem getVal_key {c d : CircuitContext} {args : List Value} {v : Value} (h : getVal c args = .ok (v, d)) :
    d.key = c.key := by
  cases args with
  | cons a r => cases h
  | nil =>
    obtain ⟨w, -, h⟩ := Except.ok_of_bind h
    obtain ⟨cost, -, h⟩ := Except.ok_of_bind h
    cases h
    rfl

theorem scratchVal_key {c d : CircuitContext} {args : List Value} {v : Value} (h : scratchVal c args = .ok (v, d)) :
    d.key = c.key := by
  obtain _ | ⟨n, _ | ⟨x, r⟩⟩ := args
  · cases h
  · obtain ⟨es, -, h⟩ := Except.ok_of_bind h
    obtain ⟨cost, -, h⟩ := Except.ok_of_bind h
    cases h
    rfl
  · cases h

theorem setVal_spec {c d : CircuitContext} {args : List Value} {v : Value} (h : setVal c args = .ok (v, d)) :
    ∃ n es l cost, args = [n] ∧ v = .none ∧ c.payload.entries = .ok es ∧
      c.localState.addOutput (.tuple [.str "setVal", n]) = .ok l ∧
      c.cost.charge [("compute_time", .int 1), ("bytes_written", .int 8)] = .ok cost ∧
      d = { c.withPayload ((es.put (.str "_val") n).put (.str "_setter") (.str c.sender)) with
        localState := l, cost := cost } := by
  obtain _ | ⟨n, _ | ⟨x, r⟩⟩ := args
  · cases h
  · obtain ⟨low, -, h⟩ := Except.ok_of_bind h
    cases low with
    | true => cases h
    | false =>
      obtain ⟨es, hes, h⟩ := Except.ok_of_bind h
      obtain ⟨l, hl, h⟩ := Except.ok_of_bind h
      obtain ⟨cost, hcost, h⟩ := Except.ok_of_bind h
      cases h
      exact ⟨n, es, l, cost, rfl, rfl, hes, hl, hcost, rfl⟩
  · cases h

theorem setVal_key {c d : CircuitContext} {args : List Value} {v : Value} (h : setVal c args = .ok (v, d)) :
    d.key = c.key := by
  obtain ⟨n, es, l, cost, -, -, -, hl, -, rfl⟩ := setVal_spec h
  exact LocalState.addOutput_key hl

theorem mem_impure {name : String} {f : Circuit} (h : contract.impure.get? name = some f) :
    name = "setVal" ∧ f = fun c as => .ofResult (setVal c as) :=
  Prod.mk.inj (List.mem_singleton.mp (Artifact.mem_of_lists (k := .impure) h))

theorem tidy : config.Of Circuit.Tidy := by
  rintro ws a h
  cases h
  refine Artifact.of_lists (fun e he => ?_) fun e he => ?_
  · simp only [List.mem_cons, List.not_mem_nil, or_false] at he
    obtain rfl | rfl := he
    · exact Circuit.tidy_ofResult (fun c args v d => getVal_key) _
    · exact Circuit.tidy_ofResult (fun c args v d => scratchVal_key) _
  · simp only [List.mem_cons, List.not_mem_nil, or_false] at he
    subst he
    exact Circuit.tidy_ofResult (fun c args v d => setVal_key) _

theorem blind : config.Of fun _ f => f.Blind := by
  rintro ws a h
  cases h
  refine Artifact.of_lists (P := fun _ f => Circuit.Blind f) (fun e he => ?_) fun e he => ?_
  · simp only [List.mem_cons, List.not_mem_nil, or_false] at he
    obtain rfl | rfl := he <;> exact Circuit.blind_ofResult _
  · cases List.mem_singleton.mp he
    exact Circuit.blind_ofResult _

end Simple

namespace Ownable

theorem owner_tidy : Circuit.Tidy .pure owner where
  quiet c args := by
    cases args with
    | nil =>
      rw [owner]
      cases c.payload.entry (.str "_owner") <;> trivial
    | cons a r => trivial
  key h := by cases h
  whole c args := by
    cases args with
    | nil =>
      rw [owner]
      cases c.payload.entry (.str "_owner") with
      | error e => trivial
      | ok v => exact ⟨v, rfl⟩
    | cons a r => trivial

theorem transferOwnership_spec {c d : CircuitContext} {args : List Value} {v : Value}
    (h : transferOwnership c args = .ok (v, d)) :
    ∃ next es now, args = [next] ∧ v = .none ∧ c.payload.entries = .ok es ∧
      (Value.map es).entry (.str "_owner") = .ok now ∧ (Value.str c.sender).same now = true ∧
      d = c.withPayload (es.put (.str "_owner") next) := by
  obtain _ | ⟨next, _ | ⟨x, r⟩⟩ := args
  · cases h
  · obtain ⟨es, hes, h⟩ := Except.ok_of_bind h
    obtain ⟨now, hnow, h⟩ := Except.ok_of_bind h
    split at h
    · rename_i hsame
      cases h
      exact ⟨next, es, now, rfl, rfl, hes, hnow, hsame, rfl⟩
    · cases h
  · cases h

theorem transferOwnership_key {c d : CircuitContext} {args : List Value} {v : Value}
    (h : transferOwnership c args = .ok (v, d)) : d.key = c.key := by
  obtain ⟨next, es, now, -, -, -, -, -, rfl⟩ := transferOwnership_spec h
  rfl

theorem mem_impure {name : String} {f : Circuit} (h : contract.impure.get? name = some f) :
    name = "transferOwnership" ∧ f = fun c as => .ofResult (transferOwnership c as) :=
  Prod.mk.inj (List.mem_singleton.mp (Artifact.mem_of_lists (k := .impure) h))

theorem tidy : config.Of Circuit.Tidy := by
  rintro ws a h
  cases h
  refine Artifact.of_lists (fun e he => ?_) fun e he => ?_
  · cases List.mem_singleton.mp he
    exact owner_tidy
  · cases List.mem_singleton.mp he
    exact Circuit.tidy_ofResult (fun c args v d => transferOwnership_key) _

end Ownable

namespace Witness

theorem circuit_spec {call : WitnessCall} {ws : Witnesses} {witness key : String} {arity : Nat} {c d : CircuitContext}
    {args : List Value} {v : Value} (h : circuit call ws witness key arity c args = .ok (v, d)) :
    ∃ seen p w es cost, args.length = arity ∧ v = .none ∧ view c = .ok seen ∧
      ws.call call (.str witness) seen (.ok args) = .ok (p, w) ∧ c.payload.entries = .ok es ∧
      c.cost.charge [("bytes_written", .int 1)] = .ok cost ∧
      d = { c.withPayload (es.put (.str key) w) with privateState := p, cost := cost } := by
  rw [circuit] at h
  split at h
  · rename_i harity
    obtain ⟨x, hx, h⟩ := Except.ok_of_bind h
    obtain ⟨seen, hseen, hx⟩ := Except.ok_of_bind hx
    obtain ⟨y, hy, hx⟩ := Except.ok_of_bind hx
    cases hx
    obtain ⟨es, hes, h⟩ := Except.ok_of_bind h
    obtain ⟨cost, hcost, h⟩ := Except.ok_of_bind h
    cases h
    exact ⟨seen, y.1, y.2, es, cost, harity, rfl, hseen, hy, hes, hcost, rfl⟩
  · cases h

theorem circuit_key {call : WitnessCall} {ws : Witnesses} {witness key : String} {arity : Nat} {c d : CircuitContext}
    {args : List Value} {v : Value} (h : circuit call ws witness key arity c args = .ok (v, d)) : d.key = c.key := by
  obtain ⟨seen, p, w, es, cost, -, -, -, -, -, -, rfl⟩ := circuit_spec h
  rfl

/-- A circuit of the contract by its name: the witness it asks, the key it stores the answer under, and how many
arguments it takes. -/
structure Part where
  name : String
  witness : String
  key : String
  arity : Nat

def parts : List Part :=
  [⟨"setBytes", "wit_secretBytes", "_valBytes", 0⟩, ⟨"setField", "wit_secretFieldPlusArg", "_valField", 1⟩,
    ⟨"setUint", "wit_secretUintPlusArgs", "_valUint", 2⟩, ⟨"bumpCounter", "wit_bumpCounter", "_valCounter", 0⟩]

theorem mem_impure {call : WitnessCall} {ws : Witnesses} {name : String} {f : Circuit}
    (h : (contract call ws).impure.get? name = some f) :
    ∃ p ∈ parts, name = p.name ∧ f = fun c as => .ofResult (circuit call ws p.witness p.key p.arity c as) := by
  have hmem : (name, f) ∈ impure call ws := Table.mem_ofList (Table.mem_entries h)
  have hparts : impure call ws =
      parts.map fun p => (p.name, fun c as => .ofResult (circuit call ws p.witness p.key p.arity c as)) := rfl
  rw [hparts, List.mem_map] at hmem
  obtain ⟨p, hp, he⟩ := hmem
  cases he
  exact ⟨p, hp, rfl, rfl⟩

theorem tidy (call : WitnessCall) : (configOf call).Of Circuit.Tidy := by
  rintro ws a h
  cases h
  have hp : ∀ e ∈ ([] : List (String × Circuit)), Circuit.Tidy .pure e.2 := fun e he => by cases he
  have hi : ∀ e ∈ impure call ws, Circuit.Tidy .impure e.2 := by
    intro e he
    obtain ⟨x, -, rfl⟩ := List.mem_map.mp he
    exact Circuit.tidy_ofResult (fun c args v d => circuit_key) _
  exact Artifact.of_lists hp hi

end Witness
namespace Simulator

def counter : Simulator :=
  let context : CircuitContext :=
    ⟨.map [], Simple.start, .str Address.placeholder, .empty (List.replicate 32 0), .zero, .none⟩
  ⟨"Counter", Simple.config, [], Simple.contract, context.address, ⟨0, 1, ⟨⟨0, 0⟩, context⟩, .reset⟩, .empty, 0, none,
    none, none, none⟩

theorem counter_built : build "Counter" Simple.config 0 (.list []) .none = .ok counter := rfl

end Simulator
end CircuitHarness
