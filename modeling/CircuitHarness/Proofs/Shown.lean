import CircuitHarness.Proofs.Success

/-! What a simulator shows of its witness context is what the witness of the next call gets to see, whoever that call
runs as and whatever led up to it. -/
namespace CircuitHarness
namespace Witness

/-- What a circuit asks: the witness under its name, and what that gets to see. Nothing is asked where the arguments are
too many or too few, where there is no such witness, or where the ledger cannot be read. -/
def Part.asks (p : Part) (ws : Witnesses) (c : CircuitContext) (args : List Value) : Option (Value × WitnessContext) :=
  if args.length = p.arity then
    match view c, Value.Keyed.get? (.str p.witness) ws with
    | .ok seen, some w => some (w, seen)
    | _, _ => none
  else none

variable {call : WitnessCall} {ws : Witnesses} {p : Part} {c : CircuitContext} {args : List Value}

theorem callWitness_of_view {seen : WitnessContext} (h : view c = .ok seen) (name : String) :
    callWitness call ws c name args =
      (ws.call call (.str name) seen (.ok args)).map fun x => ({ c with privateState := x.1 }, x.2) := by
  rw [callWitness, h]
  change ws.call call (.str name) seen (.ok args) >>= _ = _
  cases ws.call call (.str name) seen (.ok args) <;> rfl

theorem call_present {name : String} {w : Value} (h : Value.Keyed.get? (.str name) ws = some w) (seen : WitnessContext) :
    ws.call call (.str name) seen (.ok args) = call w seen args := by
  simp only [Witnesses.call, h]
  rfl

theorem call_absent {name : String} (h : Value.Keyed.get? (.str name) ws = none) (seen : WitnessContext) :
    ws.call call (.str name) seen (.ok args) = .error (.missingKey (.str name)) := by
  simp only [Witnesses.call, h]
  rfl

theorem circuit_asks {w : Value} {seen : WitnessContext} (h : p.asks ws c args = some (w, seen)) :
    circuit call ws p.witness p.key p.arity c args =
      call w seen args >>= fun x => store { c with privateState := x.1 } p.key x.2 := by
  rw [Part.asks] at h
  split at h
  · rename_i harity
    split at h
    · rename_i seen' w' hseen hw
      cases h
      rw [circuit, if_pos harity, callWitness_of_view hseen, call_present hw]
      cases call w seen args <;> rfl
    · cases h
  · cases h

theorem circuit_unasked (call : WitnessCall) (h : p.asks ws c args = none) :
    ∃ e, circuit call ws p.witness p.key p.arity c args = .error e := by
  rw [Part.asks] at h
  split at h
  · rename_i harity
    rw [circuit, if_pos harity]
    cases hseen : view c with
    | error e => exact ⟨e, by rw [callWitness, hseen]; rfl⟩
    | ok seen =>
      cases hw : Value.Keyed.get? (.str p.witness) ws with
      | none => exact ⟨_, by rw [callWitness_of_view hseen, call_absent hw]; rfl⟩
      | some w =>
        rw [hseen, hw] at h
        cases h
  · rename_i harity
    exact ⟨.wrongType, by rw [circuit, if_neg harity]⟩

theorem asks_spec {w : Value} {seen : WitnessContext} (h : p.asks ws c args = some (w, seen)) :
    view c = .ok seen ∧ Value.Keyed.get? (.str p.witness) ws = some w := by
  rw [Part.asks] at h
  split at h
  · split at h
    · rename_i hseen hw
      cases h
      exact ⟨hseen, hw⟩
    · cases h
  · cases h

theorem view_privateState {seen : WitnessContext} (h : view c = .ok seen) : seen.privateState = c.privateState := by
  obtain ⟨l, -, h⟩ := Except.ok_of_bind h
  cases h
  rfl

theorem circuit_answered {r : Value} {d : CircuitContext}
    (h : circuit call ws p.witness p.key p.arity c args = .ok (r, d)) :
    ∃ w seen q v es, p.asks ws c args = some (w, seen) ∧ call w seen args = .ok (q, v) ∧ c.payload.entries = .ok es ∧
      r = .none ∧ d.privateState = q ∧ d.payload = .map (Value.Keyed.put (.str p.key) v es) := by
  obtain ⟨seen, q, v, es, cost, harity, hnone, hseen, hcall, hes, -, rfl⟩ := circuit_spec h
  cases hw : Value.Keyed.get? (.str p.witness) ws with
  | none =>
    rw [call_absent hw] at hcall
    cases hcall
  | some w =>
    rw [call_present hw] at hcall
    have hasks : p.asks ws c args = some (w, seen) := by rw [Part.asks, if_pos harity, hseen, hw]
    exact ⟨w, seen, q, v, es, hasks, hcall, hes, hnone, rfl, rfl⟩

theorem part_of_from {A : Artifact → Prop} {Q : Witnesses → Prop} (hA : ∀ a, A a → ∃ ws, Q ws ∧ a = contract call ws)
    {b : Bound Circuit} (h : b.From A) (hb : b.kind = .impure) :
    ∃ ws, Q ws ∧ ∃ p ∈ parts, b.name = p.name ∧
      b.circuit = fun c as => .ofResult (circuit call ws p.witness p.key p.arity c as) := by
  obtain ⟨a, ha, hf⟩ := h
  obtain ⟨ws, hws, rfl⟩ := hA a ha
  rw [hb] at hf
  exact ⟨ws, hws, mem_impure hf⟩

end Witness

namespace Simulator
variable {call : WitnessCall} {config : Config} {s : Simulator}

/-- The context handed out shows a witness the same as the simulator does, though its coin records may be others. -/
theorem view_handed (hledger : s.config.ledger = Witness.ledger) {g : Handed} (hg : s.handed = .ok g) :
    Witness.view g.context = s.witnessContext := by
  have hcontext := (handed_spec hg).2
  rw [Witness.view, witnessContext, publicState, hledger, hcontext]

/-- In every reachable state of a simulator of the contract with witnesses, contexts written from outside included: if
the next impure call comes to ask a witness, that gets to see what the simulator shows as its witness context just before
the call, and what it answers is what the call is made of. -/
theorem witness_sees_what_is_shown [Limits] (hcontract : config.contract = (Witness.configOf call).contract)
    (hledger : config.ledger = Witness.ledger) (hs : Reachable config s) {op : Operation} (hop : op.Drawn config.Makes)
    {m : Mark} {b : Bound Circuit} {args : List Value} (hc : op.callee s = some (.bound m b, args))
    (hb : b.kind = .impure) :
    ∃ ws, ∃ p ∈ Witness.parts, b.name = p.name ∧
      b.circuit = (fun c as => .ofResult (Witness.circuit call ws p.witness p.key p.arity c as)) ∧
      ((∃ e, s.handed = .error e ∧ (perform op s).result = .error e) ∨
        ∃ g, s.handed = .ok g ∧
          (p.asks ws g.context args = none ∧ (∃ e, (perform op s).result = .error e) ∨
            ∃ w seen, p.asks ws g.context args = some (w, seen) ∧ s.witnessContext = .ok seen ∧
              (perform op s).result =
                (call w seen args >>= fun x => Witness.store { g.context with privateState := x.1 } p.key x.2).map
                  fun y => .value y.1)) := by
  have hroot : s.Rooted config := hs.rooted
  have hfrom : b.From config.Makes := hroot.sound.callee_from hroot.contract hop hc
  have hmade (a : Artifact) (ha : config.Makes a) : ∃ ws, True ∧ a = Witness.contract call ws := by
    obtain ⟨ws, hws⟩ := ha
    rw [hcontract] at hws
    cases hws
    exact ⟨ws, trivial, rfl⟩
  obtain ⟨ws, -, p, hp, hname, hcircuit⟩ := Witness.part_of_from hmade hfrom hb
  obtain ⟨hresult, -, -⟩ := call_ofResult hroot.sound hc hb hcircuit
  refine ⟨ws, p, hp, hname, hcircuit, ?_⟩
  cases hg : s.handed with
  | error e =>
    rw [hg] at hresult
    exact .inl ⟨e, rfl, hresult⟩
  | ok g =>
    have hview : Witness.view g.context = s.witnessContext := view_handed (hroot.config ▸ hledger) hg
    have hran : (perform op s).result =
        (Witness.circuit call ws p.witness p.key p.arity g.context args).map fun y => .value y.1 := by
      rw [hresult, hg]
      rfl
    refine .inr ⟨g, rfl, ?_⟩
    cases hasks : p.asks ws g.context args with
    | none =>
      obtain ⟨e, he⟩ := Witness.circuit_unasked call hasks
      refine .inl ⟨rfl, e, ?_⟩
      rw [hran, he]
      rfl
    | some x =>
      obtain ⟨w, seen⟩ := x
      refine .inr ⟨w, seen, rfl, hview.symm.trans (Witness.asks_spec hasks).1, ?_⟩
      rw [hran, Witness.circuit_asks hasks]

def drawing : Simulator :=
  let context : CircuitContext :=
    ⟨Witness.defaultPrivate, Witness.start, .str Address.placeholder, .empty (List.replicate 32 0), .zero, .none⟩
  ⟨"Drawing", Witness.config, Witness.ownWitnesses, Witness.contract Witness.call Witness.ownWitnesses, context.address,
    ⟨0, 1, ⟨⟨0, 0⟩, context⟩, .reset⟩, .empty, 0, none, none, none, none⟩

theorem drawing_built : build "Drawing" Witness.config 0 (.list []) .none = .ok drawing := rfl

def drawingElsewhere : Simulator :=
  (drawing.after (.asCaller (some (.text "ab")))).after
    (.write (.fresh { drawing.context with address := .str "elsewhere" }))

def bump : Operation := .call .impure (.str "bumpCounter") [] .item

def bumpCircuit : Circuit := fun c as =>
  .ofResult (Witness.circuit Witness.call Witness.ownWitnesses "wit_bumpCounter" "_valCounter" 0 c as)

theorem drawingElsewhere_handed : ∃ g, drawingElsewhere.handed = .ok g ∧ g.context.key = [0xab] := by
  have hkey : drawingElsewhere.handed.map (·.context.key) = .ok [0xab] := (handed_key _).trans rfl
  cases hg : drawingElsewhere.handed with
  | error e =>
    rw [hg] at hkey
    cases hkey
  | ok g =>
    rw [hg] at hkey
    exact ⟨g, rfl, Except.ok.inj hkey⟩

theorem drawingElsewhere_shows :
    Reachable Witness.config drawingElsewhere ∧ ∃ ws, ∃ p ∈ Witness.parts, "bumpCounter" = p.name ∧
      bumpCircuit = (fun c as => .ofResult (Witness.circuit Witness.call ws p.witness p.key p.arity c as)) ∧
      ∃ g w seen, drawingElsewhere.handed = .ok g ∧ g.context.key = [0xab] ∧
        p.asks ws g.context [] = some (w, seen) ∧ drawingElsewhere.witnessContext = .ok seen ∧
        seen.address = .str "elsewhere" ∧ (perform bump drawingElsewhere).result = .ok (.value .none) := by
  have hknown : Operation.Known drawing (.asCaller (some (.text "ab"))) := trivial
  have hr : Reachable Witness.config drawingElsewhere :=
    .step (.step (.build drawing_built) hknown) (known_fresh _ _)
  have hc : bump.callee drawingElsewhere = some (.bound ⟨0, 0⟩ ⟨.impure, "bumpCounter", bumpCircuit⟩, []) := by
    rfl
  have hdrawn : bump.Drawn Witness.config.Makes := trivial
  obtain ⟨g, hg, hkey⟩ := drawingElsewhere_handed
  have hran : (perform bump drawingElsewhere).result = .ok (.value .none) := by
    rw [(call_ofResult hr.rooted.sound hc rfl rfl).1, hg]
    change (Witness.circuit Witness.call Witness.ownWitnesses "wit_bumpCounter" "_valCounter" 0 g.context []).map _ = _
    rw [(handed_spec hg).2]
    rfl
  obtain ⟨ws, p, hp, hname, hcircuit, hends⟩ := witness_sees_what_is_shown rfl rfl hr hdrawn hc rfl
  refine ⟨hr, ws, p, hp, hname, hcircuit, ?_⟩
  obtain ⟨e, -, he⟩ | ⟨g', hg', ⟨-, e, he⟩ | ⟨w, seen, hasks, hseen, -⟩⟩ := hends
  · cases hran.symm.trans he
  · cases hran.symm.trans he
  · obtain rfl := Except.ok.inj (hg.symm.trans hg')
    have haddress : drawingElsewhere.witnessContext.map (·.address) = .ok (.str "elsewhere") := by rfl
    rw [hseen] at haddress
    exact ⟨g, w, seen, hg, hkey, hasks, hseen, Except.ok.inj haddress, hran⟩

end Simulator
end CircuitHarness
