import CircuitHarness.Contracts
import CircuitHarness.Proofs.Entries
import CircuitHarness.Proofs.Replacing
import CircuitHarness.Proofs.Shown

/-! The counter that a private state and the ledger share: each of its bumps changes both at once, and nothing else
changes either, as long as no witness but the one for it touches the private state. -/
namespace CircuitHarness
namespace Witness

def Keeps (call : WitnessCall) (w : Value) : Prop :=
  ∀ seen args p v, call w seen args = .ok (p, v) → p = seen.privateState

def Bumps (call : WitnessCall) (w : Value) : Prop := ∀ seen args, call w seen args = own "wit_bump_counter" seen args

/-- What stands for the counter bumps it, and no other witness touches the private state. -/
structure Guarded (call : WitnessCall) (ws : Witnesses) : Prop where
  bumps : ∀ w, Value.Keyed.get? (.str "wit_bumpCounter") ws = some w → Bumps call w
  keeps : ∀ name w, name ≠ "wit_bumpCounter" → Value.Keyed.get? (.str name) ws = some w → Keeps call w

variable {call : WitnessCall} {ws : Witnesses}

theorem Guarded.put (h : Guarded call ws) {name fn : Value} (hname : name ≠ .str "wit_bumpCounter")
    (hfn : Keeps call fn) : Guarded call (Value.Keyed.put name fn ws) where
  bumps w hw := by
    rw [Value.Keyed.get?_put_of_ne hname] at hw
    exact h.bumps w hw
  keeps other w hother hw := by
    by_cases hsame : name = .str other
    · rw [hsame, Value.Keyed.get?_put_self] at hw
      cases hw
      exact hfn
    · rw [Value.Keyed.get?_put_of_ne hsame] at hw
      exact h.keeps other w hother hw

theorem own_keeps {label : String} {seen : WitnessContext} {args : List Value} {p v : Value}
    (hlabel : label ≠ "wit_bump_counter") (h : own label seen args = .ok (p, v)) : p = seen.privateState := by
  unfold own at h
  split at h
  · obtain ⟨b, -, h⟩ := Except.ok_of_bind h
    cases h
    rfl
  · obtain ⟨b, -, h⟩ := Except.ok_of_bind h
    obtain ⟨sum, -, h⟩ := Except.ok_of_bind h
    cases h
    rfl
  · obtain ⟨b, -, h⟩ := Except.ok_of_bind h
    obtain ⟨sum, -, h⟩ := Except.ok_of_bind h
    obtain ⟨total, -, h⟩ := Except.ok_of_bind h
    cases h
    rfl
  · exact absurd rfl hlabel
  · cases h

theorem own_bumps {seen : WitnessContext} {args : List Value} {p v : Value} {n : Int}
    (hn : seen.privateState.field "counter" = .ok (.int n)) (h : own "wit_bump_counter" seen args = .ok (p, v)) :
    v = .int (n+1) ∧ p.field "counter" = .ok (.int (n+1)) := by
  cases args with
  | cons a r => cases h
  | nil =>
    obtain ⟨now, hnow, h⟩ := Except.ok_of_bind h
    obtain ⟨m, hm, h⟩ := Except.ok_of_bind h
    rw [hn] at hnow
    cases hnow
    cases hm
    cases hp : seen.privateState with
    | record t fs =>
      rw [hp] at hn h
      cases h
      refine ⟨rfl, ?_⟩
      cases hf : Value.field? "counter" fs with
      | none => simp [Value.field, hf] at hn
      | some w => simp [Value.field, Value.field?_replaced, hf]
    | _ =>
      rw [hp] at hn
      cases hn

theorem call_own {label : String} (h : label ∈ ownLabels.map Prod.snd) (seen : WitnessContext) (args : List Value) :
    Witness.call (written 0 label []) seen args = own label seen args := by
  simp only [ownLabels, List.map_cons, List.map_nil, List.mem_cons, List.not_mem_nil, or_false] at h
  obtain rfl | rfl | rfl | rfl := h <;> rfl

theorem guarded_own : Guarded Witness.call ownWitnesses where
  bumps w hw := by
    cases hw
    intro seen args
    rfl
  keeps name w hname hw := by
    have hlabels : ∀ x ∈ ownLabels, x.1 ≠ "wit_bumpCounter" → x.2 ≠ "wit_bump_counter" := by decide
    obtain ⟨⟨n, label⟩, hx, he⟩ := List.mem_map.mp (Value.Keyed.mem_of_get? hw)
    cases he
    intro seen args p v h
    rw [call_own (List.mem_map_of_mem hx)] at h
    exact own_keeps (hlabels _ hx hname) h

theorem inject_counter {name : String} {v p q : Value} (hname : name ≠ "counter") (h : inject name v p = .ok q) :
    q.field "counter" = p.field "counter" := by
  cases p with
  | record t fs =>
    rw [inject] at h
    split at h
    · cases h
      have hother : ¬"counter" = name := fun he => hname he.symm
      simp only [Value.field, Value.field?_replaced, if_neg hother, Option.map_id']
    · cases h
  | _ => cases h

def Trusted (call : WitnessCall) (a : Artifact) : Prop := ∃ ws, Guarded call ws ∧ a = contract call ws

end Witness

/-- The private state has the counter, the ledger can be read and, once there has been a bump, has it, too. -/
structure CircuitContext.Linked (k : Int) (bumps : Nat) (c : CircuitContext) : Prop where
  counter : c.privateState.field "counter" = .ok (.int (k+bumps))
  ledger : ∃ es, c.payload = .map es ∧ (∀ p ∈ Witness.parts, (Value.Keyed.get? (.str p.key) es).isSome) ∧
    (0 < bumps → Value.Keyed.get? (.str "_valCounter") es = some (.int (k+bumps)))

namespace CircuitContext.Linked
variable {k : Int} {n : Nat} {c d : CircuitContext}

theorem circuit {call : WitnessCall} {ws : Witnesses} (hws : Witness.Guarded call ws) {p : Witness.Part}
    (hp : p ∈ Witness.parts) (h : c.Linked k n) {args : List Value} {r : Value}
    (hd : Witness.circuit call ws p.witness p.key p.arity c args = .ok (r, d)) :
    d.Linked k (n+if p.name ∈ ["bumpCounter"] then 1 else 0) := by
  obtain ⟨w, seen, q, v, es, hasks, hcall, hes, -, hprivate, hpayload⟩ := Witness.circuit_answered hd
  obtain ⟨hseen, hw⟩ := Witness.asks_spec hasks
  have hgiven : seen.privateState = c.privateState := Witness.view_privateState hseen
  obtain ⟨es', hmap, hkeys, hlast⟩ := h.ledger
  rw [hmap] at hes
  cases hes
  have hkept (p' : Witness.Part) (hp' : p' ∈ Witness.parts) :
      (Value.Keyed.get? (.str p'.key) (Value.Keyed.put (.str p.key) v es)).isSome :=
    Value.Keyed.get?_put_isSome (hkeys p' hp') _ v
  by_cases hname : p.name ∈ ["bumpCounter"]
  · have hbump : ∀ p ∈ Witness.parts, p.name ∈ ["bumpCounter"] → p.witness = "wit_bumpCounter" ∧ p.key = "_valCounter" := by
      decide
    obtain ⟨hwitness, hkey⟩ := hbump p hp hname
    rw [hwitness] at hw
    rw [hws.bumps w hw] at hcall
    obtain ⟨rfl, hq⟩ := Witness.own_bumps (hgiven ▸ h.counter) hcall
    have hsum : (k+n+1 : Int) = k+((n+1 : Nat) : Int) := by omega
    rw [if_pos hname]
    rw [hsum] at hq hpayload hkept
    refine ⟨hprivate ▸ hq, _, hpayload, hkept, fun _ => ?_⟩
    rw [hkey, Value.Keyed.get?_put_self]
  · have hother : ∀ p ∈ Witness.parts, p.name ∉ ["bumpCounter"] → p.witness ≠ "wit_bumpCounter" ∧ p.key ≠ "_valCounter" := by
      decide
    obtain ⟨hwitness, hkey⟩ := hother p hp hname
    have hq : q = c.privateState := (hws.keeps p.witness w hwitness hw seen args q v hcall).trans hgiven
    have hkeyne : Value.str p.key ≠ .str "_valCounter" := by
      intro he
      exact hkey (Value.str.inj he)
    rw [if_neg hname]
    refine ⟨?_, _, hpayload, hkept, fun hn => ?_⟩
    · rw [hprivate, hq]
      exact h.counter
    · rw [Value.Keyed.get?_put_of_ne hkeyne]
      exact hlast hn

theorem shown (h : c.Linked k n) (hn : 0 < n) :
    ∃ l, Witness.ledger c.payload = .ok l ∧ l.field "val_counter" = .ok (.int (k+n)) := by
  obtain ⟨es, hmap, hkeys, hlast⟩ := h.ledger
  have hentry (key : String) (hkey : (Value.Keyed.get? (.str key) es).isSome) :
      ∃ v, (Value.map es).entry (.str key) = .ok v := by
    obtain ⟨v, hv⟩ := Option.isSome_iff_exists.mp hkey
    exact ⟨v, Value.entry_str hv⟩
  simp only [Witness.parts, List.forall_mem_cons] at hkeys
  obtain ⟨b, hb⟩ := hentry _ hkeys.1
  obtain ⟨f, hf⟩ := hentry _ hkeys.2.1
  obtain ⟨u, hu⟩ := hentry _ hkeys.2.2.1
  have hc := Value.entry_str (hlast hn)
  rw [hmap, Witness.ledger, hb, hf, hu, hc]
  exact ⟨_, rfl, rfl⟩

end CircuitContext.Linked

/-- Writes no context and replaces no table; puts in no private state but the current one with a secret replaced, and in
the place of no witness but those that leave the private state as it is others that do; and calls by themselves circuits
only that were made of such witnesses. -/
def Operation.Harmless (call : WitnessCall) (s : Simulator) : Operation → Prop
  | .write _ | .setWitnesses _ => False
  | .updatePrivate p => ∃ method secret v, Fixture.witness.secret? method = some secret ∧
      Witness.inject secret v s.context.privateState = .ok p
  | .overrideWitness name fn => name ≠ .str "wit_bumpCounter" ∧ Witness.Keeps call fn
  | .callHeld c _ => c.From (Witness.Trusted call)
  | _ => True

namespace Operation
variable {call : WitnessCall} {s : Simulator} {op : Operation}

theorem Harmless.known (h : op.Harmless call s) : op.Known s := by
  cases op with
  | write g => cases h
  | _ => trivial

theorem Harmless.drawn (h : op.Harmless call s) : op.Drawn (Witness.Trusted call) := by
  cases op with
  | callHeld c args => exact h
  | _ => trivial

theorem Harmless.written (h : op.Harmless call s) {k : Int} {n : Nat} (hs : s.context.Linked k n) :
    ((op.written s).getD s.context).Linked k n := by
  cases op with
  | write g => cases h
  | updatePrivate p =>
    obtain ⟨method, secret, v, hsecret, hp⟩ := h
    have hname : secret ≠ "counter" := by
      rintro rfl
      unfold Fixture.secret? at hsecret
      split at hsecret <;> simp at hsecret
    exact ⟨(Witness.inject_counter hname hp).trans hs.counter, hs.ledger⟩
  | switchSender sender carryover =>
    cases hk : sender.key? <;> simpa [written, hk] using ⟨hs.counter, hs.ledger⟩
  | _ => exact hs

end Operation

namespace Simulator
variable {call : WitnessCall} {config : Config} {s : Simulator} {op : Operation} {k : Int} {n : Nat}

structure Linked (config : Config) (call : WitnessCall) (k : Int) (bumps : Nat) (s : Simulator) : Prop where
  rooted : s.Rooted config
  table : Witness.Guarded call s.witnesses
  contract : Witness.Trusted call s.contract
  context : s.context.Linked k bumps

section
variable [Limits]

theorem Linked.table_after (hcontract : config.contract = (Witness.configOf call).contract)
    (h : s.Linked config call k n) (hop : op.Harmless call s) :
    Witness.Guarded call (s.after op).witnesses ∧ Witness.Trusted call (s.after op).contract := by
  cases hx : op.replacement s with
  | none =>
    obtain ⟨hw, hc⟩ := Simulator.table_after hx
    rw [hw, hc]
    exact ⟨h.table, h.contract⟩
  | some x =>
    have hmade (ws : Witnesses) : s.config.contract ws = .ok (Witness.contract call ws) := by
      rw [h.rooted.config, hcontract]
      rfl
    cases op with
    | setWitnesses t => cases hop
    | overrideWitness name fn =>
      have hput : Witness.Guarded call (Value.Keyed.put name fn s.witnesses) := h.table.put hop.1 hop.2
      cases replacementEnd hx with
      | refused e table result state =>
        rw [after, state]
        exact ⟨h.table, h.contract⟩
      | raised ws e table made result state =>
        rw [hmade] at made
        cases made
      | replaced ws a v table made result state =>
        have hws : ws = Value.Keyed.put name fn s.witnesses := by
          cases hx
          split at table
          · obtain ⟨t, ht, htable⟩ := Except.ok_of_bind table
            obtain ⟨u, -, hu⟩ := Except.ok_of_bind ht
            cases hu
            cases htable
            rfl
          · cases table
        rw [hmade, hws] at made
        cases made
        rw [after, state, hws]
        exact ⟨hput, _, hput, rfl⟩
    | _ => cases hx

theorem Linked.after (hcontract : config.contract = (Witness.configOf call).contract) (h : s.Linked config call k n)
    (hop : op.Harmless call s) : (s.after op).Linked config call k (n+successes ["bumpCounter"] [op] s) := by
  have ho : config.Of Circuit.Tidy := (Witness.tidy call).congr hcontract
  have hdrawn : op.Drawn config.Makes := by
    refine hop.drawn.mono ?_
    rintro a ⟨ws, -, rfl⟩
    exact ⟨ws, by rw [hcontract]; rfl⟩
  obtain ⟨htable, hmade⟩ := h.table_after hcontract hop
  refine ⟨h.rooted.after hop.known, htable, hmade, ?_⟩
  cases hsome : op.succeeds s with
  | none =>
    rw [h.rooted.context_kept ho hdrawn hsome, successes_none hsome]
    exact hop.written h.context
  | some x =>
    obtain ⟨b, args⟩ := x
    obtain ⟨hb, m, hc⟩ := succeeds_callee hsome
    have hfrom : b.From (Witness.Trusted call) := h.rooted.sound.callee_from h.contract hop.drawn hc
    obtain ⟨ws, hws, p, hp, hname, hcircuit⟩ := Witness.part_of_from (fun a ha => ha) hfrom hb
    obtain ⟨g, v, d, hg, hd, -, hcontext⟩ := h.rooted.succeeds_ofResult ho hdrawn hsome hcircuit
    have hgiven : g.context.Linked k n := by
      rw [(handed_spec hg).2]
      exact ⟨h.context.counter, h.context.ledger⟩
    rw [hcontext, successes_some hsome, hname]
    exact hgiven.circuit hws hp hd

theorem Linked.afterAll (hcontract : config.contract = (Witness.configOf call).contract) {ops : List Operation}
    (h : s.Linked config call k n) (hops : Throughout (fun s op => op.Harmless call s) ops s) :
    (afterAll ops s).Linked config call k (n+successes ["bumpCounter"] ops s) := by
  induction ops generalizing s n with
  | nil => exact h
  | cons op ops ih =>
    obtain ⟨hop, hrest⟩ := hops
    rw [successes_cons, ← Nat.add_assoc]
    exact ih (h.after hcontract hop) hrest

/-- How a call of one of the circuits ends: it fails and leaves the context in place, or takes both the private state and
the new value on the ledger from one answer of the witness its circuit goes by. -/
inductive AskingEnd (call : WitnessCall) (s : Simulator) (op : Operation) (b : Bound Circuit) (args : List Value) : Prop where
  | failed (e : Failure) (result : (perform op s).result = .error e) (current : (s.after op).current = s.current)
  | answered (ws : Witnesses) (p : Witness.Part) (part : p ∈ Witness.parts) (name : b.name = p.name)
    (circuit : b.circuit = fun c as => .ofResult (Witness.circuit call ws p.witness p.key p.arity c as))
    (w : Value) (seen : WitnessContext) (q v : Value) (es : Value.Entries)
    (witness : Value.Keyed.get? (.str p.witness) ws = some w) (shown : s.witnessContext = .ok seen)
    (answer : call w seen args = .ok (q, v)) (ledger : s.context.payload = .map es)
    (result : (perform op s).result = .ok (.value .none)) (privateState : (s.after op).context.privateState = q)
    (payload : (s.after op).context.payload = .map (Value.Keyed.put (.str p.key) v es))

theorem Linked.askingEnd (h : s.Linked config call k n) (hledger : config.ledger = Witness.ledger)
    (hop : op.Harmless call s) {m : Mark} {b : Bound Circuit} {args : List Value}
    (hc : op.callee s = some (.bound m b, args)) (hb : b.kind = .impure) : AskingEnd call s op b args := by
  have hfrom : b.From (Witness.Trusted call) := h.rooted.sound.callee_from h.contract hop.drawn hc
  obtain ⟨ws, -, p, hp, hname, hcircuit⟩ := Witness.part_of_from (fun a ha => ha) hfrom hb
  obtain ⟨hresult, hfailed, hcommitted⟩ := call_ofResult h.rooted.sound hc hb hcircuit
  cases hx : s.handed >>= fun g => Witness.circuit call ws p.witness p.key p.arity g.context args with
  | error e =>
    rw [hx] at hresult
    exact .failed e hresult (hfailed e hx)
  | ok y =>
    obtain ⟨r, d⟩ := y
    have hcontext : (s.after op).context = d := hcommitted r d hx
    rw [hx] at hresult
    obtain ⟨g, hg, hd⟩ := Except.ok_of_bind hx
    obtain ⟨w, seen, q, v, es, hasks, hcall, hes, rfl, hprivate, hpayload⟩ := Witness.circuit_answered hd
    have hview : Witness.view g.context = s.witnessContext := view_handed (h.rooted.config ▸ hledger) hg
    have hgiven : g.context.payload = s.context.payload := by rw [(handed_spec hg).2]
    obtain ⟨es', hmap, -⟩ := h.context.ledger
    rw [hgiven, hmap] at hes
    cases hes
    obtain ⟨hseen, hw⟩ := Witness.asks_spec hasks
    refine .answered ws p hp hname hcircuit w seen q v es hw (hview.symm.trans hseen) hcall hmap hresult ?_ ?_
    · rw [hcontext, hprivate]
    · rw [hcontext, hpayload]

/-- In every run of a simulator of the contract with witnesses, from a private state that counts to `k`, whatever fails
on the way, whoever is called for and whatever secrets and other witnesses are put in: the private state counts the bumps
that have succeeded, and the ledger the same as soon as there is one. Each call takes both from one answer of its witness,
or leaves both in place. -/
theorem bumps_are_counted_at_once (hcontract : config.contract = (Witness.configOf call).contract)
    (hledger : config.ledger = Witness.ledger) {name : String} {maker : Nat} {args options : Value} {s₀ : Simulator}
    (hb : build name config maker args options = .ok s₀) (hws : Witness.Guarded call s₀.witnesses)
    (hk : s₀.context.privateState.field "counter" = .ok (.int k)) {ops : List Operation}
    (hops : Throughout (fun s op => op.Harmless call s) ops s₀) :
    let s := afterAll ops s₀
    let bumps := successes ["bumpCounter"] ops s₀
    s.context.privateState.field "counter" = .ok (.int (k+bumps)) ∧
    (0 < bumps → ∃ l, s.publicState = .ok l ∧ l.field "val_counter" = .ok (.int (k+bumps))) ∧
    ∀ op m b args, op.Harmless call s → op.callee s = some (.bound m b, args) → b.kind = .impure →
      AskingEnd call s op b args := by
  intro s bumps
  have hstart : s₀.Linked config call k 0 := by
    have hroot : s₀.Rooted config := .of_build hb
    obtain ⟨ws, contract, given, as, first, address, key, hc, hfirst, rfl⟩ := build_made hb
    rw [hcontract] at hc
    cases hc
    cases hfirst
    refine ⟨hroot, hws, ⟨ws, hws, rfl⟩, ?_, _, rfl, by decide, fun hn => absurd hn (Nat.lt_irrefl 0)⟩
    simpa using hk
  have hend : s.Linked config call k (0+bumps) := hstart.afterAll hcontract hops
  rw [Nat.zero_add] at hend
  refine ⟨hend.context.counter, fun hn => ?_, fun op m b args hop hc hkind => hend.askingEnd hledger hop hc hkind⟩
  rw [publicState, hend.rooted.config, hledger]
  exact hend.context.shown hn

end

def bumpTwice : List Operation :=
  [bump, .updatePrivate (Witness.privateState (.bytes (List.replicate 32 1)) (.int 7) (.int 20) (.int 1)),
    .asCaller (some (.text "ab")), bump,
    .overrideWitness (.str "wit_secretBytes") (Witness.written 1 "raise" [("kind", .str "ValueError")]),
    .call .impure (.str "setBytes") [] .item]

theorem bumpTwice_counted :
    build "Drawing" Witness.config 0 (.list []) .none = .ok drawing ∧
    successes ["bumpCounter"] bumpTwice drawing = 2 ∧
    (afterAll bumpTwice drawing).context.privateState.field "counter" = .ok (.int 2) ∧
    ∃ l, (afterAll bumpTwice drawing).publicState = .ok l ∧ l.field "val_counter" = .ok (.int 2) := by
  have hk : drawing.context.privateState.field "counter" = .ok (.int 0) := rfl
  have hraises : Witness.Keeps Witness.call (Witness.written 1 "raise" [("kind", .str "ValueError")]) := by
    intro seen args p v h
    cases h
  have hname : Value.str "wit_secretBytes" ≠ .str "wit_bumpCounter" := by simp
  have hops : Throughout (fun s op => op.Harmless Witness.call s) bumpTwice drawing := by
    simp only [bumpTwice, bump, Throughout, Operation.Harmless, true_and, and_true]
    exact ⟨⟨"inject_secret_field", "secret_field", .int 7, rfl, rfl⟩, hname, hraises⟩
  have htwo : successes ["bumpCounter"] bumpTwice drawing = 2 := by decide +kernel
  obtain ⟨hcounter, hledger, -⟩ := bumps_are_counted_at_once rfl rfl drawing_built Witness.guarded_own hk hops
  rw [htwo] at hcounter hledger
  exact ⟨drawing_built, htwo, hcounter, hledger (by decide)⟩

end Simulator
end CircuitHarness
