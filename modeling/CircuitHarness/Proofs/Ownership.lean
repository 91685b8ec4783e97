import CircuitHarness.Proofs.Entries
import CircuitHarness.Proofs.Success

/-! Who owns the sample contract with an owner: whoever was named by the last transfer that succeeded, and each of these
ran as the owner of that moment, whoever else was called for in between. -/
namespace CircuitHarness
namespace Ownable

def state (owner salt : Value) : Value := .map [(.str "_owner", owner), (.str "_salt", salt)]

theorem ledger_state (owner salt : Value) :
    ledger (state owner salt) = .ok (.record "OwnableLedger" [("owner", owner), ("salt", salt)]) := rfl

theorem initialState_spec {c : ConstructorContext} {args : List Value} {first : ConstructorResult}
    (h : initialState c args = .ok first) : ∃ owner salt, args = [owner, salt] ∧ first.payload = state owner salt := by
  unfold initialState at h
  split at h
  · cases h
    exact ⟨_, _, rfl, rfl⟩
  · cases h

theorem transferOwnership_state {c d : CircuitContext} {owner salt : Value} {args : List Value} {v : Value}
    (hc : c.payload = state owner salt) (h : transferOwnership c args = .ok (v, d)) :
    ∃ next, args = [next] ∧ v = .none ∧ owner = .str c.sender ∧ d.payload = state next salt := by
  obtain ⟨next, es, now, rfl, rfl, hes, hnow, hsame, rfl⟩ := transferOwnership_spec h
  rw [hc] at hes
  cases hes
  cases hnow
  exact ⟨next, rfl, rfl, Value.str_same_iff.mp hsame, rfl⟩

/-- Whose the contract is after some calls that each name the next owner. -/
def heir (owner : Value) (calls : List (Bound Circuit × List Value)) : Value :=
  (calls.getLast?.bind fun call => call.2.head?).getD owner

theorem heir_cons (owner next : Value) (b : Bound Circuit) {calls : List (Bound Circuit × List Value)}
    (h : ∀ call ∈ calls, ∃ n, call.2 = [n]) : heir owner ((b, [next]) :: calls) = heir next calls := by
  rw [heir, heir, List.getLast?_cons]
  cases hl : calls.getLast? with
  | none => rfl
  | some call =>
    obtain ⟨n, hn⟩ := h call (List.mem_of_getLast? hl)
    simp [hn]

end Ownable

def Simulator.owner (s : Simulator) : Except Failure Value := s.publicState >>= Value.field "owner"

/-- An impure call that runs as the owner of the moment. -/
def Operation.AsOwner (s : Simulator) (op : Operation) : Prop :=
  ∃ m b args g, op.callee s = some (.bound m b, args) ∧ b.kind = .impure ∧ s.handed = .ok g ∧
    s.owner = .ok (.str g.context.sender)

namespace Simulator
variable {config : Config} {s : Simulator} {op : Operation} {owner salt : Value}

section
variable [Limits]

theorem Rooted.transferred (hs : s.Rooted config) (hcontract : config.contract = Ownable.config.contract)
    (hdrawn : op.Drawn config.Makes) (h : s.context.payload = Ownable.state owner salt) {b : Bound Circuit}
    {args : List Value} (hsome : op.succeeds s = some (b, args)) :
    b.name = "transferOwnership" ∧ ∃ next g, args = [next] ∧ s.handed = .ok g ∧ owner = .str g.context.sender ∧
      Ownable.transferOwnership g.context [next] = .ok (.none, (s.after op).context) ∧
      (s.after op).context.payload = Ownable.state next salt := by
  have ho : config.Of Circuit.Tidy := Ownable.tidy.congr hcontract
  obtain ⟨hkind, ⟨a, ⟨ws, ha⟩, hb⟩, -⟩ := hs.succeeds_spec ho hdrawn hsome
  rw [hcontract] at ha
  cases ha
  rw [hkind] at hb
  obtain ⟨hname, hcircuit⟩ := Ownable.mem_impure hb
  obtain ⟨g, v, d, hg, hd, -, hcontext⟩ := hs.succeeds_ofResult ho hdrawn hsome hcircuit
  have hgiven : g.context.payload = Ownable.state owner salt := by
    rw [(handed_spec hg).2]
    exact h
  obtain ⟨next, rfl, rfl, howner, hpayload⟩ := Ownable.transferOwnership_state hgiven hd
  rw [hcontext]
  exact ⟨hname, next, g, rfl, hg, howner, hd, hpayload⟩

theorem Rooted.payload_kept (hs : s.Rooted config) (ho : config.Of Circuit.Tidy) (hop : op.Unwritten)
    (hdrawn : op.Drawn config.Makes) (hnone : op.succeeds s = none) :
    (s.after op).context.payload = s.context.payload := by
  rw [hs.context_kept ho hdrawn hnone]
  cases op with
  | write g => cases hop
  | switchSender sender carryover => cases hk : sender.key? <;> simp [Operation.written, hk, CircuitContext.rekey]
  | _ => rfl

theorem payload_afterAll (hs : s.Rooted config) (hcontract : config.contract = Ownable.config.contract)
    {ops : List Operation} (hops : ∀ op ∈ ops, op.Unwritten ∧ op.Drawn config.Makes)
    (h : s.context.payload = Ownable.state owner salt) :
    (∀ call ∈ succeeded ops s, call.1.name = "transferOwnership" ∧ ∃ next, call.2 = [next]) ∧
      (afterAll ops s).context.payload = Ownable.state (Ownable.heir owner (succeeded ops s)) salt := by
  induction ops generalizing s owner with
  | nil => exact ⟨fun call hc => (by cases hc), h⟩
  | cons op ops ih =>
    obtain ⟨hop, hdrawn⟩ := hops op List.mem_cons_self
    have hrest : ∀ op ∈ ops, op.Unwritten ∧ op.Drawn config.Makes := fun next hn => hops next (List.mem_cons_of_mem op hn)
    have hafter : (s.after op).Rooted config := hs.after (hop.known s)
    cases hsome : op.succeeds s with
    | none =>
      have hkept := hs.payload_kept (Ownable.tidy.congr hcontract) hop hdrawn hsome
      rw [succeeded, hsome]
      exact ih hafter hrest (hkept.trans h)
    | some x =>
      obtain ⟨b, args⟩ := x
      obtain ⟨hname, next, g, rfl, -, -, -, hpayload⟩ := hs.transferred hcontract hdrawn h hsome
      obtain ⟨hcalls, hend⟩ := ih hafter hrest hpayload
      rw [succeeded, hsome]
      refine ⟨fun call hc => ?_, ?_⟩
      · obtain rfl | hc := List.mem_cons.mp hc
        · exact ⟨hname, next, rfl⟩
        · exact hcalls call hc
      · rw [Option.toList_some, List.singleton_append, Ownable.heir_cons owner next b fun call hc => (hcalls call hc).2]
        exact hend

end

theorem publicState_of_payload (hledger : s.config.ledger = Ownable.ledger)
    (h : s.context.payload = Ownable.state owner salt) :
    s.publicState = .ok (.record "OwnableLedger" [("owner", owner), ("salt", salt)]) ∧ s.owner = .ok owner := by
  have hshown : s.publicState = .ok (.record "OwnableLedger" [("owner", owner), ("salt", salt)]) := by
    rw [publicState, hledger, h, Ownable.ledger_state]
  refine ⟨hshown, ?_⟩
  rw [Simulator.owner, hshown]
  rfl

section
variable [Limits]

/-- As long as no impure call runs as the owner, none succeeds. -/
theorem succeeded_of_strangers (hs : s.Rooted config) (hcontract : config.contract = Ownable.config.contract)
    (hledger : config.ledger = Ownable.ledger) {ops : List Operation}
    (hops : ∀ op ∈ ops, op.Unwritten ∧ op.Drawn config.Makes) (h : s.context.payload = Ownable.state owner salt)
    (hstrangers : Throughout (fun t op => ¬op.AsOwner t) ops s) : succeeded ops s = [] := by
  induction ops generalizing s with
  | nil => rfl
  | cons op ops ih =>
    obtain ⟨hop, hdrawn⟩ := hops op List.mem_cons_self
    obtain ⟨hstranger, hrest⟩ := hstrangers
    cases hsome : op.succeeds s with
    | none =>
      have hkept := hs.payload_kept (Ownable.tidy.congr hcontract) hop hdrawn hsome
      rw [succeeded, hsome]
      exact ih (hs.after (hop.known s)) (fun next hn => hops next (List.mem_cons_of_mem op hn)) (hkept.trans h) hrest
    | some x =>
      obtain ⟨b, args⟩ := x
      obtain ⟨hkind, m, hcallee⟩ := succeeds_callee hsome
      obtain ⟨-, next, g, -, hg, howner, -⟩ := hs.transferred hcontract hdrawn h hsome
      have hshown := (publicState_of_payload (hs.config ▸ hledger) h).2
      exact absurd ⟨m, b, args, g, hcallee, hkind, hg, howner ▸ hshown⟩ hstranger

theorem payload_of_build (hcontract : config.contract = Ownable.config.contract) {name : String} {maker : Nat}
    {args options : Value} (hb : build name config maker args options = .ok s) :
    ∃ owner salt, arguments name config.transform args = .ok [owner, salt] ∧
      s.context.payload = Ownable.state owner salt := by
  obtain ⟨ws, contract, given, as, first, address, k, has, hc, hfirst, rfl⟩ := build_processed hb
  rw [hcontract] at hc
  cases hc
  obtain ⟨owner, salt, rfl, hpayload⟩ := Ownable.initialState_spec hfirst
  exact ⟨owner, salt, has, hpayload⟩

theorem Rooted.afterAll (hs : s.Rooted config) {ops : List Operation} (hops : ∀ op ∈ ops, op.Unwritten) :
    (afterAll ops s).Rooted config := by
  induction ops generalizing s with
  | nil => exact hs
  | cons op ops ih =>
    apply ih (hs.after ((hops op List.mem_cons_self).known s))
    intro next hnext
    exact hops next (List.mem_cons_of_mem op hnext)

/-- In every run of a simulator of the contract with an owner that writes no context from outside, whoever is called for
and whatever fails: the ledger shows the owner that the last transfer to succeed has named, or else the constructor's,
beside the constructor's salt. A call that succeeds is a transfer, which ran on a context under the key of the owner of
that moment. So the owner stays the same for as long as no impure call runs as the owner. -/
theorem owner_hands_over (hcontract : config.contract = Ownable.config.contract)
    (hledger : config.ledger = Ownable.ledger) {name : String} {maker : Nat} {args options : Value} {s₀ : Simulator}
    (hb : build name config maker args options = .ok s₀) {ops : List Operation}
    (hops : ∀ op ∈ ops, op.Unwritten ∧ op.Drawn config.Makes) :
    ∃ owner salt, arguments name config.transform args = .ok [owner, salt] ∧
    let s := afterAll ops s₀
    let now := Ownable.heir owner (succeeded ops s₀)
    (∀ call ∈ succeeded ops s₀, call.1.name = "transferOwnership" ∧ ∃ next, call.2 = [next]) ∧
    s.publicState = .ok (.record "OwnableLedger" [("owner", now), ("salt", salt)]) ∧
    (∀ op b as, op.Unwritten → op.Drawn config.Makes → op.succeeds s = some (b, as) →
      ∃ g next, as = [next] ∧ s.handed = .ok g ∧ now = .str g.context.sender ∧
        Ownable.transferOwnership g.context [next] = .ok (.none, (s.after op).context)) ∧
    ∀ more : List Operation, (∀ op ∈ more, op.Unwritten ∧ op.Drawn config.Makes) →
      Throughout (fun t op => ¬op.AsOwner t) more s → (afterAll more s).owner = .ok now := by
  have hroot₀ : s₀.Rooted config := .of_build hb
  obtain ⟨owner, salt, hargs, hpayload₀⟩ := payload_of_build hcontract hb
  obtain ⟨hcalls, hpayload⟩ := payload_afterAll hroot₀ hcontract hops hpayload₀
  have hroot : (afterAll ops s₀).Rooted config := hroot₀.afterAll fun op hop => (hops op hop).1
  refine ⟨owner, salt, hargs, hcalls, ?_, ?_, ?_⟩
  · exact (publicState_of_payload (hroot.config ▸ hledger) hpayload).1
  · intro op b as hop hdrawn hsome
    obtain ⟨-, next, g, has, hg, howner, hcall, -⟩ := hroot.transferred hcontract hdrawn hpayload hsome
    exact ⟨g, next, has, hg, howner, hcall⟩
  · intro more hmore hstrangers
    have hnone := succeeded_of_strangers hroot hcontract hledger hmore hpayload hstrangers
    have hroot' : (afterAll more (afterAll ops s₀)).Rooted config := hroot.afterAll fun op hop => (hmore op hop).1
    obtain ⟨-, hkept⟩ := payload_afterAll hroot hcontract hmore hpayload
    rw [hnone] at hkept
    exact (publicState_of_payload (hroot'.config ▸ hledger) hkept).2

end

def vault : Simulator :=
  let context : CircuitContext :=
    ⟨.map [], Ownable.state (.str Key.zeroText) (.int 7), .str Address.placeholder, .empty (List.replicate 32 0), .zero,
      .none⟩
  ⟨"Vault", Ownable.config, [], Ownable.contract, context.address, ⟨0, 1, ⟨⟨0, 0⟩, context⟩, .reset⟩, .empty, 0, none,
    none, none, none⟩

theorem vault_built : build "Vault" Ownable.config 0 (.list [.str Key.zeroText, .int 7]) .none = .ok vault := rfl

def transferTo (next : String) : Operation := .call .impure (.str "transferOwnership") [.str next] .item

def handOver : List Operation :=
  [transferTo "ab", .asCaller (some (.text "ee")), transferTo "ee", .asCaller (some (.text "AB")), transferTo "cd"]

theorem handOver_owner :
    build "Vault" Ownable.config 0 (.list [.str Key.zeroText, .int 7]) .none = .ok vault ∧
    (afterAll handOver vault).publicState = .ok (.record "OwnableLedger" [("owner", .str "cd"), ("salt", .int 7)]) ∧
    Throughout (fun t op => ¬op.AsOwner t) [transferTo "ee"] (afterAll handOver vault) ∧
    (afterAll [transferTo "ee"] (afterAll handOver vault)).owner = .ok (.str "cd") := by
  have hops : ∀ op ∈ handOver, op.Unwritten ∧ op.Drawn Ownable.config.Makes := by
    simp [handOver, transferTo, Operation.Unwritten, Operation.Drawn]
  have hmore : ∀ op ∈ [transferTo "ee"], op.Unwritten ∧ op.Drawn Ownable.config.Makes := by
    simp [transferTo, Operation.Unwritten, Operation.Drawn]
  obtain ⟨owner, salt, hargs, -, hshown, -, hkept⟩ := owner_hands_over rfl rfl vault_built hops
  cases hargs
  have hsame : (Ownable.heir (.str Key.zeroText) (succeeded handOver vault)).same (.str "cd") = true := by decide +kernel
  rw [Value.same_str_iff.mp hsame] at hshown hkept
  have hstranger : ¬(transferTo "ee").AsOwner (afterAll handOver vault) := by
    rintro ⟨m, b, args, g, -, -, hg, howner⟩
    have hsender : (afterAll handOver vault).handed.toOption.map (·.context.sender) ≠ some "cd" := by decide +kernel
    rw [hg] at hsender
    rw [Simulator.owner, hshown] at howner
    have hcd : "cd" = g.context.sender := Value.str.inj (Except.ok.inj howner)
    exact hsender (congrArg some hcd.symm)
  exact ⟨vault_built, hshown, ⟨hstranger, trivial⟩, hkept _ hmore ⟨hstranger, trivial⟩⟩

end Simulator
end CircuitHarness
