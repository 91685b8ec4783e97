import CircuitHarness.Proofs.Success

/-! The coin records in the runs of the sample counter: each successful call adds one, and nothing but a sender who is
named or switched to under the reset policy drops any. -/
namespace CircuitHarness

namespace LocalState

/-- Nothing has come in, and the index counts what has gone out. -/
structure Counted (l : LocalState) : Prop where
  inputs : l.inputs = []
  index : l.index = .int l.outputs.length

theorem counted_empty (k : Key) : (empty k).Counted := ⟨rfl, rfl⟩

theorem Counted.rekey {l : LocalState} (h : l.Counted) (k : Key) (policy : Carryover) : (l.rekey k policy).Counted := by
  cases policy with
  | reset => exact counted_empty k
  | preserve => exact ⟨h.inputs, h.index⟩

theorem Counted.addOutput {l m : LocalState} {record : Value} (h : l.Counted) (hm : l.addOutput record = .ok m) :
    m.Counted ∧ m.outputs = l.outputs ++ [record] := by
  rw [LocalState.addOutput, h.index] at hm
  have hsum : (Value.int l.outputs.length).add (.int 1) = .ok (.int (l.outputs.length+1)) := rfl
  rw [hsum] at hm
  cases hm
  refine ⟨⟨h.inputs, ?_⟩, rfl⟩
  simp

end LocalState

namespace Simulator
variable {config : Config} {s t : Simulator} {op : Operation}

/-- Whether an impure call would run for another sender than the current one, under the policy that starts the records
anew. -/
def startsAnew (s : Simulator) : Bool :=
  s.activeCaller.any (fun c => c.key.toOption ≠ some s.context.key) && s.manager.carryover = .reset

def CallersPaired (s : Simulator) : Prop := ∀ c, s.caller = some c ∨ s.persistentCaller = some c → c.Paired

theorem CallersPaired.active (h : s.CallersPaired) {c : Caller} (hc : s.activeCaller = some c) : c.Paired := by
  apply h
  rw [activeCaller] at hc
  cases hcaller : s.caller with
  | none =>
    rw [hcaller] at hc
    exact .inr hc
  | some d =>
    rw [hcaller] at hc
    exact .inl hc

theorem handed_records (h : s.CallersPaired) {g : Handed} (hg : s.handed = .ok g) : g.context.localState =
    if s.startsAnew then .empty g.context.key else { s.context.localState with key := g.context.key } := by
  rw [handed_eq] at hg
  cases ha : s.activeCaller with
  | none =>
    have hanew : s.startsAnew = false := by simp [startsAnew, ha]
    rw [ha] at hg
    dsimp only at hg
    rw [hanew]
    split at hg <;> cases hg <;> rfl
  | some caller =>
    have hpaired : caller.Paired := h.active ha
    rw [ha] at hg
    cases caller with
    | text c =>
      have hsame : Key.ofHex c = .ok s.context.key ↔ c.map Char.toLower = s.context.sender := Key.ofHex_eq_iff hpaired
      dsimp only at hg
      by_cases hsender : c.map Char.toLower = s.context.sender
      · have hanew : s.startsAnew = false := by simp [startsAnew, ha, Caller.key, hsame.mpr hsender, Except.toOption]
        rw [if_pos hsender] at hg
        cases hg
        rw [hanew]
        rfl
      · rw [if_neg hsender, Manager.rebuild] at hg
        cases hk : Key.ofHex c with
        | error e =>
          rw [hk] at hg
          cases hg
        | ok k =>
          have hother : k ≠ s.context.key := by
            intro he
            exact hsender (hsame.mp (he ▸ hk))
          rw [hk] at hg
          cases hg
          cases hpolicy : s.manager.carryover with
          | reset =>
            have hanew : s.startsAnew = true := by
              simp [startsAnew, ha, Caller.key, hk, Except.toOption, hother, hpolicy]
            rw [hanew]
            rfl
          | preserve =>
            have hanew : s.startsAnew = false := by simp [startsAnew, hpolicy]
            rw [hanew]
            rfl
    | bytes bs => cases hg
    | other => cases hg

section
variable [Limits]

theorem CallersPaired.after (h : s.CallersPaired) (hop : op.Paired) (hend : OperationEnd s op) :
    (s.after op).CallersPaired := by
  have dropped {u : Simulator} (hi : Idle s.consumed u) : u.CallersPaired := by
    intro c hc
    rw [hi.rest] at hc
    obtain hc | hc := hc
    · cases hc
    · exact h c (.inr hc)
  cases hend with
  | committed _ _ _ _ _ _ g v left t u _ _ _ hi ht =>
    have hleft : u.CallersPaired := dropped hi
    rw [ht]
    exact hleft
  | consumed _ _ ht => exact dropped ht
  | steady _ _ ht =>
    intro c hc
    rw [ht.rest] at hc
    exact h c hc
  | named _ _ hnames =>
    cases op with
    | asCaller d =>
      intro c hc
      exact hc.elim (hop c) fun hc => h c (.inr hc)
    | persistentCaller d =>
      intro c hc
      exact hc.elim (fun hc => h c (.inl hc)) (hop c)
    | resetCaller =>
      intro c hc
      exact hc.elim (fun hc => by cases hc) fun hc => by cases hc
    | _ => cases hnames
  | wrote _ g _ ht =>
    rw [ht]
    exact h

theorem Rooted.setVal_records (hs : s.Rooted config) (hconfig : config.contract = Simple.config.contract)
    (hdrawn : op.Drawn config.Makes) (hpaired : s.CallersPaired) (h : s.context.localState.Counted) {b : Bound Circuit}
    {args : List Value} (hsome : op.succeeds s = some (b, args)) :
    b.name = "setVal" ∧ (s.after op).context.localState.Counted ∧ ∃ n, args = [n] ∧
      (s.after op).context.localState.outputs =
        (if s.startsAnew then [] else s.context.localState.outputs) ++ [.tuple [.str "setVal", n]] := by
  have ho : config.Of Circuit.Tidy := Simple.tidy.congr hconfig
  obtain ⟨hkind, ⟨a, ⟨ws, ha⟩, hb⟩, -⟩ := hs.succeeds_spec ho hdrawn hsome
  rw [hconfig] at ha
  cases ha
  rw [hkind] at hb
  obtain ⟨hname, hcircuit⟩ := Simple.mem_impure hb
  obtain ⟨g, v, d, hg, hd, -, hcontext⟩ := hs.succeeds_ofResult ho hdrawn hsome hcircuit
  obtain ⟨n, es, l, cost, rfl, -, -, hl, -, rfl⟩ := Simple.setVal_spec hd
  have hrecords := handed_records hpaired hg
  have hgiven : g.context.localState.Counted := by
    rw [hrecords]
    split
    · exact LocalState.counted_empty _
    · exact ⟨h.inputs, h.index⟩
  obtain ⟨hcounted, houtputs⟩ := hgiven.addOutput hl
  refine ⟨hname, ?_, n, rfl, ?_⟩
  · rw [hcontext]
    exact hcounted
  · rw [hcontext]
    change l.outputs = _
    rw [houtputs, hrecords]
    split <;> rfl

theorem switchSender_ok_iff {sender : Value} {carryover : Option Carryover} :
    (∃ r, (perform (.switchSender sender carryover) s).result = .ok r) ↔ ∃ k, sender.key? = some k := by
  have hresult : (perform (.switchSender sender carryover) s).result =
      (Manager.switchSender sender carryover s.manager).result.map fun _ =>
        .context (s.after (.switchSender sender carryover)).current.handed := by
    simp only [after, perform, Action.bind_result, Action.bind_state, Action.read_result, Action.read_state,
      Action.pure_result, Action.pure_state, onManager, Action.within_result, Action.within_state]
    cases (Manager.switchSender sender carryover s.manager).result <;> rfl
  rw [hresult, Manager.switchSender_result]
  cases hc : Manager.clip? sender with
  | none =>
    have hk : sender.key? = none := by cases sender <;> first | rfl | cases hc
    simp [hk, Except.map]
  | some t =>
    simp only [Manager.rebuild, Value.key?]
    cases sender.asSender with
    | error e => simp [Except.map, Except.bind, Except.toOption]
    | ok t =>
      dsimp only [Except.bind]
      cases Key.ofHex t <;> simp [Except.map, Except.toOption]

theorem switchSender_records (sender : Value) (carryover : Option Carryover) {k : Key} (hk : sender.key? = some k) :
    (s.after (.switchSender sender carryover)).context.localState =
      s.context.localState.rekey k (carryover.getD s.manager.carryover) := by
  rw [after_switchSender, hk]
  rfl

end

/-- What holds at all times in a run over the sample counter with callers in pairs of digits. -/
structure Recording (config : Config) (s : Simulator) : Prop where
  rooted : s.Rooted config
  paired : s.CallersPaired
  counted : s.context.localState.Counted

section
variable [Limits]

theorem Recording.of_build {name : String} {maker : Nat} {args options : Value}
    (hb : build name config maker args options = .ok s) : s.Recording config := by
  have hrooted : s.Rooted config := .of_build hb
  obtain ⟨ws, contract, given, as, first, address, k, -, -, rfl⟩ := build_made hb
  refine ⟨hrooted, ?_, LocalState.counted_empty k⟩
  intro c hc
  obtain hc | hc := hc <;> cases hc

theorem Recording.kept (h : s.Recording config) (ho : config.Of Circuit.Tidy) (hop : op.Unwritten)
    (hdrawn : op.Drawn config.Makes) (hnone : op.succeeds s = none)
    (hswitch : ∀ sender carryover, op = .switchSender sender carryover → sender.key? = none) :
    (s.after op).context.localState = s.context.localState := by
  rw [h.rooted.context_kept ho hdrawn hnone]
  cases op with
  | write g => cases hop
  | switchSender sender carryover => rw [Operation.written, hswitch sender carryover rfl]; rfl
  | _ => rfl

theorem Recording.after (h : s.Recording config) (hconfig : config.contract = Simple.config.contract)
    (hop : op.Unwritten) (hpaired : op.Paired) (hdrawn : op.Drawn config.Makes) : (s.after op).Recording config where
  rooted := h.rooted.after (hop.known s)
  paired := h.paired.after hpaired (h.rooted.ends (Simple.tidy.congr hconfig) hdrawn)
  counted := by
    have ho : config.Of Circuit.Tidy := Simple.tidy.congr hconfig
    cases hsome : op.succeeds s with
    | some x =>
      obtain ⟨b, args⟩ := x
      exact (h.rooted.setVal_records hconfig hdrawn h.paired h.counted hsome).2.1
    | none =>
      by_cases hswitch : ∀ sender carryover, op = .switchSender sender carryover → sender.key? = none
      · rw [h.kept ho hop hdrawn hsome hswitch]
        exact h.counted
      · simp only [not_forall] at hswitch
        obtain ⟨sender, carryover, rfl, hk⟩ := hswitch
        obtain ⟨k, hk⟩ := Option.ne_none_iff_exists'.mp hk
        rw [switchSender_records sender carryover hk]
        exact h.counted.rekey k _

theorem Recording.afterAll (h : s.Recording config) (hconfig : config.contract = Simple.config.contract)
    {ops : List Operation} (hops : ∀ op ∈ ops, op.Unwritten ∧ op.Paired ∧ op.Drawn config.Makes) :
    (afterAll ops s).Recording config := by
  induction ops generalizing s with
  | nil => exact h
  | cons op ops ih =>
    obtain ⟨hop, hpaired, hdrawn⟩ := hops op List.mem_cons_self
    apply ih (h.after hconfig hop hpaired hdrawn)
    intro next hnext
    exact hops next (List.mem_cons_of_mem op hnext)

/-- In every run of a counter, under either policy, that writes no context from outside and names callers in pairs of
digits: nothing comes in, and the index counts what goes out. A call that succeeds adds its record to those so far, or to
none if it ran for another sender than the current one under the policy that starts them anew; a switch keeps or drops
them as its policy says; whatever else is done leaves them alone. -/
theorem records_neither_lost_nor_doubled (hconfig : config.contract = Simple.config.contract) {name : String}
    {maker : Nat} {args options : Value} {s₀ : Simulator} (hb : build name config maker args options = .ok s₀)
    {ops : List Operation} (hops : ∀ op ∈ ops, op.Unwritten ∧ op.Paired ∧ op.Drawn config.Makes) :
    let s := afterAll ops s₀
    s.context.localState.inputs = [] ∧ s.context.localState.index = .int s.context.localState.outputs.length ∧
    ∀ op : Operation, op.Unwritten → op.Drawn config.Makes →
      (∀ b args, op.succeeds s = some (b, args) → b.name = "setVal" ∧ ∃ n, args = [n] ∧
        (s.after op).context.localState.outputs =
          (if s.startsAnew then [] else s.context.localState.outputs) ++ [.tuple [.str "setVal", n]]) ∧
      (∀ sender carryover r, op = .switchSender sender carryover → (perform op s).result = .ok r →
        (s.after op).context.localState.outputs =
          if carryover.getD s.manager.carryover = .reset then [] else s.context.localState.outputs) ∧
      (op.succeeds s = none →
        (∀ sender carryover r, op = .switchSender sender carryover → (perform op s).result ≠ .ok r) →
        (s.after op).context.localState = s.context.localState) := by
  intro s
  have h₀ : s₀.Recording config := .of_build hb
  have h : s.Recording config := h₀.afterAll hconfig hops
  refine ⟨h.counted.inputs, h.counted.index, fun op hop hdrawn => ⟨?_, ?_, ?_⟩⟩
  · intro b args hsome
    obtain ⟨hname, -, hrecord⟩ := h.rooted.setVal_records hconfig hdrawn h.paired h.counted hsome
    exact ⟨hname, hrecord⟩
  · rintro sender carryover r rfl hr
    obtain ⟨k, hk⟩ := switchSender_ok_iff.mp ⟨r, hr⟩
    rw [switchSender_records sender carryover hk]
    cases carryover.getD s.manager.carryover <;> rfl
  · intro hnone hswitch
    apply h.kept (Simple.tidy.congr hconfig) hop hdrawn hnone
    rintro sender carryover rfl
    by_contra hsome
    obtain ⟨k, hk⟩ := Option.ne_none_iff_exists'.mp hsome
    obtain ⟨r, hr⟩ := switchSender_ok_iff.mpr ⟨k, hk⟩
    exact hswitch sender carryover r rfl hr

end

def setThenNamed : List Operation :=
  [.call .impure (.str "setVal") [.int 5] .item, .asCaller (some (.text "ab"))]

theorem setThenNamed_records :
    (afterAll setThenNamed counter).startsAnew = true ∧
    (afterAll setThenNamed counter).context.localState.outputs = [.tuple [.str "setVal", .int 5]] ∧
    ((afterAll setThenNamed counter).after
      (.call .impure (.str "setVal") [.int 6] .item)).context.localState.outputs = [.tuple [.str "setVal", .int 6]] := by
  have hops : ∀ op ∈ setThenNamed, op.Unwritten ∧ op.Paired ∧ op.Drawn Simple.config.Makes := by
    have hab : Hex.Pairs "ab" := ⟨by decide, by decide⟩
    simp [setThenNamed, Operation.Unwritten, Operation.Drawn, Operation.Paired, named, Caller.Paired, hab]
  have hnext : (Operation.call .impure (.str "setVal") [.int 6] .item).succeeds (afterAll setThenNamed counter) =
      some (⟨.impure, "setVal", fun c as => .ofResult (Simple.setVal c as)⟩, [.int 6]) := by
    cbv
  have hanew : (afterAll setThenNamed counter).startsAnew = true := by rfl
  obtain ⟨-, -, hstep⟩ := records_neither_lost_nor_doubled rfl counter_built hops
  obtain ⟨hcall, -⟩ := hstep (.call .impure (.str "setVal") [.int 6] .item) trivial trivial
  obtain ⟨-, n, hn, houtputs⟩ := hcall _ _ hnext
  cases hn
  rw [hanew] at houtputs
  exact ⟨hanew, by rfl, houtputs⟩

end Simulator
end CircuitHarness
