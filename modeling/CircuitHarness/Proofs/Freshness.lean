import CircuitHarness.Proofs.Entries
import CircuitHarness.Proofs.Grammar
import CircuitHarness.Proofs.Replacing
import CircuitHarness.Proofs.Shown

/-! Witness tables over whole runs. As long as a contract can be made of any table, the contract in use is made of the
table in place, and that table is what the changes accepted so far have made of the first one. -/
namespace CircuitHarness

def Value.IsName (v : Value) : Prop := ∃ c cs, v.codes? = some (c :: cs)

theorem Value.IsName.text {v : Value} (h : v.IsName) : v.codes?.isSome := by
  obtain ⟨c, cs, hv⟩ := h
  rw [hv]
  rfl

theorem Value.IsName.hashable {v : Value} (h : v.IsName) : v.isHashable = true := by
  obtain ⟨c, cs, hv⟩ := h
  cases v <;> first | rfl | cases hv

namespace Options
variable {name fn : Value} {es : Value.Entries}

theorem Table.put (h : Table (.map es)) (hname : name.IsName) (hfn : fn.isCallable) :
    Table (.map (Value.Keyed.put name fn es)) := by
  obtain ⟨_, ⟨rfl⟩, hes⟩ := h
  refine ⟨_, rfl, fun e he => ?_⟩
  obtain he | ⟨hv, hk⟩ := Value.Keyed.mem_put he
  · exact hes e he
  · rw [hv]
    obtain hk | ⟨w, hw⟩ := hk
    · exact ⟨hk ▸ hname, hfn⟩
    · exact ⟨(hes _ hw).1, hfn⟩

theorem Table.of_put (h : Table (.map (Value.Keyed.put name fn es))) : name.IsName ∧ fn.isCallable := by
  obtain ⟨_, ⟨rfl⟩, hes⟩ := h
  obtain ⟨l, hl, hk⟩ := Value.Keyed.put_mem name fn es
  obtain ⟨hname, hfn⟩ := hes _ hl
  have hname : l.IsName := hname
  obtain rfl | hsame := hk
  · exact ⟨hname, hfn⟩
  · rw [(Value.text_same_iff hname.text).mp hsame]
    exact ⟨hname, hfn⟩

end Options

namespace Witnesses

theorem validate_ok_iff [Limits] {t u : Value} : validate t = .ok u ↔ Options.Table t ∧ u = t := by
  have hissues : Schema.replacement.issues (.str "witnesses") t = (Field.witnesses false).issues t := rfl
  have hcheck : Schema.replacement.checkValues [(.str "witnesses", t)] = .ok () ↔ Options.Table t := by
    rw [Schema.checkValues_ok_iff Schema.regular_replacement]
    simp only [List.mem_singleton, forall_eq, hissues]
    cases t with
    | none => simp [Field.issues, Field.witnesses, Options.Table]
    | map es =>
      have hchecks : (Field.witnesses false).issues (.map es) = Field.witnessIssues (.map es) := rfl
      rw [hchecks, Field.witnessIssues_nil_iff]
      simp [Options.Table]
    | _ => simp [Field.issues, Field.witnesses, OptionType.admits, Options.Table]
  rw [← hcheck, validate]
  cases Schema.replacement.checkValues [(.str "witnesses", t)] with
  | error e => simp [bind, Except.bind]
  | ok v => simp [bind, Except.bind, pure, Except.pure, eq_comm]

/-- A change of a table: another in its place, or another witness under one name. -/
inductive Change where
  | table (ws : Witnesses)
  | witness (name fn : Value)

namespace Change

def apply (ws : Witnesses) : Change → Witnesses
  | .table vs => vs
  | .witness name fn => Value.Keyed.put name fn ws

def under (name : Value) : Change → Option (Option Value)
  | .table vs => some (Value.Keyed.get? name vs)
  | .witness other fn => if other.same name then some (some fn) else none

end Change

/-- What was put under a name last, or else was there at first. -/
def installed (name : Value) (first : Witnesses) (changes : List Change) : Option Value :=
  (changes.reverse.findSome? (·.under name)).getD (Value.Keyed.get? name first)

variable {name : Value}

theorem get?_apply (hname : name.codes?.isSome) (ws : Witnesses) (c : Change) :
    Value.Keyed.get? name (c.apply ws) = (c.under name).getD (Value.Keyed.get? name ws) := by
  cases c with
  | table vs => rfl
  | witness other fn =>
    rw [Change.apply, Change.under]
    split
    · rename_i hsame
      rw [(Value.same_text_iff hname).mp hsame, Value.Keyed.get?_put_text hname]
      rfl
    · rename_i hother
      rw [Value.Keyed.get?_put_other hname fun he => hother ((Value.same_text_iff hname).mpr he)]
      rfl

theorem get?_changed (hname : name.codes?.isSome) (ws : Witnesses) (changes : List Change) :
    Value.Keyed.get? name (changes.foldl Change.apply ws) = installed name ws changes := by
  induction changes generalizing ws with
  | nil => rfl
  | cons c changes ih =>
    rw [List.foldl_cons, ih, installed, installed, List.reverse_cons, List.findSome?_append, get?_apply hname]
    cases changes.reverse.findSome? (·.under name) with
    | some v => rfl
    | none => simp

end Witnesses

namespace Operation

def proposal (s : Simulator) : Operation → Option Value
  | .setWitnesses t => some t
  | .overrideWitness n f => some (.map (Value.Keyed.put n f s.witnesses))
  | _ => none

def change? : Operation → Option Witnesses.Change
  | .setWitnesses t => some (.table (Witnesses.ofValue t))
  | .overrideWitness n f => some (.witness n f)
  | _ => none

def Accepted [Limits] (s : Simulator) (op : Operation) : Prop := ∃ r, (Simulator.perform op s).result = .ok r

def changes [Limits] (s : Simulator) (op : Operation) : Option Witnesses.Change :=
  match (Simulator.perform op s).result with
  | .ok _ => op.change?
  | .error _ => none

variable {s : Simulator} {op : Operation} {v : Value}

theorem change_of_proposal (h : op.proposal s = some v) :
    ∃ c, op.change? = some c ∧ c.apply s.witnesses = Witnesses.ofValue v := by
  cases op with
  | setWitnesses t =>
    cases h
    exact ⟨_, rfl, rfl⟩
  | overrideWitness n f =>
    cases h
    exact ⟨_, rfl, rfl⟩
  | _ => cases h

theorem replacement_of_proposal [Limits] (h : op.proposal s = some v) :
    ∃ x, op.replacement s = some x ∧ ∀ ws, x = .ok ws ↔ Options.Table v ∧ ws = Witnesses.ofValue v := by
  have hvalid (ws : Witnesses) :
      Witnesses.ofValue <$> Witnesses.validate v = .ok ws ↔ Options.Table v ∧ ws = Witnesses.ofValue v := by
    cases hv : Witnesses.validate v with
    | error e =>
      have hno : ¬Options.Table v := fun ht => by
        rw [Witnesses.validate_ok_iff.mpr ⟨ht, rfl⟩] at hv
        cases hv
      simp [hno]
    | ok u =>
      obtain ⟨ht, rfl⟩ := Witnesses.validate_ok_iff.mp hv
      simp [ht, eq_comm]
  cases op with
  | setWitnesses t =>
    cases h
    exact ⟨_, rfl, hvalid⟩
  | overrideWitness n f =>
    cases h
    refine ⟨_, rfl, fun ws => ?_⟩
    split
    · exact hvalid ws
    · rename_i hno
      have htable : ¬Options.Table (.map (Value.Keyed.put n f s.witnesses)) := fun ht => hno ht.of_put.1.hashable
      simp [htable]
  | _ => cases h

end Operation

namespace Simulator

def changes [Limits] : List Operation → Simulator → List Witnesses.Change
  | [], _ => []
  | op :: ops, s => (op.changes s).toList ++ changes ops (s.after op)

/-- Over the configuration, with a contract made of the very table in place. -/
structure Fresh (config : Config) (s : Simulator) : Prop where
  rooted : s.Rooted config
  made : config.contract s.witnesses = .ok s.contract

variable {config : Config} {s : Simulator} {op : Operation}

theorem Fresh.of_build [Limits] {name : String} {maker : Nat} {args options : Value}
    (hb : build name config maker args options = .ok s) : s.Fresh config := by
  refine ⟨.of_build hb, ?_⟩
  obtain ⟨ws, contract, context, hc, rfl⟩ := build_spec hb
  exact hc

def rewitnessed (ws : Witnesses) (a : Artifact) (s : Simulator) : Simulator :=
  (resetDispatchers { s with witnesses := ws, contract := a }).state

section
variable [Limits]

/-- How a proposal ends, if a contract can be made of any table. -/
inductive ProposalEnd (config : Config) (s : Simulator) (op : Operation) (v : Value) : Prop where
  | refused (table : ¬Options.Table v) (accepted : ¬op.Accepted s) (state : s.after op = s)
  | accepted (table : Options.Table v) (accepted : op.Accepted s) (a : Artifact)
    (made : config.contract (Witnesses.ofValue v) = .ok a) (state : s.after op = s.rewitnessed (Witnesses.ofValue v) a)

theorem Rooted.proposalEnd (hs : s.Rooted config) (htotal : ∀ ws, ∃ a, config.contract ws = .ok a) {v : Value}
    (h : op.proposal s = some v) : ProposalEnd config s op v := by
  obtain ⟨x, hx, hok⟩ := Operation.replacement_of_proposal h
  cases replacementEnd hx with
  | refused e table result state =>
    refine .refused (fun ht => ?_) (fun ⟨r, hr⟩ => ?_) state
    · rw [(hok _).mpr ⟨ht, rfl⟩] at table
      cases table
    · rw [result] at hr
      cases hr
  | raised ws e table made result state =>
    obtain ⟨a, ha⟩ := htotal ws
    rw [hs.config, ha] at made
    cases made
  | replaced ws a r table made result state =>
    obtain ⟨ht, rfl⟩ := (hok ws).mp table
    exact .accepted ht ⟨r, result⟩ a (hs.config ▸ made) state

theorem Rooted.accepted_iff_table (hs : s.Rooted config) (htotal : ∀ ws, ∃ a, config.contract ws = .ok a) {v : Value}
    (h : op.proposal s = some v) : op.Accepted s ↔ Options.Table v := by
  cases hs.proposalEnd htotal h with
  | refused table hno state => exact iff_of_false hno table
  | accepted table hyes a made state => exact iff_of_true hyes table

theorem Rooted.after_accepted (hs : s.Rooted config) (htotal : ∀ ws, ∃ a, config.contract ws = .ok a) {v : Value}
    (h : op.proposal s = some v) (hyes : op.Accepted s) :
    ∃ a, config.contract (Witnesses.ofValue v) = .ok a ∧ s.after op = s.rewitnessed (Witnesses.ofValue v) a := by
  cases hs.proposalEnd htotal h with
  | refused table hno state => exact absurd hyes hno
  | accepted table hyes a made state => exact ⟨a, made, state⟩

theorem changes_of_accepted (h : op.Accepted s) : op.changes s = op.change? := by
  obtain ⟨r, hr⟩ := h
  rw [Operation.changes, hr]

theorem changes_of_refused (h : ¬op.Accepted s) : op.changes s = none := by
  rw [Operation.changes]
  cases hr : (perform op s).result with
  | ok r => exact absurd ⟨r, hr⟩ h
  | error e => rfl

theorem Fresh.after (hs : s.Fresh config) (htotal : ∀ ws, ∃ a, config.contract ws = .ok a) (hop : op.Known s) :
    (s.after op).Fresh config ∧ (s.after op).witnesses = (op.changes s).toList.foldl Witnesses.Change.apply s.witnesses := by
  have hroot : (s.after op).Rooted config := hs.rooted.after hop
  cases hv : op.proposal s with
  | none =>
    have hnone : op.replacement s = none ∧ op.change? = none := by
      cases op <;> first | exact ⟨rfl, rfl⟩ | cases hv
    have hchanges : op.changes s = none := by
      rw [Operation.changes, hnone.2]
      split <;> rfl
    obtain ⟨hw, hc⟩ := table_after hnone.1
    rw [hchanges]
    refine ⟨⟨hroot, ?_⟩, hw⟩
    rw [hw, hc]
    exact hs.made
  | some v =>
    cases hs.rooted.proposalEnd htotal hv with
    | refused table hno state =>
      rw [changes_of_refused hno, state]
      exact ⟨hs, rfl⟩
    | accepted table hyes a made state =>
      obtain ⟨c, hc, happly⟩ := Operation.change_of_proposal hv
      rw [changes_of_accepted hyes, hc]
      refine ⟨⟨hroot, ?_⟩, ?_⟩
      · rw [state]
        exact made
      · rw [state]
        exact happly.symm

theorem Fresh.afterAll (hs : s.Fresh config) (htotal : ∀ ws, ∃ a, config.contract ws = .ok a) {ops : List Operation}
    (hops : Throughout (fun t op => op.Known t) ops s) :
    (afterAll ops s).Fresh config ∧
      (afterAll ops s).witnesses = (changes ops s).foldl Witnesses.Change.apply s.witnesses := by
  induction ops generalizing s with
  | nil => exact ⟨hs, rfl⟩
  | cons op ops ih =>
    obtain ⟨hop, hrest⟩ := hops
    obtain ⟨hfresh, htable⟩ := hs.after htotal hop
    obtain ⟨hend, hfold⟩ := ih hfresh hrest
    refine ⟨hend, ?_⟩
    rw [Simulator.afterAll, changes, List.foldl_append, ← htable]
    exact hfold

theorem Rooted.override_after (hs : s.Rooted config) (htotal : ∀ ws, ∃ a, config.contract ws = .ok a)
    {name fn other gn : Value} (hfirst : (Operation.overrideWitness name fn).Accepted s)
    (hsecond : (Operation.overrideWitness other gn).Accepted s) :
    (Operation.overrideWitness other gn).Accepted (s.after (.overrideWitness name fn)) ∧
      ∃ a b, (s.after (.overrideWitness name fn)).after (.overrideWitness other gn) =
        (s.rewitnessed (Value.Keyed.put name fn s.witnesses) a).rewitnessed
          (Value.Keyed.put other gn (Value.Keyed.put name fn s.witnesses)) b := by
  obtain ⟨a, -, ha⟩ := hs.after_accepted htotal rfl hfirst
  have hroot : (s.after (.overrideWitness name fn)).Rooted config := hs.after trivial
  have htable : Options.Table (.map (Value.Keyed.put name fn s.witnesses)) := (hs.accepted_iff_table htotal rfl).mp hfirst
  obtain ⟨hname, hfn⟩ := ((hs.accepted_iff_table htotal rfl).mp hsecond).of_put
  have hwitnesses : (s.after (.overrideWitness name fn)).witnesses = Value.Keyed.put name fn s.witnesses := by
    rw [ha]
    rfl
  have hyes : (Operation.overrideWitness other gn).Accepted (s.after (.overrideWitness name fn)) := by
    refine (hroot.accepted_iff_table htotal rfl).mpr ?_
    rw [hwitnesses]
    exact htable.put hname hfn
  obtain ⟨b, -, hb⟩ := hroot.after_accepted htotal rfl hyes
  refine ⟨hyes, a, b, ?_⟩
  rw [hb, hwitnesses, ha]
  rfl

theorem Rooted.overrides_commute (hs : s.Rooted config) (htotal : ∀ ws, ∃ a, config.contract ws = .ok a)
    {name fn other gn : Value} (hne : name ≠ other) (hfirst : (Operation.overrideWitness name fn).Accepted s)
    (hsecond : (Operation.overrideWitness other gn).Accepted s) :
    let t := (s.after (.overrideWitness name fn)).after (.overrideWitness other gn)
    let u := (s.after (.overrideWitness other gn)).after (.overrideWitness name fn)
    (Operation.overrideWitness other gn).Accepted (s.after (.overrideWitness name fn)) ∧
    (Operation.overrideWitness name fn).Accepted (s.after (.overrideWitness other gn)) ∧
    u = { t with witnesses := u.witnesses, contract := u.contract } ∧ u.witnesses.Perm t.witnesses ∧
    ∀ k, k.codes?.isSome → Value.Keyed.get? k u.witnesses = Value.Keyed.get? k t.witnesses := by
  intro t u
  obtain ⟨hthen, a, b, ht⟩ := hs.override_after htotal hfirst hsecond
  obtain ⟨hthen', a', b', hu⟩ := hs.override_after htotal hsecond hfirst
  have hname : name.IsName := ((hs.accepted_iff_table htotal rfl).mp hfirst).of_put.1
  refine ⟨hthen, hthen', ?_, ?_, fun k hk => ?_⟩
  · simp only [t, u, ht, hu]
    rfl
  · simp only [t, u, ht, hu]
    exact Value.Keyed.put_put_perm hname.text hne fn gn s.witnesses
  · simp only [t, u, ht, hu]
    exact Value.Keyed.get?_put_put hk hne fn gn s.witnesses

end

theorem Sound.impure_of_callee (hs : s.Sound) {name : Value} {args as : List Value} {route : Route} {m : Mark}
    {b : Bound Circuit} (hc : (Operation.call .impure name args route).callee s = some (.bound m b, as)) :
    b.kind = .impure := by
  have hof : (Callable.bound m b).Of fun k _ => k = .impure := by
    obtain ⟨c, hfind, he⟩ := Option.map_eq_some_iff.mp hc
    cases he
    cases hf : (s.offered .impure).find name route with
    | error e =>
      rw [hf] at hfind
      cases hfind
    | ok c =>
      rw [hf] at hfind
      cases hfind
      exact hs.find (fun _ _ _ => rfl) hf
  exact hof

/-- Over the contract with witnesses an impure call by name goes to the witness in the table, or else fails. -/
theorem Fresh.asks [Limits] {call : WitnessCall} (hs : s.Fresh config)
    (hcontract : config.contract = (Witness.configOf call).contract) {name : Value} {args : List Value} {route : Route}
    {m : Mark} {b : Bound Circuit} (hc : (Operation.call .impure name args route).callee s = some (.bound m b, args))
    {g : Handed} (hg : s.handed = .ok g) :
    ∃ p ∈ Witness.parts, b.name = p.name ∧
      (p.asks s.witnesses g.context args = none ∧
          (∃ e, (perform (.call .impure name args route) s).result = .error e) ∨
        ∃ w seen, p.asks s.witnesses g.context args = some (w, seen) ∧
          (perform (.call .impure name args route) s).result =
            (call w seen args >>= fun x => Witness.store { g.context with privateState := x.1 } p.key x.2).map
              fun y => .value y.1) := by
  have hsound : s.Sound := hs.rooted.sound
  have hkind : b.kind = .impure := hsound.impure_of_callee hc
  have hdrawn : (Operation.call .impure name args route).Drawn (· = s.contract) := trivial
  have hfrom : b.From (· = s.contract) := hsound.callee_from (A := (· = s.contract)) rfl hdrawn hc
  have hmade : Witness.contract call s.witnesses = s.contract := by
    have hok : (Witness.configOf call).contract s.witnesses = .ok s.contract := hcontract ▸ hs.made
    exact Except.ok.inj hok
  obtain ⟨ws, rfl, p, hp, hname, hcircuit⟩ :=
    Witness.part_of_from (Q := (· = s.witnesses)) (fun a ha => ⟨s.witnesses, rfl, ha.trans hmade.symm⟩) hfrom hkind
  refine ⟨p, hp, hname, ?_⟩
  have hran : (perform (.call .impure name args route) s).result =
      (Witness.circuit call s.witnesses p.witness p.key p.arity g.context args).map fun y => .value y.1 := by
    rw [(call_ofResult hsound hc hkind hcircuit).1, hg]
    rfl
  cases hasks : p.asks s.witnesses g.context args with
  | none =>
    obtain ⟨e, he⟩ := Witness.circuit_unasked call hasks
    refine .inl ⟨rfl, e, ?_⟩
    rw [hran, he]
    rfl
  | some x =>
    refine .inr ⟨x.1, x.2, rfl, ?_⟩
    rw [hran, Witness.circuit_asks hasks]

/-- Run with a contract for any witness table, a simulator always has the contract made of the table in place, and that
table is the first one with the accepted changes made to it, each name standing for what was put there last. So what a
call by name finds is a circuit made of that table, and for the contract with witnesses it asks the witness installed last
under the name it asks for. A proposed table is accepted if and only if it is one; otherwise nothing changes, and the
context does not change either way. Of two overrides of different names that are accepted, either can be made first. -/
theorem witnesses_are_fresh [Limits] (htotal : ∀ ws, ∃ a, config.contract ws = .ok a) {name : String} {maker : Nat}
    {args options : Value} {s₀ : Simulator} (hb : build name config maker args options = .ok s₀) {ops : List Operation}
    (hops : Throughout (fun t op => op.Known t) ops s₀) :
    let s := afterAll ops s₀
    config.contract s.witnesses = .ok s.contract ∧
    s.witnesses = (changes ops s₀).foldl Witnesses.Change.apply s₀.witnesses ∧
    (∀ k, k.codes?.isSome → Value.Keyed.get? k s.witnesses = Witnesses.installed k s₀.witnesses (changes ops s₀)) ∧
    (∀ kind name args route m b, (Operation.call kind name args route).callee s = some (.bound m b, args) →
      b.From fun a => config.contract s.witnesses = .ok a) ∧
    (∀ call, config.contract = (Witness.configOf call).contract → ∀ name args route m b g,
      (Operation.call .impure name args route).callee s = some (.bound m b, args) → s.handed = .ok g →
        ∃ p ∈ Witness.parts, b.name = p.name ∧
          (p.asks s.witnesses g.context args = none ∧
              (∃ e, (perform (.call .impure name args route) s).result = .error e) ∨
            ∃ w seen, Witnesses.installed (.str p.witness) s₀.witnesses (changes ops s₀) = some w ∧
              p.asks s.witnesses g.context args = some (w, seen) ∧
              (perform (.call .impure name args route) s).result =
                (call w seen args >>= fun x => Witness.store { g.context with privateState := x.1 } p.key x.2).map
                  fun y => .value y.1)) ∧
    (∀ op v, op.proposal s = some v → (op.Accepted s ↔ Options.Table v) ∧ (¬op.Accepted s → s.after op = s) ∧
      (s.after op).current = s.current) ∧
    (∀ name fn, (Operation.overrideWitness name fn).Accepted s → name.IsName ∧ fn.isCallable) ∧
    ∀ name fn other gn, name ≠ other → (Operation.overrideWitness name fn).Accepted s →
      (Operation.overrideWitness other gn).Accepted s →
        let t := (s.after (.overrideWitness name fn)).after (.overrideWitness other gn)
        let u := (s.after (.overrideWitness other gn)).after (.overrideWitness name fn)
        (Operation.overrideWitness other gn).Accepted (s.after (.overrideWitness name fn)) ∧
        (Operation.overrideWitness name fn).Accepted (s.after (.overrideWitness other gn)) ∧
        u = { t with witnesses := u.witnesses, contract := u.contract } ∧ u.witnesses.Perm t.witnesses ∧
        ∀ k, k.codes?.isSome → Value.Keyed.get? k u.witnesses = Value.Keyed.get? k t.witnesses := by
  intro s
  obtain ⟨hfresh, htable⟩ := (Fresh.of_build hb).afterAll htotal hops
  have hinstalled (k : Value) (hk : k.codes?.isSome) :
      Value.Keyed.get? k s.witnesses = Witnesses.installed k s₀.witnesses (changes ops s₀) := by
    rw [htable, Witnesses.get?_changed hk]
  refine ⟨hfresh.made, htable, hinstalled, ?_, ?_, ?_, ?_, ?_⟩
  · intro kind name args route m b hc
    have hdrawn : (Operation.call kind name args route).Drawn fun a => config.contract s.witnesses = .ok a := trivial
    exact hfresh.rooted.sound.callee_from hfresh.made hdrawn hc
  · intro call hcontract name args route m b g hc hg
    obtain ⟨p, hp, hname, hunasked | ⟨w, seen, hasks, hran⟩⟩ := hfresh.asks hcontract hc hg
    · exact ⟨p, hp, hname, .inl hunasked⟩
    · refine ⟨p, hp, hname, .inr ⟨w, seen, ?_, hasks, hran⟩⟩
      rw [← hinstalled _ rfl]
      exact (Witness.asks_spec hasks).2
  · intro op v hv
    cases hfresh.rooted.proposalEnd htotal hv with
    | refused table hno state => exact ⟨iff_of_false hno table, fun _ => state, by rw [state]⟩
    | accepted table hyes a made state =>
      refine ⟨iff_of_true hyes table, fun hno => absurd hyes hno, ?_⟩
      rw [state]
      rfl
  · intro name fn hyes
    exact ((hfresh.rooted.accepted_iff_table htotal rfl).mp hyes).of_put
  · intro name fn other gn hne hfirst hsecond
    exact hfresh.rooted.overrides_commute htotal hne hfirst hsecond

def seven : Value := Witness.written 1 "const" [("value", .int 7)]

def bumpReplaced : List Operation :=
  [bump, .overrideWitness (.str "wit_bumpCounter") seven, .setWitnesses .none]

theorem ownWitnesses_table : Options.Table (.map Witness.ownWitnesses) := by
  refine ⟨_, rfl, fun e he => ?_⟩
  obtain ⟨⟨name, label⟩, hx, rfl⟩ := List.mem_map.mp he
  have hlong : ∀ x ∈ Witness.ownLabels, x.1.toList ≠ [] := by decide
  cases hname : name.toList with
  | nil => exact absurd hname (hlong _ hx)
  | cons c cs => exact ⟨⟨c.toNat, cs.map Char.toNat, by simp [Value.codes?, hname]⟩, rfl⟩

/-- The run ends where the bump and the override alone would, with a contract made of the new table. -/
theorem afterAll_bumpReplaced : changes bumpReplaced drawing = [.witness (.str "wit_bumpCounter") seven] ∧
    ∃ ws, afterAll bumpReplaced drawing = (drawing.after bump).rewitnessed ws (Witness.contract Witness.call ws) := by
  have htotal (ws : Witnesses) : ∃ a, Witness.config.contract ws = .ok a := ⟨_, rfl⟩
  have hroot : (drawing.after bump).Rooted Witness.config := (Rooted.of_build drawing_built).after trivial
  have hroot' : ((drawing.after bump).after (.overrideWitness (.str "wit_bumpCounter") seven)).Rooted Witness.config :=
    hroot.after trivial
  have hbump : bump.changes drawing = none := by
    rw [Operation.changes]
    split <;> rfl
  have htable : (drawing.after bump).witnesses = Witness.ownWitnesses := (table_after rfl).1
  have hput : Options.Table (.map (Value.Keyed.put (.str "wit_bumpCounter") seven (drawing.after bump).witnesses)) := by
    rw [htable]
    exact ownWitnesses_table.put ⟨_, _, rfl⟩ rfl
  have hoverride : (Operation.overrideWitness (.str "wit_bumpCounter") seven).Accepted (drawing.after bump) :=
    (hroot.accepted_iff_table htotal rfl).mpr hput
  have hnone : ¬Options.Table .none := by
    rintro ⟨es, hes, -⟩
    cases hes
  have hrefused : ¬(Operation.setWitnesses .none).Accepted
      ((drawing.after bump).after (.overrideWitness (.str "wit_bumpCounter") seven)) :=
    mt (hroot'.accepted_iff_table htotal rfl).mp hnone
  constructor
  · simp only [bumpReplaced, changes, hbump, changes_of_accepted hoverride, changes_of_refused hrefused]
    rfl
  · change ∃ ws, ((drawing.after bump).after (.overrideWitness (.str "wit_bumpCounter") seven)).after
      (.setWitnesses .none) = _
    have hnothing : ProposalEnd Witness.config _ (.setWitnesses .none) .none := hroot'.proposalEnd htotal rfl
    have hwitness : ProposalEnd Witness.config _ (.overrideWitness (.str "wit_bumpCounter") seven) _ :=
      hroot.proposalEnd htotal rfl
    cases hnothing with
    | accepted table => exact absurd table hnone
    | refused _ _ stays =>
      rw [stays]
      cases hwitness with
      | refused table => exact absurd hput table
      | accepted _ _ a made state =>
        cases made
        exact ⟨_, state⟩

theorem bumpReplaced_fresh :
    let s := afterAll bumpReplaced drawing
    build "Drawing" Witness.config 0 (.list []) .none = .ok drawing ∧
    changes bumpReplaced drawing = [.witness (.str "wit_bumpCounter") seven] ∧
    Witness.config.contract s.witnesses = .ok s.contract ∧
    Value.Keyed.get? (.str "wit_bumpCounter") s.witnesses = some seven ∧
    Value.Keyed.get? (.str "wit_secretBytes") s.witnesses =
      Value.Keyed.get? (.str "wit_secretBytes") Witness.ownWitnesses ∧
    ∃ g, s.handed = .ok g ∧ ∃ p ∈ Witness.parts, "bumpCounter" = p.name ∧
      ∃ seen, p.asks s.witnesses g.context [] = some (seven, seen) ∧
        Witness.call seven seen [] = .ok (seen.privateState, .int 7) ∧
        (perform bump s).result = (Witness.store { g.context with privateState := seen.privateState } p.key
          (.int 7)).map fun y => .value y.1 := by
  intro s
  have htotal (ws : Witnesses) : ∃ a, Witness.config.contract ws = .ok a := ⟨_, rfl⟩
  obtain ⟨hchanges, ws, hs⟩ := afterAll_bumpReplaced
  have hops : Throughout (fun t op => op.Known t) bumpReplaced drawing := ⟨trivial, trivial, trivial, trivial⟩
  obtain ⟨hmade, -, hinstalled, -, hasks, -⟩ := witnesses_are_fresh htotal drawing_built hops
  rw [hchanges] at hinstalled hasks
  have hseven : Value.Keyed.get? (.str "wit_bumpCounter") s.witnesses = some seven := hinstalled _ rfl
  refine ⟨drawing_built, hchanges, hmade, hseven, hinstalled _ rfl, ?_⟩
  obtain ⟨m, c, hc⟩ : ∃ m c, bump.callee s = some (.bound m ⟨.impure, "bumpCounter", c⟩, []) := by
    rw [show s = _ from hs]
    exact ⟨_, _, by rfl⟩
  obtain ⟨g, hg, seen, hseen⟩ : ∃ g, s.handed = .ok g ∧ ∃ seen, Witness.view g.context = .ok seen := by
    rw [show s = _ from hs]
    exact ⟨_, by rfl, _, by rfl⟩
  obtain ⟨p, hp, hname, hends⟩ := hasks Witness.call rfl (.str "bumpCounter") [] .item m _ g hc hg
  have hbump : ∀ p ∈ Witness.parts, "bumpCounter" = p.name →
      p = ⟨"bumpCounter", "wit_bumpCounter", "_valCounter", 0⟩ := by
    simp [Witness.parts]
  obtain rfl := hbump p hp hname
  have hasked : Witness.Part.asks ⟨"bumpCounter", "wit_bumpCounter", "_valCounter", 0⟩ s.witnesses g.context [] =
      some (seven, seen) := by
    rw [Witness.Part.asks, hseen, hseven]
    rfl
  refine ⟨g, hg, _, hp, hname, seen, hasked, rfl, ?_⟩
  obtain ⟨hunasked, -⟩ | ⟨w, seen', -, hasked', hran⟩ := hends
  · cases hasked.symm.trans hunasked
  · cases hasked.symm.trans hasked'
    exact hran

end Simulator
end CircuitHarness
