import CircuitHarness.Proofs.Agreement
import CircuitHarness.Proofs.Clean

/-! Replacing the witness table. What is refused leaves everything as it is. When no contract can be made of the new
table, that table is in place already: all else stays, and what is done later is done as before until it asks for the
table. -/
namespace CircuitHarness

open CircuitHarness.Action (Relates)

namespace Operation

def replacement [Limits] (s : Simulator) : Operation → Option (Except Failure Witnesses)
  | .setWitnesses t => some (Witnesses.ofValue <$> Witnesses.validate t)
  | .overrideWitness n f =>
    let table := Value.map (Value.Keyed.put n f s.witnesses)
    some (if n.isHashable then Witnesses.ofValue <$> Witnesses.validate table else .error .wrongType)
  | _ => none

/-- Asks for the witness table. -/
def Consults : Operation → Prop
  | .witnesses | .overrideWitness .. => True
  | _ => False

/-- Puts a table in place whatever table there was, even if no contract can be made of it. -/
def Lays [Limits] : Operation → Prop
  | .setWitnesses t => ∃ u, Witnesses.validate t = .ok u
  | _ => False

end Operation

def Unconsulted [Limits] : List Operation → Prop
  | [] => True
  | op :: ops => op.Lays ∨ ¬op.Consults ∧ Unconsulted ops

namespace Simulator

/-- The same but for the witness table. -/
def Retabled (s t : Simulator) : Prop := ∃ ws, t = { s with witnesses := ws }

/-- How a replacement ends. -/
inductive ReplacementEnd {α : Type} (s : Simulator) (x : Except Failure Witnesses) (o : Outcome Simulator α) : Prop where
  | refused (e : Failure) (table : x = .error e) (result : o.result = .error e) (state : o.state = s)
  | raised (ws : Witnesses) (e : Failure) (table : x = .ok ws) (made : s.config.contract ws = .error e)
    (result : o.result = .error e) (state : o.state = { s with witnesses := ws })
  | replaced (ws : Witnesses) (a : Artifact) (v : α) (table : x = .ok ws) (made : s.config.contract ws = .ok a)
    (result : o.result = .ok v)
    (state : o.state = (resetDispatchers { s with witnesses := ws, contract := a }).state)

theorem replacementEnd_setWitnesses [Limits] (table : Value) (s : Simulator) :
    ReplacementEnd s (Witnesses.ofValue <$> Witnesses.validate table) (setWitnesses table s) := by
  cases ht : Witnesses.validate table with
  | error e =>
    refine .refused e rfl ?_ ?_
    · simp only [setWitnesses, ht, Action.bind_result, Action.lift_result]
    · simp only [setWitnesses, ht, Action.bind_state, Action.lift_result, Action.lift_state]
  | ok t =>
    cases hc : s.config.contract (Witnesses.ofValue t) with
    | error e =>
      refine .raised _ e rfl hc ?_ ?_
      · simp [setWitnesses, ht, hc, Action.bind_result]
      · simp [setWitnesses, ht, hc, Action.bind_state]
    | ok a =>
      refine .replaced _ a () rfl hc ?_ ?_
      · simp [setWitnesses, ht, hc, Action.bind_result, Action.bind_state, resetDispatchers, onCache, Cache.invalidate]
      · simp [setWitnesses, ht, hc, Action.bind_result, Action.bind_state, resetDispatchers, onCache, Cache.invalidate]

theorem ReplacementEnd.tell {s : Simulator} {x : Except Failure Witnesses} {y : Action Simulator Unit}
    (h : ReplacementEnd s x (y s)) : ReplacementEnd s x (Simulator.tell y s) := by
  have hresult : (Simulator.tell y s).result = (fun _ => Reply.nothing) <$> (y s).result := by
    rw [Simulator.tell, Action.bind_result]
    cases (y s).result <;> rfl
  have hstate : (Simulator.tell y s).state = (y s).state := tell_state y s
  cases h with
  | refused e table result state =>
    exact .refused e table (by rw [hresult, result]; rfl) (hstate.trans state)
  | raised ws e table made result state =>
    exact .raised ws e table made (by rw [hresult, result]; rfl) (hstate.trans state)
  | replaced ws a v table made result state =>
    exact .replaced ws a .nothing table made (by rw [hresult, result]; rfl) (hstate.trans state)

theorem replacementEnd [Limits] {s : Simulator} {op : Operation} {x : Except Failure Witnesses}
    (h : op.replacement s = some x) :
    ReplacementEnd s x (perform op s) := by
  cases op with
  | setWitnesses t =>
    cases h
    exact (replacementEnd_setWitnesses t s).tell
  | overrideWitness n f =>
    cases h
    refine ReplacementEnd.tell ?_
    simp only [overrideWitness]
    cases hn : n.isHashable with
    | true => exact replacementEnd_setWitnesses (.map (Value.Keyed.put n f s.witnesses)) s
    | false => exact .refused .wrongType rfl rfl rfl
  | _ => cases h

theorem table_after [Limits] {s : Simulator} {op : Operation} (h : op.replacement s = none) :
    (s.after op).witnesses = s.witnesses ∧ (s.after op).contract = s.contract := by
  have same (hs : (perform op s).state = s) :
      (s.after op).witnesses = s.witnesses ∧ (s.after op).contract = s.contract := by
    rw [after, hs]
    exact ⟨rfl, rfl⟩
  cases op with
  | call | callHeld | direct | names => exact ⟨(later_after rfl s).witnesses, (later_after rfl s).contract⟩
  | callerContext =>
    rw [after_callerContext]
    exact ⟨rfl, rfl⟩
  | switchSender sender carryover =>
    rw [after_switchSender]
    cases sender.key? <;> exact ⟨rfl, rfl⟩
  | rebuild sender carryover | senderContext sender =>
    exact same (bind_stays (Action.lift_state _ s) fun _ => bind_stays (ask_state _ s) fun _ => rfl)
  | publicState | witnessContext => exact same (bind_stays (ask_state _ s) fun _ => rfl)
  | cachePut j label =>
    rw [after, perform, tell_state]
    exact ⟨rfl, rfl⟩
  | setWitnesses | overrideWitness => cases h
  | _ => exact ⟨rfl, rfl⟩

variable {s t : Simulator}

theorem retabled_onManager {α : Type} (x : Action Manager α) :
    Relates Retabled Retabled Eq (onManager x) (onManager x) := by
  rintro s _ ⟨ws, rfl⟩
  exact ⟨.of_eq _, ws, rfl⟩

theorem retabled_onCache {α : Type} (x : Action (Cache Surface) α) :
    Relates Retabled Retabled Eq (onCache x) (onCache x) := by
  rintro s _ ⟨ws, rfl⟩
  exact ⟨.of_eq _, ws, rfl⟩

theorem retabled_update {f : Simulator → Simulator}
    (h : ∀ s ws, f { s with witnesses := ws } = { f s with witnesses := ws }) :
    Relates Retabled Retabled Eq (Action.update f) (Action.update f) := by
  refine .update ?_
  rintro s _ ⟨ws, rfl⟩
  exact ⟨ws, h s ws⟩

theorem retabled_ask {α : Type} {f : Simulator → Except Failure α} (h : ∀ s ws, f { s with witnesses := ws } = f s) :
    Relates Retabled Retabled Eq (ask f) (ask f) := by
  refine Relates.read.bind ?_
  rintro s _ ⟨ws, rfl⟩
  rw [h s ws]
  exact .lift (.of_eq (f s))

theorem retabled_tell {x : Action Simulator Unit} (h : Relates Retabled Retabled Eq x x) :
    Relates Retabled Retabled Eq (tell x) (tell x) :=
  h.bind_eq fun _ => .pure rfl

theorem retabled_get {α : Type} {f : Simulator → α} (h : ∀ s ws, f { s with witnesses := ws } = f s) :
    Relates Retabled Retabled Eq (do return f (← Action.read)) (do return f (← Action.read)) := by
  refine Relates.read.bind ?_
  rintro s _ ⟨ws, rfl⟩
  exact .pure (h s ws).symm

theorem retabled_surface (k : CircuitKind) : Relates Retabled Retabled Eq (surface k) (surface k) := by
  rintro s _ ⟨ws, rfl⟩
  rw [surface_result, surface_result]
  refine ⟨.ok rfl, ws, ?_⟩
  obtain ⟨-, ⟨hs, hready⟩ | ⟨hs, hready⟩⟩ := surface_eq s k
  · obtain ⟨-, ⟨ht, -⟩ | ⟨-, hnone⟩⟩ := surface_eq { s with witnesses := ws } k
    · rw [hs, ht]
    · rw [hnone] at hready
      cases hready
  · obtain ⟨-, ⟨-, hsome⟩ | ⟨ht, -⟩⟩ := surface_eq { s with witnesses := ws } k
    · rw [hready] at hsome
      cases hsome
    · rw [hs, ht]
      rfl

theorem retabled_callerContext : Relates Retabled Retabled Eq callerContext callerContext := by
  rintro s _ ⟨ws, rfl⟩
  have hhanded : ({ s with witnesses := ws } : Simulator).handed = s.handed := by
    rw [handed_eq, handed_eq]
    rfl
  rw [callerContext_state, callerContext_state]
  refine ⟨?_, ws, rfl⟩
  change Answers Eq s.handed _
  rw [← hhanded]
  exact .of_eq _

section
variable [Limits]

/-- No circuit sees the witness table of the simulator it runs on; it has the one its contract was made of. -/
theorem retabled_match : machine.Match (fun _ : Unit => Retabled) Eq (fun _ _ => True) machine where
  surface _ k := (retabled_surface k).mono fun x y h => by
    subst h
    exact ⟨.refl x, x.of_true⟩
  bound {sv tv} hsv i m n b args _ := by
    refine Bound.call_relates (H := Eq) b args ?_ ?_ fun _ g _ hg => ?_
    · cases b.kind with
      | pure => exact retabled_get fun s ws => rfl
      | impure => exact retabled_callerContext
    · rintro g _ rfl
      exact hsv.run (fun _ => rfl) i rfl (Program.blind_eq _)
    · subst hg
      exact retabled_update fun s ws => rfl
  mark _ := retabled_onManager _
  asCaller _ c := retabled_update fun s ws => rfl
  contract := by
    rintro _ s _ ⟨ws, rfl⟩
    exact ⟨rfl, fun _ _ _ _ => trivial⟩
  blind _ _ _ _ _ := Program.blind_eq _

theorem laid_setWitnesses {table u : Value} (h : Witnesses.validate table = .ok u) :
    Relates Retabled Eq Eq (setWitnesses table) (setWitnesses table) := by
  rintro s _ ⟨ws, rfl⟩
  simp only [setWitnesses, h, Action.bind_result, Action.bind_state, Action.lift_result, Action.lift_state,
    Action.update_result, Action.update_state, Action.read_result, Action.read_state]
  cases s.config.contract (Witnesses.ofValue u) with
  | error e => exact ⟨.error e, trivial⟩
  | ok a => exact ⟨.ok rfl, trivial⟩

theorem retabled_setWitnesses (table : Value) :
    Relates Retabled Retabled Eq (setWitnesses table) (setWitnesses table) := by
  cases h : Witnesses.validate table with
  | error e =>
    rintro s _ ⟨ws, rfl⟩
    simp only [setWitnesses, h, Action.bind_result, Action.bind_state, Action.lift_result, Action.lift_state]
    exact ⟨.error e, ws, rfl⟩
  | ok u => exact (laid_setWitnesses h).weaken fun s t hst => ⟨s.witnesses, hst.symm⟩

theorem retabled_perform {op : Operation} (h : ¬op.Consults) :
    Relates Retabled Retabled Eq (perform op) (perform op) := by
  rw [← machine_perform]
  refine retabled_match.perform_eq () fun hcalls => ?_
  change Relates Retabled Retabled Eq (perform op) (perform op)
  cases op with
  | asCaller c => exact (retabled_update fun s ws => rfl).bind_eq fun _ => .pure rfl
  | persistentCaller c | resetCaller => exact retabled_tell (retabled_update fun s ws => rfl)
  | callerContext => exact retabled_callerContext.bind_eq fun h => .pure rfl
  | current | privateState | contractState => exact retabled_get fun s ws => rfl
  | write h | setCarryover c => exact retabled_tell (retabled_onManager _)
  | updatePrivate v => exact (retabled_onManager _).bind_eq fun _ => retabled_get fun s ws => rfl
  | switchSender sender carryover => exact (retabled_onManager _).bind_eq fun _ => retabled_get fun s ws => rfl
  | rebuild sender carryover | senderContext sender =>
    exact (Relates.lift (.of_eq _)).bind_eq fun text => (retabled_ask fun s ws => rfl).bind_eq fun c => .pure rfl
  | publicState | witnessContext => exact (retabled_ask fun s ws => rfl).bind_eq fun v => .pure rfl
  | resetDispatchers | cachePut k label | cacheClearStats => exact retabled_tell (retabled_onCache _)
  | setWitnesses table => exact retabled_tell (retabled_setWitnesses table)
  | witnesses | overrideWitness => exact absurd trivial h
  | call | callHeld | direct | names => cases hcalls

theorem Retabled.history (h : Retabled s t) {ops : List Operation} (hops : Unconsulted ops) :
    history ops t = history ops s := by
  induction ops generalizing s t with
  | nil => rfl
  | cons op ops ih =>
    obtain hlays | ⟨hasks, hrest⟩ := hops
    · cases op with
      | setWitnesses table =>
        obtain ⟨u, hu⟩ := hlays
        have hlaid : Relates Retabled Eq Eq (perform (.setWitnesses table)) (perform (.setWitnesses table)) :=
          (laid_setWitnesses hu).bind_eq fun _ => .pure rfl
        obtain ⟨hr, hs⟩ := hlaid s t h
        rw [Simulator.history, Simulator.history, hr.eq, after, after, hs]
      | _ => exact hlays.elim
    · obtain ⟨hr, hs⟩ := retabled_perform hasks s t h
      have hcurrent : (t.after op).current = (s.after op).current := by
        obtain ⟨ws, hws⟩ := hs
        rw [after, after, hws]
        rfl
      rw [Simulator.history, Simulator.history, hr.eq, hcurrent, ih (s := s.after op) (t := t.after op) hs hrest]

/-- A replacement that raises leaves everything but the table as it is, and the table, too, if it is refused; one that no
contract can be made of is in place. That goes unnoticed for good if the table is the old one again, and otherwise for as
long as nobody asks for it. -/
theorem raised_replacement_unnoticed_iff {op : Operation} {x : Except Failure Witnesses} {e : Failure}
    (hop : op.replacement s = some x) (he : (perform op s).result = .error e) :
    (x = .error e ∧ s.after op = s ∨
        ∃ ws, x = .ok ws ∧ s.config.contract ws = .error e ∧ s.after op = { s with witnesses := ws }) ∧
      ((∀ ops, history ops (s.after op) = history ops s) ↔ (s.after op).witnesses = s.witnesses) ∧
      ∀ ops, Unconsulted ops → history ops (s.after op) = history ops s := by
  have hend : x = .error e ∧ s.after op = s ∨
      ∃ ws, x = .ok ws ∧ s.config.contract ws = .error e ∧ s.after op = { s with witnesses := ws } := by
    cases replacementEnd hop with
    | refused f table result state =>
      cases he.symm.trans result
      exact .inl ⟨table, state⟩
    | raised ws f table made result state =>
      cases he.symm.trans result
      exact .inr ⟨ws, table, made, state⟩
    | replaced ws a v table made result state => cases he.symm.trans result
  have hretabled : Retabled s (s.after op) := by
    obtain ⟨-, h⟩ | ⟨ws, -, -, h⟩ := hend
    · exact ⟨s.witnesses, h⟩
    · exact ⟨ws, h⟩
  refine ⟨hend, ⟨fun h => ?_, fun h => ?_⟩, fun ops hops => hretabled.history hops⟩
  · have htable : (perform .witnesses (s.after op)).result = (perform .witnesses s).result :=
      congrArg Prod.fst (List.cons.inj (h [.witnesses])).1
    simpa [perform, Action.bind_result] using htable
  · obtain ⟨ws, hws⟩ := hretabled
    rw [hws] at h ⊢
    cases h
    exact fun _ => rfl

end

theorem emptied_unnoticed :
    (¬∀ ops, history ops (Stale.emptied Stale.simulator) = history ops Stale.simulator) ∧
      let ops : List Operation := [.call .pure (.str "label") [] .item, .names,
        .setWitnesses (.map [(.str "w", Stale.witness "second")]), .witnesses]
      history ops (Stale.emptied Stale.simulator) = history ops Stale.simulator := by
  have hop : (Operation.setWitnesses (.map [])).replacement Stale.simulator = some (.ok []) := by cbv
  have he : (perform (.setWitnesses (.map [])) Stale.simulator).result = .error (.missingKey (.str "w")) := by cbv
  have hlaid : Witnesses.validate (.map [(.str "w", Stale.witness "second")]) =
      .ok (.map [(.str "w", Stale.witness "second")]) := by
    cbv
  obtain ⟨-, hiff, hunconsulted⟩ := raised_replacement_unnoticed_iff hop he
  refine ⟨fun h => ?_, hunconsulted _ (.inr ⟨id, .inr ⟨id, .inl ⟨_, hlaid⟩⟩⟩)⟩
  have htable : (Stale.emptied Stale.simulator).witnesses = Stale.simulator.witnesses := hiff.mp h
  have hempty : (Stale.emptied Stale.simulator).witnesses = [] := by cbv
  rw [hempty] at htable
  cases htable

/-- The table that raised is what a later override extends, which raises, too; it would not have done so before. -/
theorem raised_replacement_is_extended :
    let extend := Operation.overrideWitness (.str "x") (Stale.witness "second")
    Reachable Stale.config Stale.simulator ∧
      (perform (.setWitnesses (.map [])) Stale.simulator).result = .error (.missingKey (.str "w")) ∧
      (Stale.emptied Stale.simulator).witnesses = [] ∧ Stale.simulator.witnesses = [(.str "w", Stale.witness "first")] ∧
      (perform extend Stale.simulator).result = .ok .nothing ∧
      (perform extend (Stale.emptied Stale.simulator)).result = .error (.missingKey (.str "w")) := by
  have hbuilt : build "Stale" Stale.config 0 (.list []) .none = .ok Stale.simulator := rfl
  refine ⟨.build hbuilt, ?_, ?_, rfl, ?_, ?_⟩ <;> cbv

end Simulator
end CircuitHarness
