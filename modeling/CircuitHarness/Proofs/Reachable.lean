import CircuitHarness.Proofs.Caller
import CircuitHarness.Proofs.Keeping
import CircuitHarness.Proofs.Steady

/-! What holds of every simulator that was built and then operated on, whatever its circuits do while they run: its
contract is one of its configuration's, its cache is sound, and the marks it goes by were given before. -/
namespace CircuitHarness

def Manager.Gave (m : Manager) (k : Mark) : Prop := k.maker = m.maker → k.serial < m.made

/-- No context can be known by a mark that is yet to be given. -/
def Handed.Known (m : Manager) (h : Handed) : Prop := ∀ k, h.mark = some k → m.Gave k

theorem known_fresh (m : Manager) (c : CircuitContext) : (Handed.fresh c).Known m := by
  intro k hk
  cases hk

/-- Only contexts that exist can be written. -/
def Operation.Known (s : Simulator) : Operation → Prop
  | .write h => h.Known s.manager
  | _ => True

def Value.key? (v : Value) : Option Key := (v.asSender.bind Key.ofHex).toOption

theorem Manager.switchSender_state (m : Manager) (sender : Value) (carryover : Option Carryover) :
    (Manager.switchSender sender carryover m).state =
      match sender.key? with
      | some k => m.adopt (.fresh (m.current.context.rekey k (carryover.getD m.carryover)))
      | none => m := by
  rw [switchSender]
  cases hc : clip? sender with
  | none =>
    have hk : sender.key? = none := by cases sender <;> first | rfl | cases hc
    simp only [Action.bind_state, Action.fail_result, Action.fail_state, hk]
  | some t =>
    simp only [Action.note_result, Action.note_state, Action.read_result, Action.read_state, Action.bind_state,
      Action.lift_result, Action.lift_state, Value.key?, rebuild]
    cases sender.asSender with
    | error e => rfl
    | ok t =>
      dsimp only [Except.bind]
      cases Key.ofHex t <;> rfl

theorem Manager.switchSender_result (m : Manager) (sender : Value) (carryover : Option Carryover) :
    (Manager.switchSender sender carryover m).result =
      match clip? sender with
      | some _ => sender.asSender.bind fun t => m.rebuild t carryover
      | none => .error .wrongType := by
  rw [switchSender]
  cases clip? sender with
  | none => rfl
  | some t =>
    simp only [Action.note_result, Action.note_state, Action.read_result, Action.read_state, Action.bind_result,
      Action.lift_result, Action.lift_state]
    cases sender.asSender with
    | error e => rfl
    | ok a =>
      dsimp only [Except.bind]
      cases m.rebuild a carryover <;> rfl

namespace Simulator

section
variable [Limits]

def after (s : Simulator) (op : Operation) : Simulator := (perform op s).state

theorem after_callHeld (c : Callable) (args : List Value) (s : Simulator) :
    s.after (.callHeld c args) = (call c args s).state := by
  simp only [after, perform, Action.bind_state, Action.pure_state]
  cases (call c args s).result <;> rfl

theorem after_callerContext (s : Simulator) : s.after .callerContext = s.consumed := by
  rw [← callerContext_state]
  simp only [after, perform, Action.bind_state, Action.pure_state]
  cases (callerContext s).result <;> rfl

theorem after_write (h : Handed) (s : Simulator) : s.after (.write h) = { s with manager := s.manager.adopt h } := rfl

theorem after_updatePrivate (p : Value) (s : Simulator) :
    s.after (.updatePrivate p) =
      { s with manager := s.manager.adopt (.fresh { s.context with privateState := p }) } := rfl

end

theorem switchSender_state (sender : Value) (carryover : Option Carryover) (s : Simulator) :
    (onManager (Manager.switchSender sender carryover) s).state =
      match sender.key? with
      | some k =>
        { s with manager := s.manager.adopt (.fresh (s.context.rekey k (carryover.getD s.manager.carryover))) }
      | none => s := by
  simp only [onManager, Action.within_state, Manager.switchSender_state]
  cases sender.key? <;> rfl

section
variable [Limits]

theorem after_switchSender (sender : Value) (carryover : Option Carryover) (s : Simulator) :
    s.after (.switchSender sender carryover) =
      match sender.key? with
      | some k =>
        { s with manager := s.manager.adopt (.fresh (s.context.rekey k (carryover.getD s.manager.carryover))) }
      | none => s := by
  rw [← switchSender_state]
  simp only [after, perform, Action.bind_state, Action.read_result, Action.read_state, Action.pure_state]
  cases (onManager (Manager.switchSender sender carryover) s).result <;> rfl

theorem slot_setWitnesses (table : Value) (s : Simulator) (k : CircuitKind) :
    (setWitnesses table s).state.dispatchers = s.dispatchers ∧
      ((setWitnesses table s).state.cache.slot k = s.cache.slot k ∨
        (setWitnesses table s).state.cache.slot k = none) := by
  simp only [setWitnesses, Action.bind_state, Action.lift_result, Action.lift_state]
  cases Witnesses.validate table with
  | error e => exact ⟨rfl, .inl rfl⟩
  | ok t =>
    simp only [Action.update_result, Action.update_state, Action.read_result, Action.read_state]
    cases s.config.contract (Witnesses.ofValue t) with
    | error e => exact ⟨rfl, .inl rfl⟩
    | ok a => exact ⟨rfl, .inr (by cases k <;> rfl)⟩

theorem slot_after {op : Operation} (h : op.calls = false) (s : Simulator) (k : CircuitKind) :
    (s.after op).dispatchers = s.dispatchers ∧
      ((s.after op).cache.slot k = s.cache.slot k ∨ (s.after op).cache.slot k = none ∨
        ∃ label, op = .cachePut k label ∧ (s.after op).cache.slot k = some (label.map .standIn)) := by
  have kept {t : Simulator} (hcache : t.cache = s.cache) (hdispatchers : t.dispatchers = s.dispatchers) :
      t.dispatchers = s.dispatchers ∧ (t.cache.slot k = s.cache.slot k ∨ t.cache.slot k = none ∨
        ∃ label, op = .cachePut k label ∧ t.cache.slot k = some (label.map .standIn)) :=
    ⟨hdispatchers, .inl (by rw [hcache])⟩
  have same (hs : (perform op s).state = s) : (s.after op).dispatchers = s.dispatchers ∧
      ((s.after op).cache.slot k = s.cache.slot k ∨ (s.after op).cache.slot k = none ∨
        ∃ label, op = .cachePut k label ∧ (s.after op).cache.slot k = some (label.map .standIn)) := by
    rw [after, hs]
    exact kept rfl rfl
  cases op with
  | callerContext =>
    rw [after_callerContext]
    exact kept rfl rfl
  | switchSender sender carryover =>
    rw [after_switchSender]
    cases sender.key? <;> exact kept rfl rfl
  | rebuild sender carryover | senderContext sender =>
    exact same (bind_stays (Action.lift_state _ s) fun _ => bind_stays (ask_state _ s) fun _ => rfl)
  | publicState | witnessContext => exact same (bind_stays (ask_state _ s) fun _ => rfl)
  | setWitnesses t =>
    rw [after, perform, tell_state]
    exact (slot_setWitnesses t s k).imp_right fun h => h.imp_right .inl
  | overrideWitness n f =>
    rw [after, perform, tell_state, overrideWitness, Action.bind_state, Action.read_result, Action.read_state]
    dsimp only
    split
    · exact (slot_setWitnesses _ s k).imp_right fun h => h.imp_right .inl
    · exact kept rfl rfl
  | resetDispatchers =>
    rw [after, perform, tell_state]
    exact ⟨rfl, .inr (.inl (by cases k <;> rfl))⟩
  | cachePut j label =>
    rw [after, perform, tell_state]
    have hslot : (onCache (Cache.put j (label.map Surface.standIn)) s).state.cache.slot k =
        if k = j then some (label.map .standIn) else s.cache.slot k := by
      simp only [onCache, Action.within_state, Cache.put_state]
      rw [← Cache.slot_fill]
      cases k <;> rfl
    refine ⟨rfl, ?_⟩
    rw [hslot]
    by_cases hk : k = j
    · subst hk
      exact .inr (.inr ⟨label, rfl, if_pos rfl⟩)
    · exact .inl (if_neg hk)
  | cacheClearStats =>
    rw [after, perform, tell_state]
    exact ⟨rfl, .inl (slot_clearStats s.cache k)⟩
  | call | callHeld | direct | names => cases h
  | _ => exact kept rfl rfl

end

structure Marked (s : Simulator) : Prop where
  current : s.manager.Gave s.current.mark
  override : ∀ o, s.override = some o → s.manager.Gave o.mark

/-- What may become of a simulator while circuits run. -/
structure Later (s t : Simulator) : Prop where
  config : t.config = s.config
  contract : t.contract = s.contract
  witnesses : t.witnesses = s.witnesses
  maker : t.manager.maker = s.manager.maker
  made : s.manager.made ≤ t.manager.made
  sound : s.Sound → t.Sound
  marked : s.Marked → t.Marked

theorem Later.refl (s : Simulator) : Later s s := ⟨rfl, rfl, rfl, rfl, Nat.le_refl _, id, id⟩

theorem Later.trans {s t u : Simulator} (h : Later s t) (g : Later t u) : Later s u where
  config := g.config.trans h.config
  contract := g.contract.trans h.contract
  witnesses := g.witnesses.trans h.witnesses
  maker := g.maker.trans h.maker
  made := Nat.le_trans h.made g.made
  sound hs := g.sound (h.sound hs)
  marked hs := g.marked (h.marked hs)

instance : Std.Refl Later := ⟨.refl⟩
instance : Trans Later Later Later := ⟨.trans⟩

theorem gave_mono {m n : Manager} (hmaker : n.maker = m.maker) (hmade : m.made ≤ n.made) {k : Mark} (h : m.Gave k) :
    n.Gave k := by
  intro hk
  exact Nat.lt_of_lt_of_le (h (hk.trans hmaker)) hmade

theorem Idle.later {s t : Simulator} (h : Idle s t) : Later s t := by
  have hmaker : t.manager.maker = s.manager.maker := by rw [h.rest]
  have hcurrent : t.current = s.current := by rw [h.rest]; rfl
  have hoverride : t.override = s.override := by rw [h.rest]
  refine ⟨by rw [h.rest], h.contract, by rw [h.rest], hmaker, h.made, h.sound, fun hs => ⟨?_, fun o ho => ?_⟩⟩
  · rw [hcurrent]
    exact gave_mono hmaker h.made hs.current
  · exact gave_mono hmaker h.made (hs.override o (hoverride ▸ ho))

theorem later_asCaller (c : Option Caller) (s : Simulator) : Later s (asCaller c s) :=
  ⟨rfl, rfl, rfl, rfl, Nat.le_refl _, fun hs => hs.moved rfl rfl, fun hs => ⟨hs.current, hs.override⟩⟩

theorem later_consumed (s : Simulator) : Later s s.consumed :=
  ⟨rfl, rfl, rfl, rfl, Nat.le_refl _, fun hs => hs.moved rfl rfl, fun hs => ⟨hs.current, hs.override⟩⟩

theorem handed_known {s : Simulator} (hs : s.Marked) {h : Handed} (hh : s.handed = .ok h) : h.Known s.manager := by
  intro k hk
  obtain rfl | hm := (handed_spec hh).1
  · cases hk
    exact hs.current
  · rw [hm] at hk
    cases hk

theorem hold_made (m : Manager) (h : Handed) : (m.hold h).2.maker = m.maker ∧ m.made ≤ (m.hold h).2.made := by
  cases h with
  | mk c mark =>
    cases mark with
    | none => exact ⟨rfl, Nat.le_succ _⟩
    | some k => exact ⟨rfl, Nat.le_refl _⟩

theorem hold_gave {m : Manager} {h : Handed} (hk : h.Known m) : (m.hold h).2.Gave (m.hold h).1.mark := by
  cases h with
  | mk c mark =>
    cases mark with
    | none => exact fun _ => Nat.lt_succ_self _
    | some k => exact hk k rfl

theorem hold_context (m : Manager) (h : Handed) : (m.hold h).1.context = h.context := by
  cases h with
  | mk c mark => cases mark <;> rfl

theorem Later.commit {s t : Simulator} (hl : Later s t) {h : Handed} (hk : s.Marked → h.Known s.manager) :
    Later s (commit h t).state := by
  obtain ⟨hmaker, hmade⟩ := hold_made t.manager h
  refine ⟨hl.config, hl.contract, hl.witnesses, hmaker.trans hl.maker, Nat.le_trans hl.made hmade, fun hs => ?_, fun hs => ?_⟩
  · exact ⟨(hl.sound hs).cache, (hl.sound hs).own⟩
  · have hg : (t.manager.hold h).2.Gave (t.manager.hold h).1.mark :=
      hold_gave fun k hm => gave_mono hl.maker hl.made (hk hs k hm)
    refine ⟨hg, fun o ho => ?_⟩
    obtain ⟨k, -, rfl⟩ := Option.map_eq_some_iff.mp ho
    exact hg

theorem later_adopt {h : Handed} {s : Simulator} (hk : s.Marked → h.Known s.manager) :
    Later s { s with manager := s.manager.adopt h } := by
  obtain ⟨hmaker, hmade⟩ := hold_made s.manager h
  refine ⟨rfl, rfl, rfl, hmaker, hmade, fun hs => hs.moved rfl rfl, fun hs => ⟨hold_gave (hk hs), fun o ho => ?_⟩⟩
  exact gave_mono (m := s.manager) hmaker hmade (hs.override o ho)

theorem ends_later {α : Type} {s : Simulator} {o : Outcome Simulator α} (h : Later s o.state) :
    Ends Later (fun _ => True) (fun _ _ => True) s o :=
  ⟨trivial, h, fun _ _ => trivial⟩

/-- While circuits run, a simulator becomes a later one. -/
theorem keeps_later [Limits] : machine.Keep Later (fun (_ : Unit) _ => True) (fun _ _ => True) fun _ _ => True where
  surface _ s k _ := ends_later (idle_surface s k).later
  find _ _ _ _ _ _ _ := trivial
  surfaceMono _ _ _ _ _ := trivial
  callableMono _ _ _ _ _ := trivial
  bound sv hsv i s m b args _ _ := by
    have hrun (given : Handed) (p : Program) (t : Simulator) : Later t (p.run sv given t).state :=
      (hsv.run (i := i) given p trivial).rises
    refine ends_later ?_
    change Later s (callCallable sv args (.bound m b) s).state
    cases hb : b.kind with
    | pure =>
      rw [(callCallable_pure sv args m hb s).2]
      exact hrun _ _ _
    | impure =>
      cases impureEnd sv args m hb s with
      | unread e hg hr ht =>
        rw [ht]
        exact later_consumed s
      | failed g e hg hx hr ht =>
        rw [ht]
        exact (later_consumed s).trans (hrun _ _ _)
      | committed g v left hg hx hr ht =>
        rw [ht]
        refine ((later_consumed s).trans (hrun g _ s.consumed)).commit fun hs => ?_
        obtain rfl | ⟨d, rfl, -⟩ := Program.run_left (Program.leaves_true _) hx
        · exact handed_known hs hg
        · exact known_fresh _ d
  mark _ s _ := ends_later (idle_mark s).later
  asCaller _ s c _ := ends_later (later_asCaller c s)

theorem later_after [Limits] {op : Operation} (hcalls : op.calls = true) (s : Simulator) : Later s (s.after op) := by
  rw [after, ← machine_perform]
  refine (keeps_later.perform (i := ()) trivial (fun _ _ _ => trivial) fun h => ?_).rises
  rw [hcalls] at h
  cases h

/-- What holds of a simulator over the configuration at all times. -/
structure Rooted (config : Config) (s : Simulator) : Prop where
  sound : s.Sound
  marked : s.Marked
  contract : ∃ ws, config.contract ws = .ok s.contract
  config : s.config = config

section
variable {config : Config} {s t : Simulator}

theorem Rooted.later (hs : s.Rooted config) (h : Later s t) : t.Rooted config where
  sound := h.sound hs.sound
  marked := h.marked hs.marked
  config := h.config.trans hs.config
  contract := by
    rw [h.contract]
    exact hs.contract

theorem Rooted.steady (hs : s.Rooted config) (h : Steady s t) : t.Rooted config where
  sound := h.sound hs.sound
  marked := by
    have hmaker : t.manager.maker = s.manager.maker := by rw [h.rest]
    have hcurrent : t.current = s.current := by rw [h.rest]; rfl
    have hoverride : t.override = s.override := by rw [h.rest]
    refine ⟨?_, fun o ho => gave_mono hmaker h.made (hs.marked.override o (hoverride ▸ ho))⟩
    rw [hcurrent]
    exact gave_mono hmaker h.made hs.marked.current
  config := by
    rw [h.rest]
    exact hs.config
  contract := by
    obtain hc | ⟨ws, hc⟩ := h.contract
    · rw [hc]
      exact hs.contract
    · exact ⟨ws, hs.config ▸ hc⟩

section
variable [Limits]

theorem build_processed {name : String} {maker : Nat} {args options : Value}
    (h : build name config maker args options = .ok s) :
    ∃ ws contract given as first address k, arguments name config.transform args = .ok as ∧
      config.contract ws = .ok contract ∧ contract.initialState ⟨⟨maker, 0⟩, given, .empty k⟩ as = .ok first ∧
      s = ⟨name, config, ws, contract, address, ⟨maker, 1,
        ⟨⟨maker, 0⟩, ⟨first.privateState, first.payload, address, .empty k, .zero, .none⟩⟩, config.carryover⟩, .empty,
        0, none, none, none, none⟩ := by
  obtain ⟨o, -, h⟩ := Except.ok_of_bind h
  obtain ⟨contract, hc, h⟩ := Except.ok_of_bind h
  obtain ⟨as, has, h⟩ := Except.ok_of_bind h
  obtain ⟨m, hm, h⟩ := Except.ok_of_bind h
  cases h
  obtain ⟨l, hl, hm⟩ := Except.ok_of_bind hm
  obtain ⟨first, hfirst, hm⟩ := Except.ok_of_bind hm
  obtain ⟨c, hfresh, hm⟩ := Except.ok_of_bind hm
  cases hm
  rw [LocalState.ofSender] at hl
  rw [CircuitContext.fresh, LocalState.ofSender] at hfresh
  cases hk : Key.ofHex (textOr Key.zeroText o.coinKey) with
  | error e =>
    rw [hk] at hl
    cases hl
  | ok k =>
    rw [hk] at hl hfresh
    cases hl
    cases hfresh
    exact ⟨_, _, _, _, _, _, _, has, hc, hfirst, rfl⟩

theorem build_made {name : String} {maker : Nat} {args options : Value}
    (h : build name config maker args options = .ok s) :
    ∃ ws contract given as first address k, config.contract ws = .ok contract ∧
      contract.initialState ⟨⟨maker, 0⟩, given, .empty k⟩ as = .ok first ∧
      s = ⟨name, config, ws, contract, address, ⟨maker, 1,
        ⟨⟨maker, 0⟩, ⟨first.privateState, first.payload, address, .empty k, .zero, .none⟩⟩, config.carryover⟩, .empty,
        0, none, none, none, none⟩ := by
  obtain ⟨ws, contract, given, as, first, address, k, -, hmade⟩ := build_processed h
  exact ⟨ws, contract, given, as, first, address, k, hmade⟩

theorem build_spec {name : String} {maker : Nat} {args options : Value}
    (h : build name config maker args options = .ok s) :
    ∃ ws contract context, config.contract ws = .ok contract ∧
      s = ⟨name, config, ws, contract, context.address, ⟨maker, 1, ⟨⟨maker, 0⟩, context⟩, config.carryover⟩, .empty,
        0, none, none, none, none⟩ := by
  obtain ⟨ws, contract, given, as, first, address, k, hc, -, rfl⟩ := build_made h
  exact ⟨ws, contract, ⟨first.privateState, first.payload, address, .empty k, .zero, .none⟩, hc, rfl⟩

theorem Rooted.of_build {name : String} {maker : Nat} {args options : Value}
    (h : build name config maker args options = .ok s) : s.Rooted config := by
  obtain ⟨ws, contract, context, hc, rfl⟩ := build_spec h
  refine ⟨⟨fun _ k => ?_, fun k m d hd => ?_⟩, ⟨fun _ => Nat.one_pos, fun o ho => ?_⟩, ⟨ws, hc⟩, rfl⟩
  · cases k <;> rfl
  · cases k <;> cases hd
  · cases ho

theorem Rooted.after (hs : s.Rooted config) {op : Operation} (hop : op.Known s) : (s.after op).Rooted config := by
  by_cases hset : op.Settled
  · exact hs.steady (steady_perform hset s)
  · cases op with
    | call | callHeld | direct => exact hs.later (later_after rfl s)
    | asCaller c => exact hs.later (later_asCaller c s)
    | persistentCaller c | resetCaller =>
      exact ⟨hs.sound.moved rfl rfl, ⟨hs.marked.current, hs.marked.override⟩, hs.contract, hs.config⟩
    | callerContext =>
      rw [after_callerContext]
      exact hs.later (later_consumed s)
    | write h =>
      rw [after_write]
      exact hs.later (later_adopt fun _ => hop)
    | updatePrivate p =>
      rw [after_updatePrivate]
      exact hs.later (later_adopt fun _ => known_fresh _ _)
    | switchSender sender carryover =>
      rw [after_switchSender]
      cases sender.key? with
      | none => exact hs
      | some k => exact hs.later (later_adopt fun _ => known_fresh _ _)
    | _ => exact absurd trivial hset

end

end

/-- The simulators over a configuration that building one and operating on it leads to. -/
inductive Reachable [Limits] (config : Config) : Simulator → Prop where
  | build {name : String} {maker : Nat} {args options : Value} {s : Simulator}
    (h : Simulator.build name config maker args options = .ok s) : Reachable config s
  | step {s : Simulator} {op : Operation} (h : Reachable config s) (hop : op.Known s) : Reachable config (s.after op)

theorem Reachable.rooted [Limits] {config : Config} {s : Simulator} (h : Reachable config s) : s.Rooted config := by
  induction h with
  | build h => exact .of_build h
  | step _ hop ih => exact ih.after hop

end Simulator
end CircuitHarness
