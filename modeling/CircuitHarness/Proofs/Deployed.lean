import CircuitHarness.Proofs.Keeping
import CircuitHarness.Proofs.Success

/-! Over circuits that keep the address of their context a simulator's context stays where the simulator was deployed,
and the two ways to make a context for a sender, one from the simulator's address and one from its context's, agree. -/
namespace CircuitHarness

def Circuit.KeepsAddress (f : Circuit) : Prop := ∀ c args, (f c args).Leaves fun d => d.address = c.address

def Circuit.Stays (k : CircuitKind) (f : Circuit) : Prop := k = .impure → f.KeepsAddress

theorem Circuit.keepsAddress_ofResult {f : CircuitContext → List Value → Except Failure (Value × CircuitContext)}
    (h : ∀ c args v d, f c args = .ok (v, d) → d.address = c.address) :
    Circuit.KeepsAddress fun c args => .ofResult (f c args) := by
  intro c args
  dsimp only
  cases hf : f c args with
  | error e => trivial
  | ok x => exact h c args x.1 x.2 hf

theorem Simple.stays : config.Of Circuit.Stays := by
  rintro ws a h k name f hf rfl
  cases h
  obtain ⟨-, rfl⟩ := mem_impure hf
  refine Circuit.keepsAddress_ofResult fun c args v d hd => ?_
  obtain ⟨n, es, l, cost, -, -, -, -, -, rfl⟩ := setVal_spec hd
  rfl

/-- Only a context at the simulator's own address is written. -/
def Operation.AtHome (s : Simulator) : Operation → Prop
  | .write h => h.context.address = s.address
  | _ => True

namespace Simulator

structure Anchored (s t : Simulator) : Prop where
  address : t.address = s.address
  contract : t.contract = s.contract

instance : Std.Refl Anchored := ⟨fun _ => ⟨rfl, rfl⟩⟩
instance : Trans Anchored Anchored Anchored :=
  ⟨fun h g => ⟨g.address.trans h.address, g.contract.trans h.contract⟩⟩

/-- The context is where the simulator is, and none of its circuits takes it elsewhere. -/
structure Resident (s : Simulator) : Prop where
  home : s.context.address = s.address
  sound : s.Sound
  contract : s.contract.Of Circuit.Stays

section
variable {config : Config} {s t : Simulator} {op : Operation}

theorem Idle.anchored (h : Idle s t) : Anchored s t := ⟨by rw [h.rest], h.contract⟩

theorem Resident.moved (hs : s.Resident) (h : Anchored s t) (hcontext : t.context = s.context) (hsound : t.Sound) :
    t.Resident := by
  refine ⟨?_, hsound, ?_⟩
  · rw [hcontext, h.address]
    exact hs.home
  · rw [h.contract]
    exact hs.contract

theorem Resident.idle (hs : s.Resident) (h : Idle s t) : t.Resident :=
  hs.moved h.anchored h.context (h.sound hs.sound)

theorem Resident.consumed (hs : s.Resident) : s.consumed.Resident := hs.moved ⟨rfl, rfl⟩ rfl (hs.sound.moved rfl rfl)

theorem Resident.asCaller (hs : s.Resident) (c : Option Caller) : (asCaller c s).Resident :=
  hs.moved ⟨rfl, rfl⟩ rfl (hs.sound.moved rfl rfl)

theorem Resident.commit (hs : s.Resident) {h : Handed} (hh : h.context.address = s.address) :
    (commit h s).state.Resident := by
  refine ⟨?_, hs.sound.moved rfl rfl, hs.contract⟩
  rw [context_commit]
  exact hh

theorem Resident.call {sv : Services Simulator} (hsv : sv.Keep Anchored fun _ : Unit => Resident) (hs : s.Resident)
    (args : List Value) (m : Mark) {b : Bound Circuit} (hb : Circuit.Stays b.kind b.circuit) :
    (callCallable sv args (.bound m b) s).state.Resident ∧ Anchored s (callCallable sv args (.bound m b) s).state := by
  cases hk : b.kind with
  | pure =>
    have hrun := hsv.run (i := ()) s.current.handed (b.circuit s.context args) hs
    rw [(callCallable_pure sv args m hk s).2]
    exact ⟨hrun.keeps, hrun.rises⟩
  | impure =>
    have hrun (g : Handed) := hsv.run (i := ()) g (b.circuit g.context args) hs.consumed
    cases impureEnd sv args m hk s with
    | unread e hg hr ht =>
      rw [ht]
      exact ⟨hs.consumed, rfl, rfl⟩
    | failed g e hg hx hr ht =>
      rw [ht]
      exact ⟨(hrun g).keeps, (hrun g).rises.address, (hrun g).rises.contract⟩
    | committed g v left hg hx hr ht =>
      have hgiven : g.context.address = s.address := by
        rw [(handed_spec hg).2]
        exact hs.home
      have hleft : left.context.address = s.address := by
        obtain rfl | ⟨d, rfl, hd⟩ := Program.run_left (hb hk g.context args) hx
        · exact hgiven
        · exact hd.trans hgiven
      rw [ht]
      refine ⟨(hrun g).keeps.commit (hleft.trans (hrun g).rises.address.symm), ?_, ?_⟩
      · exact (hrun g).rises.address
      · exact (hrun g).rises.contract

/-- Whatever circuits do while they run, the context stays where the simulator is. -/
theorem keeps_resident [Limits] : machine.Keep Anchored (fun _ : Unit => Resident) (fun _ x => x.Of Circuit.Stays)
    fun _ c => c.Of Circuit.Stays where
  surface _ s k hs := by
    have hidle : Idle s (surface k s).state := idle_surface s k
    refine ⟨hs.idle hidle, hidle.anchored, fun x hx => ?_⟩
    have hoffered : s.offered k = x := Except.ok.inj ((surface_result s k).symm.trans hx)
    cases x with
    | standIn label => trivial
    | dispatcher m d =>
      have hd := hs.sound.offered hoffered
      subst hd
      exact fun name f hf => hs.contract k name f hf
  find _ _ _ _ _ hx hc := hx.find hc
  surfaceMono _ _ _ _ hx := hx
  callableMono _ _ _ _ hc := hc
  bound sv hsv _ s m b args hs hb := by
    obtain ⟨hkept, hanchored⟩ := hs.call hsv args m hb
    exact ⟨hkept, hanchored, fun _ _ => trivial⟩
  mark _ s hs := ⟨hs.idle (idle_mark s), (idle_mark s).anchored, fun _ _ => trivial⟩
  asCaller _ s c hs := ⟨hs.asCaller c, ⟨rfl, rfl⟩, fun _ _ => trivial⟩

theorem Drawn.held (hop : op.Drawn config.Makes) {P : CircuitKind → Circuit → Prop} (hP : config.Of P) (c : Callable)
    (args : List Value) (h : op = .callHeld c args) : c.Of P := by
  subst h
  exact Callable.From.of hop fun a ⟨ws, ha⟩ => hP ws a ha

theorem Rooted.address_after [Limits] (hs : s.Rooted config) (hconfig : config.Of Circuit.Stays) (hop : op.AtHome s)
    (hdrawn : op.Drawn config.Makes) (h : s.context.address = s.address) :
    (s.after op).address = s.address ∧ (s.after op).context.address = s.address := by
  have hresident : s.Resident := ⟨h, hs.sound, hs.of_config hconfig⟩
  by_cases hset : op.Settled
  · have hsteady : Steady s (s.after op) := steady_perform hset s
    rw [hsteady.context]
    exact ⟨by rw [hsteady.rest], h⟩
  · have hcall (hcalls : op.calls = true) :
        (s.after op).address = s.address ∧ (s.after op).context.address = s.address := by
      have hend := keeps_resident.perform (i := ()) hresident (Drawn.held hdrawn hconfig) fun hno => by
        rw [hcalls] at hno
        cases hno
      rw [Simulator.after, ← machine_perform]
      exact ⟨hend.rises.address, hend.keeps.home.trans hend.rises.address⟩
    cases op with
    | call | callHeld | direct => exact hcall rfl
    | asCaller | persistentCaller | resetCaller => exact ⟨rfl, h⟩
    | callerContext =>
      rw [after_callerContext]
      exact ⟨rfl, h⟩
    | write g =>
      have hheld : (s.manager.hold g).1.context = g.context := hold_context s.manager g
      exact ⟨rfl, (congrArg CircuitContext.address hheld).trans hop⟩
    | updatePrivate p => exact ⟨rfl, h⟩
    | switchSender sender carryover =>
      rw [after_switchSender]
      cases sender.key? <;> exact ⟨rfl, h⟩
    | _ => exact absurd trivial hset

theorem Rooted.address_afterAll [Limits] (hs : s.Rooted config) (hconfig : config.Of Circuit.Stays)
    {ops : List Operation}
    (hops : Throughout (fun t op => op.Known t ∧ op.AtHome t ∧ op.Drawn config.Makes) ops s)
    (h : s.context.address = s.address) :
    (afterAll ops s).address = s.address ∧ (afterAll ops s).context.address = s.address := by
  induction ops generalizing s with
  | nil => exact ⟨rfl, h⟩
  | cons op ops ih =>
    obtain ⟨⟨hknown, hop, hdrawn⟩, hrest⟩ := hops
    obtain ⟨haddress, hcontext⟩ := hs.address_after hconfig hop hdrawn h
    obtain ⟨hend, hend'⟩ := ih (hs.after hknown) hrest (hcontext.trans haddress.symm)
    exact ⟨hend.trans haddress, hend'.trans haddress⟩

theorem ask_eq {α : Type} (f : Simulator → Except Failure α) (s : Simulator) : ask f s = ⟨f s, s, []⟩ := by
  simp only [ask, bind, Action.andThen, Action.read]
  cases f s <;> rfl

theorem asked_for (f : String → Simulator → Except Failure CircuitContext) (sender : Value) (s : Simulator) :
    (do
      let t ← Action.lift sender.asSender
      return Reply.context (.fresh (← ask (f t)))) s =
      ⟨sender.asSender.bind fun t => (f t s).map fun d => .context (.fresh d), s, []⟩ := by
  simp only [bind, Action.andThen, ask_eq]
  cases sender.asSender with
  | error e => rfl
  | ok t =>
    simp only [Action.lift, Action.ret, Except.bind]
    cases f t s <;> rfl

theorem perform_senderContext [Limits] (sender : Value) (s : Simulator) : perform (.senderContext sender) s =
    ⟨sender.asSender.bind fun t => (s.senderContext t).map fun d => .context (.fresh d), s, []⟩ :=
  asked_for Simulator.senderContext sender s

theorem perform_rebuild [Limits] (sender : Value) (c : Option Carryover) (s : Simulator) :
    perform (.rebuild sender c) s =
    ⟨sender.asSender.bind fun t => (s.manager.rebuild t c).map fun d => .context (.fresh d), s, []⟩ :=
  asked_for (fun t u => u.manager.rebuild t c) sender s

theorem senderContext_eq (h : s.context.address = s.address) (t : String) :
    s.senderContext t = s.manager.rebuild t (some .reset) := by
  rw [senderContext, ← h, LocalState.ofSender, Manager.rebuild]
  cases Key.ofHex t <;> rfl

/-- In every run over circuits that keep the address, where only contexts at the simulator's own address are written:
simulator and context stay where the simulator was deployed, and a context made for a sender from the simulator's
address is, with all that making it does, the one rebuilt from the current context without its coin records. For a text
there is one if and only if it reads as a key, and making one leaves the simulator as it was. -/
theorem contexts_for_senders_agree [Limits] (hconfig : config.Of Circuit.Stays) {name : String} {maker : Nat}
    {args options : Value} {s₀ : Simulator} (hb : build name config maker args options = .ok s₀) {ops : List Operation}
    (hops : Throughout (fun t op => op.Known t ∧ op.AtHome t ∧ op.Drawn config.Makes) ops s₀) :
    let s := afterAll ops s₀
    s.address = s₀.address ∧ s.context.address = s.address ∧ ∀ sender : Value,
      perform (.senderContext sender) s = perform (.rebuild sender (some .reset)) s ∧
      s.after (.senderContext sender) = s ∧ s.after (.rebuild sender (some .reset)) = s ∧
      ∀ t, sender = .str t →
        (∃ k, Key.ofHex t = .ok k ∧
          (perform (.senderContext sender) s).result = .ok (.context (.fresh (s.context.rekey k .reset)))) ∨
        ∃ n, Key.ofHex t = .error (.notHex n) ∧ (perform (.senderContext sender) s).result = .error (.notHex n) := by
  intro s
  have hbuilt : s₀.context.address = s₀.address := by
    obtain ⟨ws, contract, context, -, rfl⟩ := build_spec hb
    rfl
  obtain ⟨haddress, hcontext⟩ := (Rooted.of_build hb).address_afterAll hconfig hops hbuilt
  have hhome : s.context.address = s.address := hcontext.trans haddress.symm
  refine ⟨haddress, hhome, fun sender => ⟨?_, ?_, ?_, ?_⟩⟩
  · simp only [perform_senderContext, perform_rebuild, senderContext_eq hhome]
  · rw [Simulator.after, perform_senderContext]
  · rw [Simulator.after, perform_rebuild]
  · rintro t rfl
    simp only [perform_senderContext, senderContext_eq hhome, Manager.rebuild, Value.asSender, Value.asText, Except.bind]
    rw [Key.ofHex]
    cases Hex.decode t with
    | error n => exact .inr ⟨n, rfl, rfl⟩
    | ok k => exact .inl ⟨k, rfl, rfl⟩

def switchedThenCalled : List Operation :=
  [.switchSender (.str "cd") none, .asCaller (some (.text "ab")), .call .impure (.str "setVal") [.int 5] .item]

def movedAbout : List Operation :=
  switchedThenCalled ++
    [.write (.fresh { counter.context with gas := .int 9 }), .updatePrivate (.int 1), .setWitnesses (.map [])]

theorem movedAbout_contexts :
    build "Counter" Simple.config 0 (.list []) .none = .ok counter ∧
    (afterAll movedAbout counter).address = .str Address.placeholder ∧
    perform (.senderContext (.str "AB")) (afterAll movedAbout counter) =
      perform (.rebuild (.str "AB") (some .reset)) (afterAll movedAbout counter) := by
  have hfirst : (afterAll switchedThenCalled counter).address = counter.address := by
    refine ((Rooted.of_build counter_built).address_afterAll Simple.stays ?_ rfl).1
    simp only [switchedThenCalled, Throughout, Operation.Known, Operation.AtHome, Operation.Drawn, and_true]
  have hops : Throughout (fun t op => op.Known t ∧ op.AtHome t ∧ op.Drawn Simple.config.Makes) movedAbout counter := by
    simp only [movedAbout, switchedThenCalled, List.cons_append, List.nil_append, Throughout, Operation.Known, Operation.AtHome,
      Operation.Drawn, true_and, and_true]
    exact ⟨known_fresh _ _, hfirst.symm⟩
  obtain ⟨haddress, -, hcontexts⟩ := contexts_for_senders_agree Simple.stays counter_built hops
  exact ⟨counter_built, haddress, (hcontexts (.str "AB")).1⟩

end
end Simulator
end CircuitHarness
