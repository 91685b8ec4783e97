import CircuitHarness.Proofs.Offered

/-! Circuits that leave their simulator alone while they run: they name no caller and make no impure call. Running one
does nothing to the simulator but move marks and the cache on. -/
namespace CircuitHarness

namespace Program

/-- Names no caller and makes no impure call, whatever comes back on the way. -/
def Quiet : Program → Prop
  | .done .. => True
  | .fail _ => True
  | .marked next => ∀ m, (next m).Quiet
  | .asCaller .. => False
  | .call k _ _ next => k = .pure ∧ ∀ answer, (next answer).Quiet

/-- What holds of every result, of its value and of the context left behind, whatever comes back on the way. -/
def AtEnd (R : Except Failure Value → Option CircuitContext → Prop) : Program → Prop
  | .done v left => R v left
  | .fail _ => True
  | .marked next => ∀ m, (next m).AtEnd R
  | .asCaller _ next => next.AtEnd R
  | .call _ _ _ next => ∀ answer, (next answer).AtEnd R

def Whole (p : Program) : Prop := p.AtEnd fun v _ => ∃ w, v = .ok w

def Leaves (P : CircuitContext → Prop) (p : Program) : Prop := p.AtEnd fun _ left => left.elim True P

theorem leaves_true (p : Program) : p.Leaves fun _ => True := by
  induction p with
  | done v left => cases left <;> trivial
  | fail f => trivial
  | marked next ih => exact ih
  | asCaller c next ih => exact ih
  | call k name args next ih => exact ih

end Program

namespace Circuit

def Quiet (f : Circuit) : Prop := ∀ c args, (f c args).Quiet

def Whole (f : Circuit) : Prop := ∀ c args, (f c args).Whole

def KeepsKey (f : Circuit) : Prop := ∀ c args, (f c args).Leaves fun d => d.key = c.key

/-- Leaves its simulator alone and, if what it leaves behind is committed, keeps the key. -/
structure Orderly (k : CircuitKind) (f : Circuit) : Prop where
  quiet : f.Quiet
  key : k = .impure → f.KeepsKey

/-- Orderly, and every result has its value, so nothing is committed by a call that fails. -/
structure Tidy (k : CircuitKind) (f : Circuit) : Prop extends Orderly k f where
  whole : f.Whole

end Circuit

def Callable.Of (P : CircuitKind → Circuit → Prop) : Callable → Prop
  | .bound _ b => P b.kind b.circuit
  | .standIn .. => True

def Artifact.Of (P : CircuitKind → Circuit → Prop) (a : Artifact) : Prop :=
  ∀ k name f, (a.circuits k).get? name = some f → P k f

def Config.Of (P : CircuitKind → Circuit → Prop) (c : Config) : Prop := ∀ ws a, c.contract ws = .ok a → a.Of P

theorem Config.Of.orderly {c : Config} (h : c.Of Circuit.Tidy) : c.Of Circuit.Orderly :=
  fun ws a ha k name f hf => (h ws a ha k name f hf).toOrderly

theorem Artifact.circuit_mem {a : Artifact} {k : CircuitKind} {name : Value} {f : Circuit}
    (h : a.circuit k name = .ok f) : ∃ n, (a.circuits k).get? n = some f := by
  rw [Artifact.circuit] at h
  split at h
  · split at h
    · rename_i g hg
      cases h
      obtain ⟨n, -, hn⟩ := Option.bind_eq_some_iff.mp hg
      exact ⟨n, hn⟩
    · cases h
  · cases h

theorem Dispatcher.find_spec {d : Dispatcher β} {name : Value} {b : Bound β} (h : d.find? name = some b) :
    b.kind = d.kind ∧ d.circuits.get? b.name = some b.circuit := by
  cases name with
  | str s =>
    obtain ⟨f, hf, rfl⟩ := Option.map_eq_some_iff.mp h
    exact ⟨rfl, hf⟩
  | _ => cases h

theorem Dispatcher.item_spec {d : Dispatcher β} {name : Value} {b : Bound β} (h : d.item name = .ok b) :
    b.kind = d.kind ∧ d.circuits.get? b.name = some b.circuit := by
  rw [Dispatcher.item] at h
  split at h
  · split at h
    · rename_i hf
      cases h
      exact find_spec hf
    · cases h
  · cases h

theorem Dispatcher.member_spec {d : Dispatcher β} {name : Value} {b : Bound β} (h : d.member name = .ok (.circuit b)) :
    b.kind = d.kind ∧ d.circuits.get? b.name = some b.circuit := by
  cases name with
  | str s =>
    simp only [Dispatcher.member] at h
    split at h
    · cases h
    · split at h
      · cases h
      · split at h
        · cases h
        · cases hi : d.item (.str s) with
          | error e => rw [hi] at h; cases h
          | ok b' =>
            rw [hi] at h
            cases h
            exact item_spec hi
  | _ => cases h

theorem Surface.find_spec {m : Mark} {d : Dispatcher Circuit} {name : Value} {route : Route} {c : Callable}
    (h : (Surface.dispatcher m d).find name route = .ok c) :
    ∃ b, c = .bound m b ∧ b.kind = d.kind ∧ d.circuits.get? b.name = some b.circuit := by
  have item {name : Value} {c : Callable} (h : (Surface.dispatcher m d).item name = .ok c) :
      ∃ b, c = .bound m b ∧ b.kind = d.kind ∧ d.circuits.get? b.name = some b.circuit := by
    rw [Surface.item] at h
    cases hi : d.item name with
    | error e => rw [hi] at h; cases h
    | ok b =>
      rw [hi] at h
      cases h
      exact ⟨b, rfl, Dispatcher.item_spec hi⟩
  cases route with
  | item | both => exact item h
  | member =>
    rw [Surface.find, Surface.member] at h
    cases hm : d.member name with
    | error e => rw [hm] at h; cases h
    | ok x =>
      rw [hm] at h
      cases x with
      | own v => cases h
      | circuit b =>
        cases h
        exact ⟨b, rfl, Dispatcher.member_spec hm⟩

theorem Surface.find_of {P : CircuitKind → Circuit → Prop} {m : Mark} {d : Dispatcher Circuit} {name : Value}
    {route : Route} {c : Callable} (hP : ∀ s f, d.circuits.get? s = some f → P d.kind f)
    (h : (Surface.dispatcher m d).find name route = .ok c) : c.Of P := by
  obtain ⟨b, rfl, hk, hb⟩ := find_spec h
  simpa only [Callable.Of, hk] using hP b.name b.circuit hb

namespace Simulator

theorem Sound.find {s : Simulator} (hs : s.Sound) {P : CircuitKind → Circuit → Prop} {k : CircuitKind}
    (hP : ∀ name f, (s.contract.circuits k).get? name = some f → P k f) {name : Value} {route : Route} {c : Callable}
    (h : (s.offered k).find name route = .ok c) : c.Of P := by
  cases ho : s.offered k with
  | dispatcher m d =>
    rw [ho] at h
    have hd := hs.offered ho
    subst hd
    exact Surface.find_of hP h
  | standIn label =>
    rw [ho] at h
    cases route <;> cases h <;> trivial

def PureQuiet (s : Simulator) : Prop := ∀ name f, s.contract.pure.get? name = some f → Circuit.Quiet f

theorem Idle.contract {s t : Simulator} (h : Idle s t) : t.contract = s.contract := by rw [h.rest]

theorem Idle.pureQuiet {s t : Simulator} (h : Idle s t) (hq : s.PureQuiet) : t.PureQuiet := by
  rw [PureQuiet, h.contract]
  exact hq

theorem idle_mark (s : Simulator) : Idle s (onManager Manager.nextMark s).state := by
  refine ⟨rfl, Nat.le_succ _, fun hs => hs.moved rfl rfl, fun _ k => .refl _⟩

theorem callCallable_pure (sv : Services Simulator) (args : List Value) (m : Mark) {b : Bound Circuit}
    (hb : b.kind = .pure) (s : Simulator) :
    (callCallable sv args (.bound m b) s).result =
        ((b.circuit s.context args).run sv s.current.handed s).result.bind Prod.fst ∧
      (callCallable sv args (.bound m b) s).state =
        ((b.circuit s.context args).run sv s.current.handed s).state := by
  simp only [callCallable, Bound.callCircuit, Bound.call, hb, source, Action.bind_result, Action.bind_state,
    Action.read_result, Action.read_state, Action.pure_result, Action.pure_state, Action.note_result,
    Action.note_state, Held.handed, context]
  cases ((b.circuit s.current.context args).run sv ⟨s.current.context, some s.current.mark⟩ s).result with
  | error e => exact ⟨rfl, rfl⟩
  | ok x => exact ⟨Action.lift_result x.1 _, Action.lift_state x.1 _⟩

/-- Services that leave the simulator standing still as long as no impure circuit is called. -/
structure Still (sv : Services Simulator) : Prop where
  mark : ∀ s, Idle s (sv.mark s).state
  call : ∀ name args s, s.Sound → s.PureQuiet → Idle s (sv.call .pure name args s).state

theorem Still.run {sv : Services Simulator} (h : Still sv) (given : Handed) {p : Program} (hp : p.Quiet)
    {s : Simulator} (hs : s.Sound) (hq : s.PureQuiet) : Idle s (p.run sv given s).state := by
  induction p generalizing s with
  | done v left => cases left <;> exact .refl s
  | fail f => exact .refl s
  | marked next ih =>
    have hm : Idle s (sv.mark s).state := h.mark s
    simp only [Program.run, Action.bind_state]
    cases (sv.mark s).result with
    | error e => exact hm
    | ok m => exact hm.trans (ih m (hp m) (hm.sound hs) (hm.pureQuiet hq))
  | asCaller c next ih => cases hp
  | call k name args next ih =>
    obtain ⟨rfl, hp⟩ := hp
    have hc : Idle s (sv.call .pure name args s).state := h.call name args s hs hq
    simp only [Program.run, Action.bind_state, Action.attempt_result, Action.attempt_state]
    exact hc.trans (ih _ (hp _) (hc.sound hs) (hc.pureQuiet hq))

theorem Still.callCallable {sv : Services Simulator} (h : Still sv) {args : List Value} {c : Callable} {s : Simulator}
    (hc : c.Of fun k f => k = .pure ∧ Circuit.Quiet f) (hs : s.Sound) (hq : s.PureQuiet) :
    Idle s (callCallable sv args c s).state := by
  cases c with
  | standIn label name => exact .refl s
  | bound m b =>
    rw [(callCallable_pure sv args m hc.1 s).2]
    exact h.run _ (hc.2 _ _) hs hq

theorem still_services (n : Nat) : Still (services n) := by
  -- on the depth: a call that is refused for it changes nothing, any other runs one level further down
  induction n with
  | zero => exact ⟨idle_mark, fun _ _ s _ _ => .refl s⟩
  | succ n ih =>
    refine ⟨idle_mark, fun name args s hs hq => ?_⟩
    have hi : Idle s (surface .pure s).state := idle_surface s .pure
    simp only [services, Action.bind_state, surface_result, Action.lift_result, Action.lift_state]
    cases hc : (s.offered .pure).item name with
    | error e => exact hi
    | ok c =>
      cases args.items with
      | error e => exact hi
      | ok as =>
        have hfind : (s.offered .pure).find name .item = .ok c := hc
        refine hi.trans (ih.callCallable ?_ (hi.sound hs) (hi.pureQuiet hq))
        exact hs.find (fun name f hf => ⟨rfl, hq name f hf⟩) hfind

end Simulator

namespace Program
variable {σ : Type} {sv : Services σ} {given left : Handed} {v : Except Failure Value}

theorem run_end {R : Except Failure Value → Option CircuitContext → Prop} {p : Program} (hp : p.AtEnd R) {s : σ}
    (h : (p.run sv given s).result = .ok (v, left)) : ∃ d, R v d ∧ left = d.elim given .fresh := by
  induction p generalizing s with
  | done w d => cases d <;> cases h <;> exact ⟨_, hp, rfl⟩
  | fail f => cases h
  | marked next ih =>
    simp only [run, Action.bind_result] at h
    cases hm : (sv.mark s).result with
    | error e => rw [hm] at h; cases h
    | ok m => rw [hm] at h; exact ih m (hp m) h
  | asCaller c next ih =>
    simp only [run, Action.bind_result] at h
    cases hm : (sv.asCaller c s).result with
    | error e => rw [hm] at h; cases h
    | ok m => rw [hm] at h; exact ih hp h
  | call k name args next ih =>
    simp only [run, Action.bind_result, Action.attempt_result] at h
    exact ih _ (hp _) h

/-- What a run leaves behind is the very context given or one not marked yet. -/
theorem run_left {P : CircuitContext → Prop} {p : Program} (hp : p.Leaves P) {s : σ}
    (h : (p.run sv given s).result = .ok (v, left)) : left = given ∨ ∃ c, left = .fresh c ∧ P c := by
  obtain ⟨d, hd, rfl⟩ := run_end hp h
  cases d with
  | none => exact .inl rfl
  | some c => exact .inr ⟨c, rfl, hd⟩

theorem run_whole {p : Program} (hp : p.Whole) {s : σ} (h : (p.run sv given s).result = .ok (v, left)) :
    ∃ w, v = .ok w := by
  obtain ⟨d, hw, -⟩ := run_end hp h
  exact hw

end Program
end CircuitHarness
