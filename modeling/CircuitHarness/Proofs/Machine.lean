import CircuitHarness.Proofs.Callee
import CircuitHarness.Proofs.Relation

/-! How calls go, whatever keeps the dispatchers and whatever happens around a circuit: a simulator is one such machine.
Two machines whose parts answer alike run circuits alike, however deep these call each other. -/
namespace CircuitHarness

/-- The parts that calls are made of: how a dispatcher is looked up, how a circuit taken from one is called, and what is
done without calling anything. -/
structure Machine (σ : Type) where
  surface : CircuitKind → Action σ Surface
  bound : Services σ → Mark → Bound Circuit → List Value → Action σ Value
  mark : Action σ Mark
  asCaller : Option Caller → Action σ Unit
  contract : σ → Artifact
  rest : Operation → Action σ Reply

namespace Machine
variable {σ : Type} (M : Machine σ)

def callCallable (sv : Services σ) (args : List Value) : Callable → Action σ Value
  | .bound m b => M.bound sv m b args
  | .standIn label name => return .list [label, name, .list args]

def services : Nat → Services σ
  | 0 => ⟨M.mark, M.asCaller, fun _ _ _ => Action.fail .tooDeep⟩
  | n+1 => ⟨M.mark, M.asCaller, fun k name args => do
      let d ← M.surface k
      let c ← Action.lift (d.item name)
      M.callCallable (services n) (← Action.lift args.items) c⟩

def call [Limits] (c : Callable) (args : List Value) : Action σ Value := M.callCallable (M.services Limits.calls) args c

def reach (k : CircuitKind) (name : Value) (route : Route) : Action σ Callable := do
  match route with
  | .both => do
    let p ← M.surface .pure
    let i ← M.surface .impure
    Action.lift ((match k with
      | .pure => p
      | .impure => i).find name route)
  | _ => do Action.lift ((← M.surface k).find name route)

def perform [Limits] : Operation → Action σ Reply
  | .call k name args route => do return .value (← M.call (← M.reach k name route) args)
  | .callHeld c args => do return .value (← M.call c args)
  | .direct k name given args => do
    let c ← Action.lift ((M.contract (← Action.read)).circuit k name)
    let (v, left) ← (c given.context args).run (M.services Limits.calls) given.handed
    return .result (← Action.lift v) left
  | .names => do
    let ps ← Action.lift (← M.surface .pure).names
    let is ← Action.lift (← M.surface .impure).names
    return .names ps is
  | op => M.rest op

end Machine

namespace Simulator

section
variable [Limits]

def machine : Machine Simulator where
  surface := surface
  bound sv m b args := callCallable sv args (.bound m b)
  mark := onManager Manager.nextMark
  asCaller c := Action.update (asCaller c)
  contract := Simulator.contract
  rest := perform

theorem machine_callCallable (sv : Services Simulator) (args : List Value) (c : Callable) :
    machine.callCallable sv args c = callCallable sv args c := by
  cases c <;> rfl

theorem machine_services (n : Nat) : machine.services n = services n := by
  induction n with
  | zero => rfl
  | succ n ih =>
    simp only [Machine.services, services, ih, machine_callCallable]
    rfl

theorem machine_call (c : Callable) (args : List Value) : machine.call c args = call c args := by
  rw [Machine.call, call, machine_callCallable, machine_services]

theorem machine_reach (k : CircuitKind) (name : Value) (route : Route) :
    machine.reach k name route = reach k name route := by
  cases route <;> rfl

theorem machine_perform (op : Operation) : machine.perform op = perform op := by
  cases op with
  | call k name args route => simp only [Machine.perform, perform, machine_call, machine_reach]
  | callHeld c args => simp only [Machine.perform, perform, machine_call]
  | direct k name given args =>
    simp only [Machine.perform, perform, machine_services]
    rfl
  | _ => rfl

end

end Simulator

namespace Program

/-- Goes on in the same way with marks that are related. -/
def Blind (K : Mark → Mark → Prop) : Program → Prop
  | .done .. => True
  | .fail _ => True
  | .marked next => (∀ m n, K m n → next m = next n) ∧ ∀ m, (next m).Blind K
  | .asCaller _ next => next.Blind K
  | .call _ _ _ next => ∀ answer, (next answer).Blind K

theorem blind_eq (p : Program) : p.Blind Eq := by
  induction p with
  | done v left => trivial
  | fail f => trivial
  | marked next ih => exact ⟨fun m n h => by rw [h], ih⟩
  | asCaller c next ih => exact ih
  | call k name args next ih => exact ih

end Program

def Circuit.Blind (f : Circuit) : Prop := ∀ c args, (f c args).Blind fun _ _ => True

theorem Circuit.blind_ofResult (f : CircuitContext → List Value → Except Failure (Value × CircuitContext)) :
    Circuit.Blind fun c args => .ofResult (f c args) := by
  intro c args
  dsimp only
  cases f c args <;> trivial

def Surface.Of (C : CircuitKind → Circuit → Prop) : Surface → Prop
  | .dispatcher _ d => ∀ name f, d.circuits.get? name = some f → C d.kind f
  | .standIn _ => True

theorem Surface.Of.find {C : CircuitKind → Circuit → Prop} {x : Surface} (h : x.Of C) {name : Value} {route : Route}
    {c : Callable} (hc : x.find name route = .ok c) : c.Of C := by
  cases x with
  | dispatcher m d => exact Surface.find_of h hc
  | standIn label => cases route <;> cases hc <;> trivial

theorem Surface.of_true (x : Surface) : x.Of fun _ _ => True := by
  cases x with
  | dispatcher m d => exact fun _ _ _ => trivial
  | standIn label => trivial

theorem Callable.of_true (c : Callable) : c.Of fun _ _ => True := by cases c <;> trivial

section
open CircuitHarness.Action (Relates)
variable {σ τ ι : Type} {P : ι → σ → τ → Prop} {K : Mark → Mark → Prop} {C : CircuitKind → Circuit → Prop}

structure Services.Match (P : ι → σ → τ → Prop) (K : Mark → Mark → Prop) (sv : Services σ) (tv : Services τ) :
    Prop where
  mark : ∀ i, Relates (P i) (P i) K sv.mark tv.mark
  asCaller : ∀ i c, Relates (P i) (P i) Eq (sv.asCaller c) (tv.asCaller c)
  call : ∀ i k name args, Relates (P i) (P i) Eq (sv.call k name args) (tv.call k name args)

theorem Services.Match.run {sv : Services σ} {tv : Services τ} (h : Match P K sv tv) {H : Handed → Handed → Prop}
    (hfresh : ∀ c, H (.fresh c) (.fresh c)) (i : ι) {g g' : Handed} (hg : H g g') {p : Program} (hp : p.Blind K) :
    Relates (P i) (P i) (fun a b => a.1 = b.1 ∧ H a.2 b.2) (p.run sv g) (p.run tv g') := by
  induction p with
  | done v left =>
    cases left with
    | none => exact .pure ⟨rfl, hg⟩
    | some c => exact .pure ⟨rfl, hfresh c⟩
  | fail f => exact .fail f
  | marked next ih =>
    refine (h.mark i).bind fun m n hmn => ?_
    rw [← hp.1 m n hmn]
    exact ih m (hp.2 m)
  | asCaller c next ih => exact (h.asCaller i c).bind_eq fun _ => ih hp
  | call k name args next ih => exact (h.call i k name args).attempt.bind_eq fun answer => ih answer (hp answer)

/-- Machines whose parts answer alike, over circuits of a class that are blind to what they are not to see. -/
structure Machine.Match (P : ι → σ → τ → Prop) (K : Mark → Mark → Prop) (C : CircuitKind → Circuit → Prop)
    (M : Machine σ) (N : Machine τ) : Prop where
  surface : ∀ i k, Relates (P i) (P i) (fun x y => x.Same y ∧ x.Of C) (M.surface k) (N.surface k)
  bound : ∀ {sv tv}, Services.Match P K sv tv → ∀ i m n b args, C b.kind b.circuit →
    Relates (P i) (P i) Eq (M.bound sv m b args) (N.bound tv n b args)
  mark : ∀ i, Relates (P i) (P i) K M.mark N.mark
  asCaller : ∀ i c, Relates (P i) (P i) Eq (M.asCaller c) (N.asCaller c)
  contract : ∀ i s t, P i s t → M.contract s = N.contract t ∧ (M.contract s).Of C
  blind : ∀ k f, C k f → ∀ c args, (f c args).Blind K

theorem Bound.call_relates {κ κ' β : Type} {P Q : σ → τ → Prop} {H : κ → κ' → Prop} {source : Action σ κ}
    {source' : Action τ κ'} {commit : κ → Action σ Unit} {commit' : κ' → Action τ Unit}
    {run : β → κ → List Value → Action σ (Except Failure Value × κ)}
    {run' : β → κ' → List Value → Action τ (Except Failure Value × κ')} (b : Bound β) (args : List Value)
    (hsource : Relates P Q H source source')
    (hrun : ∀ g g', H g g' →
      Relates Q Q (fun x y => x.1 = y.1 ∧ H x.2 y.2) (run b.circuit g args) (run' b.circuit g' args))
    (hcommit : b.kind = .impure → ∀ g g', H g g' → Relates Q Q Eq (commit g) (commit' g')) :
    Relates P Q Eq (b.call source commit run args) (b.call source' commit' run' args) := by
  refine hsource.bind fun g g' hg => (Relates.note _ _ _ _ _ _).bind_eq fun _ => (hrun g g' hg).bind ?_
  rintro ⟨v, left⟩ ⟨_, left'⟩ ⟨rfl, hleft⟩
  cases hb : b.kind with
  | pure => exact .lift (.of_eq v)
  | impure =>
    exact (hcommit hb left left' hleft).bind_eq fun _ => (Relates.note _ _ _ _ _ _).bind_eq fun _ => .lift (.of_eq v)

def Reply.unmarked : Reply → Reply
  | .context h => .context (.fresh h.context)
  | .result v left => .result v (.fresh left.context)
  | r => r

namespace Machine.Match
variable {M : Machine σ} {N : Machine τ}

theorem callCallable (h : M.Match P K C N) {sv : Services σ} {tv : Services τ} (hsv : Services.Match P K sv tv)
    (i : ι) {c d : Callable} (hcd : c.Same d) (hc : c.Of C) (args : List Value) :
    Relates (P i) (P i) Eq (M.callCallable sv args c) (N.callCallable tv args d) := by
  cases hcd with
  | bound m n b => exact h.bound hsv i m n b args hc
  | standIn label name => exact .pure rfl

theorem find {x y : Surface} (h : x.Same y ∧ x.Of C) (name : Value) (route : Route) :
    Answers (fun c d => c.Same d ∧ c.Of C) (x.find name route) (y.find name route) := by
  obtain ⟨e, hx, hy⟩ | ⟨c, d, hx, hy, hsame⟩ := h.1.find name route
  · rw [hx, hy]
    exact .error e
  · rw [hx, hy]
    exact .ok ⟨hsame, h.2.find hx⟩

theorem services (h : M.Match P K C N) (n : Nat) : Services.Match P K (M.services n) (N.services n) := by
  -- on the depth that calls may go to
  induction n with
  | zero => exact ⟨h.mark, h.asCaller, fun i k name args => .fail _⟩
  | succ n ih =>
    refine ⟨h.mark, h.asCaller, fun i k name args => ?_⟩
    refine (h.surface i k).bind fun x y hxy => (Relates.lift (find hxy name .item)).bind fun c d hcd => ?_
    exact (Relates.lift (.of_eq args.items)).bind_eq fun as => h.callCallable ih i hcd.1 hcd.2 as

theorem reach (h : M.Match P K C N) (i : ι) (k : CircuitKind) (name : Value) (route : Route) :
    Relates (P i) (P i) (fun c d => c.Same d ∧ c.Of C) (M.reach k name route) (N.reach k name route) := by
  cases route with
  | item | member => exact (h.surface i k).bind fun x y hxy => .lift (find hxy name _)
  | both =>
    refine (h.surface i .pure).bind fun x y hx => (h.surface i .impure).bind fun z w hz => .lift ?_
    cases k with
    | pure => exact find hx name .both
    | impure => exact find hz name .both

section
variable [Limits]

theorem call (h : M.Match P K C N) (i : ι) {c d : Callable} (hcd : c.Same d) (hc : c.Of C) (args : List Value) :
    Relates (P i) (P i) Eq (M.call c args) (N.call d args) :=
  h.callCallable (h.services Limits.calls) i hcd hc args

theorem perform_of (h : M.Match P K C N) (i : ι) {R : Reply → Reply → Prop} (hR : ∀ r, R r r) {op : Operation}
    (hheld : ∀ c args, op = .callHeld c args → c.Of C)
    (hdirect : ∀ k name given args, op = .direct k name given args →
      Relates (P i) (P i) R (M.perform op) (N.perform op))
    (hrest : op.calls = false → Relates (P i) (P i) R (M.rest op) (N.rest op)) :
    Relates (P i) (P i) R (M.perform op) (N.perform op) := by
  cases op with
  | call k name args route =>
    exact (h.reach i k name route).bind fun c d hcd => (h.call i hcd.1 hcd.2 args).bind_eq fun v => .pure (hR _)
  | callHeld c args =>
    exact (h.call i (.refl c) (hheld c args rfl) args).bind_eq fun v => .pure (hR _)
  | direct k name given args => exact hdirect k name given args rfl
  | names =>
    refine (h.surface i .pure).bind fun x y hxy => ?_
    rw [hxy.1.names]
    refine (Relates.lift (.of_eq y.names)).bind_eq fun ps => (h.surface i .impure).bind fun z w hzw => ?_
    rw [hzw.1.names]
    exact (Relates.lift (.of_eq w.names)).bind_eq fun is => .pure (hR _)
  | _ => exact hrest rfl

/-- What an operation comes to, marks apart, if what calls nothing comes to the same. -/
theorem perform (h : M.Match P K C N) (i : ι) {op : Operation} (hheld : ∀ c args, op = .callHeld c args → c.Of C)
    (hrest : op.calls = false →
      Relates (P i) (P i) (fun r r' => r.unmarked = r'.unmarked) (M.rest op) (N.rest op)) :
    Relates (P i) (P i) (fun r r' => r.unmarked = r'.unmarked) (M.perform op) (N.perform op) := by
  refine h.perform_of i (R := fun r r' => r.unmarked = r'.unmarked) (fun _ => rfl) hheld ?_ hrest
  rintro k name given args rfl
  refine Relates.read.bind fun s t hst => ?_
  obtain ⟨hcontract, hof⟩ := h.contract i s t hst
  rw [← hcontract]
  cases hf : (M.contract s).circuit k name with
  | error e => exact .fail e
  | ok f =>
    obtain ⟨n, hn⟩ := Artifact.circuit_mem hf
    have hblind : (f given.context args).Blind K := h.blind k f (hof k n f hn) given.context args
    have hrun : Relates (P i) (P i) (fun x y => x.1 = y.1 ∧ x.2.context = y.2.context)
        ((f given.context args).run (M.services Limits.calls) given.handed)
        ((f given.context args).run (N.services Limits.calls) given.handed) :=
      (h.services Limits.calls).run (H := fun g g' => g.context = g'.context) (fun c => rfl) i rfl hblind
    refine hrun.bind ?_
    rintro ⟨v, left⟩ ⟨_, left'⟩ ⟨rfl, hleft⟩
    have hleft : left.context = left'.context := hleft
    exact (Relates.lift (.of_eq v)).bind_eq fun v => .pure (by simp only [Reply.unmarked, hleft])

theorem perform_eq (h : M.Match P Eq (fun _ _ => True) N) (i : ι) {op : Operation}
    (hrest : op.calls = false → Relates (P i) (P i) Eq (M.rest op) (N.rest op)) :
    Relates (P i) (P i) Eq (M.perform op) (N.perform op) := by
  refine h.perform_of i (fun _ => rfl) (fun c _ _ => c.of_true) ?_ hrest
  rintro k name given args rfl
  refine Relates.read.bind fun s t hst => ?_
  rw [← (h.contract i s t hst).1]
  refine (Relates.lift (.of_eq _)).bind_eq fun f => ?_
  have hrun := (h.services Limits.calls).run (H := Eq) (fun _ => rfl) i (rfl : given.handed = given.handed)
    (Program.blind_eq (f given.context args))
  refine hrun.bind ?_
  rintro ⟨v, left⟩ ⟨_, _⟩ ⟨rfl, rfl⟩
  exact (Relates.lift (.of_eq v)).bind_eq fun v => .pure rfl

end
end Machine.Match
end
end CircuitHarness
