import CircuitHarness.Proofs.Machine

/-! What a machine keeps whatever circuits do while they run: an invariant, and an order of states in which it only goes
up. It is enough that its parts do. -/
namespace CircuitHarness

/-- How a step may end that began in `s`: under the invariant, no lower than it began, and with an answer that `R` holds
of. -/
structure Ends {σ α : Type} (G : σ → σ → Prop) (I : σ → Prop) (R : σ → α → Prop) (s : σ) (o : Outcome σ α) : Prop where
  keeps : I o.state
  rises : G s o.state
  answer : ∀ a, o.result = .ok a → R o.state a

section
variable {σ ι α β : Type} {G : σ → σ → Prop}

namespace Ends
variable {I : σ → Prop} {R : σ → α → Prop} {S : σ → β → Prop} {s : σ}

theorem attempt {x : Action σ α} (h : Ends G I R s (x s)) : Ends G I (fun _ _ => True) s (Action.attempt x s) :=
  ⟨h.keeps, h.rises, fun _ _ => trivial⟩

section
variable [Std.Refl G]

theorem still {o : Outcome σ α} (hs : I s) (ho : o.state = s) (hr : ∀ a, o.result = .ok a → R s a) : Ends G I R s o where
  keeps := by
    rw [ho]
    exact hs
  rises := by
    rw [ho]
    exact Std.Refl.refl s
  answer a ha := by
    rw [ho]
    exact hr a ha

theorem pure {a : α} (hs : I s) (ha : R s a) : Ends G I R s ((Pure.pure a : Action σ α) s) :=
  .still hs rfl fun b hb => by
    cases hb
    exact ha

theorem fail {f : Failure} (hs : I s) : Ends G I R s (Action.fail f s) := .still hs rfl nofun

theorem lift {x : Except Failure α} (hs : I s) (hx : ∀ a, x = .ok a → R s a) : Ends G I R s (Action.lift x s) :=
  .still hs (Action.lift_state x s) fun a ha => hx a ((Action.lift_result x s).symm.trans ha)

end

theorem bind [Trans G G G] {x : Action σ α} {f : α → Action σ β} (hx : Ends G I R s (x s))
    (hf : ∀ a, R (x s).state a → Ends G I S (x s).state (f a (x s).state)) : Ends G I S s ((x >>= f) s) := by
  cases hr : (x s).result with
  | error e =>
    have hs : ((x >>= f) s).state = (x s).state := by rw [Action.bind_state, hr]
    have hr' : ((x >>= f) s).result = .error e := by rw [Action.bind_result, hr]
    refine ⟨hs ▸ hx.keeps, hs ▸ hx.rises, fun a ha => ?_⟩
    rw [hr'] at ha
    cases ha
  | ok a =>
    have hs : ((x >>= f) s).state = (f a (x s).state).state := by rw [Action.bind_state, hr]
    have hr' : ((x >>= f) s).result = (f a (x s).state).result := by rw [Action.bind_result, hr]
    have ha := hf a (hx.answer a hr)
    refine ⟨hs ▸ ha.keeps, hs ▸ Trans.trans hx.rises ha.rises, fun b hb => ?_⟩
    rw [hs]
    exact ha.answer b (hr' ▸ hb)

theorem map [Std.Refl G] [Trans G G G] {x : Action σ α} {f : α → β} (hx : Ends G I R s (x s)) :
    Ends G I (fun _ _ => True) s ((do return f (← x)) s) :=
  hx.bind fun _ _ => .pure hx.keeps trivial

end Ends

structure Services.Keep (G : σ → σ → Prop) (I : ι → σ → Prop) (sv : Services σ) : Prop where
  mark : ∀ i s, I i s → Ends G (I i) (fun _ _ => True) s (sv.mark s)
  asCaller : ∀ i s c, I i s → Ends G (I i) (fun _ _ => True) s (sv.asCaller c s)
  call : ∀ i s k name args, I i s → Ends G (I i) (fun _ _ => True) s (sv.call k name args s)

variable {I : ι → σ → Prop} {R : σ → Surface → Prop} {S : σ → Callable → Prop} {i : ι} {s : σ} [Std.Refl G]

theorem Services.Keep.run [Trans G G G] {sv : Services σ} (h : sv.Keep G I) (given : Handed) (p : Program) (hs : I i s) :
    Ends G (I i) (fun _ _ => True) s (p.run sv given s) := by
  induction p generalizing s with
  | done v left => cases left <;> exact .pure hs trivial
  | fail f => exact .fail hs
  | marked next ih =>
    have hm := h.mark i s hs
    exact hm.bind fun n _ => ih n hm.keeps
  | asCaller c next ih =>
    have hc := h.asCaller i s c hs
    exact hc.bind fun _ _ => ih hc.keeps
  | call k name args next ih =>
    have hc := (h.call i s k name args hs).attempt
    exact hc.bind fun answer _ => ih answer hc.keeps

/-- A machine whose parts keep the invariants; `R` holds of the dispatchers it hands out and `S` of what is found in
them, for as long as the state goes up. -/
structure Machine.Keep (G : σ → σ → Prop) (I : ι → σ → Prop) (R : σ → Surface → Prop) (S : σ → Callable → Prop)
    (M : Machine σ) : Prop where
  surface : ∀ i s k, I i s → Ends G (I i) R s (M.surface k s)
  find : ∀ s x name route c, R s x → x.find name route = .ok c → S s c
  surfaceMono : ∀ s t x, G s t → R s x → R t x
  callableMono : ∀ s t c, G s t → S s c → S t c
  bound : ∀ sv, Services.Keep G I sv → ∀ i s m b args, I i s → S s (.bound m b) →
    Ends G (I i) (fun _ _ => True) s (M.bound sv m b args s)
  mark : ∀ i s, I i s → Ends G (I i) (fun _ _ => True) s (M.mark s)
  asCaller : ∀ i s c, I i s → Ends G (I i) (fun _ _ => True) s (M.asCaller c s)

namespace Machine.Keep
variable {M : Machine σ}

theorem callCallable (h : M.Keep G I R S) {sv : Services σ} (hsv : Services.Keep G I sv) (args : List Value)
    {c : Callable} (hs : I i s) (hc : S s c) : Ends G (I i) (fun _ _ => True) s (M.callCallable sv args c s) := by
  cases c with
  | bound m b => exact h.bound sv hsv i s m b args hs hc
  | standIn label name => exact .pure hs trivial

variable [Trans G G G]

theorem services (h : M.Keep G I R S) (n : Nat) : Services.Keep G I (M.services n) := by
  -- on the depth that calls may go to
  induction n with
  | zero => exact ⟨h.mark, h.asCaller, fun i s k name args hs => .fail hs⟩
  | succ n ih =>
    refine ⟨h.mark, h.asCaller, fun i s k name args hs => ?_⟩
    have hsurface := h.surface i s k hs
    refine hsurface.bind fun x hx => ?_
    have hitem : Ends G (I i) S _ (Action.lift (x.item name) _) :=
      .lift hsurface.keeps fun c hc => h.find _ x name .item c hx hc
    refine hitem.bind fun c hc => ?_
    have hitems : Ends G (I i) (fun _ _ => True) _ (Action.lift args.items _) := .lift hitem.keeps fun _ _ => trivial
    exact hitems.bind fun as _ => h.callCallable ih as hitems.keeps (h.callableMono _ _ c hitems.rises hc)

theorem reach (h : M.Keep G I R S) (k : CircuitKind) (name : Value) (route : Route) (hs : I i s) :
    Ends G (I i) S s (M.reach k name route s) := by
  cases route with
  | item | member =>
    have hsurface := h.surface i s k hs
    exact hsurface.bind fun x hx => .lift hsurface.keeps fun c hc => h.find _ x name _ c hx hc
  | both =>
    have hpure := h.surface i s .pure hs
    refine hpure.bind fun x hx => ?_
    have himpure := h.surface i _ .impure hpure.keeps
    refine himpure.bind fun y hy => .lift himpure.keeps fun c hc => ?_
    cases k with
    | pure => exact h.find _ x name .both c (h.surfaceMono _ _ x himpure.rises hx) hc
    | impure => exact h.find _ y name .both c hy hc

variable [Limits]

theorem call (h : M.Keep G I R S) {c : Callable} (hs : I i s) (hc : S s c) (args : List Value) :
    Ends G (I i) (fun _ _ => True) s (M.call c args s) :=
  h.callCallable (h.services Limits.calls) args hs hc

theorem perform (h : M.Keep G I R S) (hs : I i s) {op : Operation} (hheld : ∀ c args, op = .callHeld c args → S s c)
    (hrest : op.calls = false → Ends G (I i) (fun _ _ => True) s (M.rest op s)) :
    Ends G (I i) (fun _ _ => True) s (M.perform op s) := by
  cases op with
  | call k name args route =>
    have hreach := h.reach k name route hs
    exact hreach.bind fun c hc => (h.call hreach.keeps hc args).map
  | callHeld c args => exact (h.call hs (hheld c args rfl) args).map
  | direct k name given args =>
    have hread : Ends G (I i) (fun _ _ => True) s (Action.read s) := .still hs rfl fun _ _ => trivial
    refine hread.bind fun t _ => ?_
    have hlift : Ends G (I i) (fun _ _ => True) s (Action.lift ((M.contract t).circuit k name) s) :=
      .lift hs fun _ _ => trivial
    refine hlift.bind fun c _ => ?_
    have hrun := (h.services Limits.calls).run given.handed (c given.context args) hlift.keeps
    refine hrun.bind fun x _ => ?_
    have hvalue : Ends G (I i) (fun _ _ => True) _ (Action.lift x.1 _) := .lift hrun.keeps fun _ _ => trivial
    exact hvalue.map
  | names =>
    have hpure := h.surface i s .pure hs
    refine hpure.bind fun x _ => ?_
    have hps : Ends G (I i) (fun _ _ => True) _ (Action.lift x.names _) := .lift hpure.keeps fun _ _ => trivial
    refine hps.bind fun ps _ => ?_
    have himpure := h.surface i _ .impure hps.keeps
    refine himpure.bind fun y _ => ?_
    have his : Ends G (I i) (fun _ _ => True) _ (Action.lift y.names _) := .lift himpure.keeps fun _ _ => trivial
    exact his.map
  | _ => exact hrest rfl

end Machine.Keep
end
end CircuitHarness
