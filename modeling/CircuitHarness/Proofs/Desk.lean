import CircuitHarness.Proofs.Machine
import Mathlib.Data.List.Forall2

/-! Runs in which dispatchers and contexts are kept and used again later. Two hosts that answer alike, one move after
another, show the same over every run. -/
namespace CircuitHarness

structure Front (σ : Type) where
  surface : CircuitKind → Action σ Surface
  call : Callable → List Value → Action σ Value
  perform : Operation → Action σ Reply
  current : σ → Held

section
variable [Limits]

def Simulator.front : Front Simulator := ⟨Simulator.surface, Simulator.call, Simulator.perform, Simulator.current⟩

def Machine.front {σ : Type} (M : Machine σ) (current : σ → Held) : Front σ := ⟨M.surface, M.call, M.perform, current⟩

theorem Simulator.front_machine : Simulator.machine.front Simulator.current = Simulator.front := by
  simp only [Machine.front, front, Front.mk.injEq, and_true]
  exact ⟨rfl, funext fun c => funext fun args => machine_call c args, funext machine_perform⟩

end

/-- A host, and the dispatchers and contexts kept from earlier moves, oldest first. -/
structure Desk (σ : Type) where
  host : σ
  kept : List Surface
  saved : List Held

def Desk.start {σ : Type} (s : σ) : Desk σ := ⟨s, [], []⟩

/-- `access` looks up a dispatcher, to be kept or not; looking up both kinds is two of these. `through` calls a circuit of
a dispatcher that was kept, `save` keeps the current context, and `restore` writes one that was kept. -/
inductive Move where
  | access (kind : CircuitKind) (keep : Bool)
  | through (place : Nat) (name : Value) (args : List Value) (route : Route)
  | save
  | restore (place : Nat)
  | operate (op : Operation)

inductive Shown where
  | dispatcher (d : Dispatcher Circuit)
  | standIn (label : Value)
  | reply (r : Reply)

def Surface.shown : Surface → Shown
  | .dispatcher _ d => .dispatcher d
  | .standIn label => .standIn label

theorem Surface.Same.shown {x y : Surface} (h : x.Same y) : x.shown = y.shown := by cases h <;> rfl

namespace Desk
variable {σ α : Type}

def onHost (x : Action σ α) : Action (Desk σ) α := x.within Desk.host fun s d => { d with host := s }

def keep (x : Surface) (d : Desk σ) : Desk σ := { d with kept := d.kept ++ [x] }
def save (h : Held) (d : Desk σ) : Desk σ := { d with saved := d.saved ++ [h] }

end Desk

namespace Front
variable {σ : Type} (f : Front σ)

def move : Move → Action (Desk σ) Shown
  | .access k keep => do
    let x ← Desk.onHost (f.surface k)
    if keep then Action.update (Desk.keep x)
    return x.shown
  | .through place name args route => do
    match (← Action.read).kept[place]? with
    | some x => do
      let c ← Action.lift (x.find name route)
      return .reply (.value (← Desk.onHost (f.call c args)))
    | none => Action.fail .outOfRange
  | .save => do
    Action.update fun d => d.save (f.current d.host)
    return .reply .nothing
  | .restore place => do
    match (← Action.read).saved[place]? with
    | some h => do return .reply (← Desk.onHost (f.perform (.write h.handed))).unmarked
    | none => Action.fail .outOfRange
  | .operate op => do return .reply (← Desk.onHost (f.perform op)).unmarked

def after (d : Desk σ) (m : Move) : Desk σ := (f.move m d).state

def run : List Move → Desk σ → Desk σ
  | [], d => d
  | m :: ms, d => run ms (f.after d m)

def history : List Move → Desk σ → List (Except Failure Shown × CircuitContext)
  | [], _ => []
  | m :: ms, d => ((f.move m d).result, (f.current (f.after d m).host).context) :: history ms (f.after d m)

theorem after_access (k : CircuitKind) (d : Desk σ) :
    f.after d (.access k false) = { d with host := (f.surface k d.host).state } := by
  simp only [after, move, Desk.onHost, Action.bind_state, Action.within_result, Action.within_state]
  cases (f.surface k d.host).result <;> rfl

theorem after_keep (k : CircuitKind) (d : Desk σ) :
    f.after d (.access k true) =
      match (f.surface k d.host).result with
      | .ok x => Desk.keep x { d with host := (f.surface k d.host).state }
      | .error _ => { d with host := (f.surface k d.host).state } := by
  simp only [after, move, Desk.onHost, Action.bind_state, Action.within_result, Action.within_state]
  cases (f.surface k d.host).result <;> rfl

theorem after_operate (op : Operation) (d : Desk σ) :
    f.after d (.operate op) = { d with host := (f.perform op d.host).state } := by
  simp only [after, move, Desk.onHost, Action.bind_state, Action.within_result, Action.within_state]
  cases (f.perform op d.host).result <;> rfl

theorem after_through (place : Nat) (name : Value) (args : List Value) (route : Route) (d : Desk σ) :
    f.after d (.through place name args route) =
      match d.kept[place]?.bind fun x => (x.find name route).toOption with
      | some c => { d with host := (f.call c args d.host).state }
      | none => d := by
  simp only [after, move, Action.bind_state, Action.read_result, Action.read_state]
  cases d.kept[place]? with
  | none => rfl
  | some x =>
    simp only [Option.bind_some, Action.bind_state, Action.lift_result, Action.lift_state]
    cases x.find name route with
    | error e => rfl
    | ok c =>
      simp only [Desk.onHost, Action.within_result, Action.within_state, Except.toOption]
      cases (f.call c args d.host).result <;> rfl

theorem after_restore (place : Nat) (d : Desk σ) :
    f.after d (.restore place) =
      match d.saved[place]? with
      | some h => { d with host := (f.perform (.write h.handed) d.host).state }
      | none => d := by
  simp only [after, move, Action.bind_state, Action.read_result, Action.read_state]
  cases d.saved[place]? with
  | none => rfl
  | some h =>
    simp only [Desk.onHost, Action.bind_state, Action.within_result, Action.within_state]
    cases (f.perform (.write h.handed) d.host).result <;> rfl

end Front

section
open CircuitHarness.Action (Relates)
variable {σ τ : Type} {P : List (Mark × Mark) → σ → τ → Prop} {C : CircuitKind → Circuit → Prop}
  {allowed : Operation → Prop} {f : Front σ} {g : Front τ}

/-- Hosts that answer alike, whatever marks the contexts go by that each of them knows. -/
structure Front.Match (P : List (Mark × Mark) → σ → τ → Prop) (C : CircuitKind → Circuit → Prop)
    (allowed : Operation → Prop) (f : Front σ) (g : Front τ) : Prop where
  surface : ∀ L k, Relates (P L) (P L) (fun x y => x.Same y ∧ x.Of C) (f.surface k) (g.surface k)
  call : ∀ L {c d} args, c.Same d → c.Of C → Relates (P L) (P L) Eq (f.call c args) (g.call d args)
  perform : ∀ L op, allowed op →
    Relates (P L) (P L) (fun r r' => r.unmarked = r'.unmarked) (f.perform op) (g.perform op)
  write : ∀ L x c, x ∈ L → Relates (P L) (P L) (fun r r' => r.unmarked = r'.unmarked)
    (f.perform (.write ⟨c, some x.1⟩)) (g.perform (.write ⟨c, some x.2⟩))
  current : ∀ L s t, P L s t → (f.current s).context = (g.current t).context ∧
    P (((f.current s).mark, (g.current t).mark) :: L) s t

structure Desk.Match (P : List (Mark × Mark) → σ → τ → Prop) (C : CircuitKind → Circuit → Prop)
    (L : List (Mark × Mark)) (d : Desk σ) (e : Desk τ) : Prop where
  host : P L d.host e.host
  kept : List.Forall₂ (fun x y => x.Same y ∧ x.Of C) d.kept e.kept
  saved : List.Forall₂ (fun h k => h.context = k.context ∧ (h.mark, k.mark) ∈ L) d.saved e.saved

theorem forall₂_at {α β : Type} {R : α → β → Prop} {xs : List α} {ys : List β} (h : List.Forall₂ R xs ys) (n : Nat) :
    xs[n]? = none ∧ ys[n]? = none ∨ ∃ x y, xs[n]? = some x ∧ ys[n]? = some y ∧ R x y := by
  induction h generalizing n with
  | nil => exact .inl ⟨rfl, rfl⟩
  | cons hxy _ ih =>
    cases n with
    | zero => exact .inr ⟨_, _, rfl, rfl, hxy⟩
    | succ n => exact ih n

theorem Desk.onHost_relates {α β : Type} {R : α → β → Prop} {L : List (Mark × Mark)} {x : Action σ α}
    {y : Action τ β} (h : Relates (P L) (P L) R x y) :
    Relates (Desk.Match P C L) (Desk.Match P C L) R (Desk.onHost x) (Desk.onHost y) := by
  intro d e hde
  obtain ⟨hr, hs⟩ := h d.host e.host hde.host
  exact ⟨hr, hs, hde.kept, hde.saved⟩

theorem Front.Match.move (h : f.Match P C allowed g) {L : List (Mark × Mark)} {d : Desk σ} {e : Desk τ}
    (hde : Desk.Match P C L d e) {m : Move} (hm : ∀ op, m = .operate op → allowed op) :
    Answers Eq (f.move m d).result (g.move m e).result ∧ ∃ L, Desk.Match P C L (f.after d m) (g.after e m) := by
  have known (hstep : Relates (Desk.Match P C L) (Desk.Match P C L) Eq (f.move m) (g.move m)) :
      Answers Eq (f.move m d).result (g.move m e).result ∧ ∃ L, Desk.Match P C L (f.after d m) (g.after e m) :=
    ⟨(hstep d e hde).1, L, (hstep d e hde).2⟩
  cases m with
  | access k keep =>
    refine known ((Desk.onHost_relates (h.surface L k)).bind fun x y hxy => ?_)
    rw [hxy.1.shown]
    cases keep with
    | false => exact Relates.bind_eq (.pure rfl) fun _ => .pure rfl
    | true =>
      refine Relates.bind_eq (.update fun d e hde => ⟨hde.host, ?_, hde.saved⟩) fun _ => .pure rfl
      exact List.rel_append hde.kept (.cons hxy .nil)
  | through place name args route =>
    refine known (Relates.read.bind fun d e hde => ?_)
    obtain ⟨hd, he⟩ | ⟨x, y, hd, he, hxy⟩ := forall₂_at hde.kept place
    · simp only [hd, he]
      exact .fail _
    · simp only [hd, he]
      refine (Relates.lift (Machine.Match.find hxy name route)).bind fun c c' hc => ?_
      exact (Desk.onHost_relates (h.call L args hc.1 hc.2)).bind_eq fun v => .pure rfl
  | save =>
    obtain ⟨hcontext, hknown⟩ := h.current L d.host e.host hde.host
    refine ⟨.ok rfl, _, hknown, hde.kept, List.rel_append ?_ (.cons ⟨hcontext, List.mem_cons_self⟩ .nil)⟩
    exact hde.saved.imp fun a b hab => ⟨hab.1, List.mem_cons_of_mem _ hab.2⟩
  | restore place =>
    refine known (Relates.read.bind fun d e hde => ?_)
    obtain ⟨hd, he⟩ | ⟨x, y, hd, he, hcontext, hmarks⟩ := forall₂_at hde.saved place
    · simp only [hd, he]
      exact .fail _
    · simp only [hd, he, Held.handed, ← hcontext]
      exact (Desk.onHost_relates (h.write L _ x.context hmarks)).bind fun r r' hr => .pure (by rw [hr])
  | operate op =>
    exact known ((Desk.onHost_relates (h.perform L op (hm op rfl))).bind fun r r' hr => .pure (by rw [hr]))

/-- A whole run: both show the same all along. -/
theorem Front.Match.run (h : f.Match P C allowed g) {L : List (Mark × Mark)} {d : Desk σ} {e : Desk τ}
    (hde : Desk.Match P C L d e) {ms : List Move} (hms : ∀ op, .operate op ∈ ms → allowed op) :
    f.history ms d = g.history ms e ∧ ∃ L, Desk.Match P C L (f.run ms d) (g.run ms e) := by
  induction ms generalizing L d e with
  | nil => exact ⟨rfl, L, hde⟩
  | cons m ms ih =>
    obtain ⟨hr, L', hmatch⟩ := h.move hde fun op hop => hms op (hop ▸ List.mem_cons_self)
    obtain ⟨hhistory, hrun⟩ := ih hmatch fun op hop => hms op (List.mem_cons_of_mem m hop)
    refine ⟨?_, hrun⟩
    rw [Front.history, Front.history, hr.eq, (h.current L' _ _ hmatch.host).1, hhistory]

end
end CircuitHarness
