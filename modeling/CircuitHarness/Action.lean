import CircuitHarness.Failure
import CircuitHarness.Journal

/-! Steps that change a state, may fail and leave notices. What a step did to the state before it failed stays. -/
namespace CircuitHarness

structure Outcome (σ α : Type) where
  result : Except Failure α
  state : σ
  notices : List Notice

def Action (σ α : Type) : Type := σ → Outcome σ α

namespace Action
variable {σ τ α β : Type}

def ret (a : α) : Action σ α := fun s => ⟨.ok a, s, []⟩

def andThen (x : Action σ α) (f : α → Action σ β) : Action σ β := fun s =>
  match x s with
  | ⟨.error e, t, ns⟩ => ⟨.error e, t, ns⟩
  | ⟨.ok a, t, ns⟩ => let r := f a t; { r with notices := ns ++ r.notices }

instance : Monad (Action σ) where
  pure := ret
  bind := andThen

def fail (f : Failure) : Action σ α := fun s => ⟨.error f, s, []⟩

def lift : Except Failure α → Action σ α
  | .ok a => ret a
  | .error f => fail f

def read : Action σ σ := fun s => ⟨.ok s, s, []⟩
def write (s : σ) : Action σ Unit := fun _ => ⟨.ok (), s, []⟩
def update (f : σ → σ) : Action σ Unit := fun s => ⟨.ok (), f s, []⟩
def note (v : Severity) (logger message : String) : Action σ Unit := fun s => ⟨.ok (), s, [⟨v, logger, message⟩]⟩

def attempt (x : Action σ α) : Action σ (Except Failure α) := fun s =>
  let r := x s
  ⟨.ok r.result, r.state, r.notices⟩

def within (get : σ → τ) (set : τ → σ → σ) (x : Action τ α) : Action σ α := fun s =>
  let r := x (get s)
  ⟨r.result, set r.state s, r.notices⟩

@[simp] theorem pure_result (a : α) (s : σ) : ((pure a : Action σ α) s).result = .ok a := rfl
@[simp] theorem pure_state (a : α) (s : σ) : ((pure a : Action σ α) s).state = s := rfl
@[simp] theorem fail_result (f : Failure) (s : σ) : (fail f s : Outcome σ α).result = .error f := rfl
@[simp] theorem fail_state (f : Failure) (s : σ) : (fail f s : Outcome σ α).state = s := rfl
@[simp] theorem read_result (s : σ) : (read s).result = .ok s := rfl
@[simp] theorem read_state (s : σ) : (read s).state = s := rfl
@[simp] theorem write_result (t s : σ) : (write t s).result = .ok () := rfl
@[simp] theorem write_state (t s : σ) : (write t s).state = t := rfl
@[simp] theorem update_result (f : σ → σ) (s : σ) : (update f s).result = .ok () := rfl
@[simp] theorem update_state (f : σ → σ) (s : σ) : (update f s).state = f s := rfl
@[simp] theorem note_result (v : Severity) (l m : String) (s : σ) : (note v l m s).result = .ok () := rfl
@[simp] theorem note_state (v : Severity) (l m : String) (s : σ) : (note v l m s).state = s := rfl
@[simp] theorem attempt_result (x : Action σ α) (s : σ) : (attempt x s).result = .ok (x s).result := rfl
@[simp] theorem attempt_state (x : Action σ α) (s : σ) : (attempt x s).state = (x s).state := rfl

@[simp] theorem lift_result (x : Except Failure α) (s : σ) : (lift x s).result = x := by
  cases x <;> rfl

@[simp] theorem lift_state (x : Except Failure α) (s : σ) : (lift x s).state = s := by
  cases x <;> rfl

@[simp] theorem within_result (get : σ → τ) (set : τ → σ → σ) (x : Action τ α) (s : σ) :
    (within get set x s).result = (x (get s)).result := rfl

@[simp] theorem within_state (get : σ → τ) (set : τ → σ → σ) (x : Action τ α) (s : σ) :
    (within get set x s).state = set (x (get s)).state s := rfl

theorem bind_result (x : Action σ α) (f : α → Action σ β) (s : σ) : ((x >>= f) s).result =
    match (x s).result with
    | .ok a => (f a (x s).state).result
    | .error e => .error e := by
  change (andThen x f s).result = _
  rw [andThen]
  cases x s with
  | mk result state notices => cases result <;> rfl

theorem bind_state (x : Action σ α) (f : α → Action σ β) (s : σ) : ((x >>= f) s).state =
    match (x s).result with
    | .ok a => (f a (x s).state).state
    | .error _ => (x s).state := by
  change (andThen x f s).state = _
  rw [andThen]
  cases x s with
  | mk result state notices => cases result <;> rfl

end Action
end CircuitHarness
