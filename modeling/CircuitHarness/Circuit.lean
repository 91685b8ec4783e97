import CircuitHarness.Context
import CircuitHarness.Table

/-! Circuits and the contracts they belong to. A circuit, given a context and arguments, is a program: it ends with a
result and the context it leaves behind, or fails; before that it may ask for a mark, name a caller for the next impure
call and call back into the harness that runs it, and go on with what comes back. -/
namespace CircuitHarness

/-- Whom an impure call runs as. What is no text is found out only when the call runs. -/
inductive Caller where
  | text (s : String)
  | bytes (bs : List UInt8)
  | other
deriving DecidableEq

def Caller.ofValue? (v : Value) : Option Caller :=
  if v.isTruthy then
    match v with
    | .str s => some (.text s)
    | .codes cs => some (.text (Surrogate.text cs))
    | .bytes bs => some (.bytes bs)
    | _ => some .other
  else none

/-- `done` without a context leaves behind the very context the circuit was given; its value may turn out not to be
there. The arguments of a call are looked at when its circuit has been found. -/
inductive Program where
  | done (value : Except Failure Value) (left : Option CircuitContext)
  | fail (f : Failure)
  | marked (next : Mark → Program)
  | asCaller (caller : Option Caller) (next : Program)
  | call (kind : CircuitKind) (name args : Value) (next : Except Failure Value → Program)

abbrev Circuit := CircuitContext → List Value → Program

def Program.ofResult : Except Failure (Value × CircuitContext) → Program
  | .ok (v, c) => .done (.ok v) (some c)
  | .error f => .fail f

structure Artifact where
  pure : Table Circuit
  impure : Table Circuit
  initialState : ConstructorContext → List Value → Except Failure ConstructorResult

def Artifact.circuits (a : Artifact) : CircuitKind → Table Circuit
  | .pure => a.pure
  | .impure => a.impure

abbrev Witnesses := Value.Entries

abbrev WitnessCall := Value → WitnessContext → List Value → Except Failure (Value × Value)

def Witnesses.call (call : WitnessCall) (ws : Witnesses) (name : Value) (seen : WitnessContext)
    (args : Except Failure (List Value)) : Except Failure (Value × Value) := do
  if !name.isHashable then throw .wrongType
  match Value.Keyed.get? name ws with
  | none => throw (.missingKey name)
  | some w => call w seen (← args)

end CircuitHarness
