import CircuitHarness.Action
import CircuitHarness.Circuit
import CircuitHarness.Value.Access

/-! The owner of the current context. A context held here carries a mark, given once and never again, so that a
context written back later can be told from an equal one made anew. -/
namespace CircuitHarness

inductive Carryover where
  | reset
  | preserve
deriving DecidableEq

structure Held where
  mark : Mark
  context : CircuitContext

/-- A context on its way: held already, or made for the occasion and not yet marked. -/
structure Handed where
  context : CircuitContext
  mark : Option Mark

def Handed.fresh (c : CircuitContext) : Handed := ⟨c, none⟩
def Held.handed (h : Held) : Handed := ⟨h.context, some h.mark⟩

namespace LocalState

def rekey (k : Key) (policy : Carryover) (l : LocalState) : LocalState :=
  match policy with
  | .reset => empty k
  | .preserve => { l with key := k }

end LocalState

def CircuitContext.rekey (k : Key) (policy : Carryover) (c : CircuitContext) : CircuitContext :=
  { c with localState := c.localState.rekey k policy }

structure Manager where
  maker : Nat
  made : Nat
  current : Held
  carryover : Carryover

namespace Manager

/-- Runs the contract's constructor. The sender's key is read before that. -/
def start (maker : Nat) (contract : Artifact) (privateState : Value) (sender : String) (address : Value)
    (args : List Value) (carryover : Carryover) : Except Failure Manager := do
  let first ← contract.initialState ⟨⟨maker, 0⟩, privateState, ← LocalState.ofSender sender⟩ args
  let context ← CircuitContext.fresh first.privateState first.payload sender address
  return ⟨maker, 1, ⟨⟨maker, 0⟩, context⟩, carryover⟩

def started (address : Value) : Notice :=
  ⟨.debug, Logger.contextManager, "CircuitContextManager initialized for contract at '" ++ address.text ++ "'."⟩

def nextMark : Action Manager Mark := do
  let m ← Action.read
  Action.write { m with made := m.made+1 }
  return ⟨m.maker, m.made⟩

def set (h : Held) (m : Manager) : Manager := { m with current := h }

def hold (h : Handed) (m : Manager) : Held × Manager :=
  match h.mark with
  | some k => (⟨k, h.context⟩, m)
  | none => (⟨⟨m.maker, m.made⟩, h.context⟩, { m with made := m.made+1 })

def adopt (h : Handed) (m : Manager) : Manager :=
  let (held, n) := m.hold h
  n.set held

def updatePrivate (p : Value) (m : Manager) : Manager :=
  m.adopt (.fresh { m.current.context with privateState := p })

def rebuild (sender : String) (carryover : Option Carryover) (m : Manager) : Except Failure CircuitContext :=
  (Key.ofHex sender).map fun k => m.current.context.rekey k (carryover.getD m.carryover)

def clip? : Value → Option String
  | .str s => some (String.ofList (s.toList.take 16))
  | .codes cs => some (Surrogate.text (cs.take 16))
  | .bytes bs => some (Quoted.bytes (bs.take 16))
  | .list xs => some (Value.list (xs.take 16)).repr
  | .tuple xs => some (Value.tuple (xs.take 16)).repr
  | _ => none

def clip (sender : String) : String := String.ofList (sender.toList.take 16)

def switchSender (sender : Value) (carryover : Option Carryover) : Action Manager CircuitContext := do
  match clip? sender with
  | some t => Action.note .debug Logger.contextManager ("Switching sender to '" ++ t ++ "...'.")
  | none => Action.fail .wrongType
  let m ← Action.read
  let c ← Action.lift (m.rebuild (← Action.lift sender.asSender) carryover)
  Action.write (m.adopt (.fresh c))
  return c

end Manager
end CircuitHarness
