import CircuitHarness.Report
import CircuitHarness.Sorting
import CircuitHarness.Value.Order

/-! What can go wrong. A failure is its cause; its kind, its message and, for the four that can explain
themselves, its report are computed from that. -/
namespace CircuitHarness

inductive Failure where
  | wrongType
  | noAttribute
  | outOfRange
  | unimplemented
  | notAscii
  | notUtf8
  | tooDeep
  | tooLarge
  | badValue (message : String)
  | runtime (message : String)
  | missingKey (key : Value)
  | assertion (message : String)
  | unknownCircuit (name kind : Value) (available : List Value)
  | invalidOptions (errors : Value) (source : Option String)
  | unreadableOptions (details : Value) (path : String)
  | badArguments (simulator details : Value)
  | build (report : String) (cause : Failure)
deriving Inhabited

def Failure.notHex (position : Nat) : Failure :=
  .badValue ("non-hexadecimal number found in fromhex() arg at position " ++ toString position)

namespace Value

/-- The entry at zero: the first element of a sequence, or what a map has under the key zero. -/
def first : Value → Except Failure Value
  | .list xs | .tuple xs => match xs with
    | [] => .error .outOfRange
    | x :: _ => .ok x
  | .str s => match s.toList with
    | [] => .error .outOfRange
    | c :: _ => .ok (.str (String.singleton c))
  | .bytes bs => match bs with
    | [] => .error .outOfRange
    | b :: _ => .ok (.int b.toNat)
  | .map es => match Keyed.get? (.int 0) es with
    | some v => .ok v
    | Option.none => .error (.missingKey (.int 0))
  | _ => .error .wrongType

def lines : Value → Except Failure (List String)
  | .str s => .ok (Lines.split s)
  | .bytes bs => .ok ((Lines.cutBytes [] bs).map fun l => (Value.bytes l).text)
  | _ => .error .noAttribute

def less (x y : Value) : Except Failure Bool :=
  match less? x y with
  | some b => .ok b
  | Option.none => .error .wrongType

def sumIdentity : Value → Value → Identity
  | .nan i, _ | _, .nan i => { i with sums := i.sums+1 }
  | _, _ => ⟨0, Option.none, 1⟩

def add (x y : Value) : Except Failure Value :=
  match x, y with
  | .str a, .str b => .ok (.str (a ++ b))
  | .bytes a, .bytes b => .ok (.bytes (a ++ b))
  | .list a, .list b => .ok (.list (a ++ b))
  | .tuple a, .tuple b => .ok (.tuple (a ++ b))
  | _, _ => match Number.ofValue? x, Number.ofValue? y with
    | some a, some b => match a.add? b with
      | some (.exact n) => .ok (.int n)
      | some (.double z) => .ok (ofFloat (sumIdentity x y) z)
      | Option.none => .error .tooLarge
    | _, _ => .error .wrongType

end Value

def Subject.ofValue : Value → Except Failure Subject
  | .map es =>
    let get (n : String) : Value := .ofOption (Value.Keyed.get? (.str n) es)
    .ok ⟨get "simulator", get "circuit", get "source_file", get "user_input"⟩
  | _ => .error .noAttribute

namespace Failure

def kind : Failure → String
  | .wrongType => "TypeError"
  | .noAttribute => "AttributeError"
  | .outOfRange => "IndexError"
  | .unimplemented => "NotImplementedError"
  | .notAscii => "UnicodeEncodeError"
  | .notUtf8 => "UnicodeDecodeError"
  | .tooDeep => "RecursionError"
  | .tooLarge => "OverflowError"
  | .badValue _ => "ValueError"
  | .runtime _ => "RuntimeError"
  | .missingKey _ => "KeyError"
  | .assertion _ => "CircuitAssertionError"
  | .unknownCircuit .. => "UnknownCircuitError"
  | .invalidOptions .. => "OptionsValidationError"
  | .unreadableOptions .. => "OptionsFileError"
  | .badArguments .. => "ContractArgumentsError"
  | .build .. => "SimulatorBuildError"

def issueLines (lead : String) : Value → Except Failure (List String)
  | .map es => do
    let sorted ← Sorting.sort (fun x y => Value.less x.1 y.1) es
    sorted.mapM fun e => do return lead ++ " '" ++ e.1.text ++ "': " ++ (← e.2.first).text
  | _ => .error .noAttribute

def message? : Failure → Option (Except Failure String)
  | .badValue m | .runtime m | .assertion m => some (.ok m)
  | .missingKey k => some (.ok k.repr)
  | .unknownCircuit n k as =>
    some (.ok ("No " ++ k.text ++ " circuit named '" ++ n.text ++ "'. Available: " ++ (Value.list as).repr))
  | .invalidOptions es src =>
    let origin := match src with
      | some p => " in '" ++ p ++ "'"
      | none => ""
    some ((issueLines "  - In option" es).map fun ls =>
      "Simulator options failed validation" ++ origin ++ ":\n" ++ "\n".intercalate ls)
  | .unreadableOptions d p => some (.ok ("Options file error in '" ++ p ++ "': " ++ d.text))
  | .badArguments s d => some (.ok ("Invalid contract arguments for '" ++ s.text ++ "': " ++ d.text))
  | .build r _ => some (.ok r)
  | _ => none

def joinNames : List Value → Except Failure (List String)
  | [] => .ok []
  | .str s :: r => (joinNames r).map (s :: ·)
  | _ :: _ => .error .wrongType

def renderParts (errorType details suggestion : Value) (subject : Subject) : Except Failure String := do
  let details ← details.lines
  let suggestion ← if suggestion.isTruthy then some <$> suggestion.lines else pure none
  return Report.render ⟨errorType.text, details, suggestion, subject⟩

def render (errorType suggestion : String) (subject : Subject) (details : Value) : Except Failure String :=
  renderParts (.str errorType) details (.str suggestion) subject

def report? : Failure → Option (Except Failure String)
  | .unknownCircuit n k as => some do
    let names ← joinNames as
    let listed := match ", ".intercalate names with
      | "" => "(none)"
      | t => t
    render "Unknown Circuit"
      "Check the spelling of the circuit name, and whether the compiler classified it as pure or impure. Impure circuits are only reachable through `impure_circuit`."
      { circuit := n }
      (.str ("The " ++ k.text ++ " circuit set has no entry named '" ++ n.text ++ "'.\nAvailable " ++ k.text ++
        " circuits: " ++ listed))
  | .invalidOptions es src => some do
    let ls ← issueLines "  - Option" es
    render "Invalid Simulator Options"
      "Recognised options are 'private_state', 'witnesses', 'coin_pk' and 'contract_address'. 'coin_pk' must be exactly 64 hex characters, 'contract_address' a non-empty hex string, and every witness must be callable."
      { sourceFile := .ofOption (src.map .str) }
      (.str ("The simulator options do not conform to the expected format.\nSee details for " ++
        toString ls.length ++ " issue(s) below:\n\n" ++ "\n".intercalate ls))
  | .unreadableOptions d p => some (render "Options File Error"
      "Ensure the file exists, is readable, and contains a YAML mapping at its root."
      { sourceFile := .str p } d)
  | .badArguments s d => some (render "Invalid Contract Arguments"
      "Pass the constructor arguments as a sequence whose length and order match the simulator's 'contract_args' transform."
      { simulator := s } d)
  | _ => none

def ofKind (kind : String) (message : Value) : Failure :=
  match kind with
  | "ValueError" => .badValue message.text
  | "KeyError" => .missingKey message
  | "CircuitAssertionError" => .assertion message.text
  | "TypeError" => .wrongType
  | "AttributeError" => .noAttribute
  | "IndexError" => .outOfRange
  | "NotImplementedError" => .unimplemented
  | _ => .runtime message.text

end Failure
end CircuitHarness
