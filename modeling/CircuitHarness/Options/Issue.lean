import CircuitHarness.Failure
import CircuitHarness.Value.Depth

/-! What can be wrong with an option, and the order in which issues are reported. -/
namespace CircuitHarness

inductive Issue where
  | unknown
  | null
  | empty
  | notOfType (type : String)
  | tooShort (least : Nat)
  | tooLong (most : Nat)
  | notHex (text : String)
  | notCallable (names : List String)
  | keys (found : List (Value × Issue))

namespace Issue

def rule : Issue → Option String
  | .null => some "nullable"
  | .empty => some "empty"
  | .notOfType _ => some "type"
  | .tooShort _ => some "minlength"
  | .tooLong _ => some "maxlength"
  | .keys _ => some "keysrules"
  | .unknown | .notHex _ | .notCallable _ => none

mutual
def message : Issue → Value
  | .unknown => .str "unknown field"
  | .null => .str "null value not allowed"
  | .empty => .str "empty values not allowed"
  | .notOfType t => .str ("must be of " ++ t ++ " type")
  | .tooShort n => .str ("min length is " ++ toString n)
  | .tooLong n => .str ("max length is " ++ toString n)
  | .notHex t => .str ("'" ++ t ++ "' is not a hex string.")
  | .notCallable ns => .str ("Witness(es) " ++ (Value.list (ns.map .str)).repr ++ " must be callable.")
  | .keys found => .map (messages found)
termination_by structural x => x
def messages : List (Value × Issue) → Value.Entries
  | [] => []
  | (k, i) :: r => (k, .list [i.message]) :: messages r
termination_by structural x => x
end

end Issue

abbrev Finding := Value × Issue

namespace Finding

def isInteger : Value → Bool
  | .int _ | .bool _ => true
  | _ => false

def isText : Value → Bool
  | .str _ | .codes _ => true
  | _ => false

def isTuple : Value → Bool
  | .tuple _ => true
  | _ => false

def nameBefore (a b : Value) : Except Failure Bool :=
  if isInteger a then if isInteger b then a.less b else .ok true
  else if isText a then if isText b then a.less b else .ok true
  else if isTuple a then if isTuple b then a.less b else .ok true
  else if a.same b then .ok false else a.less b

def ruleBefore : Option String → Option String → Bool
  | none, _ => true
  | some _, none => false
  | some a, some b => a ≤ b

def before (x y : Finding) : Except Failure Bool :=
  if x.1.same y.1 then .ok (ruleBefore x.2.rule y.2.rule) else nameBefore x.1 y.1

def insert (found : List Finding) (x : Finding) : Except Failure (List Finding) := Sorting.sort before (found ++ [x])

/-- How deep a copy of a finding goes, given that of the option's value. Names are copied as parts of a path, and what was
found about keys lies deeper. -/
def copyDepth (value : Nat) (x : Finding) : Nat :=
  let path (name : Value) := (Value.tuple [name]).copyDepth
  let keys := match x.2 with
    | .keys found => found.foldl (fun n k => max n (path k.1+9)) 0
    | _ => 0
  max (max value (path x.1)) keys

def report (name : Value) (found : List Finding) : List Value :=
  let mine := (found.filter fun x => x.1.same name).map (·.2)
  let (about, own) := mine.partition fun
    | .keys _ => true
    | _ => false
  (own ++ about).map Issue.message

def errors (found : List Finding) : Value.Entries :=
  (Value.distinct (found.map (·.1))).map fun n => (n, .list (report n found))

end Finding

/-- What was found so far, in order. Findings about keys are kept by the rule that was broken, and those that come from no
rule are kept apart, each in an order of its own; nothing else is known of these orders than that there is one. -/
structure Findings where
  all : List Finding
  ruleless : List Finding

namespace Findings

def none : Findings := ⟨[], []⟩

def orderKeys (found : List Finding) : Except Failure Unit :=
  (found.map (·.2.rule)).eraseDups.forM fun rule => do
    let _ ← (found.filter (·.2.rule = rule)).foldlM Finding.insert []

def add (f : Findings) (x : Finding) : Except Failure Findings := do
  let all ← Finding.insert f.all x
  match x.2 with
  | .keys found => orderKeys found
  | _ => pure ()
  let ruleless ← if x.2.rule.isNone then Finding.insert f.ruleless x else pure f.ruleless
  return ⟨all, ruleless⟩

end Findings
end CircuitHarness
