import CircuitHarness.Value

/-! How deep a full copy of a value goes, in calls that are open at once. Each kind of collection takes as many calls as
its copying is made of. -/
namespace CircuitHarness.Value

mutual
def copyDepth : Value → Nat
  | .list xs => copyDepths xs+2
  | .tuple xs => copyDepths xs+3
  | .map es => entryDepths es+2
  | .set xs => copyDepths xs+5
  | .record _ fs => fieldDepths fs+4
  | _ => 2
termination_by structural x => x
def copyDepths : List Value → Nat
  | [] => 0
  | x :: r => max x.copyDepth (copyDepths r)
termination_by structural x => x
def entryDepths : List (Value × Value) → Nat
  | [] => 0
  | (k, v) :: r => max (max k.copyDepth v.copyDepth) (entryDepths r)
termination_by structural x => x
def fieldDepths : List (String × Value) → Nat
  | [] => 0
  | (_, v) :: r => max v.copyDepth (fieldDepths r)
termination_by structural x => x
end

end CircuitHarness.Value
