import CircuitHarness.Decimal.Shortest
import CircuitHarness.Value

/-! Numbers among the values. Truth values count as zero and one, and an integer and a double are compared by
what they stand for, without rounding either. -/
namespace CircuitHarness

inductive Number where
  | exact (n : Int)
  | double (x : Float)

namespace Number

def ofValue? : Value → Option Number
  | .bool b => some (.exact (if b then 1 else 0))
  | .int n => some (.exact n)
  | .float x => some (.double x)
  | .nan _ => some (.double (0/0))
  | _ => none

/-- How an integer stands to a double; `none` if the double is not a number. -/
def compareExact (n : Int) (x : Float) : Option Ordering :=
  match Decimal.Binary.ofFloat? x with
  | some b =>
    let m : Int := if b.negative then -b.mantissa else b.mantissa
    some (compare (n*(Nat.pow 2 (-b.exponent).toNat : Int)) (m*(Nat.pow 2 b.exponent.toNat : Int)))
  | none => if x.isNaN then none else some (if x < 0 then .gt else .lt)

def compare? : Number → Number → Option Ordering
  | .exact a, .exact b => some (compare a b)
  | .exact a, .double y => compareExact a y
  | .double x, .exact b => (compareExact b x).map Ordering.swap
  | .double x, .double y => if x < y then some .lt else if y < x then some .gt else if x == y then some .eq else none

def less (a b : Number) : Bool := a.compare? b == some .lt

def same (a b : Number) : Bool := a.compare? b == some .eq

def toFloat? : Number → Option Float
  | .exact n =>
    let x := Float.ofInt n
    if x.isInf then none else some x
  | .double x => some x

def add? : Number → Number → Option Number
  | .exact a, .exact b => some (.exact (a+b))
  | a, b => do return .double ((← a.toFloat?)+(← b.toFloat?))

end Number
end CircuitHarness
