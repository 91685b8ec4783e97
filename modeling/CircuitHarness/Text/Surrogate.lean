/-! Halves of surrogate pairs among the code points of a text. Two that belong together are written as the one
character they stand for, and each counts when code points are counted. -/
namespace CircuitHarness.Surrogate

def isHigh (n : Nat) : Bool := 0xd800 ≤ n && n < 0xdc00
def isLow (n : Nat) : Bool := 0xdc00 ≤ n && n < 0xe000
def isHalf (n : Nat) : Bool := isHigh n || isLow n

def join (high low : Nat) : Nat := 0x10000+(high-0xd800)*0x400+(low-0xdc00)

/-- A half without its other half is written as the replacement character. -/
def char (n : Nat) : Char := if isHalf n then Char.ofNat 0xfffd else Char.ofNat n

def chars : List Nat → List Char
  | [] => []
  | [n] => [char n]
  | n :: m :: r => if isHigh n && isLow m then Char.ofNat (join n m) :: chars r else char n :: chars (m :: r)

def text (cs : List Nat) : String := String.ofList (chars cs)

end CircuitHarness.Surrogate
