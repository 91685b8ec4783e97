import CircuitHarness.Text.Hex
import CircuitHarness.Decimal.Shortest
import CircuitHarness.Failure

/-! Coin public keys and contract addresses as text. -/
namespace CircuitHarness

abbrev Key := List UInt8

namespace Key

def hexLength : Nat := 64

def zeroText : String := String.ofList (List.replicate hexLength '0')

def ofHex (s : String) : Except Failure Key :=
  match Hex.decode s with
  | .ok k => .ok k
  | .error n => .error (.notHex n)

def toHex (k : Key) : String := Hex.encode k

end Key

namespace Address

def tag : String := "0200"

def placeholder : String := tag ++ Key.zeroText

def padded (text : String) (length : Nat) : Except Failure String :=
  if text.toList.all (·.toNat < 128) then
    .ok (Decimal.padLeft length (Hex.encode (text.toList.map fun c => UInt8.ofNat c.toNat)))
  else .error .notAscii

def ofText (text : String) : Except Failure String := (padded text Key.hexLength).map (tag ++ ·)

end Address
end CircuitHarness
