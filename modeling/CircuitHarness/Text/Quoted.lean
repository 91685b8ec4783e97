import CircuitHarness.Text.Hex
import CircuitHarness.Text.Printable
import CircuitHarness.Text.Surrogate

/-! Quoted text. Single quotes are used unless the text has one and no double quote; the quote in use, the
backslash and what does not print are escaped. -/
namespace CircuitHarness.Quoted

def mark (cs : List Char) : Char := if cs.contains '\'' && !cs.contains '"' then '"' else '\''

def digits : Nat → Nat → List Char
  | 0, _ => []
  | w+1, n => digits w (n/16) ++ [Hex.digitChar (n%16)]

def hexEscape (n : Nat) : List Char :=
  if n < 0x100 then '\\' :: 'x' :: digits 2 n
  else if n < 0x10000 then '\\' :: 'u' :: digits 4 n
  else '\\' :: 'U' :: digits 8 n

def escape (q : Char) (prints : Char → Bool) (c : Char) : List Char :=
  if c = q ∨ c = '\\' then ['\\', c]
  else if c = '\n' then ['\\', 'n']
  else if c = '\r' then ['\\', 'r']
  else if c = '\t' then ['\\', 't']
  else if prints c then [c]
  else hexEscape c.toNat

def quote (prints : Char → Bool) (cs : List Char) : List Char :=
  mark cs :: cs.flatMap (escape (mark cs) prints) ++ [mark cs]

def text (s : String) : String := String.ofList (quote Printable.isPrintable s.toList)

def codes (cs : List Nat) : String :=
  let q := mark ((cs.filter fun n => !Surrogate.isHalf n).map Char.ofNat)
  String.ofList (q :: cs.flatMap (fun n => if Surrogate.isHalf n then hexEscape n
    else escape q Printable.isPrintable (Char.ofNat n)) ++ [q])

def bytes (bs : List UInt8) : String :=
  String.ofList ('b' :: quote (fun c => 32 ≤ c.toNat && c.toNat < 127) (bs.map fun b => Char.ofNat b.toNat))

end CircuitHarness.Quoted
