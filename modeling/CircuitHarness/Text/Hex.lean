/-! Bytes as pairs of hexadecimal digits. Writing is lower-case and without gaps; reading takes either
case and skips blanks between pairs, never inside one. -/
namespace CircuitHarness.Hex

def digitChar (n : Nat) : Char := if n < 10 then Char.ofNat (48+n) else Char.ofNat (87+n)

def digit? (c : Char) : Option Nat :=
  if '0' ≤ c ∧ c ≤ '9' then some (c.toNat-48)
  else if 'a' ≤ c ∧ c ≤ 'f' then some (c.toNat-87)
  else if 'A' ≤ c ∧ c ≤ 'F' then some (c.toNat-55)
  else none

def isBlank (c : Char) : Bool := c = ' ' || (9 ≤ c.toNat && c.toNat ≤ 13)

def byte (hi lo : Nat) : UInt8 := UInt8.ofNat (16*hi+lo)

def encodeChars : List UInt8 → List Char
  | [] => []
  | b :: r => digitChar (b.toNat/16) :: digitChar (b.toNat%16) :: encodeChars r

def encode (bs : List UInt8) : String := String.ofList (encodeChars bs)

/-- Reads pairs from position `n` on; a failure is the position of the character in the way, and for a
pair cut short the position after the last one. -/
def decodeFrom : Nat → List Char → Except Nat (List UInt8)
  | _, [] => .ok []
  | n, [c] => if isBlank c then .ok [] else if (digit? c).isNone then .error n else .error (n+1)
  | n, c :: d :: r =>
    if isBlank c then decodeFrom (n+1) (d :: r)
    else match digit? c, digit? d with
      | none, _ => .error n
      | some _, none => .error (n+1)
      | some hi, some lo => (decodeFrom (n+2) r).map (byte hi lo :: ·)

/-- A character beyond ASCII is reported before anything else is read. -/
def decode (s : String) : Except Nat (List UInt8) :=
  match s.toList.findIdx? (127 < ·.toNat) with
  | some n => .error n
  | none => decodeFrom 0 s.toList

def isDigit (c : Char) : Bool := (digit? c).isSome

end CircuitHarness.Hex
