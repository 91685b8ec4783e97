/-! Bytes read as UTF-8, one by one, up to the first that no text has in its place. -/
namespace CircuitHarness.Utf8

/-- A character in progress: what its bytes so far give, how many it still needs, and the bounds of the next. -/
structure Begun where
  code : Nat
  owed : Nat
  least : Nat
  most : Nat

/-- The bounds of a second byte keep out what could be written shorter, halves of surrogate pairs and what is too large. -/
def begin? (b : Nat) : Option Begun :=
  if b < 0x80 then some ⟨b, 0, 0, 0⟩
  else if b < 0xc2 then none
  else if b < 0xe0 then some ⟨b-0xc0, 1, 0x80, 0xbf⟩
  else if b < 0xf0 then some ⟨b-0xe0, 2, if b = 0xe0 then 0xa0 else 0x80, if b = 0xed then 0x9f else 0xbf⟩
  else if b < 0xf5 then some ⟨b-0xf0, 3, if b = 0xf0 then 0x90 else 0x80, if b = 0xf4 then 0x8f else 0xbf⟩
  else none

def Begun.next? (g : Begun) (b : Nat) : Option Begun :=
  if g.least ≤ b && b ≤ g.most then some ⟨64*g.code+(b-0x80), g.owed-1, 0x80, 0xbf⟩ else none

/-- The characters in front and the place of the first byte that is out of place, counted from `n`. An end inside a
character is out of place as well. -/
def decode : Nat → Option Begun → List UInt8 → List Char × Option Nat
  | _, none, [] => ([], none)
  | n, some _, [] => ([], some n)
  | n, g, b :: r =>
    match g.elim (begin? b.toNat) (·.next? b.toNat) with
    | none => ([], some n)
    | some g =>
      if g.owed = 0 then
        let (cs, bad) := decode (n+1) none r
        (Char.ofNat g.code :: cs, bad)
      else decode (n+1) (some g) r

end CircuitHarness.Utf8
