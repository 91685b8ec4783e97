/-! The characters of numbers. A decimal digit of any script counts as the ASCII digit of its value, and a blank of any
kind as a space. -/
namespace CircuitHarness.Numeral

def zeros : List Nat := [
  0x660, 0x6f0, 0x7c0, 0x966, 0x9e6, 0xa66, 0xae6, 0xb66, 0xbe6, 0xc66, 0xce6, 0xd66, 0xde6, 0xe50, 0xed0,
  0xf20, 0x1040, 0x1090, 0x17e0, 0x1810, 0x1946, 0x19d0, 0x1a80, 0x1a90, 0x1b50, 0x1bb0, 0x1c40, 0x1c50,
  0xa620, 0xa8d0, 0xa900, 0xa9d0, 0xa9f0, 0xaa50, 0xabf0, 0xff10, 0x104a0, 0x10d30, 0x11066, 0x110f0, 0x11136,
  0x111d0, 0x112f0, 0x11450, 0x114d0, 0x11650, 0x116c0, 0x11730, 0x118e0, 0x11950, 0x11c50, 0x11d50, 0x11da0,
  0x16a60, 0x16ac0, 0x16b50, 0x1d7ce, 0x1d7d8, 0x1d7e2, 0x1d7ec, 0x1d7f6, 0x1e140, 0x1e2f0, 0x1e950, 0x1fbf0]

def isBlank (n : Nat) : Bool :=
  [0x85, 0xa0, 0x1680, 0x2028, 0x2029, 0x202f, 0x205f, 0x3000].contains n || (0x2000 ≤ n && n ≤ 0x200a)

/-- What else lies beyond ASCII has no place in a number, and neither has a question mark. -/
def plain (c : Char) : Char :=
  let n := c.toNat
  if n < 0x80 then c
  else if isBlank n then ' '
  else match zeros.find? fun z => z ≤ n && n < z+10 with
    | some z => Char.ofNat (n-z+48)
    | none => '?'

end CircuitHarness.Numeral
