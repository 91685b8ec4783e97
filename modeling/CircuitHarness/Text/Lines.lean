/-! Cutting text at line ends: line feed, carriage return, the two together, vertical tab, form feed,
the three information separators, next line, line separator and paragraph separator. -/
namespace CircuitHarness.Lines

def ends (c : Char) : Bool :=
  (10 ≤ c.toNat && c.toNat ≤ 13) || (28 ≤ c.toNat && c.toNat ≤ 30) || c.toNat = 0x85 ||
    c.toNat = 0x2028 || c.toNat = 0x2029

/-- `cur` holds the open line backwards; an open line without characters is no line. -/
def cut (cur : List Char) : List Char → List (List Char)
  | [] => if cur.isEmpty then [] else [cur.reverse]
  | '\r' :: '\n' :: r => cur.reverse :: cut [] r
  | c :: r => if ends c then cur.reverse :: cut [] r else cut (c :: cur) r

def cutBytes (cur : List UInt8) : List UInt8 → List (List UInt8)
  | [] => if cur.isEmpty then [] else [cur.reverse]
  | 13 :: 10 :: r => cur.reverse :: cutBytes [] r
  | b :: r => if b = 10 || b = 13 then cur.reverse :: cutBytes [] r else cutBytes (b :: cur) r

def split (s : String) : List String := (cut [] s.toList).map String.ofList

end CircuitHarness.Lines
