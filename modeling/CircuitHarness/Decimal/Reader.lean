import CircuitHarness.Text.Numeral

/-! Reading decimals: an optional sign, digits around an optional point, an optional exponent; or the words
for infinity and for no number. Blanks around the whole are ignored. -/
namespace CircuitHarness.Decimal

def isDigit (c : Char) : Bool := '0' ≤ c && c ≤ '9'

def natOf (cs : List Char) : Nat := cs.foldl (fun n c => 10*n+(c.toNat-48)) 0

/-- Beyond these the result is zero or infinite whatever the digits. -/
def scaled (m : Nat) (digits : Nat) (e : Int) : Float :=
  if m = 0 then 0
  else if 400 < (digits : Int)+e then 1/0
  else if (digits : Int)+e < -400 then 0
  else if e < 0 then Float.ofScientific m true e.natAbs
  else Float.ofScientific m false e.natAbs

def exponent? : List Char → Option Int
  | [] => some 0
  | c :: r =>
    if c ≠ 'e' ∧ c ≠ 'E' then none
    else
      let (neg, ds) := match r with
        | '-' :: t => (true, t)
        | '+' :: t => (false, t)
        | t => (false, t)
      if ds.isEmpty || !ds.all isDigit then none
      else some (if neg then -(natOf ds : Int) else natOf ds)

def magnitude? (cs : List Char) : Option Float :=
  let whole := cs.takeWhile isDigit
  let (fraction, rest) := match cs.dropWhile isDigit with
    | '.' :: t => (t.takeWhile isDigit, t.dropWhile isDigit)
    | t => ([], t)
  if whole.isEmpty && fraction.isEmpty then none
  else (exponent? rest).map fun e =>
    let ds := (whole ++ fraction).dropWhile (· = '0')
    scaled (natOf ds) ds.length (e-fraction.length)

def word? (cs : List Char) : Option Float :=
  match String.ofList (cs.map Char.toLower) with
  | "inf" | "infinity" => some (1/0)
  | "nan" => some (0/0)
  | _ => none

def unsigned? (cs : List Char) : Option Float := word? cs <|> magnitude? cs

def isBlank (c : Char) : Bool := c = ' ' || (9 ≤ c.toNat && c.toNat ≤ 13)

def strip (cs : List Char) : List Char := ((cs.dropWhile isBlank).reverse.dropWhile isBlank).reverse

def read? (s : String) : Option Float :=
  match strip (s.toList.map Numeral.plain) with
  | '-' :: r => (unsigned? r).map (- ·)
  | '+' :: r => unsigned? r
  | r => unsigned? r

end CircuitHarness.Decimal
