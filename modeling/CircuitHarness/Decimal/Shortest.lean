/-! The shortest decimal that reads back as a given double, and of those the nearest. A finite double is
`m * 2^q`; the decimals that read back as it fill an interval around it, ends included when `m` is even. -/
namespace CircuitHarness.Decimal

/-- The magnitude `mantissa * 2^exponent`; at the foot of a binade the neighbour below is half as far. -/
structure Binary where
  negative : Bool
  mantissa : Nat
  exponent : Int
  foot : Bool

def Binary.ofFloat? (x : Float) : Option Binary :=
  let bits : Nat := x.toBits.toNat
  let e : Nat := bits/Nat.pow 2 52%Nat.pow 2 11
  let f : Nat := bits%Nat.pow 2 52
  if e = 2047 then none
  else if e = 0 then some ⟨Nat.pow 2 63 ≤ bits, f, -1074, false⟩
  else some ⟨Nat.pow 2 63 ≤ bits, f+Nat.pow 2 52, (e : Int)-1075, f = 0 && 1 < e⟩

/-- Significant digits with the place of the point: `0.d₁d₂… * 10^point`. -/
structure Digits where
  digits : List Nat
  point : Int

def digitsOf : Nat → Nat → List Nat
  | 0, _ => []
  | n+1, k => if k < 10 then [k] else digitsOf n (k/10) ++ [k%10]

/-- The first `j` from `from` on with `den ≤ num * 10^j`. -/
def lift (num den : Nat) : Nat → Nat → Nat
  | 0, j => j
  | n+1, j => if den ≤ num*Nat.pow 10 j then j else lift num den n (j+1)

/-- The `k` with `10^(k-1) ≤ num/den < 10^k`. -/
def magnitude (num den : Nat) : Int :=
  if den ≤ num then (digitsOf 400 (num/den)).length else 1-(lift num den 400 1 : Int)

/-- The decimals `d * 10^place` next to `value`, those strictly or weakly between `lo` and `hi`; all over `den`. -/
def onGrid (lo value hi den : Nat) (closed : Bool) (place : Int) : Option Nat :=
  let up := Nat.pow 10 (-place).toNat
  let unit := den*Nat.pow 10 place.toNat
  let d := value*up/unit
  let inside (k : Nat) : Bool :=
    if closed then lo*up ≤ k*unit && k*unit ≤ hi*up else lo*up < k*unit && k*unit < hi*up
  match inside d, inside (d+1) with
  | true, false => some d
  | false, true => some (d+1)
  | false, false => none
  | true, true =>
    if 2*value*up < (2*d+1)*unit ∨ (2*value*up = (2*d+1)*unit ∧ d%2 = 0) then some d else some (d+1)

def searchGrids (lo value hi den : Nat) (closed : Bool) (k : Int) : Nat → Nat → Nat × Int
  | 0, n => (value*Nat.pow 10 (n-k).toNat/(den*Nat.pow 10 (k-n).toNat), k-n)
  | fuel+1, n =>
    match onGrid lo value hi den closed (k-n) with
    | some d => (d, k-n)
    | none => searchGrids lo value hi den closed k fuel (n+1)

def Binary.shortest (b : Binary) : Digits :=
  if b.mantissa = 0 then ⟨[0], 1⟩
  else
    let scale := Nat.pow 2 (b.exponent-2).toNat
    let den := Nat.pow 2 (2-b.exponent).toNat
    let value := 4*b.mantissa*scale
    let lo := (4*b.mantissa-(if b.foot then 1 else 2))*scale
    let hi := (4*b.mantissa+2)*scale
    let (d, place) := searchGrids lo value hi den (b.mantissa%2 = 0) (magnitude value den) 17 1
    let ds := digitsOf 400 d
    ⟨(ds.reverse.dropWhile (· = 0)).reverse, place+ds.length⟩

structure Layout where
  minPoint : Int
  maxPoint : Int
  exponentDigits : Nat

def Layout.standard : Layout := ⟨-3, 16, 2⟩

def digitText (ds : List Nat) : String := String.ofList (ds.map fun d => Char.ofNat (48+d))

def padLeft (w : Nat) (s : String) : String := String.ofList (List.replicate (w-s.length) '0') ++ s

def Layout.write (l : Layout) (d : Digits) : String :=
  let n : Int := d.digits.length
  if l.minPoint ≤ d.point ∧ d.point ≤ l.maxPoint then
    if d.point ≤ 0 then "0." ++ digitText (List.replicate (-d.point).toNat 0 ++ d.digits)
    else if n ≤ d.point then digitText (d.digits ++ List.replicate (d.point-n).toNat 0) ++ ".0"
    else digitText (d.digits.take d.point.toNat) ++ "." ++ digitText (d.digits.drop d.point.toNat)
  else
    let e := d.point-1
    let tail := match d.digits.drop 1 with
      | [] => ""
      | r => "." ++ digitText r
    digitText (d.digits.take 1) ++ tail ++ "e" ++ (if e < 0 then "-" else "+") ++
      padLeft l.exponentDigits (toString e.natAbs)

def write (x : Float) : String :=
  match Binary.ofFloat? x with
  | some b => (if b.negative then "-" else "") ++ Layout.standard.write b.shortest
  | none => if x.isNaN then "nan" else if x < 0 then "-inf" else "inf"

end CircuitHarness.Decimal
