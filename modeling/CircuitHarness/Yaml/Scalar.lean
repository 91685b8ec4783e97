import CircuitHarness.Decimal.Reader
import CircuitHarness.Value
import CircuitHarness.Yaml.Token.Cursor

/-! Plain scalars: which tag the text alone gives, and the value of a text under a tag. -/
namespace CircuitHarness.Yaml

inductive Tag where
  | null
  | bool
  | int
  | float
  | binary
  | timestamp
  | omap
  | pairs
  | set
  | str
  | seq
  | map
  | merge
  | value
  | unknown
deriving DecidableEq, Inhabited

namespace Tag

def domain : String := "tag:yaml.org,2002:"

def named : List (String × Tag) :=
  [("null", .null), ("bool", .bool), ("int", .int), ("float", .float), ("binary", .binary), ("timestamp", .timestamp),
    ("omap", .omap), ("pairs", .pairs), ("set", .set), ("str", .str), ("seq", .seq), ("map", .map), ("merge", .merge),
    ("value", .value)]

def ofText (s : String) : Tag := ((named.find? fun n => domain ++ n.1 = s).map (·.2)).getD .unknown

end Tag

namespace Scalar

/-! Matching. Every pattern takes the whole text, save one line feed at the end. -/

def isDigit_ (c : Char) : Bool := c.isDigit || c = '_'
def isSign (c : Char) : Bool := c = '+' || c = '-'
def unsigned (cs : List Char) : List Char := if (cs.head?.map isSign).getD false then cs.drop 1 else cs

def sixties : List Char → Option (List Char)
  | ':' :: a :: b :: r =>
    if a.isDigit && a < '6' && b.isDigit then match r with
      | ':' :: _ => sixties r
      | _ => some r
    else if a.isDigit then match b :: r with
      | ':' :: _ => sixties (b :: r)
      | _ => some (b :: r)
    else none
  | [':', a] => if a.isDigit then some [] else none
  | _ => none

def isBoolText (s : String) : Bool :=
  ["yes", "Yes", "YES", "no", "No", "NO", "true", "True", "TRUE", "false", "False", "FALSE", "on", "On", "ON", "off",
    "Off", "OFF"].contains s

def isExponent : List Char → Bool
  | [] => true
  | e :: s :: r => (e = 'e' || e = 'E') && isSign s && !r.isEmpty && r.all Char.isDigit
  | _ => false

def isFraction (cs : List Char) : Bool := isExponent (cs.dropWhile isDigit_)

def isFloatText (cs : List Char) : Bool :=
  let body := unsigned cs
  let whole := body.takeWhile isDigit_
  let infinite := [".inf", ".Inf", ".INF"].contains (String.ofList body)
  let notNumber := [".nan", ".NaN", ".NAN"].contains (String.ofList cs)
  let leading := match cs with
    | '.' :: d :: r => d.isDigit && isFraction r
    | _ => false
  let pointed := (whole.head?.map Char.isDigit).getD false && match body.drop whole.length with
    | '.' :: r => isFraction r
    | ':' :: r => match sixties (':' :: r) with
      | some ('.' :: t) => t.all isDigit_
      | _ => false
    | _ => false
  infinite || notNumber || leading || pointed

def isBinaryDigit (c : Char) : Bool := c = '0' || c = '1' || c = '_'
def isOctalDigit (c : Char) : Bool := ('0' ≤ c && c ≤ '7') || c = '_'

def isIntText (cs : List Char) : Bool :=
  match unsigned cs with
  | ['0'] => true
  | '0' :: 'b' :: r => !r.isEmpty && r.all isBinaryDigit
  | '0' :: 'x' :: r => !r.isEmpty && r.all fun c => isHexDigit c || c = '_'
  | '0' :: r => r.all isOctalDigit
  | c :: r =>
    c.isDigit && match r.dropWhile isDigit_ with
      | [] => true
      | t => sixties t == some []
  | [] => false

def isNullText (s : String) : Bool := ["~", "null", "Null", "NULL", ""].contains s

/-- One or two digits and what is behind them. Both readings of two digits are needed nowhere, since none of the
patterns has a digit next. -/
def oneOrTwo : List Char → Option (Nat × List Char)
  | a :: b :: r => if a.isDigit then if b.isDigit then some (numberOf 10 [a, b], r) else some (numberOf 10 [a], b :: r)
      else none
  | [a] => if a.isDigit then some (numberOf 10 [a], []) else none
  | [] => none

def two : List Char → Option (Nat × List Char)
  | a :: b :: r => if a.isDigit && b.isDigit then some (numberOf 10 [a, b], r) else none
  | _ => none

def four (cs : List Char) : Option (Nat × List Char) :=
  let ds := cs.take 4
  if ds.length = 4 && ds.all Char.isDigit then some (numberOf 10 ds, cs.drop 4) else none

def expect (x : Char) : List Char → Option (List Char)
  | [] => none
  | c :: r => if c = x then some r else none

inductive Zone where
  | none
  | universal
  | offset (negative : Bool) (hours minutes : Nat)

structure Stamp where
  year : Nat
  month : Nat
  day : Nat
  time : Option (Nat × Nat × Nat × List Char × Zone)
  /-- Whether month and day have two digits each. -/
  padded : Bool

def blank (c : Char) : Bool := c = ' ' || c = '\t'

def zone? (cs : List Char) : Option Zone :=
  if cs.isEmpty then some .none
  else match cs.dropWhile blank with
    | ['Z'] => some .universal
    | s :: r =>
      if isSign s then do
        let (h, r) ← oneOrTwo r
        match r with
        | [] => some (.offset (s = '-') h 0)
        | ':' :: t => do
          let (m, t) ← two t
          if t.isEmpty then some (.offset (s = '-') h m) else none
        | _ => none
      else none
    | [] => none

def time? (cs : List Char) : Option (Nat × Nat × Nat × List Char × Zone) := do
  let cs ← match cs with
    | 'T' :: r | 't' :: r => some r
    | c :: _ => if blank c then some (cs.dropWhile blank) else none
    | [] => none
  let (h, cs) ← oneOrTwo cs
  let (m, cs) ← two (← expect ':' cs)
  let (s, cs) ← two (← expect ':' cs)
  let (fraction, cs) := match cs with
    | '.' :: r => (r.takeWhile Char.isDigit, r.dropWhile Char.isDigit)
    | r => ([], r)
  return (h, m, s, fraction, ← zone? cs)

def stamp? (cs : List Char) : Option Stamp := do
  let (year, cs) ← four cs
  let cs ← expect '-' cs
  let (month, rest) ← oneOrTwo cs
  let tail ← expect '-' rest
  let (day, last) ← oneOrTwo tail
  let padded : Bool := rest.length+2 = cs.length && last.length+2 = tail.length
  if last.isEmpty then return ⟨year, month, day, none, padded⟩
  else return ⟨year, month, day, some (← time? last), padded⟩

def isStampText (cs : List Char) : Bool :=
  match stamp? cs with
  | some t => t.time.isSome || t.padded
  | none => false

def trimmed (cs : List Char) : List Char := if cs.getLast? = some '\n' then cs.dropLast else cs

/-- The tag of an untagged plain text. A pattern is tried only if the text starts as its texts do. -/
def resolve (text : String) : Tag :=
  let cs := trimmed text.toList
  let s := String.ofList cs
  let numeric := match text.toList with
    | c :: _ => c.isDigit || among "-+." c
    | [] => false
  if isBoolText s then .bool
  else if numeric && isFloatText cs then .float
  else if numeric && isIntText cs then .int
  else if s = "<<" then .merge
  else if isNullText s && (s ≠ "" || text = "") then .null
  else if isStampText cs then .timestamp
  else if s = "=" then .value
  else if ["!", "&", "*"].contains s then .unknown
  else .str

/-! Values. -/

def boolOf (s : String) : Except Fault Value :=
  match String.ofList (s.toList.map Char.toLower) with
  | "yes" | "true" | "on" => .ok (.bool true)
  | "no" | "false" | "off" => .ok (.bool false)
  | _ => .error .missingKey

/-- A number to a base: blanks around it, a sign and the base's mark are allowed. Too many decimal digits are not. -/
def natural (base : Nat) (mark : Option Char) (cs : List Char) : Except Fault Nat :=
  let ds := match cs with
    | '0' :: m :: r => if mark = some m.toLower then r else cs
    | _ => cs
  if ds.isEmpty || !(ds.all fun c => isHexDigit c && hexValue c < base) then .error .badValue
  else if base = 10 && digitLimit < ds.length then .error .badValue
  else .ok (numberOf base ds)

def integer (base : Nat) (mark : Option Char) (cs : List Char) : Except Fault Int :=
  match Decimal.strip (cs.map Numeral.plain) with
  | '-' :: r => (natural base mark r).map fun n => -(n : Int)
  | '+' :: r => (natural base mark r).map fun n => (n : Int)
  | r => (natural base mark r).map fun n => (n : Int)

def splitColons (cs : List Char) : List (List Char) := cs.splitOn ':'

def signed (negative : Bool) (n : Int) : Value := .int (if negative then -n else n)

def intOf (s : String) : Except Fault Value := do
  let cs := s.toList.filter (· ≠ '_')
  match cs with
  | [] => throw .outOfRange
  | c :: _ =>
    let negative : Bool := c = '-'
    let body := unsigned cs
    match body with
    | [] => throw .outOfRange
    | ['0'] => return .int 0
    | '0' :: 'b' :: r => return signed negative (← integer 2 (some 'b') r)
    | '0' :: 'x' :: r => return signed negative (← integer 16 (some 'x') r)
    | '0' :: _ => return signed negative (← integer 8 (some 'o') body)
    | _ =>
      if body.contains ':' then do
        let parts ← (splitColons body).mapM (integer 10 none)
        return signed negative (parts.foldl (fun n d => 60*n+d) 0)
      else return signed negative (← integer 10 none body)

def read (cs : List Char) : Except Fault Float :=
  match Decimal.read? (String.ofList cs) with
  | some x => .ok x
  | none => .error .badValue

/-- Groups of sixty, the last of which counts ones. What a group counts has to be within the range of doubles. -/
def ofSixties (parts : List Float) : Except Fault Float := do
  let (total, _) ← parts.reverse.foldlM (fun (t, n) d => do
    let x := Float.ofInt n
    if x.isInf then throw .tooLarge
    return (t+d*x, 60*n)) ((0 : Float), (1 : Int))
  return total

/-- What is no number is the same everywhere if written with the point, and else a value of its own. -/
def floatOf (own : Identity) (s : String) : Except Fault Value := do
  let cs := (s.toList.filter (· ≠ '_')).map Char.toLower
  match cs with
  | [] => throw .outOfRange
  | c :: _ =>
    let sign (x : Float) : Value := .ofFloat own (if c = '-' then -x else x)
    let body := unsigned cs
    match String.ofList body with
    | ".inf" => return sign (1/0)
    | ".nan" => return .nan (.written 0)
    | _ =>
      if body.contains ':' then return sign (← ofSixties (← (splitColons body).mapM read))
      else return sign (← read body)

def sextet? (c : Char) : Option Nat :=
  if 'A' ≤ c && c ≤ 'Z' then some (c.toNat-65)
  else if 'a' ≤ c && c ≤ 'z' then some (c.toNat-71)
  else if c.isDigit then some (c.toNat+4)
  else if c = '+' then some 62
  else if c = '/' then some 63
  else none

/-- Six bits a character, skipping all others. `place` counts characters in the group of four and `left` keeps their
bits not yet written; two paddings in a row, or one behind three characters, end the text. -/
def sextets : Nat → Nat → Nat → List Char → Except Fault (List UInt8)
  | place, _, _, [] => if place = 0 then .ok [] else refuse "failed to decode base64 data"
  | place, left, pads, c :: r =>
    if c = '=' then
      if 2 ≤ place then if 4 ≤ place+pads+1 then .ok [] else sextets place left (pads+1) r
      else sextets place left pads r
    else match sextet? c with
      | none => sextets place left pads r
      | some n => match place with
        | 0 => sextets 1 n 0 r
        | 1 => (sextets 2 (n%16) 0 r).map (UInt8.ofNat (4*left+n/16) :: ·)
        | 2 => (sextets 3 (n%4) 0 r).map (UInt8.ofNat (16*left+n/4) :: ·)
        | _ => (sextets 0 0 0 r).map (UInt8.ofNat (64*left+n) :: ·)

def binaryOf (s : String) : Except Fault Value :=
  if s.toList.all (·.toNat < 128) then (sextets 0 0 0 s.toList).map .bytes
  else refuse "failed to convert base64 data into ascii"

def isLeap (y : Nat) : Bool := y%4 = 0 && (y%100 ≠ 0 || y%400 = 0)

def daysIn (y m : Nat) : Nat :=
  match m with
  | 2 => if isLeap y then 29 else 28
  | 4 | 6 | 9 | 11 => 30
  | _ => 31

def dayOf (y m d : Nat) : Except Fault Day :=
  if 1 ≤ y && 1 ≤ m && m ≤ 12 && 1 ≤ d && d ≤ daysIn y m then .ok ⟨y, m, d⟩ else .error .badValue

def offsetOf : Zone → Except Fault (Option Int)
  | .none => .ok none
  | .universal => .ok (some 0)
  | .offset negative h m =>
    let n : Int := 60*h+m
    if 1440 ≤ n then .error .badValue else .ok (some (if negative then -n else n))

def microOf (fraction : List Char) : Nat := numberOf 10 ((fraction ++ List.replicate 6 '0').take 6)

def stampOf (s : String) : Except Fault Value :=
  match stamp? (trimmed s.toList) with
  | none => .error .noAttribute
  | some t => match t.time with
    | none => (dayOf t.year t.month t.day).map .day
    | some (h, m, sec, fraction, zone) => do
      let offset ← offsetOf zone
      let day ← dayOf t.year t.month t.day
      if 24 ≤ h || 60 ≤ m || 60 ≤ sec then throw .badValue
      return .moment ⟨day, h, m, sec, microOf fraction, offset⟩

end Scalar
end CircuitHarness.Yaml
