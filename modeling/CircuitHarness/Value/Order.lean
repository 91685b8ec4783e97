import CircuitHarness.Text.Surrogate
import CircuitHarness.Value.Number

/-! When two values are the same, which of two comes first, and maps read and written by key. Maps and sets are
the same whatever the order of their entries. -/
namespace CircuitHarness
namespace Moment

def dayNumber (d : Day) : Int :=
  let y : Int := if d.month ≤ 2 then (d.year : Int)-1 else d.year
  let m : Int := if d.month ≤ 2 then (d.month : Int)+9 else (d.month : Int)-3
  365*y+y/4-y/100+y/400+(153*m+2)/5+d.day

/-- Microseconds in universal time, taking an unknown offset for zero. -/
def instant (m : Moment) : Int :=
  (((dayNumber m.day*24+m.hour)*60+m.minute-m.offset.getD 0)*60+m.second)*1000000+m.micro

def same (a b : Moment) : Bool := a.offset.isSome = b.offset.isSome && a.instant = b.instant

def less? (a b : Moment) : Option Bool :=
  if a.offset.isSome = b.offset.isSome then some (a.instant < b.instant) else none

end Moment

namespace Value

mutual
def same : Value → Value → Bool
  | .none, .none => true
  | .bool a, y => match Number.ofValue? y with
    | some n => (Number.exact (if a then 1 else 0)).same n
    | Option.none => false
  | .int a, y => match Number.ofValue? y with
    | some n => (Number.exact a).same n
    | Option.none => false
  | .float a, y => match Number.ofValue? y with
    | some n => (Number.double a).same n
    | Option.none => false
  | .nan i, .nan j => i = j
  | .str a, .str b => a = b
  | .codes a, .codes b => a = b
  | .bytes a, .bytes b => a = b
  | .list xs, .list ys => sameAll xs ys
  | .tuple xs, .tuple ys => sameAll xs ys
  | .map es, .map fs => es.length = fs.length && sameEntries es fs
  | .set xs, .set ys => xs.length = ys.length && allAmong xs ys
  | .day a, .day b => a = b
  | .moment a, .moment b => a.same b
  | .record t fs, .record u gs => t = u && sameFields fs gs
  | .fn i a _, .fn j b _ => i = j && a = b
  | .kind a, .kind b => a = b
  | _, _ => false
termination_by structural x => x
def sameAll : List Value → List Value → Bool
  | [], [] => true
  | x :: xs, y :: ys => same x y && sameAll xs ys
  | _, _ => false
termination_by structural x => x
def allAmong : List Value → List Value → Bool
  | [], _ => true
  | x :: xs, ys => ys.any (same x) && allAmong xs ys
termination_by structural x => x
def sameEntries : List (Value × Value) → List (Value × Value) → Bool
  | [], _ => true
  | (k, v) :: r, fs => (fs.any fun e => same k e.1 && same v e.2) && sameEntries r fs
termination_by structural x => x
def sameFields : List (String × Value) → List (String × Value) → Bool
  | [], [] => true
  | (k, v) :: r, (l, w) :: s => k = l && same v w && sameFields r s
  | _, _ => false
termination_by structural x => x
end

def bytesLess : List UInt8 → List UInt8 → Bool
  | [], [] => false
  | [], _ => true
  | _, [] => false
  | a :: r, b :: s => a < b || (a = b && bytesLess r s)

def ofCodes (cs : List Nat) : Value :=
  if cs.any Surrogate.isHalf then .codes cs else .str (String.ofList (cs.map Char.ofNat))

def codes? : Value → Option (List Nat)
  | .str s => some (s.toList.map Char.toNat)
  | .codes cs => some cs
  | _ => Option.none

mutual
/-- Whether the first comes before the second; `none` for kinds of values without a common order. -/
def less? : Value → Value → Option Bool
  | .str a, .str b => some (a < b)
  | .bytes a, .bytes b => some (bytesLess a b)
  | .list xs, .list ys => lessAll? xs ys
  | .tuple xs, .tuple ys => lessAll? xs ys
  | .set xs, .set ys => some (xs.length < ys.length && allAmong xs ys)
  | .day a, .day b => some (Moment.dayNumber a < Moment.dayNumber b)
  | .moment a, .moment b => a.less? b
  | x, y => match Number.ofValue? x, Number.ofValue? y, codes? x, codes? y with
    | some a, some b, _, _ => some (a.less b)
    | _, _, some a, some b => some (a < b)
    | _, _, _, _ => Option.none
termination_by structural x => x
def lessAll? : List Value → List Value → Option Bool
  | [], ys => some !ys.isEmpty
  | _ :: _, [] => some false
  | x :: xs, y :: ys => if same x y then lessAll? xs ys else less? x y
termination_by structural x => x
end

abbrev Keyed (β : Type) := List (Value × β)

namespace Keyed
variable {β : Type}

def get? (k : Value) (es : Keyed β) : Option β := (es.find? fun e => same e.1 k).map (·.2)

/-- A key already there keeps its place and its spelling. -/
def put (k : Value) (v : β) : Keyed β → Keyed β
  | [] => [(k, v)]
  | (l, w) :: r => if same l k then (l, v) :: r else (l, w) :: put k v r

def ofList (es : List (Value × β)) : Keyed β := es.foldl (fun acc e => acc.put e.1 e.2) []

end Keyed

abbrev Entries := Keyed Value

def distinct (xs : List Value) : List Value :=
  xs.foldl (fun acc x => if acc.any (same · x) then acc else acc ++ [x]) []

end Value
end CircuitHarness
