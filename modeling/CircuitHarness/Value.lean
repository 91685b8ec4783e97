/-! The values that circuits, witnesses and option files exchange. -/
namespace CircuitHarness

inductive CircuitKind where
  | pure
  | impure
deriving DecidableEq, Repr

def CircuitKind.name : CircuitKind → String
  | .pure => "pure"
  | .impure => "impure"

structure Day where
  year : Nat
  month : Nat
  day : Nat
deriving DecidableEq

structure Moment where
  day : Day
  hour : Nat
  minute : Nat
  second : Nat
  micro : Nat
  offset : Option Int
deriving DecidableEq

structure Mark where
  maker : Nat
  serial : Nat
deriving DecidableEq

/-- What tells apart values that are the same as nothing but themselves: the place where one was written, the run that
made it from what was written there, and how many sums it has gone through since. What was written at place zero is one
and the same everywhere. -/
structure Identity where
  place : Nat
  run : Option Mark
  sums : Nat
deriving DecidableEq

def Identity.written (place : Nat) : Identity := ⟨place, none, 0⟩

def Identity.renew (run : Mark) (i : Identity) : Identity := if i.place = 0 then i else { i with run := some run }

/-- `map` keeps its entries in the order they were first given, a `record` is a typed bundle of named fields and
a `fn` something that can be called, known by a label and the data it was made from. A `float` is a number, and `nan` is
none; `codes` is a text that has halves of surrogate pairs among its code points. -/
inductive Value where
  | none
  | bool (b : Bool)
  | int (n : Int)
  | float (x : Float)
  | nan (identity : Identity)
  | str (s : String)
  | codes (cs : List Nat)
  | bytes (bs : List UInt8)
  | list (xs : List Value)
  | tuple (xs : List Value)
  | map (entries : List (Value × Value))
  | set (xs : List Value)
  | day (d : Day)
  | moment (m : Moment)
  | record (type : String) (fields : List (String × Value))
  | fn (identity : Identity) (label : String) (made : List (String × Value))
  | kind (k : CircuitKind)
deriving Inhabited

namespace Value

def isCallable : Value → Bool
  | .fn .. => true
  | _ => false

def typeName : Value → String
  | .none => "NoneType"
  | .bool _ => "bool"
  | .int _ => "int"
  | .float _ | .nan _ => "float"
  | .str _ | .codes _ => "str"
  | .bytes _ => "bytes"
  | .list _ => "list"
  | .tuple _ => "tuple"
  | .map _ => "dict"
  | .set _ => "set"
  | .day _ => "date"
  | .moment _ => "datetime"
  | .record t _ => t
  | .fn .. => "function"
  | .kind _ => "CircuitKind"

def isTruthy : Value → Bool
  | .none => false
  | .bool b => b
  | .int n => n ≠ 0
  | .float x => x != 0
  | .str s => s ≠ ""
  | .codes cs => !cs.isEmpty
  | .bytes bs => !bs.isEmpty
  | .list xs | .tuple xs | .set xs => !xs.isEmpty
  | .map es => !es.isEmpty
  | _ => true

def ofFloat (identity : Identity) (x : Float) : Value := if x.isNaN then .nan identity else .float x

def field? (name : String) (fs : List (String × Value)) : Option Value := (fs.find? (·.1 = name)).map (·.2)

def ofOption : Option Value → Value
  | some v => v
  | Option.none => .none

mutual
def isHashable : Value → Bool
  | .list _ | .map _ | .set _ => false
  | .tuple xs => allHashable xs
  | .record _ fs => fieldsHashable fs
  | _ => true
termination_by structural x => x
def allHashable : List Value → Bool
  | [] => true
  | x :: r => isHashable x && allHashable r
termination_by structural x => x
def fieldsHashable : List (String × Value) → Bool
  | [] => true
  | (_, x) :: r => isHashable x && fieldsHashable r
termination_by structural x => x
end

mutual
def renew (run : Mark) : Value → Value
  | .nan i => .nan (i.renew run)
  | .fn i l fs => .fn (i.renew run) l fs
  | .list xs => .list (renewAll run xs)
  | .tuple xs => .tuple (renewAll run xs)
  | .set xs => .set (renewAll run xs)
  | .map es => .map (renewEntries run es)
  | .record t fs => .record t (renewFields run fs)
  | v => v
termination_by structural x => x
def renewAll (run : Mark) : List Value → List Value
  | [] => []
  | x :: r => renew run x :: renewAll run r
termination_by structural x => x
def renewEntries (run : Mark) : List (Value × Value) → List (Value × Value)
  | [] => []
  | (k, v) :: r => (renew run k, renew run v) :: renewEntries run r
termination_by structural x => x
def renewFields (run : Mark) : List (String × Value) → List (String × Value)
  | [] => []
  | (k, v) :: r => (k, renew run v) :: renewFields run r
termination_by structural x => x
end

end Value
end CircuitHarness
