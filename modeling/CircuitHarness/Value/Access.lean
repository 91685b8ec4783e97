import CircuitHarness.Failure

/-! Looking into values: entries of a map, places in a sequence, fields of a record, and what a collection holds. -/
namespace CircuitHarness.Value

def place? (xs : List α) (n : Int) : Option α :=
  if 0 ≤ n then xs[n.toNat]? else if -n ≤ xs.length then xs[(xs.length+n).toNat]? else Option.none

def placeOf (k : Value) (xs : List α) : Except Failure α :=
  match k with
  | .int n => match place? xs n with
    | some x => .ok x
    | Option.none => .error .outOfRange
  | .bool b => match place? xs (if b then 1 else 0) with
    | some x => .ok x
    | Option.none => .error .outOfRange
  | _ => .error .wrongType

def entry (v k : Value) : Except Failure Value :=
  match v with
  | .map es =>
    if k.isHashable then match Keyed.get? k es with
      | some v => .ok v
      | Option.none => .error (.missingKey k)
    else .error .wrongType
  | .list xs | .tuple xs => placeOf k xs
  | .str s => (placeOf k s.toList).map fun c => .str (String.singleton c)
  | .codes cs => (placeOf k cs).map fun c => ofCodes [c]
  | .bytes bs => (placeOf k bs).map fun b => .int b.toNat
  | _ => .error .wrongType

def asText : Value → Except Failure String
  | .str s => .ok s
  | _ => .error .wrongType

/-- The text of a sender; one with halves of surrogate pairs in it is told apart from a key only when it is read. -/
def asSender : Value → Except Failure String
  | .codes cs => .ok (Surrogate.text cs)
  | v => v.asText

def items : Value → Except Failure (List Value)
  | .list xs | .tuple xs | .set xs => .ok xs
  | .map es => .ok (es.map (·.1))
  | .str s => .ok (s.toList.map fun c => .str (String.singleton c))
  | .codes cs => .ok (cs.map fun c => ofCodes [c])
  | .bytes bs => .ok (bs.map fun b => .int b.toNat)
  | _ => .error .wrongType

def asEntry (place : Nat) (v : Value) : Except Failure (Value × Value) := do
  match ← v.items with
  | [k, w] => if k.isHashable then return (k, w) else throw .wrongType
  | xs => throw (.badValue ("dictionary update sequence element #" ++ toString place ++ " has length " ++
      toString xs.length ++ "; 2 is required"))

def entries : Value → Except Failure Entries
  | .map es => .ok es
  | v => do
    (← v.items).zipIdx.foldlM (fun es x => do
      let (k, w) ← asEntry x.2 x.1
      return es.put k w) []

def field (name : String) : Value → Except Failure Value
  | .record _ fs => match field? name fs with
    | some v => .ok v
    | Option.none => .error .noAttribute
  | _ => .error .noAttribute

def sum (xs : List Value) : Except Failure Value := xs.foldlM add (.int 0)

end CircuitHarness.Value
