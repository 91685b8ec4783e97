/-! Where a sequence that first passes a test begins to fail it. A test may itself fail, and that ends the search, so
which elements are tested is part of the result. -/
namespace CircuitHarness.Sorting
variable {α ε : Type}

def testAt (p : α → Except ε Bool) (xs : List α) (i : Nat) : Except ε Bool :=
  match xs[i]? with
  | some x => p x
  | none => .ok false

/-- The first place among `lo..hi` that fails the test, by halving. Of two middle places the upper one is tested, or the
lower one when `xs` stands for a sequence read from its back; `n` bounds the halvings. -/
def halve (p : α → Except ε Bool) (back : Bool) (xs : List α) : Nat → Nat → Nat → Except ε Nat
  | 0, lo, _ => .ok lo
  | n+1, lo, hi =>
    if lo < hi then do
      let mid := (lo+hi-if back then 1 else 0)/2
      if ← testAt p xs mid then halve p back xs n (mid+1) hi else halve p back xs n lo mid
    else .ok lo

/-- Tests the places 1, 3, 7 and so on: the last one that passed and the first one that is not known to. -/
def leap (p : α → Except ε Bool) (xs : List α) : Nat → Nat → Nat → Except ε (Nat × Nat)
  | 0, last, next => .ok (last, next)
  | n+1, last, next =>
    if next < xs.length then do
      if ← testAt p xs next then leap p xs n next (2*next+1) else return (last, next)
    else .ok (last, xs.length)

def lead (p : α → Except ε Bool) (back : Bool) (xs : List α) : Except ε Nat := do
  if ← testAt p xs 0 then
    let (last, next) ← leap p xs xs.length 0 1
    halve p back xs xs.length (last+1) next
  else return 0

end CircuitHarness.Sorting
