import CircuitHarness.Sorting.Merge

/-! Sorting by a comparison that may fail. The elements fall into runs that ascend, or strictly descend and are reversed;
short runs are filled up by insertion, and neighbours are merged so that the merges stay balanced. The first comparison
that fails ends the sort, so which elements are compared is part of the result. -/
namespace CircuitHarness.Sorting
variable {α ε : Type}

def runLength (lt : α → α → Except ε Bool) (want : Bool) : α → List α → Except ε Nat
  | _, [] => .ok 0
  | p, x :: r => do
    if (← lt x p) = want then return (← runLength lt want x r)+1 else return 0

def insertAll (lt : α → α → Except ε Bool) : List α → List α → Except ε (List α)
  | xs, [] => .ok xs
  | xs, x :: r => do
    let i ← halve (fun y => do return !(← lt x y)) false xs (xs.length+1) 0 xs.length
    insertAll lt (xs.take i ++ x :: xs.drop i) r

def nextRun (lt : α → α → Except ε Bool) (least : Nat) : List α → Except ε (List α × List α)
  | x :: y :: r => do
    let down ← lt y x
    let n ← runLength lt down y r
    let run := x :: y :: r.take n
    let more := least-(n+2)
    return (← insertAll lt (if down then run.reverse else run) ((r.drop n).take more), (r.drop n).drop more)
  | xs => .ok (xs, [])

/-- A sorted run, the place where it starts, and the power of the seam between it and the next. -/
structure Run (α : Type) where
  start : Nat
  items : List α
  power : Nat

/-- The power of a seam is the number of the first binary place in which the middles of the runs beside it differ, as
parts of the whole; `a` and `b` are twice the middles. The first argument bounds the places. -/
def seamPower (total : Nat) : Nat → Nat → Nat → Nat
  | 0, _, _ => 1
  | n+1, a, b =>
    if total ≤ a then seamPower total n (2*(a-total)) (2*(b-total))+1
    else if total ≤ b then 1
    else seamPower total n (2*a) (2*b)+1

/-- Merges the last run with those before it whose seams are of higher power than the one behind it. -/
def collapse (lt : α → α → Except ε Bool) (power : Nat) : Nat → Run α → List (Run α) → Except ε (List (Run α) × Nat)
  | m, last, r :: rs =>
    if power < r.power then do
      let (xs, m) ← merge lt m r.items last.items
      collapse lt power m ⟨r.start, xs, power⟩ rs
    else .ok ({ last with power := power } :: r :: rs, m)
  | m, last, [] => .ok ([{ last with power := power }], m)

def addRun (lt : α → α → Except ε Bool) (total m : Nat) (runs : List (Run α)) (xs : List α) :
    Except ε (List (Run α) × Nat) := do
  match runs with
  | [] => return ([⟨0, xs, 0⟩], m)
  | last :: rs =>
    let a := 2*last.start+last.items.length
    let power := seamPower total total a (a+last.items.length+xs.length)
    let (rs, m) ← collapse lt power m last rs
    return (⟨last.start+last.items.length, xs, 0⟩ :: rs, m)

/-- Merges all that is left, last runs first unless the one before the two is the shortest. -/
def finish (lt : α → α → Except ε Bool) : Nat → Nat → List (Run α) → Except ε (List α)
  | n+1, m, c :: b :: a :: rs =>
    if a.items.length < c.items.length then do
      let (xs, m) ← merge lt m a.items b.items
      finish lt n m (c :: { a with items := xs } :: rs)
    else do
      let (xs, m) ← merge lt m b.items c.items
      finish lt n m ({ b with items := xs } :: a :: rs)
  | _, m, [c, b] => Prod.fst <$> merge lt m b.items c.items
  | _, _, rs => .ok (rs.reverse.flatMap Run.items)

def sortRuns (lt : α → α → Except ε Bool) (total least : Nat) : Nat → Nat → List (Run α) → List α →
    Except ε (List α)
  | n+1, m, runs, x :: r => do
    let (xs, r) ← nextRun lt least (x :: r)
    let (runs, m) ← addRun lt total m runs xs
    sortRuns lt total least n m runs r
  | _, m, runs, xs => do return (← finish lt runs.length m runs) ++ xs

/-- How long a run has to be: the number of elements, halved until it is below 64 and then rounded up if any halving was
not even. The first argument bounds the halvings. -/
def leastRun : Nat → Bool → Nat → Nat
  | k+1, odd, n => if n < 64 then (if odd then n+1 else n) else leastRun k (odd || n % 2 = 1) (n/2)
  | 0, _, n => n

def sort (lt : α → α → Except ε Bool) (xs : List α) : Except ε (List α) :=
  sortRuns lt xs.length (leastRun xs.length false xs.length) xs.length leastLeap [] xs

end CircuitHarness.Sorting
