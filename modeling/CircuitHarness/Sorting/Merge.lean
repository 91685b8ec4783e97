import CircuitHarness.Sorting.Search

/-! Merging two runs. The shorter one is `near`, the other `far`, and the merge goes from the end at which `near` is to be
met first, so that for a merge from the back both are given reversed. A side that wins many times in a row is searched by
leaps instead of element by element. -/
namespace CircuitHarness.Sorting
variable {α ε : Type}

/-- Nothing is left to compare, since the last of the nearer run goes behind all of the other. -/
def settled (near far : List α) : Bool := far.isEmpty || near.length ≤ 1

/-- What a turn has put out and what it leaves, with the number of elements that went out together. -/
structure Turn (α : Type) where
  out : List α
  near : List α
  far : List α
  count : Nat

def nearTurn (wins : α → α → Except ε Bool) (back : Bool) (near far : List α) : Except ε (Turn α) :=
  match far with
  | [] => .ok ⟨[], near, [], 0⟩
  | y :: r => do
    let k ← lead (fun x => do return !(← wins y x)) back near
    if settled (near.drop k) far then return ⟨near.take k, near.drop k, far, k⟩
    else return ⟨near.take k ++ [y], near.drop k, r, k⟩

def farTurn (wins : α → α → Except ε Bool) (back : Bool) (near far : List α) : Except ε (Turn α) :=
  match near with
  | [] => .ok ⟨[], [], far, 0⟩
  | x :: r => do
    let k ← lead (fun y => wins y x) back far
    if settled near (far.drop k) then return ⟨far.take k, near, far.drop k, k⟩
    else return ⟨far.take k ++ [x], r, far.drop k, k⟩

/-- How many elements that go out together keep a merge leaping. -/
def leastLeap : Nat := 7

def before (out : List α) (r : List α × Nat) : List α × Nat := (out ++ r.1, r.2)

mutual
/-- One element at a time, until one side has won `m` times in a row; `won` says whether it is the farther one, and how
often it has. The first argument bounds the steps. -/
def pairwise (wins : α → α → Except ε Bool) (back : Bool) : Nat → Nat → Bool × Nat → List α → List α →
    Except ε (List α × Nat)
  | n+1, m, won, x :: near, y :: far =>
    if settled (x :: near) (y :: far) then .ok (y :: far ++ x :: near, m)
    else do
      let farther ← wins y x
      let k := if won.1 = farther then won.2+1 else 1
      let (out, near, far) := if farther then ([y], x :: near, far) else ([x], near, y :: far)
      before out <$> if m ≤ k then leaping wins back n m near far else pairwise wins back n m (farther, k) near far
  | _, m, _, near, far => .ok (far ++ near, m)
/-- By leaps, in turns, as long as they pay. Each round makes it easier to start leaping, the last one harder. -/
def leaping (wins : α → α → Except ε Bool) (back : Bool) : Nat → Nat → List α → List α → Except ε (List α × Nat)
  | n+1, m, near, far =>
    if settled near far then .ok (far ++ near, m)
    else do
      let a ← if back then farTurn wins back near far else nearTurn wins back near far
      if settled a.near a.far then return (a.out ++ a.far ++ a.near, m)
      let b ← if back then nearTurn wins back a.near a.far else farTurn wins back a.near a.far
      if settled b.near b.far then return (a.out ++ b.out ++ b.far ++ b.near, m)
      before (a.out ++ b.out) <$>
        if leastLeap ≤ a.count || leastLeap ≤ b.count then leaping wins back n (if 1 < m then m-1 else m) b.near b.far
        else pairwise wins back n (m+1) (true, 0) b.near b.far
  | 0, m, near, far => .ok (far ++ near, m)
end

def mergeFrom (wins : α → α → Except ε Bool) (back : Bool) (m : Nat) (near far : List α) : Except ε (List α × Nat) :=
  before (far.take 1) <$> pairwise wins back (near.length+far.length) m (true, 0) near (far.drop 1)

/-- Merges two runs, where `m` is how often one side has to win in a row before the merge leaps. What is in place already
at either end is left out. -/
def merge (lt : α → α → Except ε Bool) (m : Nat) (xs ys : List α) : Except ε (List α × Nat) := do
  match ys with
  | [] => return (xs, m)
  | y :: _ =>
    let k ← lead (fun x => do return !(← lt y x)) false xs
    match (xs.drop k).getLast? with
    | none => return (xs ++ ys, m)
    | some x =>
      let n := ys.length-(← lead (fun z => do return !(← lt z x)) true ys.reverse)
      let lower := xs.drop k
      let upper := ys.take n
      let (r, m) ←
        if upper.isEmpty then pure (lower, m)
        else if lower.length ≤ upper.length then mergeFrom lt false m lower upper
        else (fun r : List α × Nat => (r.1.reverse, r.2)) <$>
          mergeFrom (fun y x => lt x y) true m upper.reverse lower.reverse
      return (xs.take k ++ r ++ ys.drop n, m)

end CircuitHarness.Sorting
