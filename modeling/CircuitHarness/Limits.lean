/-! How deep things can go on a stack of a certain size. -/
namespace CircuitHarness

/-- How many calls of circuits may be open at once, how deep a value can be copied, and how deep a file's nodes, the
mappings merged in it and its value keys may lie in one another. The place of what is found under a text can always be
copied. -/
class Limits where
  calls : Nat
  copies : Nat
  nodes : Nat
  merges : Nat
  scalars : Nat
  roomy : 14 ≤ copies

instance : Limits := ⟨240, 985, 488, 985, 982, by decide⟩

end CircuitHarness
