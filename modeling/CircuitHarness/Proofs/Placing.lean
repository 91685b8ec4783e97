import CircuitHarness.Proofs.Sorting

/-! A list in order, sorted again with one more element behind it. The sort puts that element in its place and leaves the
others as they are, by insertion or, where the list is long, by a merge with a run of one. -/
namespace CircuitHarness.Sorting
variable {α ε : Type}

/-- The first `k` elements pass the test, the others fail it. -/
structure Split (p : α → Except ε Bool) (xs : List α) (k : Nat) : Prop where
  le : k ≤ xs.length
  pass : ∀ x ∈ xs.take k, p x = .ok true
  fail : ∀ x ∈ xs.drop k, p x = .ok false

section
variable {p : α → Except ε Bool} {xs : List α} {k : Nat} (h : Split p xs k)
include h

theorem Split.testAt (i : Nat) : testAt p xs i = .ok (decide (i < k)) := by
  rw [Sorting.testAt]
  cases hx : xs[i]? with
  | none =>
    have hi : ¬i < k := by
      have hlen := List.getElem?_eq_none_iff.mp hx
      have hle := h.le
      omega
    simp [hi]
  | some x =>
    by_cases hi : i < k
    · have hmem : x ∈ xs.take k := List.mem_of_getElem? (by rw [List.getElem?_take_of_lt hi, hx])
      simp [h.pass x hmem, hi]
    · have hmem : x ∈ xs.drop k := by
        refine List.mem_of_getElem? (i := i-k) ?_
        rw [List.getElem?_drop, Nat.add_sub_cancel' (Nat.le_of_not_lt hi), hx]
      simp [h.fail x hmem, hi]

theorem Split.halve (back : Bool) (n lo hi : Nat) (hlo : lo ≤ k) (hhi : k ≤ hi) (hn : hi-lo ≤ n) :
    halve p back xs n lo hi = .ok k := by
  induction n generalizing lo hi with
  | zero =>
    have hk : lo = k := by omega
    rw [Sorting.halve, hk]
  | succ n ih =>
    rw [Sorting.halve]
    split
    · dsimp only
      generalize hmid : (lo+hi-if back = true then 1 else 0)/2 = mid
      have hbetween : lo ≤ mid ∧ mid < hi := by
        rw [← hmid]
        split <;> omega
      rw [h.testAt mid]
      by_cases hk : mid < k
      · simpa [hk, bind, Except.bind] using ih (mid+1) hi hk hhi (by omega)
      · simpa [hk, bind, Except.bind] using ih lo mid hlo (by omega) (by omega)
    · have hk : lo = k := by omega
      rw [hk]

theorem Split.leap (n last : Nat) (hlast : last < k) (hn : xs.length ≤ 2*last+1+n) :
    ∃ l m, leap p xs n last (2*last+1) = .ok (l, m) ∧ l < k ∧ k ≤ m ∧ m-(l+1) ≤ xs.length := by
  have hle := h.le
  induction n generalizing last with
  | zero => exact ⟨last, 2*last+1, rfl, hlast, by omega, by omega⟩
  | succ n ih =>
    rw [Sorting.leap]
    split
    · rw [h.testAt]
      by_cases hk : 2*last+1 < k
      · simpa [hk, bind, Except.bind] using ih (2*last+1) hk (by omega)
      · refine ⟨last, 2*last+1, ?_, hlast, by omega, by omega⟩
        simp [hk, bind, Except.bind, pure, Except.pure]
    · exact ⟨last, xs.length, rfl, hlast, hle, by omega⟩

theorem Split.lead (back : Bool) : lead p back xs = .ok k := by
  rw [Sorting.lead, h.testAt]
  by_cases hk : 0 < k
  · obtain ⟨l, m, hleap, hl, hm, hlen⟩ := h.leap xs.length 0 hk (by omega)
    have hhalve := h.halve back xs.length (l+1) m hl hm hlen
    simp [hk, hleap, hhalve, bind, Except.bind]
  · have hzero : k = 0 := by omega
    simp [hzero, bind, Except.bind, pure, Except.pure]

end

structure Before (lt : α → α → Except ε Bool) (x y : α) : Prop where
  yes : lt x y = .ok true
  no : lt y x = .ok false

def Ascending (lt : α → α → Except ε Bool) (xs : List α) : Prop := xs.Pairwise (Before lt)

/-- Where an element belongs in a list. -/
structure Place (lt : α → α → Except ε Bool) (x : α) (xs : List α) (k : Nat) : Prop where
  le : k ≤ xs.length
  front : ∀ y ∈ xs.take k, Before lt y x
  back : ∀ y ∈ xs.drop k, Before lt x y

def put (x : α) (xs : List α) (k : Nat) : List α := xs.take k ++ x :: xs.drop k

section
variable {lt : α → α → Except ε Bool} {x : α} {xs : List α} {k : Nat}

theorem Place.split (h : Place lt x xs k) : Split (fun y => do return !(← lt x y)) xs k where
  le := h.le
  pass y hy := by simp [(h.front y hy).no, bind, Except.bind, pure, Except.pure]
  fail y hy := by simp [(h.back y hy).yes, bind, Except.bind, pure, Except.pure]

theorem Place.ascending (h : Place lt x xs k) (hxs : Ascending lt xs) : Ascending lt (put x xs k) := by
  have hparts : Ascending lt (xs.take k ++ xs.drop k) := by rwa [List.take_append_drop]
  obtain ⟨hfront, hback, hcross⟩ := List.pairwise_append.mp hparts
  refine List.pairwise_append.mpr ⟨hfront, List.pairwise_cons.mpr ⟨h.back, hback⟩, fun y hy z hz => ?_⟩
  obtain rfl | hz := List.mem_cons.mp hz
  · exact h.front y hy
  · exact hcross y hy z hz

theorem put_perm (x : α) (xs : List α) (k : Nat) : (put x xs k).Perm (xs ++ [x]) := by
  refine List.perm_middle.trans ?_
  rw [List.take_append_drop]
  exact (List.perm_append_singleton x xs).symm

theorem Place.insertAll (h : Place lt x xs k) : insertAll lt xs [x] = .ok (put x xs k) := by
  have hplace := h.split.halve false (xs.length+1) 0 xs.length (Nat.zero_le _) h.le (by omega)
  rw [Sorting.insertAll, hplace]
  rfl

theorem Place.cases (h : Place lt x xs k) :
    k = xs.length ∧ (∀ y ∈ xs, Before lt y x) ∨ ∃ y, (xs.drop k).getLast? = some y ∧ xs.getLast? = some y ∧ Before lt x y := by
  by_cases hk : k = xs.length
  · refine .inl ⟨hk, fun y hy => h.front y ?_⟩
    rwa [hk, List.take_length]
  · have hle := h.le
    have hne : xs.drop k ≠ [] := by
      rw [Ne, List.drop_eq_nil_iff]
      omega
    have hlast := List.getLast?_eq_some_getLast hne
    refine .inr ⟨_, hlast, ?_, h.back _ (List.getLast_mem hne)⟩
    rw [List.getLast?_drop, if_neg (by omega)] at hlast
    exact hlast

theorem runLength_ascending (x : α) (xs : List α) (h : Ascending lt (x :: xs)) :
    runLength lt false x xs = .ok xs.length := by
  induction xs generalizing x with
  | nil => rfl
  | cons y xs ih =>
    obtain ⟨hx, hxs⟩ := List.pairwise_cons.mp h
    simp [runLength, (hx y List.mem_cons_self).no, ih y hxs, bind, Except.bind, pure, Except.pure]

theorem runLength_displaced (z : α) (zs : List α) (h : Ascending lt (z :: zs)) {y : α}
    (hlast : (z :: zs).getLast? = some y) (hxy : Before lt x y) :
    runLength lt false z (zs ++ [x]) = .ok zs.length := by
  induction zs generalizing z with
  | nil =>
    obtain rfl : z = y := by simpa using hlast
    simp [runLength, hxy.yes, bind, Except.bind, pure, Except.pure]
  | cons w zs ih =>
    obtain ⟨hz, hzs⟩ := List.pairwise_cons.mp h
    rw [List.getLast?_cons_cons] at hlast
    simp [runLength, (hz w List.mem_cons_self).no, ih w hzs hlast, bind, Except.bind, pure, Except.pure]

/-- The run in front is all there is, with the last element put in its place, or all but that one. -/
theorem Place.nextRun (h : Place lt x xs k) (hxs : Ascending lt xs) (least : Nat) :
    nextRun lt least (xs ++ [x]) = .ok (put x xs k, []) ∨
      nextRun lt least (xs ++ [x]) = .ok (xs, [x]) ∧ ∃ y, (xs.drop k).getLast? = some y ∧ Before lt x y := by
  match xs with
  | [] => exact .inl (by simp [Sorting.nextRun, put])
  | [a] =>
    refine .inl ?_
    obtain ⟨hk, hfront⟩ | ⟨y, hlast, hy, hxy⟩ := h.cases
    · simp [Sorting.nextRun, (hfront a List.mem_cons_self).no, runLength, Sorting.insertAll, put, hk, bind, Except.bind, pure,
        Except.pure]
    · obtain rfl : a = y := by simpa using hy
      have hk : k = 0 := by
        cases k with
        | zero => rfl
        | succ k => simp at hlast
      simp [Sorting.nextRun, hxy.yes, runLength, Sorting.insertAll, put, hk, bind, Except.bind, pure, Except.pure]
  | a :: b :: r =>
    obtain ⟨ha, hbr⟩ := List.pairwise_cons.mp hxs
    have hdown : lt b a = .ok false := (ha b List.mem_cons_self).no
    obtain ⟨hk, hfront⟩ | ⟨y, hlast, hy, hxy⟩ := h.cases
    · have hall : Ascending lt (b :: r ++ [x]) := by
        refine List.pairwise_append.mpr ⟨hbr, List.pairwise_singleton _ _, fun z hz w hw => ?_⟩
        rw [List.mem_singleton.mp hw]
        exact hfront z (List.mem_cons_of_mem a hz)
      have htake : (r ++ [x]).take (r.length+1) = r ++ [x] := List.take_of_length_le (by simp)
      refine .inl ?_
      simp [Sorting.nextRun, hdown, runLength_ascending b (r ++ [x]) hall, htake, Sorting.insertAll, put, hk, bind,
        Except.bind, pure, Except.pure]
    · have hrun : runLength lt false b (r ++ [x]) = .ok r.length := runLength_displaced b r hbr (by simpa using hy) hxy
      by_cases hmore : least ≤ r.length+2
      · refine .inr ⟨?_, y, hlast, hxy⟩
        simp [Sorting.nextRun, hdown, hrun, Nat.sub_eq_zero_of_le hmore, Sorting.insertAll, bind, Except.bind, pure,
          Except.pure]
      · obtain ⟨more, hsub⟩ : ∃ more, least-(r.length+2) = more+1 := ⟨least-(r.length+2)-1, by omega⟩
        refine .inl ?_
        have hins := h.insertAll
        simp [Sorting.nextRun, hdown, hrun, hsub, hins, bind, Except.bind, pure, Except.pure]

theorem pairwise_settled (wins : α → α → Except ε Bool) (back : Bool) (n m : Nat) (won : Bool × Nat) {near far : List α}
    (h : near.length ≤ 1 ∨ far = []) : pairwise wins back n m won near far = .ok (far ++ near, m) := by
  match n, near, far with
  | 0, near, far => simp [pairwise]
  | n+1, [], far => simp [pairwise]
  | n+1, x :: near, [] => simp [pairwise]
  | n+1, x :: near, y :: far =>
    have hnear : near = [] := by simpa using h
    simp [pairwise, settled, hnear]

theorem ok_bind {β γ : Type} (a : β) (f : β → Except ε γ) : ((Except.ok a : Except ε β) >>= f) = f a := rfl

theorem mergeFrom_one (x : α) (lower : List α) (m : Nat) : mergeFrom lt false m lower [x] = .ok (x :: lower, m) := by
  simp [mergeFrom, pairwise_settled, Sorting.before, Functor.map, Except.map]

theorem mergeFrom_one_back (x : α) (lower : List α) (m : Nat) :
    (fun r : List α × Nat => (r.1.reverse, r.2)) <$> mergeFrom (fun y x => lt x y) true m [x] lower.reverse =
      .ok (x :: lower, m) := by
  have hsettled : pairwise (fun y x => lt x y) true ([x].length+lower.reverse.length) m (true, 0) [x]
      (lower.reverse.drop 1) = .ok (lower.reverse.drop 1 ++ [x], m) :=
    pairwise_settled _ true _ m _ (.inl (Nat.le_refl 1))
  have hall : lower.reverse.take 1 ++ (lower.reverse.drop 1 ++ [x]) = (x :: lower).reverse := by
    rw [← List.append_assoc, List.take_append_drop, List.reverse_cons]
  rw [mergeFrom, hsettled]
  simp only [Functor.map, Except.map, Sorting.before, hall, List.reverse_reverse]

theorem Place.merge (h : Place lt x xs k) {y : α} (hlast : (xs.drop k).getLast? = some y) (hxy : Before lt x y)
    (m : Nat) : merge lt m xs [x] = .ok (put x xs k, m) := by
  have hlead : lead (fun z => do return !(← lt z y)) true [x] = .ok 0 :=
    Split.lead ⟨Nat.zero_le _, nofun, fun z hz => by simp_all [hxy.yes, bind, Except.bind, pure, Except.pure]⟩ true
  have hparts : xs.take k ++ (x :: xs.drop k) ++ [] = put x xs k := List.append_nil _
  rw [Sorting.merge]
  dsimp only
  rw [h.split.lead false, ok_bind, hlast]
  dsimp only
  rw [List.reverse_singleton, hlead, ok_bind]
  change ite ((xs.drop k).length ≤ 1) _ _ = _
  split
  · change (mergeFrom lt false m (xs.drop k) [x] >>= fun r => pure (xs.take k ++ r.1 ++ [], r.2)) = _
    rw [mergeFrom_one, ok_bind]
    exact congrArg (fun r => Except.ok (r, m)) hparts
  · change ((fun r : List α × Nat => (r.1.reverse, r.2)) <$> mergeFrom (fun y x => lt x y) true m [x] (xs.drop k).reverse >>=
      fun r => pure (xs.take k ++ r.1 ++ [], r.2)) = _
    rw [mergeFrom_one_back, ok_bind]
    exact congrArg (fun r => Except.ok (r, m)) hparts

theorem sortRuns_nil (total least n m : Nat) (runs : List (Run α)) :
    sortRuns lt total least n m runs [] = finish lt runs.length m runs := by
  cases n <;> simp [sortRuns]

theorem sortRuns_step (total least n m : Nat) (runs : List (Run α)) {zs : List α} (h : zs ≠ []) :
    sortRuns lt total least (n+1) m runs zs = (do
      let (xs, r) ← nextRun lt least zs
      let (runs, m) ← addRun lt total m runs xs
      sortRuns lt total least n m runs r) := by
  cases zs with
  | nil => exact absurd rfl h
  | cons z zs => rw [sortRuns]

theorem Place.sort (h : Place lt x xs k) (hxs : Ascending lt xs) : sort lt (xs ++ [x]) = .ok (put x xs k) := by
  have hlen : (xs ++ [x]).length = xs.length+1 := by simp
  rw [Sorting.sort]
  generalize leastRun (xs ++ [x]).length false (xs ++ [x]).length = least
  rw [hlen, sortRuns_step _ _ _ _ _ (by simp)]
  obtain hrun | ⟨hrun, y, hlast, hxy⟩ := h.nextRun hxs least
  · rw [hrun]
    change sortRuns lt _ least xs.length leastLeap [⟨0, put x xs k, 0⟩] [] = _
    rw [sortRuns_nil]
    simp [finish]
  · obtain ⟨n, hn⟩ : ∃ n, xs.length = n+1 := by
      refine Nat.exists_eq_add_one.mpr (List.length_pos_iff.mpr fun hnil => ?_)
      simp [hnil] at hlast
    rw [hrun]
    change sortRuns lt _ least xs.length leastLeap [⟨0, xs, 0⟩] [x] = _
    rw [hn, sortRuns_step _ _ _ _ _ (by simp)]
    simp only [Sorting.nextRun, addRun, collapse, bind, Except.bind, pure, Except.pure]
    rw [sortRuns_nil]
    simp [finish, h.merge hlast hxy, Functor.map, Except.map]

theorem Place.succ {y : α} (h : Place lt x xs k) (hy : Before lt y x) : Place lt x (y :: xs) (k+1) where
  le := Nat.succ_le_succ h.le
  front := List.forall_mem_cons.mpr ⟨hy, h.front⟩
  back := h.back

theorem exists_place (hxs : Ascending lt xs) (htotal : ∀ y ∈ xs, Before lt y x ∨ Before lt x y)
    (htrans : ∀ y ∈ xs, ∀ z ∈ xs, Before lt x y → Before lt y z → Before lt x z) : ∃ k, Place lt x xs k := by
  induction xs with
  | nil => exact ⟨0, Nat.le_refl 0, nofun, nofun⟩
  | cons y xs ih =>
    obtain ⟨hy, hxs⟩ := List.pairwise_cons.mp hxs
    obtain hyx | hxy := htotal y List.mem_cons_self
    · obtain ⟨k, hk⟩ := ih hxs (fun z hz => htotal z (List.mem_cons_of_mem y hz)) fun z hz w hw =>
        htrans z (List.mem_cons_of_mem y hz) w (List.mem_cons_of_mem y hw)
      exact ⟨k+1, hk.succ hyx⟩
    · refine ⟨0, Nat.zero_le _, nofun, List.forall_mem_cons.mpr ⟨hxy, fun z hz => ?_⟩⟩
      exact htrans y List.mem_cons_self z (List.mem_cons_of_mem y hz) hxy (hy z hz)

end

end CircuitHarness.Sorting
