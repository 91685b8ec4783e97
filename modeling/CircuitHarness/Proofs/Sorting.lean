import CircuitHarness.Sorting

/-! What a sort by a comparison that may fail comes down to. It compares later elements with earlier ones only, and fails
with nothing but the failure of such a comparison; otherwise it gives back the same elements, all of which have been
connected with each other by comparisons that were answered. -/
namespace CircuitHarness

/-- An answer under `P`, or a failure under `E`. -/
inductive Yields {ε α : Type} (E : ε → Prop) (P : α → Prop) : Except ε α → Prop where
  | ok {a : α} (h : P a) : Yields E P (.ok a)
  | error {e : ε} (h : E e) : Yields E P (.error e)

namespace Yields
variable {ε α β : Type} {E F : ε → Prop} {P : α → Prop} {Q : β → Prop} {x : Except ε α}

theorem of_ok (h : Yields E P x) {a : α} (hx : x = .ok a) : P a := by
  subst hx
  cases h with
  | ok h => exact h

theorem of_error (h : Yields E P x) {e : ε} (hx : x = .error e) : E e := by
  subst hx
  cases h with
  | error h => exact h

theorem mono {P' : α → Prop} (h : Yields E P x) (hE : ∀ e, E e → F e) (hP : ∀ a, P a → P' a) : Yields F P' x := by
  cases h with
  | ok h => exact .ok (hP _ h)
  | error h => exact .error (hE _ h)

theorem andThen (h : Yields E P x) (hE : ∀ e, E e → F e) {f : α → Except ε β} (hf : ∀ a, P a → Yields F Q (f a)) :
    Yields F Q (x >>= f) := by
  cases h with
  | ok h => exact hf _ h
  | error h => exact .error (hE _ h)

theorem bind (h : Yields E P x) {f : α → Except ε β} (hf : ∀ a, P a → Yields E Q (f a)) : Yields E Q (x >>= f) :=
  h.andThen (fun _ he => he) hf

theorem map (h : Yields E P x) {f : α → β} (hf : ∀ a, P a → Q (f a)) : Yields E Q (f <$> x) := by
  cases h with
  | ok h => exact .ok (hf _ h)
  | error h => exact .error h

theorem foldlM {γ : Type} {I : List γ → α → Prop} {f : α → γ → Except ε α} {xs : List γ} {a : α} (h : I [] a)
    (hf : ∀ done c b, done ++ [c] <+: xs → I done b → Yields E (I (done ++ [c])) (f b c)) :
    Yields E (I xs) (xs.foldlM f a) := by
  have hrest (rest done : List γ) (b : α) (hxs : done ++ rest = xs) (hb : I done b) :
      Yields E (I xs) (rest.foldlM f b) := by
    induction rest generalizing done b with
    | nil =>
      rw [List.append_nil] at hxs
      subst hxs
      exact .ok hb
    | cons c rest ih =>
      have hnext : done ++ [c] ++ rest = xs := by
        rw [List.append_assoc]
        exact hxs
      rw [List.foldlM_cons]
      exact (hf done c b ⟨rest, hnext⟩ hb).bind fun b' hb' => ih (done ++ [c]) b' hnext hb'
  exact hrest xs [] a rfl h

end Yields

namespace Sorting
variable {α ε : Type}

section
variable {p : α → Except ε Bool}

def Failed (p : α → Except ε Bool) (xs : List α) (e : ε) : Prop := ∃ x ∈ xs, p x = .error e

def Tried (p : α → Except ε Bool) (xs : List α) : Prop := ∃ x ∈ xs, ∃ b, p x = .ok b

theorem testAt_yields (p : α → Except ε Bool) (xs : List α) (i : Nat) :
    Yields (Failed p xs) (fun _ => i < xs.length → Tried p xs) (testAt p xs i) := by
  rw [testAt]
  cases hx : xs[i]? with
  | none => exact .ok fun hi => absurd (List.getElem?_eq_none_iff.mp hx) (by omega)
  | some x =>
    have hmem : x ∈ xs := List.mem_of_getElem? hx
    dsimp only
    cases hp : p x with
    | error e => exact .error ⟨x, hmem, hp⟩
    | ok b => exact .ok fun _ => ⟨x, hmem, b, hp⟩

theorem halve_yields (p : α → Except ε Bool) (back : Bool) (xs : List α) (n lo hi : Nat) :
    Yields (Failed p xs) (fun _ => 0 < n → lo < hi → hi ≤ xs.length → Tried p xs) (halve p back xs n lo hi) := by
  induction n generalizing lo hi with
  | zero => exact .ok fun h => absurd h (by omega)
  | succ n ih =>
    rw [halve]
    split
    · refine (testAt_yields p xs _).bind fun b hb => ?_
      have htried (_ : 0 < n+1) (hlt : lo < hi) (hle : hi ≤ xs.length) : Tried p xs := by
        refine hb ?_
        split <;> omega
      cases b with
      | true => exact (ih _ _).mono (fun _ h => h) fun _ _ => htried
      | false => exact (ih _ _).mono (fun _ h => h) fun _ _ => htried
    · exact .ok fun _ hlt _ => absurd hlt (by assumption)

theorem leap_yields (p : α → Except ε Bool) (xs : List α) (n last next : Nat) :
    Yields (Failed p xs) (fun _ => True) (leap p xs n last next) := by
  induction n generalizing last next with
  | zero => exact .ok trivial
  | succ n ih =>
    rw [leap]
    split
    · refine (testAt_yields p xs next).bind fun b _ => ?_
      cases b with
      | true => exact ih _ _
      | false => exact .ok trivial
    · exact .ok trivial

theorem lead_yields (p : α → Except ε Bool) (back : Bool) (xs : List α) :
    Yields (Failed p xs) (fun _ => xs ≠ [] → Tried p xs) (lead p back xs) := by
  refine (testAt_yields p xs 0).bind fun b hb => ?_
  have htried (h : xs ≠ []) : Tried p xs := hb (List.length_pos_iff.mpr h)
  cases b with
  | false => exact .ok htried
  | true =>
    refine (leap_yields p xs _ _ _).bind fun r _ => ?_
    exact (halve_yields p back xs _ _ _).mono (fun _ h => h) fun _ _ => htried

theorem not_yields (p : α → Except ε Bool) (xs : List α) {β : Type} {x : Except ε β} {c : β → Prop}
    (h : Yields (Failed (fun x => do return !(← p x)) xs) (fun r => c r → Tried (fun x => do return !(← p x)) xs) x) :
    Yields (Failed p xs) (fun r => c r → Tried p xs) x := by
  refine h.mono (fun e he => ?_) fun r hr hc => ?_
  · obtain ⟨x, hx, he⟩ := he
    change (p x >>= fun b => pure !b) = .error e at he
    refine ⟨x, hx, ?_⟩
    cases hp : p x with
    | error f => rw [hp] at he; exact he
    | ok b => rw [hp] at he; cases he
  · obtain ⟨x, hx, b, hb⟩ := hr hc
    change (p x >>= fun b => pure !b) = .ok b at hb
    refine ⟨x, hx, ?_⟩
    cases hp : p x with
    | error f => rw [hp] at hb; cases hb
    | ok b => exact ⟨b, rfl⟩

end

def Clash (lt : α → α → Except ε Bool) (xs ys : List α) (e : ε) : Prop := ∃ x ∈ xs, ∃ y ∈ ys, lt y x = .error e

theorem Clash.mono {lt : α → α → Except ε Bool} {xs ys xs' ys' : List α} {e : ε} (h : Clash lt xs ys e)
    (hx : xs ⊆ xs') (hy : ys ⊆ ys') : Clash lt xs' ys' e := by
  obtain ⟨x, hxs, y, hys, h⟩ := h
  exact ⟨x, hx hxs, y, hy hys, h⟩

structure Parts (near far out near' far' : List α) : Prop where
  perm : (out ++ (far' ++ near')).Perm (far ++ near)
  near : near' ⊆ near
  far : far' ⊆ far

/-- The merge of two runs, or some part of it. -/
def Merges (wins : α → α → Except ε Bool) (near far : List α) (x : Except ε (List α × Nat)) : Prop :=
  Yields (Clash wins near far) (fun r => r.1.Perm (far ++ near)) x

section
variable {wins : α → α → Except ε Bool} {near far out near' far' out' near'' far'' : List α}

theorem Parts.trans (h : Parts near far out near' far') (g : Parts near' far' out' near'' far'') :
    Parts near far (out ++ out') near'' far'' where
  perm := by
    rw [List.append_assoc]
    exact (g.perm.append_left out).trans h.perm
  near _ hx := h.near (g.near hx)
  far _ hx := h.far (g.far hx)

theorem Merges.rest (m : Nat) : Merges wins near far (.ok (far ++ near, m)) := .ok (.refl _)

theorem Parts.before (h : Parts near far out near' far') {x : Except ε (List α × Nat)}
    (hx : Merges wins near' far' x) : Merges wins near far (Sorting.before out <$> x) := by
  refine Yields.map (hx.mono (fun e he => he.mono h.near h.far) fun _ hr => hr) fun r hr => ?_
  exact (hr.append_left out).trans h.perm

theorem Parts.merged (h : Parts near far out near' far') (m : Nat) :
    Merges wins near far (.ok (out ++ far' ++ near', m)) := by
  refine .ok ?_
  rw [List.append_assoc]
  exact h.perm

variable (wins)

theorem nearTurn_yields (back : Bool) (near far : List α) :
    Yields (Clash wins near far) (fun t => Parts near far t.out t.near t.far) (nearTurn wins back near far) := by
  cases far with
  | nil => exact .ok ⟨.refl _, List.Subset.refl _, List.Subset.refl _⟩
  | cons y r =>
    have hlead := not_yields (wins y) near (lead_yields _ back near)
    refine hlead.andThen ?_ fun k _ => ?_
    · rintro e ⟨x, hx, h⟩
      exact ⟨x, hx, y, List.mem_cons_self, h⟩
    · have hout : (near.take k ++ ((y :: r) ++ near.drop k)).Perm ((y :: r) ++ near) := by
        have h := List.perm_append_comm_assoc (near.take k) (y :: r) (near.drop k)
        rwa [List.take_append_drop] at h
      split
      · exact .ok ⟨hout, List.drop_subset k near, List.Subset.refl _⟩
      · refine .ok ⟨?_, List.drop_subset k near, List.subset_cons_self y r⟩
        rw [List.append_assoc]
        exact hout

theorem farTurn_yields (back : Bool) (near far : List α) :
    Yields (Clash wins near far) (fun t => Parts near far t.out t.near t.far) (farTurn wins back near far) := by
  cases near with
  | nil => exact .ok ⟨.refl _, List.Subset.refl _, List.Subset.refl _⟩
  | cons x r =>
    have hlead := lead_yields (fun y => wins y x) back far
    refine hlead.andThen ?_ fun k _ => ?_
    · rintro e ⟨y, hy, h⟩
      exact ⟨x, List.mem_cons_self, y, hy, h⟩
    · have hout : (far.take k ++ (far.drop k ++ x :: r)).Perm (far ++ x :: r) := by
        rw [← List.append_assoc, List.take_append_drop]
      split
      · exact .ok ⟨hout, List.Subset.refl _, List.drop_subset k far⟩
      · refine .ok ⟨?_, List.subset_cons_self x r, List.drop_subset k far⟩
        have hx : (x :: (far.drop k ++ r)).Perm (far.drop k ++ x :: r) := List.perm_middle.symm
        rw [List.append_assoc]
        exact (hx.append_left (far.take k)).trans hout

variable {wins}

theorem Merges.round {x : Except ε (Turn α)} {y : Turn α → Except ε (Turn α)}
    {rest : Turn α → Turn α → Except ε (List α × Nat)} (m : Nat)
    (hx : Yields (Clash wins near far) (fun t => Parts near far t.out t.near t.far) x)
    (hy : ∀ a, Yields (Clash wins a.near a.far) (fun t => Parts a.near a.far t.out t.near t.far) (y a))
    (hrest : ∀ a b, Merges wins b.near b.far (rest a b)) :
    Merges wins near far (do
      let a ← x
      if settled a.near a.far then return (a.out ++ a.far ++ a.near, m)
      let b ← y a
      if settled b.near b.far then return (a.out ++ b.out ++ b.far ++ b.near, m)
      Sorting.before (a.out ++ b.out) <$> rest a b) := by
  refine hx.bind fun a ha => ?_
  split
  · exact ha.merged m
  · refine ((hy a).mono (fun e he => he.mono ha.near ha.far) fun b hb => ha.trans hb).bind fun b hb => ?_
    split
    · exact hb.merged m
    · exact hb.before (hrest a b)

theorem Merges.step {x y : α} {rest : Bool → List α → List α → Except ε (List α × Nat)}
    (hrest : ∀ farther near far, Merges wins near far (rest farther near far)) :
    Merges wins (x :: near) (y :: far) (do
      let farther ← wins y x
      let (out, near, far) := if farther then ([y], x :: near, far) else ([x], near, y :: far)
      Sorting.before out <$> rest farther near far) := by
  cases hw : wins y x with
  | error e => exact .error ⟨x, List.mem_cons_self, y, List.mem_cons_self, hw⟩
  | ok farther =>
    cases farther with
    | true =>
      have hout : Parts (x :: near) (y :: far) [y] (x :: near) far :=
        ⟨.refl _, List.Subset.refl _, List.subset_cons_self y far⟩
      exact hout.before (hrest _ _ _)
    | false =>
      have hx : (x :: (y :: far ++ near)).Perm (y :: far ++ x :: near) := List.perm_middle.symm
      have hout : Parts (x :: near) (y :: far) [x] near (y :: far) :=
        ⟨hx, List.subset_cons_self x near, List.Subset.refl _⟩
      exact hout.before (hrest _ _ _)

variable (wins)

/-- However often a merge changes between single steps and leaps. The induction is on the bound of the steps, for both at
once. -/
theorem turns_merge (back : Bool) (n : Nat) :
    (∀ m won near far, Merges wins near far (pairwise wins back n m won near far)) ∧
      ∀ m near far, Merges wins near far (leaping wins back n m near far) := by
  induction n with
  | zero =>
    refine ⟨fun m won near far => ?_, fun m near far => ?_⟩
    · rw [pairwise]
      · exact .rest m
      · simp
    · rw [leaping]
      exact .rest m
  | succ n ih =>
    refine ⟨fun m won near far => ?_, fun m near far => ?_⟩
    · match near, far with
      | [], far =>
        rw [pairwise]
        · exact .rest m
        · simp
      | x :: near, [] =>
        rw [pairwise]
        · exact .rest m
        · simp
      | x :: near, y :: far =>
        rw [pairwise]
        split
        · exact .rest m
        · have hrest (farther : Bool) (near far : List α) : Merges wins near far
              (let k := if won.1 = farther then won.2+1 else 1
              if m ≤ k then leaping wins back n m near far else pairwise wins back n m (farther, k) near far) := by
            dsimp only
            split <;> split
            · exact ih.2 _ _ _
            · exact ih.1 _ _ _ _
            · exact ih.2 _ _ _
            · exact ih.1 _ _ _ _
          exact .step hrest
    · rw [leaping]
      split
      · exact .rest m
      · have hrest (a b : Turn α) : Merges wins b.near b.far
            (if leastLeap ≤ a.count || leastLeap ≤ b.count then
              leaping wins back n (if 1 < m then m-1 else m) b.near b.far
            else pairwise wins back n (m+1) (true, 0) b.near b.far) := by
          split
          · exact ih.2 _ _ _
          · exact ih.1 _ _ _ _
        cases back with
        | true =>
          exact .round m (farTurn_yields wins true near far) (fun a => nearTurn_yields wins true a.near a.far) hrest
        | false =>
          exact .round m (nearTurn_yields wins false near far) (fun a => farTurn_yields wins false a.near a.far) hrest

theorem mergeFrom_merges (back : Bool) (m : Nat) (near far : List α) :
    Merges wins near far (mergeFrom wins back m near far) := by
  have hfirst : Parts near far (far.take 1) near (far.drop 1) := by
    refine ⟨?_, List.Subset.refl _, List.drop_subset 1 far⟩
    rw [← List.append_assoc, List.take_append_drop]
  exact hfirst.before ((turns_merge wins back _).1 _ _ _ _)

end

section
variable {lt : α → α → Except ε Bool}

def Met (lt : α → α → Except ε Bool) (xs ys : List α) : Prop := ∃ x ∈ xs, ∃ y ∈ ys, ∃ b, lt y x = .ok b

theorem Merges.forward {lower upper : List α} {x : Except ε (List α × Nat)} (h : Merges lt lower upper x) :
    Yields (Clash lt lower upper) (fun r => r.1.Perm (lower ++ upper)) x :=
  h.mono (fun _ he => he) fun _ hr => hr.trans List.perm_append_comm

theorem Merges.backward {lower upper : List α} {x : Except ε (List α × Nat)}
    (h : Merges (fun y x => lt x y) upper.reverse lower.reverse x) :
    Yields (Clash lt lower upper) (fun r => r.1.Perm (lower ++ upper)) ((fun r => (r.1.reverse, r.2)) <$> x) := by
  refine Yields.map (Yields.mono h (F := Clash lt lower upper) ?_ fun _ hr => hr) fun r hr => ?_
  · rintro e ⟨y, hy, x, hx, he⟩
    exact ⟨x, List.mem_reverse.mp hx, y, List.mem_reverse.mp hy, he⟩
  · have hboth := (List.reverse_perm lower).append (List.reverse_perm upper)
    exact (List.reverse_perm r.1).trans (hr.trans hboth)

theorem placed_yields {xs ys : List α} {k n : Nat} {x : Except ε (List α × Nat)}
    (hx : Yields (Clash lt (xs.drop k) (ys.take n)) (fun r => r.1.Perm (xs.drop k ++ ys.take n)) x) :
    Yields (Clash lt xs ys) (fun r => r.1.Perm (xs ++ ys)) (do
      let (r, m) ← x
      return (xs.take k ++ r ++ ys.drop n, m)) := by
  have hclash (e : ε) (he : Clash lt (xs.drop k) (ys.take n) e) : Clash lt xs ys e :=
    he.mono (List.drop_subset k xs) (List.take_subset n ys)
  refine hx.andThen hclash fun r hr => .ok ?_
  have hparts : xs.take k ++ (xs.drop k ++ ys.take n) ++ ys.drop n = xs ++ ys := by
    rw [← List.append_assoc, List.take_append_drop, List.append_assoc, List.take_append_drop]
  rw [← hparts]
  exact (hr.append_left (xs.take k)).append_right (ys.drop n)

theorem merge_yields (lt : α → α → Except ε Bool) (m : Nat) (xs ys : List α) :
    Yields (Clash lt xs ys) (fun r => r.1.Perm (xs ++ ys) ∧ (xs ≠ [] → ys ≠ [] → Met lt xs ys)) (merge lt m xs ys) := by
  cases ys with
  | nil => exact .ok ⟨by rw [List.append_nil], fun _ h => absurd rfl h⟩
  | cons y ys =>
    have hlead := not_yields (lt y) xs (lead_yields _ false xs)
    refine hlead.andThen ?_ fun k htried => ?_
    · rintro e ⟨x, hx, h⟩
      exact ⟨x, hx, y, List.mem_cons_self, h⟩
    have hmet (hxs : xs ≠ []) (_ : y :: ys ≠ []) : Met lt xs (y :: ys) := by
      obtain ⟨x, hx, b, h⟩ := htried hxs
      exact ⟨x, hx, y, List.mem_cons_self, b, h⟩
    cases hlast : (xs.drop k).getLast? with
    | none => exact .ok ⟨.refl _, hmet⟩
    | some x =>
      have hx : x ∈ xs := List.drop_subset k xs (List.mem_of_getLast? hlast)
      have htrail := not_yields (fun z => lt z x) (y :: ys).reverse (lead_yields _ true (y :: ys).reverse)
      refine htrail.andThen ?_ fun n _ => ?_
      · rintro e ⟨z, hz, h⟩
        exact ⟨x, hx, z, List.mem_reverse.mp hz, h⟩
      dsimp only
      refine Yields.mono (P := fun r => r.1.Perm (xs ++ y :: ys)) ?_ (fun _ h => h) fun r hr => ⟨hr, hmet⟩
      split
      · rename_i hempty
        refine placed_yields (x := .ok (xs.drop k, m)) (.ok ?_)
        rw [List.isEmpty_iff.mp hempty, List.append_nil]
      · split
        · exact placed_yields (mergeFrom_merges lt false m _ _).forward
        · exact placed_yields (mergeFrom_merges _ true m _ _).backward

/-- No comparison of an element with an earlier one fails so. -/
def Calm (lt : α → α → Except ε Bool) (e : ε) (xs : List α) : Prop := xs.Pairwise fun x y => lt y x ≠ .error e

theorem Calm.no_clash {e : ε} {xs ys : List α} (h : Calm lt e (xs ++ ys)) : ¬Clash lt xs ys e := by
  rintro ⟨x, hx, y, hy, he⟩
  exact (List.pairwise_append.mp h).2.2 x hx y hy he

def Fused {κ : Type} (kind : α → κ) (xs : List α) : Prop := ∀ x ∈ xs, ∀ y ∈ xs, kind x = kind y

section
variable {κ : Type} {kind : α → κ} {xs ys : List α}

theorem Fused.of_subset (h : Fused kind xs) (hys : ys ⊆ xs) : Fused kind ys :=
  fun x hx y hy => h x (hys hx) y (hys hy)

theorem Fused.append (hx : Fused kind xs) (hy : Fused kind ys) {x y : α} (hxs : x ∈ xs) (hys : y ∈ ys)
    (h : kind x = kind y) : Fused kind (xs ++ ys) := by
  have hall (z : α) (hz : z ∈ xs ++ ys) : kind z = kind x := by
    obtain hz | hz := List.mem_append.mp hz
    · exact hx z hz x hxs
    · exact (hy z hz y hys).trans h.symm
  exact fun z hz w hw => (hall z hz).trans (hall w hw).symm

theorem fused_singleton (x : α) : Fused kind [x] := by
  intro y hy z hz
  rw [List.mem_singleton.mp hy, List.mem_singleton.mp hz]

end

def elements (rs : List (Run α)) : List α := rs.flatMap Run.items

def RunsCalm (lt : α → α → Except ε Bool) (e : ε) (rs : List (Run α)) : Prop :=
  rs.Pairwise fun later earlier => ¬Clash lt earlier.items later.items e

/-- No comparison still to come fails so, whether of runs with each other or of what is not in a run yet. -/
structure CalmAhead (lt : α → α → Except ε Bool) (e : ε) (rs : List (Run α)) (xs : List α) : Prop where
  runs : RunsCalm lt e rs
  cross : ¬Clash lt (elements rs) xs e
  left : Calm lt e xs

def Run.Whole {κ : Type} (kind : α → κ) (r : Run α) : Prop := r.items ≠ [] ∧ Fused kind r.items

/-- What becomes of runs when some that are neighbours are merged. -/
structure Fuses {κ : Type} (lt : α → α → Except ε Bool) (kind : α → κ) (rs rs' : List (Run α)) : Prop where
  perm : (elements rs').Perm (elements rs)
  calm : ∀ e, RunsCalm lt e rs → RunsCalm lt e rs'
  whole : (∀ r ∈ rs, r.Whole kind) → ∀ r ∈ rs', r.Whole kind

section
variable {κ : Type} {kind : α → κ} {rs rs' rs'' : List (Run α)}

theorem Fuses.refl (rs : List (Run α)) : Fuses lt kind rs rs := ⟨.refl _, fun _ h => h, fun h => h⟩

theorem Fuses.trans (h : Fuses lt kind rs rs') (g : Fuses lt kind rs' rs'') : Fuses lt kind rs rs'' where
  perm := g.perm.trans h.perm
  calm e hc := g.calm e (h.calm e hc)
  whole hw := g.whole (h.whole hw)

theorem Fuses.relabel {r r' : Run α} (h : r'.items = r.items) : Fuses lt kind (r :: rs) (r' :: rs) where
  perm := by simp only [elements, List.flatMap_cons, h, List.Perm.refl]
  calm e hc := by
    rw [RunsCalm, List.pairwise_cons] at hc ⊢
    rwa [h]
  whole hw := by
    rw [List.forall_mem_cons] at hw ⊢
    rwa [Run.Whole, h]

end

section
variable {κ : Type} {kind : α → κ} (hkind : ∀ x y b, lt x y = .ok b → kind x = kind y)
include hkind

theorem runLength_yields (want : Bool) (p : α) (xs : List α) :
    Yields (fun e => ¬Calm lt e (p :: xs)) (fun n => Fused kind (p :: xs.take n)) (runLength lt want p xs) := by
  induction xs generalizing p with
  | nil => exact .ok (fused_singleton p)
  | cons x r ih =>
    rw [runLength]
    cases hlt : lt x p with
    | error e => exact .error fun h => (List.pairwise_cons.mp h).1 x List.mem_cons_self hlt
    | ok b =>
      have hxp : kind p = kind x := (hkind x p b hlt).symm
      dsimp only [bind, Except.bind]
      split
      · refine (ih x).andThen (fun e he (h : Calm lt e (p :: x :: r)) => he (List.Pairwise.of_cons h)) fun n hn => .ok ?_
        exact (fused_singleton p).append hn List.mem_cons_self List.mem_cons_self hxp
      · exact .ok (fused_singleton p)

theorem insertAll_yields (xs ys : List α) :
    Yields (fun e => ¬(¬Clash lt xs ys e ∧ Calm lt e ys))
      (fun zs => zs.Perm (xs ++ ys) ∧ (xs ≠ [] → Fused kind xs → Fused kind (xs ++ ys))) (insertAll lt xs ys) := by
  induction ys generalizing xs with
  | nil =>
    refine .ok ⟨by rw [List.append_nil], fun _ h => ?_⟩
    rwa [List.append_nil]
  | cons y r ih =>
    have hplace := not_yields (lt y) xs ((halve_yields _ false xs (xs.length+1) 0 xs.length).mono (fun _ h => h)
      fun _ h (hxs : xs ≠ []) => h (Nat.succ_pos _) (List.length_pos_iff.mpr hxs) (Nat.le_refl _))
    refine hplace.andThen (fun e he h => ?_) fun i htried => ?_
    · obtain ⟨x, hx, he⟩ := he
      exact h.1 ⟨x, hx, y, List.mem_cons_self, he⟩
    have hperm : (xs.take i ++ y :: xs.drop i).Perm (xs ++ [y]) := by
      refine List.perm_middle.trans ?_
      rw [List.take_append_drop]
      exact (List.perm_append_singleton y xs).symm
    have hall : (xs.take i ++ y :: xs.drop i ++ r).Perm (xs ++ y :: r) := by
      rw [List.append_cons xs y r]
      exact hperm.append_right r
    refine (ih (xs.take i ++ y :: xs.drop i)).mono (fun e he h => he ⟨?_, h.2.of_cons⟩) fun zs hzs =>
      ⟨hzs.1.trans hall, fun hxs hfused => ?_⟩
    · rintro ⟨x, hx, z, hz, hxz⟩
      obtain hx | hx := List.mem_append.mp (hperm.mem_iff.mp hx)
      · exact h.1 ⟨x, hx, z, List.mem_cons_of_mem y hz, hxz⟩
      · rw [List.mem_singleton.mp hx] at hxz
        exact (List.pairwise_cons.mp h.2).1 z hz hxz
    · obtain ⟨x, hx, b, hb⟩ := htried hxs
      have hy : Fused kind (xs ++ [y]) :=
        hfused.append (fused_singleton y) hx List.mem_cons_self (hkind y x b hb).symm
      have hrest := hzs.2 (by simp) (hy.of_subset hperm.subset)
      exact hrest.of_subset hall.symm.subset

theorem nextRun_yields (least : Nat) (xs : List α) (hxs : xs ≠ []) :
    Yields (fun e => ¬Calm lt e xs)
      (fun r => ∃ n, 0 < n ∧ r.1.Perm (xs.take n) ∧ r.2 = xs.drop n ∧ Fused kind r.1) (nextRun lt least xs) := by
  match xs with
  | [] => exact absurd rfl hxs
  | [x] => exact .ok ⟨1, Nat.one_pos, .refl _, rfl, fused_singleton x⟩
  | x :: y :: r =>
    rw [nextRun]
    cases hlt : lt y x with
    | error e => exact .error fun h => (List.pairwise_cons.mp h).1 y List.mem_cons_self hlt
    | ok down =>
      have hxy : kind x = kind y := (hkind y x down hlt).symm
      refine (runLength_yields hkind down y r).andThen
        (fun e he (h : Calm lt e (x :: y :: r)) => he (List.Pairwise.of_cons h)) fun n hn => ?_
      have hrun : Fused kind (x :: y :: r.take n) :=
        (fused_singleton x).append hn List.mem_cons_self List.mem_cons_self hxy
      dsimp only
      generalize hstart : (if down then (x :: y :: r.take n).reverse else x :: y :: r.take n) = start
      have hperm : start.Perm (x :: y :: r.take n) := by
        subst hstart
        split
        · exact List.reverse_perm _
        · exact .refl _
      have hne : start ≠ [] := fun h => by
        rw [h] at hperm
        exact absurd hperm.length_eq (by simp)
      generalize least-(n+2) = more
      have htake : x :: y :: r.take n ++ (r.drop n).take more = (x :: y :: r).take (n+more+2) := by
        simp only [List.take_succ_cons, List.take_add, List.cons_append]
      have hdrop : (r.drop n).drop more = (x :: y :: r).drop (n+more+2) := by
        simp only [List.drop_succ_cons, List.drop_drop]
      have hcalm (e : ε) (h : Calm lt e (x :: y :: r)) : Calm lt e (x :: y :: r.take n ++ (r.drop n).take more) := by
        rw [htake]
        exact h.sublist (List.take_sublist _ _)
      have hins := insertAll_yields hkind start ((r.drop n).take more)
      refine hins.andThen (fun e he (h : Calm lt e (x :: y :: r)) => he ⟨fun hc => ?_, ?_⟩) fun run hins => ?_
      · exact (hcalm e h).no_clash (hc.mono hperm.subset (List.Subset.refl _))
      · exact (List.pairwise_append.mp (hcalm e h)).2.1
      · have hall : run.Perm ((x :: y :: r).take (n+more+2)) := by
          rw [← htake]
          exact hins.1.trans (hperm.append_right _)
        have hfused : Fused kind run := (hins.2 hne (hrun.of_subset hperm.subset)).of_subset hins.1.subset
        exact .ok ⟨n+more+2, Nat.succ_pos _, hall, hdrop, hfused⟩

theorem Fuses.merge (later : List (Run α)) {rs : List (Run α)} {u r last : Run α}
    (hperm : u.items.Perm (r.items ++ last.items))
    (hmet : r.items ≠ [] → last.items ≠ [] → Met lt r.items last.items) :
    Fuses lt kind (later ++ last :: r :: rs) (later ++ u :: rs) where
  perm := by
    have hu : u.items.Perm (last.items ++ r.items) := hperm.trans List.perm_append_comm
    simp only [elements, List.flatMap_append, List.flatMap_cons, ← List.append_assoc last.items]
    exact (hu.append_right _).append_left _
  calm e hc := by
    have hu {x : α} (hx : x ∈ u.items) : x ∈ r.items ∨ x ∈ last.items := List.mem_append.mp (hperm.mem_iff.mp hx)
    simp only [RunsCalm, List.pairwise_append, List.pairwise_cons, List.forall_mem_cons] at hc ⊢
    obtain ⟨hlater, ⟨⟨-, hlast⟩, hr, hrs⟩, hcross⟩ := hc
    refine ⟨hlater, ⟨fun b hb => ?_, hrs⟩, fun a ha => ⟨?_, (hcross a ha).2.2⟩⟩
    · rintro ⟨x, hx, y, hy, he⟩
      obtain hy | hy := hu hy
      · exact hr b hb ⟨x, hx, y, hy, he⟩
      · exact hlast b hb ⟨x, hx, y, hy, he⟩
    · rintro ⟨x, hx, y, hy, he⟩
      obtain hx | hx := hu hx
      · exact (hcross a ha).2.1 ⟨x, hx, y, hy, he⟩
      · exact (hcross a ha).1 ⟨x, hx, y, hy, he⟩
  whole hw := by
    simp only [List.forall_mem_append, List.forall_mem_cons] at hw ⊢
    obtain ⟨hlater, hlast, hr, hrs⟩ := hw
    obtain ⟨x, hx, y, hy, b, hxy⟩ := hmet hr.1 hlast.1
    have hfused : Fused kind (r.items ++ last.items) := hr.2.append hlast.2 hx hy (hkind y x b hxy).symm
    refine ⟨hlater, ⟨fun h => ?_, hfused.of_subset hperm.subset⟩, hrs⟩
    rw [h] at hperm
    exact hr.1 (List.append_eq_nil_iff.mp hperm.nil_eq.symm).1

theorem collapse_yields (power m : Nat) (last : Run α) (rs : List (Run α)) :
    Yields (fun e => ¬RunsCalm lt e (last :: rs)) (fun r => Fuses lt kind (last :: rs) r.1)
      (collapse lt power m last rs) := by
  induction rs generalizing m last with
  | nil => exact .ok (.relabel rfl)
  | cons r rs ih =>
    rw [collapse]
    split
    · have hmerge := merge_yields lt m r.items last.items
      refine hmerge.andThen (fun e he h => ?_) fun u hu => ?_
      · exact (List.pairwise_cons.mp h).1 r List.mem_cons_self he
      · have hfuses : Fuses lt kind (last :: r :: rs) (⟨r.start, u.1, power⟩ :: rs) :=
          .merge hkind [] hu.1 hu.2
        exact (ih u.2 ⟨r.start, u.1, power⟩).mono (fun e he h => he (hfuses.calm e h)) fun _ h => hfuses.trans h
    · exact .ok (.relabel rfl)

theorem addRun_yields (total m : Nat) (runs : List (Run α)) (xs : List α) :
    Yields (fun e => ¬RunsCalm lt e runs)
      (fun r => ∃ rs start, Fuses lt kind runs rs ∧ r.1 = ⟨start, xs, 0⟩ :: rs) (addRun lt total m runs xs) := by
  cases runs with
  | nil => exact .ok ⟨[], 0, .refl _, rfl⟩
  | cons last rs =>
    refine (collapse_yields hkind _ m last rs).bind fun r hr => .ok ⟨r.1, _, hr, rfl⟩

theorem finish_pair (m : Nat) (c b : Run α) :
    Yields (fun e => ¬RunsCalm lt e [c, b])
      (fun ys => ys.Perm (elements [c, b]) ∧ ((∀ r ∈ [c, b], r.Whole kind) → Fused kind ys))
      (Prod.fst <$> merge lt m b.items c.items) := by
  refine ((merge_yields lt m b.items c.items).mono (F := fun e => ¬RunsCalm lt e [c, b]) (fun e he h => ?_)
    fun _ h => h).map fun u hu => ?_
  · exact (List.pairwise_cons.mp h).1 b List.mem_cons_self he
  · have hfuses : Fuses lt kind [c, b] [⟨0, u.1, 0⟩] := .merge hkind [] hu.1 hu.2
    have hone : elements [⟨0, u.1, 0⟩] = u.1 := by simp [elements]
    refine ⟨hone ▸ hfuses.perm, fun hw => ?_⟩
    exact (hfuses.whole hw _ List.mem_cons_self).2

theorem finish_yields (n m : Nat) (runs : List (Run α)) (hn : runs.length ≤ n+2) :
    Yields (fun e => ¬RunsCalm lt e runs)
      (fun ys => ys.Perm (elements runs) ∧ ((∀ r ∈ runs, r.Whole kind) → Fused kind ys)) (finish lt n m runs) := by
  induction n generalizing m runs with
  | zero =>
    match runs with
    | [] => exact .ok ⟨.refl _, fun _ x hx => absurd hx List.not_mem_nil⟩
    | [c] => exact .ok ⟨.refl _, fun h => by simpa using (h c List.mem_cons_self).2⟩
    | [c, b] => exact finish_pair hkind m c b
  | succ n ih =>
    match runs with
    | [] => exact .ok ⟨.refl _, fun _ x hx => absurd hx List.not_mem_nil⟩
    | [c] => exact .ok ⟨.refl _, fun h => by simpa using (h c List.mem_cons_self).2⟩
    | [c, b] => exact finish_pair hkind m c b
    | c :: b :: a :: rs =>
      have hlength : rs.length+2 ≤ n+2 := by
        simp only [List.length_cons] at hn
        omega
      have hon {rs' : List (Run α)} (m : Nat) (hfuses : Fuses lt kind (c :: b :: a :: rs) rs')
          (hrs' : rs'.length = rs.length+2) : Yields (fun e => ¬RunsCalm lt e (c :: b :: a :: rs))
            (fun ys => ys.Perm (elements (c :: b :: a :: rs)) ∧
              ((∀ r ∈ c :: b :: a :: rs, r.Whole kind) → Fused kind ys)) (finish lt n m rs') :=
        (ih m rs' (hrs' ▸ hlength)).mono (fun e he h => he (hfuses.calm e h)) fun ys hys =>
          ⟨hys.1.trans hfuses.perm, fun h => hys.2 (hfuses.whole h)⟩
      rw [finish]
      split
      · refine (merge_yields lt m a.items b.items).andThen (fun e he h => ?_) fun u hu => ?_
        · exact (List.pairwise_cons.mp h.of_cons).1 a List.mem_cons_self he
        · exact hon u.2 (.merge hkind [c] hu.1 hu.2) rfl
      · refine (merge_yields lt m b.items c.items).andThen (fun e he h => ?_) fun u hu => ?_
        · exact (List.pairwise_cons.mp h).1 b List.mem_cons_self he
        · exact hon u.2 (.merge hkind [] hu.1 hu.2) rfl

theorem left_yields (m : Nat) (runs : List (Run α)) :
    Yields (fun e => ¬CalmAhead lt e runs [])
      (fun ys => ys.Perm (elements runs ++ []) ∧ ((∀ r ∈ runs, r.Whole kind) → Fused kind ys))
      (do return (← finish lt runs.length m runs) ++ []) := by
  simp only [List.append_nil, bind_pure]
  exact (finish_yields hkind runs.length m runs (Nat.le_add_right _ 2)).mono (fun e he h => he h.runs) fun _ h => h

omit hkind in
theorem CalmAhead.taken {runs rs : List (Run α)} {run xs : List α} {n start : Nat} {e : ε}
    (h : CalmAhead lt e runs xs) (hfuses : Fuses lt kind runs rs) (hperm : run.Perm (xs.take n)) :
    CalmAhead lt e (⟨start, run, 0⟩ :: rs) (xs.drop n) where
  runs := by
    have hrun : run ⊆ xs := fun x hx => List.take_subset n xs (hperm.subset hx)
    refine List.pairwise_cons.mpr ⟨fun r hr hc => h.cross (hc.mono (fun x hx => ?_) hrun), hfuses.calm e h.runs⟩
    exact hfuses.perm.subset (List.mem_flatMap.mpr ⟨r, hr, hx⟩)
  cross := by
    rintro ⟨x, hx, y, hy, he⟩
    have hparts : Calm lt e (xs.take n ++ xs.drop n) := by
      rw [List.take_append_drop]
      exact h.left
    rw [elements, List.flatMap_cons] at hx
    obtain hx | hx := List.mem_append.mp hx
    · exact hparts.no_clash ⟨x, hperm.subset hx, y, hy, he⟩
    · exact h.cross ⟨x, hfuses.perm.subset hx, y, List.drop_subset n xs hy, he⟩
  left := h.left.sublist (List.drop_sublist n xs)

theorem sortRuns_yields (total least n m : Nat) (runs : List (Run α)) (xs : List α) (hn : xs.length ≤ n) :
    Yields (fun e => ¬CalmAhead lt e runs xs)
      (fun ys => ys.Perm (elements runs ++ xs) ∧ ((∀ r ∈ runs, r.Whole kind) → Fused kind ys))
      (sortRuns lt total least n m runs xs) := by
  induction n generalizing m runs xs with
  | zero =>
    rw [List.length_eq_zero_iff.mp (Nat.le_zero.mp hn), sortRuns]
    · exact left_yields hkind m runs
    · simp
  | succ n ih =>
    match xs with
    | [] =>
      rw [sortRuns]
      · exact left_yields hkind m runs
      · simp
    | x :: r =>
      generalize hxs : x :: r = xs at hn ⊢
      have hne : xs ≠ [] := hxs ▸ List.cons_ne_nil x r
      have hnext := nextRun_yields hkind least xs hne
      rw [← hxs, sortRuns, hxs]
      refine hnext.andThen (fun e he (h : CalmAhead lt e runs xs) => he h.left) ?_
      rintro ⟨run, rest⟩ ⟨k, hk, hperm, hrest, hfused⟩
      dsimp only at hperm hrest hfused ⊢
      subst hrest
      refine (addRun_yields hkind total m runs run).andThen (fun e he (h : CalmAhead lt e runs xs) => he h.runs) ?_
      rintro ⟨rs', m⟩ ⟨rs, start, hfuses, hrs⟩
      dsimp only at hrs ⊢
      subst hrs
      have hlength : (xs.drop k).length ≤ n := by
        rw [List.length_drop]
        omega
      have hwhole : Run.Whole kind ⟨start, run, 0⟩ := by
        refine ⟨fun h => ?_, hfused⟩
        change run = [] at h
        have hnil : xs.take k = [] := by
          rw [h] at hperm
          exact hperm.nil_eq.symm
        obtain hk0 | hx0 := List.take_eq_nil_iff.mp hnil
        · omega
        · exact hne hx0
      have hall : (elements (⟨start, run, 0⟩ :: rs) ++ xs.drop k).Perm (elements runs ++ xs) := by
        have hfront : (run ++ elements rs).Perm (elements runs ++ xs.take k) :=
          List.perm_append_comm.trans (hfuses.perm.append hperm)
        have hback := hfront.append_right (xs.drop k)
        rwa [List.append_assoc (elements runs), List.take_append_drop] at hback
      exact (ih m _ (xs.drop k) hlength).mono (fun e he h => he (h.taken hfuses hperm)) fun ys hys =>
        ⟨hys.1.trans hall, fun h => hys.2 (List.forall_mem_cons.mpr ⟨hwhole, hfuses.whole h⟩)⟩

/-- A sort gives back the same elements, all connected by comparisons that were answered, or fails with the failure of a
comparison of a later element with an earlier one. -/
theorem sort_yields (xs : List α) :
    Yields (fun e => ¬Calm lt e xs) (fun ys => ys.Perm xs ∧ Fused kind ys) (sort lt xs) := by
  refine (sortRuns_yields hkind xs.length (leastRun xs.length false xs.length) xs.length leastLeap [] xs
    (Nat.le_refl _)).mono (fun e he h => he ⟨.nil, ?_, h⟩) fun ys hys => ⟨hys.1, hys.2 (by simp)⟩
  rintro ⟨x, hx, -⟩
  cases hx

end

theorem sort_yields_perm (xs : List α) : Yields (fun e => ¬Calm lt e xs) (fun ys => ys.Perm xs) (sort lt xs) := by
  have hunit : Yields (fun e => ¬Calm lt e xs) (fun ys => ys.Perm xs ∧ Fused (fun _ => ()) ys) (sort lt xs) :=
    sort_yields (fun _ _ _ _ => rfl) xs
  exact hunit.mono (fun _ h => h) fun _ h => h.1

theorem sort_perm {xs ys : List α} (h : sort lt xs = .ok ys) : ys.Perm xs := (sort_yields_perm xs).of_ok h

theorem sort_kind {κ : Type} {kind : α → κ} (hkind : ∀ x y b, lt x y = .ok b → kind x = kind y) {xs ys : List α}
    (h : sort lt xs = .ok ys) : Fused kind xs :=
  have hys := (sort_yields hkind xs).of_ok h
  hys.2.of_subset hys.1.symm.subset

theorem sort_error {xs : List α} {e : ε} (h : sort lt xs = .error e) : ∃ x ∈ xs, ∃ y ∈ xs, lt y x = .error e := by
  refine Classical.byContradiction fun hno => ?_
  refine (sort_yields_perm xs).of_error h ?_
  refine List.pairwise_iff_forall_sublist.mpr fun {x y} hxy he => hno ⟨x, ?_, y, ?_, he⟩
  · exact hxy.subset List.mem_cons_self
  · exact hxy.subset (List.mem_cons_of_mem x List.mem_cons_self)

theorem sort_ok {xs : List α} (h : xs.Pairwise fun x y => ∃ b, lt y x = .ok b) : ∃ ys, sort lt xs = .ok ys := by
  cases hs : sort lt xs with
  | ok ys => exact ⟨ys, rfl⟩
  | error e =>
    refine absurd (h.imp fun ⟨b, hb⟩ he => ?_) ((sort_yields_perm xs).of_error hs)
    rw [hb] at he
    cases he

end

end Sorting
end CircuitHarness
