import CircuitHarness.Journal.Console

/-! Which loggers lie below the package logger. The names above a name are looked up from its end, and a dot right in
front of one that was cut at is passed over, so a name with two dots behind the package's may miss it. -/
namespace CircuitHarness

theorem Channel.exists_dot_of_mem_above {name : List Char} {b : Bool} {n : Nat} {p : String}
    (h : p ∈ Channel.above name b n) : ∃ i < n, name[i]? = some '.' ∧ p = String.ofList (name.take i) := by
  fun_induction Channel.above name b n with
  | case1 b => cases h
  | case2 n ih =>
    obtain ⟨i, hi, hdot, hp⟩ := ih h
    exact ⟨i, by omega, hdot, hp⟩
  | case3 hdot => cases h
  | case4 n hdot hn ih =>
    obtain rfl | h := List.mem_cons.mp h
    · exact ⟨n, by omega, hdot, rfl⟩
    · obtain ⟨i, hi, hdot', hp⟩ := ih h
      exact ⟨i, by omega, hdot', hp⟩
  | case5 n hdot ih =>
    obtain ⟨i, hi, hdot', hp⟩ := ih h
    exact ⟨i, by omega, hdot', hp⟩

/-- A dot that no other follows is cut at. Behind a cut one place is passed over, and it is not this one. -/
theorem Channel.mem_above {name : List Char} {b : Bool} {n i : Nat} (hi : i < n) (hpos : 0 < i)
    (hdot : name[i]? = some '.') (hnext : name[i+1]? ≠ some '.') (hb : b = true → name[n]? = some '.') :
    String.ofList (name.take i) ∈ Channel.above name b n := by
  fun_induction Channel.above name b n with
  | case1 b => omega
  | case2 n ih =>
    have hne : i ≠ n := by
      rintro rfl
      exact hnext (hb rfl)
    exact ih (by omega) (by simp)
  | case3 hzero => omega
  | case4 n hcut hn ih =>
    by_cases he : i = n
    · subst he
      exact List.mem_cons_self
    · exact List.mem_cons_of_mem _ (ih (by omega) fun _ => hcut)
  | case5 n hcut ih =>
    have hne : i ≠ n := by
      rintro rfl
      exact hcut hdot
    exact ih (by omega) (by simp)

namespace Logger

def Dotted (rest : List Char) (name : String) : Prop := name.toList = package.toList ++ '.' :: rest

def Inside (name : String) : Prop := name = package ∨ ∃ rest, Dotted rest name

/-- Inside the package, and no two dots stand right behind its name. -/
def Plain (name : String) : Prop := name = package ∨ ∃ rest, Dotted rest name ∧ rest.head? ≠ some '.'

theorem Plain.inside {name : String} (h : Plain name) : Inside name :=
  h.imp_right fun ⟨rest, hd, _⟩ => ⟨rest, hd⟩

variable {rest : List Char} {name : String}

theorem Dotted.le_of_dot (h : Dotted rest name) {i : Nat} (hdot : name.toList[i]? = some '.') :
    package.toList.length ≤ i := by
  refine Nat.le_of_not_lt fun hlt => ?_
  rw [h, List.getElem?_append_left (by omega)] at hdot
  have hmem : '.' ∈ package.toList := List.mem_of_getElem? hdot
  revert hmem
  decide

theorem Dotted.take (h : Dotted rest name) {i : Nat} (hi : package.toList.length ≤ i) :
    String.ofList (name.toList.take i) = package ∨
      ∃ k, Dotted (rest.take k) (String.ofList (name.toList.take i)) := by
  obtain ⟨k, rfl⟩ := Nat.exists_eq_add_of_le hi
  rw [h, List.take_length_add_append]
  cases k with
  | zero =>
    left
    simp
  | succ k => exact .inr ⟨k, by simp [Dotted]⟩

theorem Inside.of_take {i : Nat} (hdot : name.toList[i]? = some '.')
    (h : Inside (String.ofList (name.toList.take i))) : Inside name := by
  have hsplit : name.toList = name.toList.take i ++ '.' :: name.toList.drop (i+1) := by
    obtain ⟨hi, he⟩ := List.getElem?_eq_some_iff.mp hdot
    rw [← he, List.getElem_cons_drop, List.take_append_drop]
  obtain h | ⟨rest, h⟩ := h
  · have htake : name.toList.take i = package.toList := by rw [← h, String.toList_ofList]
    exact .inr ⟨_, hsplit.trans (by rw [htake])⟩
  · have htake : name.toList.take i = package.toList ++ '.' :: rest := by rw [← h, String.toList_ofList]
    exact .inr ⟨rest ++ '.' :: name.toList.drop (i+1), hsplit.trans (by rw [htake, List.append_assoc, List.cons_append])⟩

end Logger

namespace Console
variable {c : Console} {name : String}

theorem knows_package (c : Console) : c.knows Logger.package = true := by simp [knows]

/-- Whatever loggers are known, the nearest ones lead from a plain name to the package logger. -/
theorem isBelow_of_plain (h : Logger.Plain name) {n : Nat} (hn : name.length < n) : c.isBelow n name = true := by
  induction n generalizing name with
  | zero => omega
  | succ n ih =>
    obtain rfl | ⟨rest, hd, hrest⟩ := h
    · simp [isBelow]
    · have hpackage : Logger.package ∈ Channel.above name.toList false name.length := by
        have hat : name.toList[Logger.package.toList.length]? = some '.' := by rw [hd]; simp
        have hnext : name.toList[Logger.package.toList.length + 1]? ≠ some '.' := by
          rw [hd, List.getElem?_append_right (by omega)]
          simpa [List.head?_eq_getElem?] using hrest
        have hlength : Logger.package.toList.length < name.length := by
          rw [← String.length_toList, hd]
          simp
        have hcut : name.toList.take Logger.package.toList.length = Logger.package.toList := by rw [hd, List.take_left]
        have hmem := Channel.mem_above (b := false) hlength (by decide) hat hnext (by simp)
        rwa [hcut, String.ofList_toList] at hmem
      cases hf : (Channel.above name.toList false name.length).find? c.knows with
      | none =>
        have hunknown := List.find?_eq_none.mp hf _ hpackage
        exact absurd c.knows_package hunknown
      | some p =>
        obtain ⟨i, hi, hdot, rfl⟩ := Channel.exists_dot_of_mem_above (List.mem_of_find?_eq_some hf)
        have hshort : (String.ofList (name.toList.take i)).length < n := by
          rw [String.length_ofList, List.length_take]
          omega
        have hplain : Logger.Plain (String.ofList (name.toList.take i)) := by
          obtain hp | ⟨k, hk⟩ := hd.take (hd.le_of_dot hdot)
          · exact .inl hp
          · refine .inr ⟨_, hk, ?_⟩
            cases k with
            | zero => simp
            | succ k => simpa [List.head?_take] using hrest
        simp [isBelow, hf, ih hplain hshort]

theorem isBelow_of_not_inside (h : ¬Logger.Inside name) (n : Nat) : c.isBelow n name = false := by
  induction n generalizing name with
  | zero => rfl
  | succ n ih =>
    have hne : name ≠ Logger.package := fun he => h (.inl he)
    cases hf : (Channel.above name.toList false name.length).find? c.knows with
    | none => simp [isBelow, hf, hne]
    | some p =>
      obtain ⟨i, -, hdot, rfl⟩ := Channel.exists_dot_of_mem_above (List.mem_of_find?_eq_some hf)
      have houtside : ¬Logger.Inside (String.ofList (name.toList.take i)) := fun hp => h (hp.of_take hdot)
      simp [isBelow, hf, hne, ih houtside]

theorem belongs_of_plain (h : Logger.Plain name) : c.belongs name = true := isBelow_of_plain h (Nat.lt_succ_self _)

theorem belongs_of_not_inside (h : ¬Logger.Inside name) : c.belongs name = false := isBelow_of_not_inside h _

end Console
end CircuitHarness
