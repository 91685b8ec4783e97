import CircuitHarness.Value.Access

/-! What stands under a text in a map, and in a field of a record, once something else has been put in. -/
namespace CircuitHarness.Value

/-- No other value is the same as a text. -/
theorem same_text_iff {v k : Value} (hk : k.codes?.isSome) : v.same k = true ↔ v = k := by
  cases k with
  | str s => cases v <;> simp [same, Number.ofValue?]
  | codes cs => cases v <;> simp [same, Number.ofValue?]
  | _ => cases hk

theorem text_same_iff {v k : Value} (hk : k.codes?.isSome) : k.same v = true ↔ v = k := by
  cases k with
  | str s => cases v <;> simp [same, eq_comm]
  | codes cs => cases v <;> simp [same, eq_comm]
  | _ => cases hk

theorem same_str_iff {v : Value} {s : String} : v.same (.str s) = true ↔ v = .str s := same_text_iff rfl

theorem str_same_iff {v : Value} {s : String} : (Value.str s).same v = true ↔ v = .str s := text_same_iff rfl

namespace Keyed
variable {β : Type} {name : String} {k l : Value} {es : Keyed β}

theorem get?_cons (k l : Value) (w : β) (es : Keyed β) :
    get? k ((l, w) :: es) = if l.same k then some w else get? k es := by
  rw [get?, List.find?_cons]
  cases l.same k <;> rfl

theorem mem_of_get? {w : β} (h : get? (.str name) es = some w) : (.str name, w) ∈ es := by
  obtain ⟨e, he, rfl⟩ := Option.map_eq_some_iff.mp h
  have hsame : e.1.same (.str name) = true := by simpa using List.find?_some he
  have hname : e.1 = .str name := same_str_iff.mp hsame
  rw [← hname]
  exact List.mem_of_find?_eq_some he

theorem get?_put_text (hk : k.codes?.isSome) (v : β) (es : Keyed β) : get? k (put k v es) = some v := by
  induction es with
  | nil =>
    rw [put, get?_cons, if_pos ((same_text_iff hk).mpr rfl)]
  | cons e es ih =>
    by_cases h : e.1.same k
    · rw [put, if_pos h, get?_cons, if_pos h]
    · rw [put, if_neg h, get?_cons, if_neg h, ih]

theorem get?_put_other (hk : k.codes?.isSome) (h : l ≠ k) (v : β) : get? k (put l v es) = get? k es := by
  induction es with
  | nil =>
    have hl : ¬l.same k = true := by rwa [same_text_iff hk]
    rw [put, get?_cons, if_neg hl]
  | cons e es ih =>
    obtain ⟨m, w⟩ := e
    by_cases hm : m.same l
    · have hne : ¬m.same k = true := by
        intro hs
        rw [(same_text_iff hk).mp hs, text_same_iff hk] at hm
        exact h hm
      rw [put, if_pos hm, get?_cons, get?_cons, if_neg hne, if_neg hne]
    · rw [put, if_neg hm, get?_cons, get?_cons, ih]

theorem get?_put_self (name : String) (v : β) (es : Keyed β) : get? (.str name) (put (.str name) v es) = some v :=
  get?_put_text rfl v es

theorem get?_put_of_ne (h : k ≠ .str name) (v : β) : get? (.str name) (put k v es) = get? (.str name) es :=
  get?_put_other rfl h v

theorem mem_put {e : Value × β} {v : β} (h : e ∈ put k v es) :
    e ∈ es ∨ e.2 = v ∧ (e.1 = k ∨ ∃ w, (e.1, w) ∈ es) := by
  induction es with
  | nil =>
    cases List.mem_singleton.mp h
    exact .inr ⟨rfl, .inl rfl⟩
  | cons x es ih =>
    rw [put] at h
    split at h
    · obtain rfl | h := List.mem_cons.mp h
      · exact .inr ⟨rfl, .inr ⟨_, List.mem_cons_self⟩⟩
      · exact .inl (List.mem_cons_of_mem _ h)
    · obtain rfl | h := List.mem_cons.mp h
      · exact .inl List.mem_cons_self
      · obtain h | ⟨hv, h⟩ := ih h
        · exact .inl (List.mem_cons_of_mem _ h)
        · exact .inr ⟨hv, h.imp_right fun ⟨w, hw⟩ => ⟨w, List.mem_cons_of_mem _ hw⟩⟩

theorem put_mem (k : Value) (v : β) (es : Keyed β) : ∃ l, (l, v) ∈ put k v es ∧ (l = k ∨ l.same k) := by
  induction es with
  | nil => exact ⟨k, List.mem_cons_self, .inl rfl⟩
  | cons x es ih =>
    rw [put]
    split
    · rename_i hsame
      exact ⟨x.1, List.mem_cons_self, .inr hsame⟩
    · obtain ⟨l, hl, hk⟩ := ih
      exact ⟨l, List.mem_cons_of_mem _ hl, hk⟩

/-- Under different texts the order does not matter, but for the order of the entries. -/
theorem put_put_perm (hk : k.codes?.isSome) (h : k ≠ l) (v w : β) (es : Keyed β) :
    (put k v (put l w es)).Perm (put l w (put k v es)) := by
  have hlk : ¬l.same k = true := fun hs => h ((same_text_iff hk).mp hs).symm
  have hkl : ¬k.same l = true := fun hs => h ((text_same_iff hk).mp hs).symm
  induction es with
  | nil =>
    simp only [put, if_neg hlk, if_neg hkl]
    exact .swap _ _ _
  | cons e es ih =>
    obtain ⟨m, u⟩ := e
    by_cases hm : m.same k
    · -- the entry is the one for `k`, so it is not the one for `l`
      obtain rfl := (same_text_iff hk).mp hm
      simp only [put, if_pos hm, if_neg hkl]
      exact .refl _
    · by_cases hml : m.same l
      · simp only [put, if_neg hm, if_pos hml]
        exact .refl _
      · simp only [put, if_neg hm, if_neg hml]
        exact ih.cons _

theorem get?_put_put (hk : k.codes?.isSome) {m : Value} (h : l ≠ m) (v w : β) (es : Keyed β) :
    get? k (put l v (put m w es)) = get? k (put m w (put l v es)) := by
  by_cases hl : l = k
  · subst hl
    rw [get?_put_text hk, get?_put_other hk (Ne.symm h), get?_put_text hk]
  · by_cases hm : m = k
    · subst hm
      rw [get?_put_other hk h, get?_put_text hk, get?_put_text hk]
    · rw [get?_put_other hk hl, get?_put_other hk hm, get?_put_other hk hm, get?_put_other hk hl]

theorem get?_put_isSome (h : (get? (.str name) es).isSome) (k : Value) (v : β) :
    (get? (.str name) (put k v es)).isSome := by
  by_cases hk : k = .str name
  · rw [hk, get?_put_self]
    rfl
  · rwa [get?_put_of_ne hk]

end Keyed

theorem entry_str {es : Entries} {name : String} {v : Value} (h : Keyed.get? (.str name) es = some v) :
    (Value.map es).entry (.str name) = .ok v := by
  simp [entry, isHashable, h]

theorem field?_replaced (name other : String) (v : Value) (fs : List (String × Value)) :
    field? other (fs.map fun f => if f.1 = name then (name, v) else f) =
      (field? other fs).map fun w => if other = name then v else w := by
  induction fs with
  | nil => rfl
  | cons f fs ih =>
    by_cases hf : f.1 = name
    · by_cases ho : other = name
      · simp [field?, hf, ho]
      · have hno : ¬name = other := fun h => ho h.symm
        simpa [field?, hf, ho, hno] using ih
    · by_cases ho : f.1 = other
      · have hon : ¬other = name := fun h => hf (ho.trans h)
        simp [field?, ho, hon]
      · simpa [field?, hf, ho] using ih

end CircuitHarness.Value
