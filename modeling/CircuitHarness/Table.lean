/-! Named entries in the order in which their names were first given; every name occurs once. -/
namespace CircuitHarness

variable {β : Type}

namespace Listing

def put (name : String) (b : β) : List (String × β) → List (String × β)
  | [] => [(name, b)]
  | (m, c) :: r => if m = name then (m, b) :: r else (m, c) :: put name b r

theorem keys_put (name : String) (b : β) (es : List (String × β)) :
    (put name b es).map Prod.fst =
      if name ∈ es.map Prod.fst then es.map Prod.fst else es.map Prod.fst ++ [name] := by
  induction es with
  | nil => simp [put]
  | cons e r ih =>
    by_cases h : e.1 = name
    · simp [put, h]
    · have h' : ¬name = e.1 := fun k => h k.symm
      by_cases m : name ∈ r.map Prod.fst <;> simp_all [put]

theorem put_of_not_mem {name : String} (b : β) {es : List (String × β)} (h : name ∉ es.map Prod.fst) :
    put name b es = es ++ [(name, b)] := by
  induction es with
  | nil => rfl
  | cons e r ih =>
    rw [List.map_cons, List.mem_cons, not_or] at h
    rw [put, if_neg (Ne.symm h.1), ih h.2, List.cons_append]

theorem nodup_put (name : String) (b : β) (es : List (String × β)) (h : (es.map Prod.fst).Nodup) :
    ((put name b es).map Prod.fst).Nodup := by
  rw [keys_put]
  split
  · exact h
  · rename_i m
    exact List.nodup_append.mpr ⟨h, by simp, by rintro a ha b hb rfl; simp_all⟩

theorem mem_put {name : String} {b : β} {es : List (String × β)} {e : String × β} (h : e ∈ put name b es) :
    e = (name, b) ∨ e ∈ es := by
  induction es with
  | nil => exact .inl (List.mem_singleton.mp h)
  | cons x r ih =>
    rw [put] at h
    split at h
    · rename_i hx
      obtain rfl | h := List.mem_cons.mp h
      · exact .inl (by rw [hx])
      · exact .inr (List.mem_cons_of_mem x h)
    · obtain rfl | h := List.mem_cons.mp h
      · exact .inr List.mem_cons_self
      · exact (ih h).imp_right (List.mem_cons_of_mem x)

end Listing

structure Table (β : Type) where
  entries : List (String × β)
  nodup : (entries.map Prod.fst).Nodup

namespace Table

def empty : Table β := ⟨[], by simp⟩

instance : Inhabited (Table β) := ⟨empty⟩

def names (t : Table β) : List String := t.entries.map Prod.fst

def get? (t : Table β) (name : String) : Option β := (t.entries.find? (·.1 = name)).map (·.2)

def put (t : Table β) (name : String) (b : β) : Table β :=
  ⟨Listing.put name b t.entries, Listing.nodup_put name b t.entries t.nodup⟩

def ofList (es : List (String × β)) : Table β := es.foldl (fun t e => t.put e.1 e.2) empty

theorem foldl_put (es : List (String × β)) (t : Table β) (h : ((t.entries ++ es).map Prod.fst).Nodup) :
    (es.foldl (fun t e => t.put e.1 e.2) t).entries = t.entries ++ es := by
  induction es generalizing t with
  | nil => exact (List.append_nil _).symm
  | cons e es ih =>
    have hnew : e.1 ∉ t.entries.map Prod.fst := by
      rw [List.map_append, List.map_cons] at h
      exact fun hmem => (List.nodup_append.mp h).2.2 e.1 hmem e.1 List.mem_cons_self rfl
    have hput : (t.put e.1 e.2).entries = t.entries ++ [e] := Listing.put_of_not_mem e.2 hnew
    have hshift : t.entries ++ e :: es = (t.put e.1 e.2).entries ++ es := by
      rw [hput, List.append_assoc, List.singleton_append]
    rw [List.foldl_cons, hshift]
    exact ih (t.put e.1 e.2) (hshift ▸ h)

theorem ofList_entries (t : Table β) : ofList t.entries = t := by
  have h : (ofList t.entries).entries = t.entries := foldl_put t.entries empty t.nodup
  cases t
  cases hr : ofList _ with
  | mk es nodup =>
    rw [hr] at h
    cases h
    rfl

theorem mem_entries {t : Table β} {name : String} {b : β} (h : t.get? name = some b) : (name, b) ∈ t.entries := by
  obtain ⟨e, he, rfl⟩ := Option.map_eq_some_iff.mp h
  have hname : e.1 = name := by simpa using List.find?_some he
  subst hname
  exact List.mem_of_find?_eq_some he

theorem mem_ofList {es : List (String × β)} {e : String × β} (h : e ∈ (ofList es).entries) : e ∈ es := by
  have general (es : List (String × β)) (t : Table β) (h : e ∈ (es.foldl (fun t e => t.put e.1 e.2) t).entries) :
      e ∈ t.entries ∨ e ∈ es := by
    induction es generalizing t with
    | nil => exact .inl h
    | cons x r ih =>
      obtain hx | hr := ih (t.put x.1 x.2) h
      · obtain rfl | hx := Listing.mem_put hx
        · exact .inr List.mem_cons_self
        · exact .inl hx
      · exact .inr (List.mem_cons_of_mem x hr)
  obtain hn | he := general es empty h
  · cases hn
  · exact he

end Table
end CircuitHarness
