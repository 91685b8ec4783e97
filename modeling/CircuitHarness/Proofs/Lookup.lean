import CircuitHarness.Dispatcher
import Mathlib.Data.Finset.Card
import Mathlib.Data.List.Induction

/-! Every way to ask a dispatcher for a circuit answers from one table. By item a circuit is found under any name
it was given; a dotted name finds the same circuit, unless it starts with an underscore or is one of the two names
that the dispatcher has for itself. -/
namespace CircuitHarness

variable {β : Type}

namespace Table

theorem names_put (t : Table β) (name : String) (b : β) :
    (t.put name b).names = if name ∈ t.names then t.names else t.names ++ [name] :=
  Listing.keys_put name b t.entries

theorem get?_put (t : Table β) (name n : String) (b : β) :
    (t.put name b).get? n = if n = name then some b else t.get? n := by
  obtain ⟨es, hes⟩ := t
  change ((Listing.put name b es).find? _).map _ = ite _ _ ((es.find? _).map _)
  clear hes
  induction es with
  | nil => by_cases h : name = n <;> simp [Listing.put, h, eq_comm]
  | cons e r ih =>
    rw [Listing.put]
    split
    · by_cases h : name = n <;> simp_all [eq_comm]
    · by_cases h : e.1 = n
      · have hn : n ≠ name := fun hn => absurd (h.trans hn) ‹_›
        simp [h, hn]
      · simpa [h] using ih

theorem isSome_get?_iff {t : Table β} {name : String} : (t.get? name).isSome ↔ name ∈ t.names := by
  simp [get?, names]

theorem ofList_concat (es : List (String × β)) (e : String × β) : ofList (es ++ [e]) = (ofList es).put e.1 e.2 :=
  List.foldl_concat _ _ _ _

theorem names_ofList (es : List (String × β)) : (ofList es).names = (es.map Prod.fst).eraseDups := by
  induction es using List.reverseRecOn with
  | nil => rfl
  | append_singleton es e ih =>
    rw [ofList_concat, names_put, ih, List.map_append, List.eraseDups_append]
    by_cases h : e.1 ∈ es.map Prod.fst <;> simp_all [List.removeAll, List.eraseDups_cons]

theorem get?_ofList (es : List (String × β)) (name : String) : (ofList es).get? name = es.reverse.lookup name := by
  induction es using List.reverseRecOn with
  | nil => rfl
  | append_singleton es e ih =>
    rw [ofList_concat, get?_put, ih, List.reverse_append, List.reverse_singleton, List.singleton_append,
      List.lookup_cons]
    by_cases h : name = e.1
    · simp [h]
    · simp [h, beq_false_of_ne h]

end Table

namespace Dispatcher

theorem find?_str (d : Dispatcher β) (name : String) :
    d.find? (.str name) = (d.circuits.get? name).map fun c => ⟨d.kind, name, c⟩ := rfl

theorem isSome_find?_iff {d : Dispatcher β} {name : String} : (d.find? (.str name)).isSome ↔ name ∈ d.names := by
  rw [find?_str, Option.isSome_map, Table.isSome_get?_iff, names]

theorem item_str (d : Dispatcher β) (name : String) : d.item (.str name) =
    match d.circuits.get? name with
    | some c => .ok ⟨d.kind, name, c⟩
    | none => .error (d.unknown (.str name)) := by
  simp only [item, Value.isHashable, find?_str, if_true]
  cases d.circuits.get? name <;> rfl

theorem item_of_mem {d : Dispatcher β} {name : String} (h : name ∈ d.names) :
    ∃ c, d.circuits.get? name = some c ∧ d.item (.str name) = .ok ⟨d.kind, name, c⟩ := by
  obtain ⟨c, hc⟩ := Option.isSome_iff_exists.mp (Table.isSome_get?_iff.mpr h)
  exact ⟨c, hc, by rw [item_str, hc]⟩

theorem item_of_not_mem {d : Dispatcher β} {name : String} (h : name ∉ d.names) :
    d.item (.str name) = .error (d.unknown (.str name)) := by
  have hc : d.circuits.get? name = none := by
    rwa [← Option.not_isSome_iff_eq_none, Table.isSome_get?_iff]
  rw [item_str, hc]

theorem member_of_open (d : Dispatcher β) {name : String} (hguard : name.toList.head? ≠ some '_')
    (hnames : name ≠ "names") (hkind : name ≠ "kind") :
    d.member (.str name) = (d.item (.str name)).map .circuit := by
  rw [member, if_neg hnames, if_neg hkind, if_neg hguard]

/-- What one name gives, by item, by membership and behind a dot. -/
structure Consistent (d : Dispatcher β) (name : String) : Prop where
  item_iff : (∃ b, d.item (.str name) = .ok b) ↔ name ∈ d.names
  has : d.has (.str name) = .ok (decide (name ∈ d.names))
  missing : name ∉ d.names →
    d.item (.str name) = .error (.unknownCircuit (.str name) (.kind d.kind) (d.names.map .str))
  member : name.toList.head? ≠ some '_' → name ≠ "names" → name ≠ "kind" →
    d.member (.str name) = (d.item (.str name)).map .circuit ∧
      d.hasMember (.str name) = d.has (.str name) ∧ (d.member? (.str name) = .ok none ↔ name ∉ d.names) ∧
      ∀ b, d.item (.str name) = .ok b → d.member? (.str name) = .ok (some (.circuit b))
  guarded : name.toList.head? = some '_' → ∀ b, d.member (.str name) ≠ .ok (.circuit b)

theorem consistent (d : Dispatcher β) (name : String) : d.Consistent name := by
  refine ⟨?_, ?_, item_of_not_mem, fun hguard hnames hkind => ?_, fun hguard b => ?_⟩
  · by_cases h : name ∈ d.names
    · obtain ⟨c, -, hc⟩ := item_of_mem h
      exact iff_of_true ⟨_, hc⟩ h
    · refine iff_of_false ?_ h
      rintro ⟨b, hb⟩
      cases (item_of_not_mem h).symm.trans hb
  · have hfound : (d.find? (.str name)).isSome = decide (name ∈ d.names) :=
      Bool.eq_iff_iff.mpr (isSome_find?_iff.trans decide_eq_true_iff.symm)
    rw [← hfound]
    rfl
  · have hmember := d.member_of_open hguard hnames hkind
    have hhas : d.has (.str name) = .ok (d.find? (.str name)).isSome := rfl
    rw [hmember, hasMember, hhas, member?, hmember]
    by_cases h : name ∈ d.names
    · obtain ⟨c, -, hc⟩ := item_of_mem h
      have hfound := isSome_find?_iff.mpr h
      simp [hc, h, hfound, Except.map]
    · have hfound : (d.find? (.str name)).isSome = false := by
        rw [← Bool.not_eq_true, isSome_find?_iff]
        exact h
      simp [item_of_not_mem h, h, hfound, Except.map, unknown, isAbsence]
  · have hnames : name ≠ "names" := by rintro rfl; simp at hguard
    have hkind : name ≠ "kind" := by rintro rfl; simp at hguard
    rw [member, if_neg hnames, if_neg hkind, if_pos hguard]
    exact nofun

/-- A dispatcher is built, and after that something is done to the mapping that it was built from. -/
def builtBefore {α : Type} (kind : CircuitKind) (later : Action (Table β) α) : Action (Table β) (Dispatcher β) := do
  let d ← build kind
  let _ ← Action.attempt later
  return d

theorem builtBefore_result {α : Type} (kind : CircuitKind) (later : Action (Table β) α) (mapping : Table β) :
    (builtBefore kind later mapping).result = .ok ⟨kind, mapping⟩ := by
  rw [← ofMapping_eq]
  simp only [builtBefore, build, Action.bind_result, Action.attempt_result, Action.pure_result]

/-- All ways to ask agree under every name and find the circuit that was given last under it. The names stand in the
order in which they were first given, each once, whatever is done to the mapping after the dispatcher was built from it;
a loop goes through them in that order, and there are as many of them as different names were given. -/
theorem routes_agree {α : Type} (kind : CircuitKind) (es : List (String × β)) (later : Action (Table β) α) :
    ∃ d, (builtBefore kind later (.ofList es)).result = .ok d ∧ (∀ name, d.Consistent name) ∧
      (∀ name, d.item (.str name) = match es.reverse.lookup name with
        | some c => .ok ⟨kind, name, c⟩
        | none => .error (.unknownCircuit (.str name) (.kind kind) (d.names.map .str))) ∧
      d.member (.str "names") = .ok (.own (.tuple (d.names.map .str))) ∧
      d.member (.str "kind") = .ok (.own (.kind kind)) ∧
      d.names = (es.map Prod.fst).eraseDups ∧ d.names.Nodup ∧ d.walk = d.names ∧
      d.size = d.names.length ∧ d.size = (es.map Prod.fst).toFinset.card := by
  have hnodup : (Table.ofList es).names.Nodup := (Table.ofList es).nodup
  have hsize : (⟨kind, .ofList es⟩ : Dispatcher β).size = (Table.ofList es).names.length := by
    rw [size, Table.names, List.length_map]
  refine ⟨⟨kind, .ofList es⟩, builtBefore_result kind later _, consistent _, fun name => ?_, rfl, rfl,
    Table.names_ofList es, hnodup, rfl, hsize, ?_⟩
  · rw [item_str, ← Table.get?_ofList]
    rfl
  · rw [hsize, ← List.toFinset_card_of_nodup hnodup, Table.names_ofList]
    congr 1
    ext name
    simp

theorem unlucky_names_agree :
    let es : List (String × Nat) := [("_x", 1), ("names", 2), ("a", 3), ("a", 4)]
    ∃ d, (builtBefore .pure (Action.write .empty) (.ofList es)).result = .ok d ∧
      d.names = ["_x", "names", "a"] ∧ d.walk = d.names ∧ d.size = 3 ∧ d.item (.str "_x") = .ok ⟨.pure, "_x", 1⟩ ∧
      (∀ b, d.member (.str "_x") ≠ .ok (.circuit b)) ∧ d.item (.str "names") = .ok ⟨.pure, "names", 2⟩ ∧
      d.member (.str "names") = .ok (.own (.tuple (d.names.map .str))) ∧
      d.member (.str "a") = .ok (.circuit ⟨.pure, "a", 4⟩) ∧ d.member? (.str "b") = .ok none ∧
      d.hasMember (.str "b") = .ok false := by
  intro es
  obtain ⟨d, hd, hall, hitem, hown, -, hnames, -, hwalk, -, hsize⟩ := routes_agree .pure es (Action.write .empty)
  have hlisted : d.names = ["_x", "names", "a"] := hnames.trans (by decide)
  have habsent : "b" ∉ d.names := by
    rw [hlisted]
    decide
  have ha := (hall "a").member (by decide) (by decide) (by decide)
  have hb := (hall "b").member (by decide) (by decide) (by decide)
  have hfour : d.item (.str "a") = .ok ⟨.pure, "a", 4⟩ := hitem "a"
  refine ⟨d, hd, hlisted, hwalk, hsize.trans (by decide), hitem "_x", (hall "_x").guarded (by decide), hitem "names",
    hown, ?_, hb.2.2.1.mpr habsent, ?_⟩
  · exact ha.1.trans (congrArg (Except.map Member.circuit) hfour)
  · rw [hb.2.1, (hall "b").has, decide_eq_false habsent]

end Dispatcher
end CircuitHarness
