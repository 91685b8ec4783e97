import CircuitHarness.Proofs.Apart

/-! A table of witnesses is checked in two ways, alone and as an option. Both find the same, except that as an option
nothing is a table, too, and what cannot be called is named once and in order. -/
namespace CircuitHarness

theorem Schema.checkValues_congr [Limits] {s s' : Schema} {name v : Value} (h : s.issues name v = s'.issues name v) :
    s.checkValues [(name, v)] = s'.checkValues [(name, v)] := by
  simp only [checkValues, check, findings, List.foldlM_cons, List.foldlM_nil, h]

namespace Witnesses

def optionName : Value := .str "witnesses"

/-- The names in a table are texts, each given once. -/
def Textual (t : Value) : Prop := ∀ es : Value.Entries, t = .map es → es.Proper ∧ ∀ e ∈ es, e.1.IsText

theorem textual_of_nodup {es : Value.Entries} (hstr : ∀ e ∈ es, ∃ n, e.1 = .str n) (hnodup : (es.map (·.1)).Nodup) :
    Textual (.map es) := by
  rintro _ ⟨rfl⟩
  exact Options.proper_texts hstr hnodup

def faults : Value → List Issue
  | .none => [.null]
  | .map es =>
    (if es.any fun e => e.1.same (.str "") then [.keys [(.str "", .empty)]] else []) ++
      match Field.notCallable es with
      | [] => []
      | names => [.notCallable names]
  | _ => [.notOfType OptionType.mapping.name]

/-- What is told of a table. The names of what cannot be called come first. -/
def told : Value → List Value
  | .none => [.str "null value not allowed"]
  | .map es =>
    (match Field.notCallable es with
      | [] => []
      | names => [.str ("Witness(es) " ++ (Value.list (names.map .str)).repr ++ " must be callable.")]) ++
    if es.any fun e => e.1.same (.str "") then [.map [(.str "", .list [.str "empty values not allowed"])]] else []
  | _ => [.str "must be of dict type"]

theorem told_eq_nil_iff (t : Value) : told t = [] ↔ faults t = [] := by
  cases t with
  | map es =>
    rw [told, faults]
    cases Field.notCallable es <;> split <;> simp
  | _ => simp [told, faults]

/-- The order in which faults are found makes no difference to what is told. -/
theorem errors_of_faults {t : Value} {found : List Finding} (h : found.Perm ((faults t).map (optionName, ·)))
    (hne : found ≠ []) : Finding.errors found = [(optionName, .list (told t))] := by
  cases t with
  | map es =>
    rw [faults] at h
    rw [told]
    generalize Field.notCallable es = names at h ⊢
    generalize (es.any fun e => e.1.same (.str "")) = unnamed at h ⊢
    cases names with
    | nil =>
      cases unnamed with
      | true =>
        rw [List.perm_singleton.mp h]
        rfl
      | false => exact absurd h.eq_nil hne
    | cons n ns =>
      cases unnamed with
      | true => obtain rfl | rfl := List.perm_pair.mp h <;> rfl
      | false =>
        rw [List.perm_singleton.mp h]
        rfl
  | _ =>
    rw [List.perm_singleton.mp h]
    rfl

theorem same_empty_of_text {v : Value} (h : v.IsText) : v.same (.str "") = false ↔ Field.nameIssue v = none := by
  rw [Field.nameIssue_none_iff, ← Bool.not_eq_true, Value.same_str_iff]
  cases h with
  | str n =>
    have hchars : n = "" ↔ n.toList = [] := String.toList_eq_nil_iff.symm
    cases hn : n.toList <;> simp [Value.codes?, hchars, hn]
  | codes cs halves => cases cs <;> simp_all [Value.codes?]

section
variable {es : Value.Entries} (hes : Value.Keyed.Proper es) (htext : ∀ e ∈ es, e.1.IsText)
include hes htext

theorem nameFound_eq : Field.nameFound es =
    if es.any fun e => e.1.same (.str "") then [(.str "", .empty)] else [] := by
  induction es with
  | nil => rfl
  | cons e r ih =>
    have hname := htext e List.mem_cons_self
    have hrest := ih hes.tail fun d hd => htext d (List.mem_cons_of_mem e hd)
    have hcons : Field.nameFound (e :: r) = ((Field.nameIssue e.1).map (e.1, ·)).toList ++ Field.nameFound r := by
      rw [Field.nameFound, List.filterMap_cons]
      cases (Field.nameIssue e.1).map (e.1, ·) <;> rfl
    rw [hcons, hrest, List.any_cons]
    cases hempty : e.1.same (.str "") with
    | true =>
      have hstr : e.1 = .str "" := Value.same_str_iff.mp hempty
      -- The names differ, so no later one is empty.
      have hnone : (r.any fun d => d.1.same (.str "")) = false := by
        refine List.any_eq_false.mpr fun d hd => ?_
        rw [← hstr, ((List.pairwise_cons.mp hes.apart).1 d hd).2]
        exact Bool.false_ne_true
      rw [hnone, hstr]
      rfl
    | false =>
      rw [(same_empty_of_text hname).mp hempty]
      rfl

theorem nameFindings_eq : Field.nameFindings es =
    .ok (if es.any fun e => e.1.same (.str "") then [(.str "", .empty)] else []) := by
  have hyields := Field.nameFindings_yields es
  rw [nameFound_eq hes htext] at hyields
  cases hf : Field.nameFindings es with
  | error f =>
    refine absurd (fun x hx => ?_) (hyields.of_error hf).2
    split at hx
    · rw [List.mem_singleton.mp hx]
      rfl
    · cases hx
  | ok found =>
    have hperm := hyields.of_ok hf
    split at hperm
    · rw [if_pos ‹_›, List.perm_singleton.mp hperm]
    · rw [if_neg ‹_›, hperm.eq_nil]

end

theorem notCallable_spec (es : Value.Entries) :
    (Field.notCallable es).Perm ((es.filter fun e => !e.2.isCallable).map (·.1.text)) ∧
      (Field.notCallable es).Pairwise (· ≤ ·) :=
  ⟨List.mergeSort_perm .., List.sortedLE_mergeSort.pairwise⟩

theorem notCallable_nodup {es : Value.Entries} (hes : es.Proper) (hstr : ∀ e ∈ es, ∃ n, e.1 = .str n) :
    (Field.notCallable es).Nodup := by
  have hnames : ((es.filter fun e => !e.2.isCallable).map (·.1)).Nodup :=
    hes.nodup.sublist (List.filter_sublist.map _)
  have htexts := hnames.map_on (f := Value.text) fun k hk l hl hkl => by
    obtain ⟨d, hd, rfl⟩ := List.mem_map.mp hk
    obtain ⟨e, he, rfl⟩ := List.mem_map.mp hl
    obtain ⟨n, hn⟩ := hstr d (List.mem_filter.mp hd).1
    obtain ⟨m, hm⟩ := hstr e (List.mem_filter.mp he).1
    rw [hn, hm] at hkl ⊢
    exact congrArg Value.str hkl
  rw [List.map_map] at htexts
  exact (notCallable_spec es).1.nodup_iff.mpr htexts

theorem faults_settled (t : Value) : ∀ i ∈ faults t, i.Settled ∧ i.Texts := by
  cases t with
  | map es =>
    rw [faults]
    refine List.forall_mem_append.mpr ⟨?_, ?_⟩
    · split
      · have hordered : Findings.orderKeys [(.str "", .empty)] = .ok () := by rfl
        simpa [Issue.Settled, Issue.Texts, Value.codes?] using hordered
      · simp
    · split <;> simp [Issue.Settled, Issue.Texts]
  | _ => simp [faults, Issue.Settled, Issue.Texts]

section
variable {t : Value} (ht : Textual t)
include ht

theorem replacement_issues : Schema.replacement.issues optionName t = .ok (faults t) := by
  cases t with
  | map es =>
    obtain ⟨hes, htext⟩ := ht es rfl
    change Field.witnessIssues (.map es) = _
    rw [Field.witnessIssues, nameFindings_eq hes htext, faults]
    cases es.any fun e => e.1.same (.str "") <;> rfl
  | _ => rfl

theorem replacement_findings : ∃ found, Schema.replacement.findings [(optionName, t)] = .ok found ∧
    found.Perm ((faults t).map (optionName, ·)) := by
  have hissues := replacement_issues ht
  have hname : ∀ e ∈ [(optionName, t)], e.1.IsText := by simpa using .str "witnesses"
  cases hf : Schema.replacement.findings [(optionName, t)] with
  | error e =>
    obtain ⟨-, d, hd, hno⟩ := (Schema.findings_settle Schema.regular_replacement hname).of_error hf
    rw [List.mem_singleton.mp hd] at hno
    exact absurd ⟨_, hissues, fun i hi => (faults_settled t i hi).1⟩ hno
  | ok found =>
    have hall := ((Schema.findings_yields Schema.regular_replacement _).of_ok hf).2
    rw [List.flatMap_singleton, Schema.found_eq (e := (optionName, t)) hissues] at hall
    exact ⟨found, rfl, hall⟩

section
variable [Limits]

theorem check_eq : Schema.replacement.checkValues [(optionName, t)] =
    if (told t).isEmpty then .ok ()
    else if Limits.copies < t.copyDepth then .error .tooDeep
    else .error (.invalidOptions (.map [(optionName, .list (told t))]) none) := by
  have hissues := replacement_issues ht
  obtain ⟨found, hfound, hall⟩ := replacement_findings ht
  have hnone : (told t).isEmpty = true ↔ faults t = [] := by rw [List.isEmpty_iff, told_eq_nil_iff]
  rw [Schema.checkValues_eq (by simp [optionName, Value.codes?])
    (by simpa using ⟨_, hissues, fun i hi => (faults_settled t i hi).2⟩)
    ⟨by simp [optionName, Value.same], List.pairwise_singleton ..⟩ hfound
    (by rwa [List.flatMap_singleton, Schema.found_eq (e := (optionName, t)) hissues])]
  by_cases hnil : faults t = []
  · rw [hnil] at hall
    rw [hall.eq_nil, if_pos (hnone.mpr hnil)]
    rfl
  · have hsome : found ≠ [] := fun h => hnil (by simpa [h] using hall)
    have hoff : Schema.replacement.offends (optionName, t) = true := by
      rw [Schema.offends_iff, hissues]
      exact fun h => hnil (Except.ok.inj h)
    simp only [List.mem_singleton, exists_eq_left, hoff, true_and]
    rw [if_neg (mt List.isEmpty_iff.mp hsome), if_neg (mt hnone.mp hnil), errors_of_faults hall hsome]

theorem validate_eq : validate t =
    if (told t).isEmpty then .ok t
    else if Limits.copies < t.copyDepth then .error .tooDeep
    else .error (.invalidOptions (.map [(.str "witnesses", .list (told t))]) none) := by
  change (Schema.replacement.checkValues [(optionName, t)] >>= fun _ => .ok t) = _
  rw [check_eq ht]
  split
  · rfl
  · split <;> rfl

end

end

theorem told_nil_iff (t : Value) :
    told t = [] ↔ ∃ es, t = .map es ∧ ∀ e ∈ es, e.1 ≠ .str "" ∧ e.2.isCallable := by
  rw [told_eq_nil_iff]
  cases t with
  | map es =>
    have hnamed : (es.any fun e => e.1.same (.str "")) = false ↔ ∀ e ∈ es, e.1 ≠ .str "" := by
      simp only [List.any_eq_false, Value.same_str_iff, Ne]
    have hfaults : faults (.map es) = [] ↔
        (es.any fun e => e.1.same (.str "")) = false ∧ Field.notCallable es = [] := by
      rw [faults]
      cases es.any fun e => e.1.same (.str "") <;> cases Field.notCallable es <;> simp
    rw [hfaults, hnamed, Field.notCallable_nil_iff]
    simp [forall_and]
  | _ => simp [faults]

theorem option_eq [Limits] {t : Value} (ht : t ≠ .none) :
    Options.validate (.map [(.str "witnesses", t)]) = (validate t).map fun u => { witnesses := u } := by
  have hissues : Schema.options.issues optionName t = Schema.replacement.issues optionName t := by
    cases t with
    | none => exact absurd rfl ht
    | _ => rfl
  change (Schema.options.checkValues [(optionName, t)] >>= fun _ => .ok _) =
    (Schema.replacement.checkValues [(optionName, t)] >>= fun _ => .ok t).map _
  rw [Schema.checkValues_congr hissues]
  cases Schema.replacement.checkValues [(optionName, t)] <;> rfl

/-- A table is accepted if all of its names are given to something that can be called and none is empty. Refused, it is told
all that is wrong with it, unless it is too deep to be copied. As an option it comes to the same; only nothing is accepted
as an option alone. -/
theorem table_checks_agree [Limits] (t : Value) (ht : Textual t) :
    (∀ u, validate t = .ok u ↔ u = t ∧ ∃ es, t = .map es ∧ ∀ e ∈ es, e.1 ≠ .str "" ∧ e.2.isCallable) ∧
      (∀ f, validate t = .error f ↔ told t ≠ [] ∧ f = if Limits.copies < t.copyDepth then .tooDeep
        else .invalidOptions (.map [(.str "witnesses", .list (told t))]) none) ∧
      (t ≠ .none →
        Options.validate (.map [(.str "witnesses", t)]) = (validate t).map fun u => { witnesses := u }) ∧
      (Options.validate (.map [(.str "witnesses", .none)]) = .ok {} ∧ ∀ u, validate .none ≠ .ok u) ∧
      ∀ es, t = .map es →
        (Field.notCallable es).Perm ((es.filter fun e => !e.2.isCallable).map (·.1.text)) ∧
          (Field.notCallable es).Pairwise (· ≤ ·) ∧
          ((∀ e ∈ es, ∃ n, e.1 = .str n) → (Field.notCallable es).Nodup) := by
  have hvalid := validate_eq ht
  refine ⟨fun u => ?_, fun f => ?_, option_eq, ⟨rfl, fun u => ?_⟩, fun es hes => ?_⟩
  · rw [← told_nil_iff, ← List.isEmpty_iff, hvalid]
    split
    · simp [*, eq_comm]
    · split <;> simp [*]
  · rw [hvalid, Ne, ← List.isEmpty_iff]
    split
    · simp [*]
    · split <;> simp [*, eq_comm]
  · rw [validate_eq (t := .none) nofun]
    simp only [told, List.isEmpty_cons, Bool.false_eq_true, if_false]
    split <;> simp
  · obtain ⟨hperm, hle⟩ := notCallable_spec es
    exact ⟨hperm, hle, notCallable_nodup (ht es hes).1⟩

theorem unnamed_beside_uncallable :
    let es : Value.Entries := [(.str "b", .int 1), (.str "", .fn (.written 1) "w" []), (.str "a", .str "x")]
    let errors : Value := .map [(.str "witnesses", .list [.str "Witness(es) ['a', 'b'] must be callable.",
      .map [(.str "", .list [.str "empty values not allowed"])]])]
    Textual (.map es) ∧ validate (.map es) = .error (.invalidOptions errors none) ∧
      Options.validate (.map [(.str "witnesses", .map es)]) = .error (.invalidOptions errors none) := by
  intro es errors
  have ht : Textual (.map es) := textual_of_nodup (by simp [es]) (by simp [es])
  have hnames : Field.notCallable es = ["a", "b"] := by
    simp [es, Field.notCallable, Value.isCallable, Value.text, List.mergeSort, List.MergeSort.Internal.splitInTwo]
  have hrepr : (Value.list [.str "a", .str "b"]).repr = "['a', 'b']" := rfl
  have htold : told (.map es) = [.str "Witness(es) ['a', 'b'] must be callable.",
      .map [(.str "", .list [.str "empty values not allowed"])]] := by
    simp [told, hnames, hrepr, es, Value.same]
  obtain ⟨-, herror, hoption, -⟩ := table_checks_agree (.map es) ht
  have hrefused : validate (.map es) = .error (.invalidOptions errors none) := by
    refine (herror _).mpr ⟨by simp [htold], ?_⟩
    rw [htold]
    rfl
  refine ⟨ht, hrefused, ?_⟩
  rw [hoption (by simp), hrefused]
  rfl

/-- What cannot be called goes unnamed if the table is too deep to be copied. -/
theorem deep_table_names_nothing :
    let es : Value.Entries := [(.str "a", Fixture.nested 345)]
    Textual (.map es) ∧ Field.notCallable es = ["a"] ∧ validate (.map es) = .error .tooDeep := by
  intro es
  have ht : Textual (.map es) := textual_of_nodup (by simp [es]) (by simp [es])
  have hnested : (Fixture.nested 345).isCallable = false := rfl
  have hnames : Field.notCallable es = ["a"] := by simp [es, Field.notCallable, hnested, Value.text]
  have hdeep : Limits.copies < (Value.map es).copyDepth := by
    simp [es, Value.copyDepth, Value.entryDepths, Fixture.copyDepth_nested, Limits.copies]
  refine ⟨ht, hnames, ?_⟩
  rw [validate_eq ht, if_neg (by simp [told, hnames]), if_pos hdeep]

end Witnesses
end CircuitHarness
