import Mathlib
import CircuitHarness.Proofs.Findings
import CircuitHarness.Simulator.Build

/-! What becomes of options that are rejected. Each option with an issue is reported once, and the report can be written
if the names of these options can be sorted; otherwise every way to look at the rejection fails. -/
namespace CircuitHarness

namespace Value

/-- What values have in common that can be compared; some have nothing in common with any other. -/
inductive Order where
  | numbers
  | texts
  | bytes
  | lists
  | tuples
  | sets
  | days
  | moments (aware : Bool)
  | none (v : Value)

def order : Value → Order
  | .bool _ | .int _ | .float _ | .nan _ => .numbers
  | .str _ | .codes _ => .texts
  | .bytes _ => .bytes
  | .list _ => .lists
  | .tuple _ => .tuples
  | .set _ => .sets
  | .day _ => .days
  | .moment m => .moments m.offset.isSome
  | v => .none v

theorem order_of_number {v : Value} {n : Number} (h : Number.ofValue? v = some n) : v.order = .numbers := by
  cases v <;> cases h <;> rfl

theorem order_of_codes {v : Value} {cs : List Nat} (h : v.codes? = some cs) : v.order = .texts := by
  cases v <;> cases h <;> rfl

theorem less_ok_iff {x y : Value} {b : Bool} : x.less y = .ok b ↔ less? x y = some b := by
  rw [less]
  cases less? x y <;> simp

theorem order_of_less {x y : Value} {b : Bool} (h : x.less y = .ok b) : x.order = y.order := by
  rw [less_ok_iff] at h
  unfold less? at h
  split at h
  case h_7 m n =>
    rw [Moment.less?] at h
    split at h
    · simp [order, *]
    · cases h
  case h_8 =>
    split at h
    · rw [order_of_number ‹_›, order_of_number ‹_›]
    · rw [order_of_codes ‹_›, order_of_codes ‹_›]
    · cases h
  all_goals rfl

def isSequence : Value → Bool
  | .list _ | .tuple _ => true
  | _ => false

theorem less_of_order {x y : Value} (h : x.order = y.order) (hx : x.isSequence = false) (hne : x ≠ y) :
    ∃ b, x.less y = .ok b := by
  simp only [less_ok_iff]
  cases x <;> cases y <;> simp only [order, reduceCtorEq, Order.none.injEq, Order.moments.injEq] at h
  case list.list | tuple.tuple => cases hx
  case moment.moment m n => exact ⟨_, if_pos h⟩
  all_goals first | exact ⟨_, rfl⟩ | exact absurd rfl hne | exact absurd h hne

/-- No elements that are the same, whichever is compared with the other. -/
structure Keyed.Proper {β : Type} (es : Keyed β) : Prop where
  self : ∀ e ∈ es, e.1.same e.1 = true
  apart : es.Pairwise fun d e => d.1.same e.1 = false ∧ e.1.same d.1 = false

namespace Keyed.Proper
variable {β : Type} {es : Keyed β}

theorem same_iff (h : es.Proper) {d e : Value × β} (hd : d ∈ es) (he : e ∈ es) : d.1.same e.1 = true ↔ d.1 = e.1 := by
  have hself (e : Value × β) (he : e ∈ es) : (e.1.same e.1 = true ↔ e.1 = e.1) := iff_of_true (h.self e he) rfl
  have hapart : es.Pairwise fun d e => (d.1.same e.1 = true ↔ d.1 = e.1) ∧ (e.1.same d.1 = true ↔ e.1 = d.1) := by
    refine h.apart.imp_of_mem fun {d e} hd _ hde => ?_
    have hne : d.1 ≠ e.1 := by
      intro heq
      rw [← heq, h.self d hd] at hde
      cases hde.1
    rw [hde.1, hde.2]
    exact ⟨iff_of_false Bool.false_ne_true hne, iff_of_false Bool.false_ne_true hne.symm⟩
  have : Std.Symm fun d e : Value × β =>
      (d.1.same e.1 = true ↔ d.1 = e.1) ∧ (e.1.same d.1 = true ↔ e.1 = d.1) := ⟨fun _ _ h => h.symm⟩
  exact (List.Pairwise.forall_of_forall (fun e he => ⟨hself e he, hself e he⟩) hapart hd he).1

theorem nodup (h : es.Proper) : (es.map (·.1)).Nodup := by
  rw [List.Nodup, List.pairwise_map]
  refine h.apart.imp_of_mem fun {d e} hd _ hde heq => ?_
  rw [← heq, h.self d hd] at hde
  cases hde.1

end Keyed.Proper

theorem distinct_concat (xs : List Value) (x : Value) :
    distinct (xs ++ [x]) = if (distinct xs).any (same · x) then distinct xs else distinct xs ++ [x] := by
  rw [distinct, List.foldl_append]
  rfl

theorem distinct_spec {xs : List Value} (h : ∀ x ∈ xs, ∀ y ∈ xs, x.same y = true ↔ x = y) :
    (distinct xs).Nodup ∧ ∀ x, x ∈ distinct xs ↔ x ∈ xs := by
  induction xs using List.reverseRecOn with
  | nil => exact ⟨List.nodup_nil, fun x => Iff.rfl⟩
  | append_singleton xs y ih =>
    have hleft {x : Value} (hx : x ∈ xs) : x ∈ xs ++ [y] := List.mem_append_left [y] hx
    have hy : y ∈ xs ++ [y] := List.mem_append_right xs List.mem_cons_self
    obtain ⟨hnodup, hmem⟩ := ih fun x hx z hz => h x (hleft hx) z (hleft hz)
    have hany : (distinct xs).any (same · y) = true ↔ y ∈ xs := by
      rw [List.any_eq_true, ← hmem]
      refine ⟨fun ⟨x, hx, hxy⟩ => ?_, fun hys => ⟨y, hys, (h y hy y hy).mpr rfl⟩⟩
      rwa [← (h x (hleft ((hmem x).mp hx)) y hy).mp hxy]
    rw [distinct_concat]
    by_cases hys : y ∈ xs
    · rw [if_pos (hany.mpr hys)]
      refine ⟨hnodup, fun x => ?_⟩
      rw [hmem, List.mem_append, List.mem_singleton]
      exact ⟨.inl, fun hx => hx.elim id fun hxy => hxy ▸ hys⟩
    · rw [if_neg (mt hany.mp hys)]
      have hnew : y ∉ distinct xs := mt (hmem y).mp hys
      refine ⟨List.nodup_append.mpr ⟨hnodup, by simp, fun x hx z hz hxz => ?_⟩, fun x => ?_⟩
      · rw [List.mem_singleton.mp hz] at hxz
        exact hnew (hxz ▸ hx)
      · simp only [List.mem_append, hmem]

end Value

namespace Schema

def offends (s : Schema) (e : Value × Value) : Bool :=
  match s.issues e.1 e.2 with
  | .ok [] => false
  | _ => true

def offenders (s : Schema) (es : Value.Entries) : List Value := (es.filter s.offends).map (·.1)

theorem mem_found_iff {s : Schema} {es : Value.Entries} (hok : ∀ e ∈ es, ∃ is, s.issues e.1 e.2 = .ok is) (n : Value) :
    n ∈ (es.flatMap s.found).map (·.1) ↔ n ∈ s.offenders es := by
  have hname (e : Value × Value) (he : e ∈ es) : (∃ x ∈ s.found e, x.1 = n) ↔ s.offends e = true ∧ e.1 = n := by
    obtain ⟨is, his⟩ := hok e he
    rw [found_eq his, offends, his]
    cases is <;> simp
  simp only [offenders, List.mem_map, List.mem_flatMap, List.mem_filter]
  constructor
  · rintro ⟨x, ⟨e, he, hx⟩, hxn⟩
    obtain ⟨hoff, hen⟩ := (hname e he).mp ⟨x, hx, hxn⟩
    exact ⟨e, ⟨he, hoff⟩, hen⟩
  · rintro ⟨e, ⟨he, hoff⟩, hen⟩
    obtain ⟨x, hx, hxn⟩ := (hname e he).mpr ⟨hoff, hen⟩
    exact ⟨x, ⟨e, he, hx⟩, hxn⟩

theorem offenders_sublist (s : Schema) (es : Value.Entries) : (s.offenders es).Sublist (es.map (·.1)) :=
  (List.filter_sublist).map _

theorem report_ne_nil {found : List Finding} {x : Finding} (hx : x ∈ found) (hself : x.1.same x.1 = true) :
    Finding.report x.1 found ≠ [] := by
  intro h
  have hmine : x.2 ∈ (found.filter fun y => y.1.same x.1).map (·.2) :=
    List.mem_map_of_mem (List.mem_filter.mpr ⟨hx, hself⟩)
  simp only [Finding.report, List.partition_eq_filter_filter, List.map_eq_nil_iff, List.append_eq_nil_iff,
    List.filter_eq_nil_iff] at h
  exact h.1 _ hmine (by simpa using h.2 _ hmine)

theorem errors_spec {s : Schema} {es : Value.Entries} (hes : es.Proper) {found : List Finding}
    (hok : ∀ e ∈ es, ∃ is, s.issues e.1 e.2 = .ok is) (hperm : found.Perm (es.flatMap s.found)) :
    ((Finding.errors found).map (·.1)).Perm (s.offenders es) ∧
      ∀ r ∈ Finding.errors found, ∃ m ms, r.2 = .list (m :: ms) := by
  have hnames (n : Value) : n ∈ found.map (·.1) ↔ n ∈ s.offenders es := by
    rw [← mem_found_iff hok, (hperm.map (·.1)).mem_iff]
  have hkey {n : Value} (hn : n ∈ found.map (·.1)) : ∃ e ∈ es, e.1 = n :=
    List.mem_map.mp ((s.offenders_sublist es).subset ((hnames n).mp hn))
  have hsame (m : Value) (hm : m ∈ found.map (·.1)) (n : Value) (hn : n ∈ found.map (·.1)) :
      m.same n = true ↔ m = n := by
    obtain ⟨d, hd, rfl⟩ := hkey hm
    obtain ⟨e, he, rfl⟩ := hkey hn
    exact hes.same_iff hd he
  obtain ⟨hnodup, hmem⟩ := Value.distinct_spec hsame
  refine ⟨?_, fun r hr => ?_⟩
  · have hfst : (Finding.errors found).map (·.1) = Value.distinct (found.map (·.1)) := by
      rw [Finding.errors, List.map_map]
      exact List.map_id _
    rw [hfst, List.perm_ext_iff_of_nodup hnodup (hes.nodup.sublist (s.offenders_sublist es))]
    exact fun n => (hmem n).trans (hnames n)
  · obtain ⟨n, hn, rfl⟩ := List.mem_map.mp hr
    have hn : n ∈ found.map (·.1) := (hmem n).mp hn
    have hself : n.same n = true := (hsame n hn n hn).mpr rfl
    obtain ⟨x, hx, rfl⟩ := List.mem_map.mp hn
    obtain ⟨m, ms, hms⟩ := List.exists_cons_of_ne_nil (report_ne_nil hx hself)
    exact ⟨m, ms, congrArg Value.list hms⟩

end Schema

namespace Failure

theorem mapM_ok {α β ε : Type} {f : α → Except ε β} {g : α → β} {xs : List α} (h : ∀ x ∈ xs, f x = .ok (g x)) :
    xs.mapM f = .ok (xs.map g) := by
  induction xs with
  | nil => rfl
  | cons x xs ih =>
    rw [List.mapM_cons, h x List.mem_cons_self, ih fun y hy => h y (List.mem_cons_of_mem x hy)]
    rfl

def issueLine (lead : String) (r : Value × Value) : String :=
  lead ++ " '" ++ r.1.text ++ "': " ++ (r.2.first.toOption.getD .none).text

theorem render_text (errorType suggestion details : String) (subject : Subject) :
    render errorType suggestion subject (.str details) = .ok (Report.render ⟨errorType, Lines.split details,
      if (Value.str suggestion).isTruthy then some (Lines.split suggestion) else none, subject⟩) := by
  rw [render, renderParts]
  split <;> rfl

def byName (reports : Value.Entries) : Except Failure Value.Entries :=
  Sorting.sort (fun x y => Value.less x.1 y.1) reports

theorem issueLines_eq (lead : String) {reports : Value.Entries} (h : ∀ r ∈ reports, ∃ m ms, r.2 = .list (m :: ms)) :
    issueLines lead (.map reports) = (byName reports).map (·.map (issueLine lead)) := by
  rw [issueLines, ← byName]
  cases hs : byName reports with
  | error e => rfl
  | ok sorted =>
    refine mapM_ok fun r hr => ?_
    obtain ⟨m, ms, hms⟩ := h r ((Sorting.sort_perm hs).subset hr)
    rw [issueLine, hms]
    rfl

theorem byName_error {reports : Value.Entries} {e : Failure} (h : byName reports = .error e) : e = .wrongType := by
  obtain ⟨x, -, y, -, hyx⟩ := Sorting.sort_error h
  exact Value.less_error hyx

def Comparable (names : List Value) : Prop := names.Pairwise fun m n => (∃ b, m.less n = .ok b) ∧ ∃ b, n.less m = .ok b

theorem byName_of_comparable {reports : Value.Entries} (h : Comparable (reports.map (·.1))) :
    ∃ sorted, byName reports = .ok sorted :=
  Sorting.sort_ok ((List.pairwise_map.mp h).imp fun hxy => hxy.2)

theorem comparable_of_byName {reports sorted : Value.Entries} (hnodup : (reports.map (·.1)).Nodup)
    (hflat : ∀ n ∈ reports.map (·.1), n.isSequence = false) (h : byName reports = .ok sorted) :
    Comparable (reports.map (·.1)) := by
  have horder : Sorting.Fused (fun r : Value × Value => r.1.order) reports :=
    Sorting.sort_kind (fun _ _ _ hxy => Value.order_of_less hxy) h
  refine hnodup.imp_of_mem fun {m n} hm hn hne => ?_
  obtain ⟨x, hx, rfl⟩ := List.mem_map.mp hm
  obtain ⟨y, hy, rfl⟩ := List.mem_map.mp hn
  exact ⟨Value.less_of_order (horder x hx y hy) (hflat _ hm) hne,
    Value.less_of_order (horder y hy x hx) (hflat _ hn) hne.symm⟩

end Failure

theorem Simulator.build_rejected [Limits] {options : Value} {f : Failure} (h : Options.validate options = .error f)
    (name : String) (config : Config) (maker : Nat) (args : Value) :
    Simulator.build name config maker args options = .error f.asBuild := by
  rw [build, resolve, h]
  rfl

namespace Options
open Failure (issueLine byName Comparable)

theorem checkValues_of_error [Limits] {es : Value.Entries} {f : Failure} (h : validateDocument es = .error f) :
    Schema.options.checkValues es = .error f := by
  change (Schema.options.checkValues es >>= fun _ => .ok (ofDocument es)) = _ at h
  cases hc : Schema.options.checkValues es with
  | error e =>
    rw [hc] at h
    cases h
    rfl
  | ok u =>
    rw [hc] at h
    cases h

theorem rejected_spec [Limits] {es : Value.Entries} {errors : Value} {source : Option String}
    (h : validate (.map es) = .error (.invalidOptions errors source)) :
    source = none ∧ ∃ found, errors = .map (Finding.errors found) ∧ found.Perm (es.flatMap Schema.options.found) ∧
      ∀ e ∈ es, ∃ is, Schema.options.issues e.1 e.2 = .ok is := by
  have hcheck : Schema.options.checkValues es = .error (.invalidOptions errors source) := checkValues_of_error h
  have hend := Schema.checkEnd Schema.regular_options none
    (fun k => ((Value.Keyed.get? k es).map (·.copyDepth)).getD 0) es
  rw [← Schema.checkValues, hcheck] at hend
  cases hend with
  | rejected found some all answered => exact ⟨rfl, found, rfl, all, answered⟩

def details (issues : List String) : String :=
  "The simulator options do not conform to the expected format.\nSee details for " ++ toString issues.length ++
    " issue(s) below:\n\n" ++ "\n".intercalate issues

/-- The message and the report of a rejection have a line for each option, in the order given, and building a simulator
fails with that report. -/
structure Told [Limits] (f : Failure) (options : Value) (sorted : Value.Entries) : Prop where
  message : f.message? = some (.ok ("Simulator options failed validation:\n" ++
    "\n".intercalate (sorted.map (issueLine "  - In option"))))
  report : ∃ suggestion, let r : String := Report.render ⟨"Invalid Simulator Options",
      Lines.split (details (sorted.map (issueLine "  - Option"))), suggestion, {}⟩
    f.report? = some (.ok r) ∧
      ∀ name config maker args, Simulator.build name config maker args options = .error (.build r f)

/-- There is neither a message nor a report, and building a simulator fails as they do. -/
structure Untold [Limits] (f : Failure) (options : Value) : Prop where
  message : f.message? = some (.error .wrongType)
  report : f.report? = some (.error .wrongType)
  build : ∀ name config maker args, Simulator.build name config maker args options = .error .wrongType

theorem report_of_lines {errors : Value} {issues : List String} (h : Failure.issueLines "  - Option" errors = .ok issues) :
    ∃ suggestion, (Failure.invalidOptions errors none).report? = some (.ok
      (Report.render ⟨"Invalid Simulator Options", Lines.split (details issues), suggestion, ({} : Subject)⟩)) := by
  obtain ⟨suggestion, hs⟩ : ∃ suggestion, (Failure.invalidOptions errors none).report? =
      some (Failure.render "Invalid Simulator Options" suggestion {} (.str (details issues))) := by
    simp only [Failure.report?, h, bind, Except.bind]
    exact ⟨_, rfl⟩
  exact ⟨_, hs.trans (congrArg some (Failure.render_text ..))⟩

section
variable [Limits] {options : Value} {reports : Value.Entries}
  (h : validate options = .error (.invalidOptions (.map reports) none))
  (hreports : ∀ r ∈ reports, ∃ m ms, r.2 = .list (m :: ms))
include h hreports

theorem told_of_byName {sorted : Value.Entries} (hs : byName reports = .ok sorted) :
    Told (.invalidOptions (.map reports) none) options sorted := by
  have hlines (lead : String) : Failure.issueLines lead (.map reports) = .ok (sorted.map (issueLine lead)) := by
    rw [Failure.issueLines_eq lead hreports, hs]
    rfl
  obtain ⟨suggestion, hreport⟩ := report_of_lines (hlines "  - Option")
  refine ⟨?_, suggestion, hreport, fun name config maker args => ?_⟩
  · rw [Failure.message?, hlines]
    rfl
  · rw [Simulator.build_rejected h, Failure.asBuild, hreport]

theorem untold_of_byName {e : Failure} (hs : byName reports = .error e) :
    Untold (.invalidOptions (.map reports) none) options := by
  cases Failure.byName_error hs
  have hlines (lead : String) : Failure.issueLines lead (.map reports) = .error .wrongType := by
    rw [Failure.issueLines_eq lead hreports, hs]
    rfl
  have hreport : (Failure.invalidOptions (.map reports) none).report? = some (.error .wrongType) := by
    rw [Failure.report?, hlines]
    rfl
  refine ⟨?_, hreport, fun name config maker args => ?_⟩
  · rw [Failure.message?, hlines]
    rfl
  · rw [Simulator.build_rejected h, Failure.asBuild, hreport]

end

/-- A rejection is about the options that something is wrong with, each of them once, and it is told if their names can
be sorted. Names that can be compared with each other can be, and unless there are sequences among them no others. -/
theorem rejection_told_iff [Limits] {es : Value.Entries} {errors : Value} {source : Option String} (hes : es.Proper)
    (h : validate (.map es) = .error (.invalidOptions errors source)) :
    let f := Failure.invalidOptions errors source
    let offenders := Schema.options.offenders es
    ∃ reports, errors = .map reports ∧ (reports.map (·.1)).Perm offenders ∧
      (∀ sorted, byName reports = .ok sorted → sorted.Perm reports ∧ Told f (.map es) sorted) ∧
      (∀ e, byName reports = .error e → Untold f (.map es)) ∧
      (Comparable offenders → ∃ sorted, byName reports = .ok sorted) ∧
      ((∀ n ∈ offenders, n.isSequence = false) → (∃ sorted, byName reports = .ok sorted) → Comparable offenders) := by
  intro f offenders
  obtain ⟨rfl, found, rfl, hperm, hok⟩ := rejected_spec h
  obtain ⟨hnames, hsome⟩ := Schema.errors_spec hes hok hperm
  have hcomparable : Comparable offenders ↔ Comparable ((Finding.errors found).map (·.1)) :=
    hnames.symm.pairwise_iff fun hxy => hxy.symm
  have hnodup : ((Finding.errors found).map (·.1)).Nodup :=
    hnames.nodup_iff.mpr (hes.nodup.sublist (Schema.options.offenders_sublist es))
  refine ⟨_, rfl, hnames, fun sorted hs => ⟨Sorting.sort_perm hs, told_of_byName h hsome hs⟩,
    fun e hs => untold_of_byName h hsome hs, fun hc => Failure.byName_of_comparable (hcomparable.mp hc), ?_⟩
  rintro hflat ⟨sorted, hs⟩
  exact hcomparable.mpr (Failure.comparable_of_byName hnodup (fun n hn => hflat n (hnames.mem_iff.mp hn)) hs)

def unknownNames (names : List Value) : Failure :=
  .invalidOptions (.map (names.map fun n => (n, .list [.str "unknown field"]))) none

theorem unknown_name_is_told : let es : Value.Entries := [(.str "x", .none)]
    es.Proper ∧ validate (.map es) = .error (unknownNames [.str "x"]) ∧
      ∃ sorted, Told (unknownNames [.str "x"]) (.map es) sorted := by
  have hes : Value.Keyed.Proper [(.str "x", Value.none)] := ⟨by decide, by decide⟩
  have h : validate (.map [(.str "x", .none)]) = .error (unknownNames [.str "x"]) := by cbv
  obtain ⟨reports, -, -, htold, -, hsorted, -⟩ := rejection_told_iff hes h
  have hoffenders : Schema.options.offenders [(.str "x", .none)] = [.str "x"] := by cbv
  obtain ⟨sorted, hs⟩ := hsorted (hoffenders ▸ List.pairwise_singleton ..)
  exact ⟨hes, h, sorted, (htold sorted hs).2⟩

/-- A number and a text have no order. -/
theorem mixed_names_are_untold : let es : Value.Entries := [(.int 1, .none), (.str "x", .none)]
    es.Proper ∧ validate (.map es) = .error (unknownNames [.str "x", .int 1]) ∧
      Untold (unknownNames [.str "x", .int 1]) (.map es) :=
  ⟨⟨by decide, by decide⟩, by cbv, by cbv, by cbv, fun _ _ _ _ => by cbv⟩

end Options
end CircuitHarness
