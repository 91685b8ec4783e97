import CircuitHarness.Contracts
import CircuitHarness.Proofs.Entries
import CircuitHarness.Proofs.Grammar
import CircuitHarness.Proofs.Rejection

/-! Building the sample simulators from options with names that are texts. It ends with the first context that was asked
for, with a build failure that reports what is wrong, or, for an option refused with a value too deep to be copied for the
report, with that. -/
namespace CircuitHarness

theorem Value.Keyed.Proper.get?_of_mem {β : Type} {es : Value.Keyed β} (h : es.Proper) {e : Value × β} (he : e ∈ es) :
    Value.Keyed.get? e.1 es = some e.2 := by
  induction es with
  | nil => cases he
  | cons d es ih =>
    have hself := h.self e he
    have hapart := List.pairwise_cons.mp h.apart
    rw [Value.Keyed.get?_cons]
    obtain rfl | he := List.mem_cons.mp he
    · rw [if_pos hself]
    · have htail : Value.Keyed.Proper es := ⟨fun e he => h.self e (List.mem_cons_of_mem d he), hapart.2⟩
      rw [if_neg (by simp [(hapart.1 e he).1]), ih htail he]

theorem Value.Keyed.Proper.of_texts {β : Type} {es : Value.Keyed β} (htext : ∀ e ∈ es, e.1.codes?.isSome)
    (hnodup : (es.map (·.1)).Nodup) : es.Proper where
  self e he := (Value.same_text_iff (htext e he)).mpr rfl
  apart := by
    refine (List.pairwise_map.mp hnodup).imp_of_mem fun {d e} hd he hne => ?_
    rw [← Bool.not_eq_true, ← Bool.not_eq_true, Value.same_text_iff (htext e he), Value.same_text_iff (htext d hd)]
    exact ⟨hne, Ne.symm hne⟩

theorem Value.isSequence_of_text {v : Value} (h : v.codes?.isSome) : v.isSequence = false := by
  cases v <;> first | rfl | cases h

theorem Value.copyDepth_of_text {v : Value} (h : v.codes?.isSome) : v.copyDepth = 2 := by
  cases v <;> first | rfl | cases h

def Issue.Texts : Issue → Prop
  | .keys found => ∀ x ∈ found, x.1.codes?.isSome
  | _ => True

theorem Issue.Own.texts {i : Issue} (h : i.Own) : i.Texts := by
  cases i with
  | keys found => exact absurd rfl (h found)
  | _ => trivial

namespace Finding

theorem isPlain_of_text {v : Value} (h : v.codes?.isSome) : isPlain v := by
  cases v <;> first | rfl | cases h

theorem tooDeep_iff [Limits] {x : Finding} (hname : x.1.codes?.isSome) (htexts : x.2.Texts) (value : Nat) :
    Limits.copies < x.copyDepth value ↔ Limits.copies < value := by
  have hpath {v : Value} (h : v.codes?.isSome) : (Value.tuple [v]).copyDepth = 5 := by
    simp [Value.copyDepth, Value.copyDepths, Value.copyDepth_of_text h]
  have hlimit : 14 ≤ Limits.copies := Limits.roomy
  obtain ⟨name, i⟩ := x
  cases i with
  | keys found =>
    simp only [copyDepth, hpath hname]
    generalize hkeys : found.foldl _ 0 = keys
    have hbound : keys ≤ 14 := by
      rw [← hkeys]
      refine List.foldlRecOn (motive := fun n => n ≤ 14) found _ (Nat.zero_le 14) fun n hn k hk => ?_
      rw [hpath (htexts k hk)]
      exact Nat.max_le.mpr ⟨hn, Nat.le_refl 14⟩
    omega
  | _ =>
    simp only [copyDepth, hpath hname]
    omega

end Finding

namespace Field

theorem texts_issues {f : Field} {v : Value} (h : ∃ is, f.checks v = .ok is ∧ ∀ i ∈ is, i.Texts) :
    ∃ is, f.issues v = .ok is ∧ ∀ i ∈ is, i.Texts := by
  unfold Field.issues
  split
  · refine ⟨_, rfl, ?_⟩
    split <;> simp [Issue.Texts]
  · split
    · exact h
    · exact ⟨_, rfl, by simp [Issue.Texts]⟩

theorem texts_witnessIssues {v : Value} (h : ∀ ws, v = .map ws → ∀ w ∈ ws, w.1.codes?.isSome) :
    ∃ is, witnessIssues v = .ok is ∧ ∀ i ∈ is, i.Texts := by
  cases v with
  | map ws =>
    have htext : ∀ x ∈ nameFound ws, x.1.codes?.isSome := by
      intro x hx
      obtain ⟨w, hw, hx⟩ := List.mem_filterMap.mp hx
      obtain ⟨i, -, rfl⟩ := Option.map_eq_some_iff.mp hx
      exact h ws rfl w hw
    cases hf : nameFindings ws with
    | error e => exact absurd (fun x hx => Finding.isPlain_of_text (htext x hx)) ((nameFindings_yields ws).of_error hf).2
    | ok found =>
      have hfound : ∀ x ∈ found, x.1.codes?.isSome := fun x hx => htext x (((nameFindings_yields ws).of_ok hf).subset hx)
      rw [witnessIssues, hf]
      refine ⟨_, rfl, List.forall_mem_append.mpr ⟨?_, ?_⟩⟩
      · split
        · simp
        · simpa [Issue.Texts] using hfound
      · split <;> simp [Issue.Texts]
  | _ => exact ⟨[], rfl, by simp⟩

end Field

theorem Schema.name_of_field? {s : Schema} {name : Value} {f : Field} (h : s.field? name = some f) :
    name = .str f.name := by
  cases name with
  | str n =>
    have hn : f.name = n := by simpa using List.find?_some h
    rw [hn]
  | _ => cases h

namespace Schema

theorem texts_issues {e : Value × Value}
    (h : ∀ ws, e = (.str "witnesses", .map ws) → ∀ w ∈ ws, w.1.codes?.isSome) :
    ∃ is, options.issues e.1 e.2 = .ok is ∧ ∀ i ∈ is, i.Texts := by
  rw [issues]
  cases hf : options.field? e.1 with
  | none => exact ⟨_, rfl, by simp [Issue.Texts]⟩
  | some f =>
    refine Field.texts_issues ?_
    have hname := name_of_field? hf
    have hmem := mem_of_field? hf
    simp only [options, List.mem_cons, List.not_mem_nil, or_false] at hmem
    obtain rfl | rfl | rfl | rfl := hmem
    · exact ⟨[], rfl, by simp⟩
    · exact Field.texts_witnessIssues fun ws hws => h ws (Prod.ext hname hws)
    · obtain ⟨is, his, hown⟩ := Field.own_keyIssues e.2
      exact ⟨is, his, fun i hi => (hown i hi).texts⟩
    · obtain ⟨is, his, hown⟩ := Field.own_addressIssues e.2
      exact ⟨is, his, fun i hi => (hown i hi).texts⟩

theorem depth_of_mem {es : Value.Entries} (hes : es.Proper) {e : Value × Value} (he : e ∈ es) :
    ((Value.Keyed.get? e.1 es).map (·.copyDepth)).getD 0 = e.2.copyDepth := by
  rw [hes.get?_of_mem he]
  rfl

section
variable [Limits] {s : Schema}

/-- Of an option with a name that is a text, only the value can be too deep to be copied for the report. -/
theorem deep_found_iff {e : Value × Value} (hname : e.1.codes?.isSome)
    (hissues : ∃ is, s.issues e.1 e.2 = .ok is ∧ ∀ i ∈ is, i.Texts) (n : Nat) :
    (∃ x ∈ s.found e, Limits.copies < x.copyDepth n) ↔ s.offends e ∧ Limits.copies < n := by
  obtain ⟨is, his, htexts⟩ := hissues
  rw [found_eq his, offends, his]
  cases is with
  | nil => simp
  | cons i is =>
    constructor
    · rintro ⟨x, hx, hdeep⟩
      obtain ⟨j, hj, rfl⟩ := List.mem_map.mp hx
      exact ⟨rfl, (Finding.tooDeep_iff hname (htexts j hj) n).mp hdeep⟩
    · rintro ⟨-, hdeep⟩
      have hi : i ∈ i :: is := List.mem_cons_self
      exact ⟨(e.1, i), List.mem_map_of_mem hi, (Finding.tooDeep_iff hname (htexts i hi) n).mpr hdeep⟩

variable {es : Value.Entries} (htext : ∀ e ∈ es, e.1.codes?.isSome)
  (hissues : ∀ e ∈ es, ∃ is, s.issues e.1 e.2 = .ok is ∧ ∀ i ∈ is, i.Texts) {found : List Finding}
include htext hissues

theorem deep_iff (hperm : found.Perm (es.flatMap s.found)) (depth : Value → Nat) :
    (∃ x ∈ found, Limits.copies < x.copyDepth (depth x.1)) ↔ ∃ e ∈ es, s.offends e ∧ Limits.copies < depth e.1 := by
  constructor
  · rintro ⟨x, hx, hdeep⟩
    obtain ⟨e, he, hx⟩ := List.mem_flatMap.mp (hperm.subset hx)
    rw [name_of_found hx] at hdeep
    exact ⟨e, he, (deep_found_iff (htext e he) (hissues e he) _).mp ⟨x, hx, hdeep⟩⟩
  · rintro ⟨e, he, hdeep⟩
    obtain ⟨x, hx, hdeep⟩ := (deep_found_iff (htext e he) (hissues e he) _).mpr hdeep
    exact ⟨x, hperm.symm.subset (List.mem_flatMap.mpr ⟨e, he, hx⟩), name_of_found hx ▸ hdeep⟩

/-- Of what was found nothing is told if the value of a faulty option is too deep to be copied for the report. -/
theorem check_eq (hfound : s.findings es = .ok found) (hperm : found.Perm (es.flatMap s.found))
    (source : Option String) (depth : Value → Nat) : s.check source depth es = if found.isEmpty then .ok ()
      else if ∃ e ∈ es, s.offends e ∧ Limits.copies < depth e.1 then .error .tooDeep
      else .error (.invalidOptions (.map (Finding.errors found)) source) := by
  have hdeep := deep_iff htext hissues hperm depth
  rw [check, hfound]
  cases found with
  | nil => rfl
  | cons x found =>
    have hany : (x :: found).any (fun x => decide (Limits.copies < x.copyDepth (depth x.1))) = true ↔
        ∃ e ∈ es, s.offends e ∧ Limits.copies < depth e.1 := by
      simpa only [List.any_eq_true, decide_eq_true_eq] using hdeep
    change (if _ then _ else _ : Except Failure Unit) = _
    simp only [hany, List.isEmpty_cons, Bool.false_eq_true, if_false]
    rfl

theorem checkValues_eq (hes : es.Proper) (hfound : s.findings es = .ok found)
    (hperm : found.Perm (es.flatMap s.found)) : s.checkValues es = if found.isEmpty then .ok ()
      else if ∃ e ∈ es, s.offends e ∧ Limits.copies < e.2.copyDepth then .error .tooDeep
      else .error (.invalidOptions (.map (Finding.errors found)) none) := by
  have hdeep : (∃ e ∈ es, s.offends e ∧ Limits.copies < ((Value.Keyed.get? e.1 es).map (·.copyDepth)).getD 0) ↔
      ∃ e ∈ es, s.offends e ∧ Limits.copies < e.2.copyDepth := by
    refine exists_congr fun e => and_congr_right fun he => ?_
    rw [depth_of_mem hes he]
  rw [checkValues, check_eq htext hissues hfound hperm]
  simp only [hdeep]

end
end Schema

namespace Options
open Failure (byName)

/-- Names are texts, and no two are the same; so are the names of witnesses. A key has no line feed in it, and what is
given as code points has halves of surrogate pairs among them. -/
structure Named (es : Value.Entries) : Prop where
  names : ∀ e ∈ es, e.1.codes?.isSome
  nodup : (es.map (·.1)).Nodup
  witnesses : ∀ ws, (.str "witnesses", .map ws) ∈ es → ∀ w ∈ ws, w.1.codes?.isSome
  key : ∀ s, (.str "coin_pk", .str s) ∈ es → '\n' ∉ s.toList
  halves : ∀ e ∈ es, ∀ cs, e.2 = .codes cs → ∃ n ∈ cs, Surrogate.isHalf n

/-- Something is wrong with an option whose value is nested too deep to be copied. -/
def Deep [Limits] (es : Value.Entries) : Prop :=
  ∃ e ∈ es, Schema.options.offends e ∧ Limits.copies < e.2.copyDepth

namespace Named
variable {es : Value.Entries}

theorem proper (h : Named es) : es.Proper := .of_texts h.names h.nodup

theorem issues (h : Named es) {e : Value × Value} (he : e ∈ es) :
    ∃ is, Schema.options.issues e.1 e.2 = .ok is ∧ ∀ i ∈ is, i.Texts :=
  Schema.texts_issues fun ws hws => h.witnesses ws (hws ▸ he)

theorem findings (h : Named es) :
    ∃ found, Schema.options.findings es = .ok found ∧ found.Perm (es.flatMap Schema.options.found) := by
  cases hf : Schema.options.findings es with
  | ok found => exact ⟨found, rfl, ((Schema.findings_yields Schema.regular_options es).of_ok hf).2⟩
  | error e =>
    refine absurd (fun e he => ?_) ((Schema.findings_yields Schema.regular_options es).of_error hf).2
    obtain ⟨is, his, htexts⟩ := h.issues he
    refine ⟨⟨is, his⟩, fun x hx => ?_⟩
    rw [Schema.found_eq his] at hx
    obtain ⟨i, hi, rfl⟩ := List.mem_map.mp hx
    refine ⟨Finding.isPlain_of_text (h.names e he), ?_⟩
    have hi := htexts i hi
    cases i with
    | keys found => exact fun x hx => Finding.isPlain_of_text (hi x hx)
    | _ => trivial

theorem refused [Limits] (h : Named es) {f : Failure} (hf : Schema.options.checkValues es = .error f) :
    f = .tooDeep ∧ Deep es ∨ ¬Deep es ∧ ∃ found, f = .invalidOptions (.map (Finding.errors found)) none ∧
      found.Perm (es.flatMap Schema.options.found) := by
  obtain ⟨found, hfound, hperm⟩ := h.findings
  rw [Schema.checkValues_eq h.names (fun e he => h.issues he) h.proper hfound hperm] at hf
  cases found with
  | nil => cases hf
  | cons x found =>
    rw [List.isEmpty_cons, if_neg Bool.false_ne_true] at hf
    split at hf
    · rename_i hdeep
      cases hf
      exact .inl ⟨rfl, hdeep⟩
    · rename_i hshallow
      cases hf
      exact .inr ⟨hshallow, _, rfl, hperm⟩

theorem comparable_offenders (h : Named es) : Failure.Comparable (Schema.options.offenders es) := by
  have hall : Failure.Comparable (es.map (·.1)) := by
    have htext {n : Value} (hn : n ∈ es.map (·.1)) : n.order = .texts ∧ n.isSequence = false := by
      obtain ⟨e, he, rfl⟩ := List.mem_map.mp hn
      have htext := h.names e he
      obtain ⟨cs, hcs⟩ := Option.isSome_iff_exists.mp htext
      exact ⟨Value.order_of_codes hcs, Value.isSequence_of_text htext⟩
    refine h.nodup.imp_of_mem fun {m n} hm hn hne => ?_
    obtain ⟨hmo, hms⟩ := htext hm
    obtain ⟨hno, hns⟩ := htext hn
    exact ⟨Value.less_of_order (hmo.trans hno.symm) hms hne, Value.less_of_order (hno.trans hmo.symm) hns hne.symm⟩
  exact List.Pairwise.sublist (Schema.options.offenders_sublist es) hall

end Named

theorem validate_error [Limits] {options : Value} (hnamed : ∀ es, given? options = some es → Named es) {f : Failure}
    (hf : validate options = .error f) :
    f = .tooDeep ∧ (∃ es, given? options = some es ∧ Deep es) ∨
      (¬∃ es, given? options = some es ∧ Deep es) ∧
        ∃ errors sorted, f = .invalidOptions errors none ∧ Told f options sorted := by
  cases hg : given? options with
  | none =>
    obtain ⟨type, htype⟩ := validate_of_not_given hg
    rw [htype] at hf
    cases hf
    let reports : Value.Entries :=
      [(.str "options", .list [.str ("expected SimulatorOptions or a mapping, got '" ++ type ++ "'")])]
    have hreports (r : Value × Value) (hr : r ∈ reports) : ∃ m ms, r.2 = .list (m :: ms) := by
      rw [List.mem_singleton.mp hr]
      exact ⟨_, _, rfl⟩
    obtain ⟨sorted, hsorted⟩ : ∃ sorted, byName reports = .ok sorted :=
      Failure.byName_of_comparable (List.pairwise_singleton ..)
    exact .inr ⟨by simp, _, sorted, rfl, told_of_byName htype hreports hsorted⟩
  | some es =>
    have h := hnamed es hg
    have hdoc := validate_of_given hg
    have hcheck : Schema.options.checkValues es = .error f := checkValues_of_error (hdoc ▸ hf)
    obtain ⟨rfl, hdeep⟩ | ⟨hshallow, found, rfl, hperm⟩ := h.refused hcheck
    · exact .inl ⟨rfl, es, rfl, hdeep⟩
    · refine .inr ⟨by simpa using hshallow, ?_⟩
      obtain ⟨hnames, hsome⟩ := Schema.errors_spec h.proper (fun e he => (h.issues he).imp fun _ his => his.1) hperm
      have hcomparable : Failure.Comparable ((Finding.errors found).map (·.1)) :=
        (hnames.pairwise_iff fun hxy => hxy.symm).mpr h.comparable_offenders
      obtain ⟨sorted, hsorted⟩ := Failure.byName_of_comparable hcomparable
      exact ⟨_, sorted, rfl, told_of_byName hf hsome hsorted⟩

theorem str_of_digits {allowed : Nat → Prop} {v : Value} (hhalves : ∀ cs, v = .codes cs → ∃ n ∈ cs, Surrogate.isHalf n)
    (h : Digits allowed v ∨ DigitsAndFeed allowed v) : ∃ s, v = .str s ∧ allowed s.toList.length := by
  obtain ⟨cs, hcs⟩ : ∃ cs, v.codes? = some cs := h.elim (fun ⟨cs, hcs, _⟩ => ⟨cs, hcs⟩) fun ⟨ds, hds, _⟩ => ⟨_, hds⟩
  obtain ⟨hallowed, hended⟩ := (digits_or_feed hcs).mp h
  cases v with
  | str s =>
    cases hcs
    exact ⟨s, rfl, by rwa [List.length_map] at hallowed⟩
  | codes ds =>
    cases hcs
    obtain ⟨n, hn, hhalf⟩ := hhalves cs rfl
    have hsmall : n < 128 := by
      obtain hdigits | ⟨ds, rfl, hdigits⟩ := hended
      · exact (hdigits n hn).ascii.2
      · obtain hn | hn := List.mem_append.mp hn
        · exact (hdigits n hn).ascii.2
        · rw [List.mem_singleton.mp hn]
          omega
    simp only [Surrogate.isHalf, Surrogate.isHigh, Surrogate.isLow, Bool.or_eq_true, Bool.and_eq_true,
      decide_eq_true_eq] at hhalf
    omega
  | _ => cases hcs

theorem feed_of_slipped {s : String} (h : Slipped (.str s) "coin_pk") : '\n' ∈ s.toList := by
  obtain ⟨ds, hds, -⟩ := h
  have hcodes : s.toList.map Char.toNat = ds ++ [10] := Option.some.inj hds
  have hmem : 10 ∈ s.toList.map Char.toNat := by rw [hcodes]; simp
  obtain ⟨c, hc, hten⟩ := List.mem_map.mp hmem
  have hfeed : c = '\n' := Char.toNat_inj.mp hten
  exact hfeed ▸ hc

theorem Named.accepted {es : Value.Entries} (h : Named es) (hes : ∀ e ∈ es, Schema.options.issues e.1 e.2 = .ok []) :
    let o := ofDocument es
    (o.coinKey = .none ∨ ∃ s k, o.coinKey = .str s ∧ s ≠ "" ∧ Key.ofHex s = .ok k) ∧
      (o.address = .none ∨ ∃ s, o.address = .str s ∧ s ≠ "") := by
  intro o
  have hentry {n : String} {v : Value} (hv : Value.Keyed.get? (.str n) es = some v) :
      (.str n, v) ∈ es ∧ (Grammatical v n ∨ Slipped v n) := by
    have hmem := Value.Keyed.mem_of_get? hv
    obtain ⟨m, hm, hgrammar⟩ := (issues_nil_iff _ _).mp (hes _ hmem)
    cases hm
    exact ⟨hmem, hgrammar⟩
  have hnonempty {s : String} (hs : 0 < s.toList.length) : s ≠ "" := by
    rintro rfl
    exact absurd hs (by decide)
  constructor
  · have hkey : o.coinKey = .ofOption (Value.Keyed.get? (.str "coin_pk") es) := rfl
    cases hv : Value.Keyed.get? (.str "coin_pk") es with
    | none => exact .inl (by rw [hkey, hv]; rfl)
    | some v =>
      rw [hkey, hv]
      obtain ⟨hmem, hgrammar⟩ := hentry hv
      have hcases : v = .none ∨ (Digits (· = 64) v ∨ DigitsAndFeed (· = 64) v) := or_assoc.mp hgrammar
      refine hcases.imp id fun hdigits => ?_
      obtain ⟨s, rfl, hlength⟩ := str_of_digits (h.halves _ hmem) hdigits
      obtain ⟨k, hk, -⟩ := (ofHex_iff hgrammar).mpr fun hslipped => h.key s hmem (feed_of_slipped hslipped)
      exact ⟨s, k, rfl, hnonempty (by omega), hk⟩
  · have haddress : o.address = .ofOption (Value.Keyed.get? (.str "contract_address") es) := rfl
    cases hv : Value.Keyed.get? (.str "contract_address") es with
    | none => exact .inl (by rw [haddress, hv]; rfl)
    | some v =>
      rw [haddress, hv]
      obtain ⟨hmem, hgrammar⟩ := hentry hv
      have hcases : v = .none ∨ (Digits (0 < ·) v ∨ DigitsAndFeed (0 < ·) v) := or_assoc.mp hgrammar
      refine hcases.imp id fun hdigits => ?_
      obtain ⟨s, rfl, hlength⟩ := str_of_digits (h.halves _ hmem) hdigits
      exact ⟨s, rfl, hnonempty hlength⟩

end Options

def Value.items? : Value → Option (List Value)
  | .list as | .tuple as => some as
  | _ => Option.none

theorem Failure.badArguments_report (name text : String) :
    ∃ r, (badArguments (.str name) (.str text)).report? = some (.ok r) :=
  ⟨_, congrArg some (render_text ..)⟩

namespace Simulator
variable {transform : List Value → Except Refusal (List Value)} {given : Value}

theorem arguments_ok (name : String) {as bs : List Value} (h : given.items? = some as) (ht : transform as = .ok bs) :
    arguments name transform given = .ok bs := by
  cases given with
  | list xs | tuple xs =>
    cases h
    simp only [arguments, ht]
  | _ => cases h

theorem arguments_refused (name : String)
    (h : ∀ as, given.items? = some as → ∃ text, transform as = .error (.mismatch text)) :
    ∃ text, arguments name transform given = .error (Failure.badArguments (.str name) (.str text)).asBuild := by
  cases given with
  | list as | tuple as =>
    obtain ⟨text, ht⟩ := h as rfl
    exact ⟨text, by simp only [arguments, ht]⟩
  | _ => exact ⟨_, rfl⟩

end Simulator

namespace Fixture

def arity : Fixture → Nat
  | .simple | .witness => 0
  | .ownable => 2

theorem transform_ok (f : Fixture) {as : List Value} (h : as.length = f.arity) : f.sample.config.transform as = .ok as := by
  cases f with
  | simple | witness =>
    rw [List.length_eq_zero_iff.mp h]
    rfl
  | ownable =>
    obtain ⟨owner, salt, rfl⟩ := List.length_eq_two.mp h
    rfl

theorem transform_refused (f : Fixture) {as : List Value} (h : as.length ≠ f.arity) :
    ∃ text, f.sample.config.transform as = .error (.mismatch text) := by
  match f, as with
  | .simple, [] | .witness, [] | .ownable, [_, _] => exact absurd rfl h
  | .simple, _ :: _ | .witness, _ :: _ => exact ⟨_, rfl⟩
  | .ownable, [] | .ownable, [_] | .ownable, _ :: _ :: _ :: _ => exact ⟨_, rfl⟩

theorem contract_ok (f : Fixture) (ws : Witnesses) : ∃ contract, f.sample.config.contract ws = .ok contract := by
  cases f <;> exact ⟨_, rfl⟩

theorem initialState_ok (f : Fixture) {ws : Witnesses} {contract : Artifact} {as : List Value}
    (hcontract : f.sample.config.contract ws = .ok contract) (h : as.length = f.arity) (c : ConstructorContext) :
    ∃ payload, contract.initialState c as = .ok ⟨payload, c.privateState⟩ := by
  cases f with
  | simple | witness =>
    cases hcontract
    exact ⟨_, rfl⟩
  | ownable =>
    cases hcontract
    obtain ⟨owner, salt, rfl⟩ := List.length_eq_two.mp h
    exact ⟨_, rfl⟩

theorem exists_key {o : Options} (h : o.coinKey = .none ∨ ∃ s k, o.coinKey = .str s ∧ s ≠ "" ∧ Key.ofHex s = .ok k) :
    ∃ k, Key.ofHex (Simulator.textOr Key.zeroText o.coinKey) = .ok k ∧
      match o.coinKey with
      | .str t => Key.ofHex t = .ok k
      | _ => k = List.replicate 32 0 := by
  obtain h | ⟨s, k, h, hne, hk⟩ := h
  · rw [h]
    exact ⟨_, by cbv, rfl⟩
  · rw [h, Simulator.textOr]
    · exact ⟨k, hk, hk⟩
    · exact hne

theorem text_address {o : Options} (h : o.address = .none ∨ ∃ s, o.address = .str s ∧ s ≠ "") :
    Value.str (Simulator.textOr Address.placeholder o.address) = match o.address with
      | .str t => .str t
      | _ => .str Address.placeholder := by
  obtain h | ⟨s, h, hne⟩ := h
  · rw [h]
    rfl
  · rw [h, Simulator.textOr]
    exact hne

end Fixture

theorem Manager.start_ok {maker : Nat} {contract : Artifact} {p p' payload address : Value} {sender : String} {k : Key}
    {as : List Value} (hk : Key.ofHex sender = .ok k)
    (hfirst : contract.initialState ⟨⟨maker, 0⟩, p, .empty k⟩ as = .ok ⟨payload, p'⟩) (carryover : Carryover) :
    start maker contract p sender address as carryover =
      .ok ⟨maker, 1, ⟨⟨maker, 0⟩, ⟨p', payload, address, .empty k, .zero, .none⟩⟩, carryover⟩ := by
  have hlocal : LocalState.ofSender sender = .ok (.empty k) := by rw [LocalState.ofSender, hk]; rfl
  simp only [start, CircuitContext.fresh, hlocal, bind, Except.bind, hfirst]
  rfl

namespace Simulator
variable {name : String} {config : Config} {maker : Nat} {args options : Value} {o : Options} {contract : Artifact}

def chosenState (config : Config) (o : Options) : Value :=
  match o.privateState with
  | .none => config.defaultPrivate
  | p => p

def chosenWitnesses (config : Config) (o : Options) : Witnesses :=
  match o.witnesses with
  | .none => config.defaultWitnesses
  | w => Witnesses.ofValue w

section
variable [Limits]

theorem build_eq (hv : Options.validate options = .ok o) : build name config maker args options =
    (do
      let contract ← config.contract (chosenWitnesses config o)
      let processed ← arguments name config.transform args
      let manager ← Manager.start maker contract (chosenState config o) (textOr Key.zeroText o.coinKey)
        (.str (textOr Address.placeholder o.address)) processed config.carryover
      return ⟨name, config, chosenWitnesses config o, contract, manager.current.context.address, manager, .empty, 0, none,
        none, none, none⟩) := by
  rw [build, resolve, hv]
  rfl

theorem build_ok {as : List Value} {k : Key} {payload : Value} (hv : Options.validate options = .ok o)
    (hcontract : config.contract (chosenWitnesses config o) = .ok contract)
    (hargs : arguments name config.transform args = .ok as)
    (hk : Key.ofHex (textOr Key.zeroText o.coinKey) = .ok k)
    (hfirst : contract.initialState ⟨⟨maker, 0⟩, chosenState config o, .empty k⟩ as =
      .ok ⟨payload, chosenState config o⟩) :
    let address : Value := .str (textOr Address.placeholder o.address)
    build name config maker args options = .ok ⟨name, config, chosenWitnesses config o, contract, address, ⟨maker, 1,
      ⟨⟨maker, 0⟩, ⟨chosenState config o, payload, address, .empty k, .zero, .none⟩⟩, config.carryover⟩, .empty, 0, none,
      none, none, none⟩ := by
  rw [build_eq hv, hcontract, hargs]
  simp only [bind, Except.bind, Manager.start_ok hk hfirst]
  rfl

theorem build_refused {e : Failure} (hv : Options.validate options = .ok o)
    (hcontract : config.contract (chosenWitnesses config o) = .ok contract)
    (hargs : arguments name config.transform args = .error e) : build name config maker args options = .error e := by
  rw [build_eq hv, hcontract, hargs]
  rfl

end

/-- Deployed with what was chosen and with the defaults for the rest, and nothing has happened yet. -/
structure First (config : Config) (o : Options) (as : List Value) (s : Simulator) : Prop where
  privateState : s.context.privateState = chosenState config o
  key : match o.coinKey with
    | .str t => Key.ofHex t = .ok s.context.key
    | _ => s.context.key = List.replicate 32 0
  address : s.context.address = match o.address with
    | .str t => .str t
    | _ => .str Address.placeholder
  deployed : s.address = s.context.address
  witnesses : s.witnesses = chosenWitnesses config o
  contract : config.contract s.witnesses = .ok s.contract
  payload : s.contract.initialState ⟨s.current.mark, s.context.privateState, .empty s.context.key⟩ as =
    .ok ⟨s.context.payload, s.context.privateState⟩
  records : s.context.localState = .empty s.context.key
  cost : s.context.cost = .zero
  gas : s.context.gas = .none

end Simulator

namespace Fixture
open Options (given? Named Deep)

/-- Whatever a sample simulator is built from, if options have texts for names. Refused options end in a build failure with
their report, but for one that is nested too deep. With accepted ones, arguments that are no sequence or not as many as
the constructor takes end in a build failure with a report of their own, and otherwise there is a simulator with the
first context that was asked for. -/
theorem build_or_report [Limits] (f : Fixture) (default : Value) (name : String) (maker : Nat) (args options : Value)
    (hnamed : ∀ es, given? options = some es → Named es) :
    let config := { f.sample.config with defaultPrivate := default }
    let built := Simulator.build name config maker args options
    (∀ e, Options.validate options = .error e →
      (∃ es, given? options = some es ∧ Deep es) ∧ built = .error .tooDeep ∨
      (¬∃ es, given? options = some es ∧ Deep es) ∧ ∃ errors r, e = .invalidOptions errors none ∧
        e.report? = some (.ok r) ∧ built = .error (.build r e)) ∧
    ∀ o, Options.validate options = .ok o → (∃ es, given? options = some es ∧ o = Options.ofDocument es) ∧
      ((∀ as, args.items? = some as → as.length ≠ f.arity) → ∃ text r,
        let e := Failure.badArguments (.str name) (.str text)
        e.report? = some (.ok r) ∧ built = .error (.build r e)) ∧
      ∀ as, args.items? = some as → as.length = f.arity → ∃ s, built = .ok s ∧ s.First config o as := by
  intro config built
  refine ⟨fun e he => ?_, fun o ho => ?_⟩
  · have hrejected := Simulator.build_rejected he name config maker args
    obtain ⟨rfl, hdeep⟩ | ⟨hshallow, errors, sorted, rfl, htold⟩ := Options.validate_error hnamed he
    · exact .inl ⟨hdeep, hrejected⟩
    · obtain ⟨suggestion, hreport, hbuild⟩ := htold.report
      exact .inr ⟨hshallow, errors, _, rfl, hreport, hbuild name config maker args⟩
  · obtain ⟨es, hes, hok, rfl⟩ := (Options.validate_iff options o).mp ho
    obtain ⟨hkey, haddress⟩ := (hnamed es hes).accepted hok
    refine ⟨⟨es, hes, rfl⟩, fun hargs => ?_, fun as hargs hlength => ?_⟩
    · obtain ⟨contract, hcontract⟩ := f.contract_ok (Simulator.chosenWitnesses config (.ofDocument es))
      obtain ⟨text, hrefused⟩ := Simulator.arguments_refused name fun as has => f.transform_refused (hargs as has)
      obtain ⟨r, hr⟩ := Failure.badArguments_report name text
      refine ⟨text, r, hr, ?_⟩
      rw [Failure.asBuild, hr] at hrefused
      exact Simulator.build_refused ho hcontract hrefused
    · obtain ⟨contract, hcontract⟩ := f.contract_ok (Simulator.chosenWitnesses config (.ofDocument es))
      obtain ⟨k, hk, hchosen⟩ := exists_key hkey
      obtain ⟨payload, hfirst⟩ := f.initialState_ok hcontract hlength
        ⟨⟨maker, 0⟩, Simulator.chosenState config (.ofDocument es), .empty k⟩
      have hprocessed := Simulator.arguments_ok name hargs (f.transform_ok hlength)
      refine ⟨_, Simulator.build_ok ho hcontract hprocessed hk hfirst, ?_⟩
      exact ⟨rfl, hchosen, text_address haddress, rfl, rfl, hcontract, hfirst, rfl, rfl, rfl⟩

theorem named_singleton {n : String} {v : Value} (hn : n ≠ "witnesses" ∧ n ≠ "coin_pk") (hv : ∀ cs, v ≠ .codes cs) :
    Named [(.str n, v)] where
  names := by simp [Value.codes?]
  nodup := List.nodup_singleton _
  witnesses := by simp [Ne.symm hn.1]
  key := by simp [Ne.symm hn.2]
  halves := by simp [hv]

theorem empty_state_is_kept :
    let options : Value := .map [(.str "private_state", .map [])]
    (∀ es, given? options = some es → Named es) ∧
      ∃ s, Simulator.build "Vault" { Ownable.config with defaultPrivate := .int 1 } 0 (.list [.str "ab", .int 7]) options =
        .ok s ∧ s.context.privateState = .map [] ∧ s.context.key = List.replicate 32 0 ∧
          s.address = .str Address.placeholder := by
  intro options
  have hnamed : ∀ es, given? options = some es → Named es := by
    rintro es ⟨⟩
    exact named_singleton (by decide) (by simp)
  have hvalid : Options.validate options = .ok { privateState := .map [] } := by cbv
  obtain ⟨-, haccepted⟩ := build_or_report .ownable (.int 1) "Vault" 0 (.list [.str "ab", .int 7]) options hnamed
  obtain ⟨-, -, hbuilt⟩ := haccepted _ hvalid
  obtain ⟨s, hs, hfirst⟩ := hbuilt _ rfl rfl
  exact ⟨hnamed, s, hs, hfirst.privateState, hfirst.key, hfirst.deployed.trans hfirst.address⟩

def nested : Nat → Value
  | 0 => .int 1
  | n+1 => .tuple [nested n]

theorem copyDepth_nested (n : Nat) : (nested n).copyDepth = 3*n+2 := by
  induction n with
  | zero => rfl
  | succ n ih =>
    simp only [nested, Value.copyDepth, Value.copyDepths, ih]
    omega

theorem nested_ne_codes (n : Nat) (cs : List Nat) : nested n ≠ .codes cs := by
  cases n <;> simp [nested]

/-- A name that is no option is refused, but its value cannot be copied for the report, and there is no build failure. -/
theorem deep_option_is_unreported :
    let options : Value := .map [(.str "bad", nested 345)]
    (∀ es, given? options = some es → Named es) ∧ Options.validate options = .error .tooDeep ∧
      Simulator.build "SimpleSimulator" Simple.config 0 (.tuple []) options = .error .tooDeep := by
  intro options
  have hnamed : ∀ es, given? options = some es → Named es := by
    rintro es ⟨⟩
    exact named_singleton (by decide) (nested_ne_codes 345)
  have hoffends : Schema.options.issues (.str "bad") (nested 345) = .ok [.unknown] := rfl
  have hdeep : Deep [(.str "bad", nested 345)] := by
    refine ⟨_, List.mem_singleton_self _, by rw [Schema.offends, hoffends], ?_⟩
    rw [copyDepth_nested]
    decide
  have hvalid : Options.validate options = .error .tooDeep := by
    cases hv : Options.validate options with
    | ok o =>
      obtain ⟨es, ⟨⟩, hok, -⟩ := (Options.validate_iff options o).mp hv
      have hnone := hok _ (List.mem_singleton_self _)
      rw [hoffends] at hnone
      cases hnone
    | error f =>
      obtain ⟨rfl, -⟩ | ⟨hshallow, -⟩ := Options.validate_error hnamed hv
      · rfl
      · exact absurd ⟨_, rfl, hdeep⟩ hshallow
  exact ⟨hnamed, hvalid, Simulator.build_rejected hvalid ..⟩

end Fixture
end CircuitHarness
