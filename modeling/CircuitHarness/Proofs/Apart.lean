import CircuitHarness.Proofs.Construction
import CircuitHarness.Proofs.OptionSources

/-! A document of options is checked as its options are one by one, each in a document of its own: what is reported about
one does not depend on the others, and neither does whether the check ends. Options that are nothing, left out or given as
options already come to the same. -/
namespace CircuitHarness

namespace Value

theorem Keyed.Proper.get?_eq_some_iff {β : Type} {es : Keyed β} (h : es.Proper) {k : Value} (hk : k.codes?.isSome)
    {v : β} : Keyed.get? k es = some v ↔ (k, v) ∈ es := by
  refine ⟨fun hv => ?_, fun he => h.get?_of_mem he⟩
  obtain ⟨e, he, rfl⟩ := Option.map_eq_some_iff.mp hv
  have hname : e.1 = k := (same_text_iff hk).mp (by simpa using List.find?_some he)
  exact hname ▸ List.mem_of_find?_eq_some he

theorem Keyed.Proper.get?_perm {β : Type} {es fs : Keyed β} (hes : es.Proper) (hfs : fs.Proper) (h : es.Perm fs)
    {k : Value} (hk : k.codes?.isSome) : Keyed.get? k es = Keyed.get? k fs := by
  refine Option.ext fun v => ?_
  rw [hes.get?_eq_some_iff hk, hfs.get?_eq_some_iff hk, h.mem_iff]

end Value

def Issue.Settled : Issue → Prop
  | .keys found => Findings.orderKeys found = .ok ()
  | _ => True

theorem Issue.Texts.settled {i : Issue} (h : i.Texts) : i.Settled := by
  cases i with
  | keys found =>
    change Findings.orderKeys found = .ok ()
    cases hr : Findings.orderKeys found with
    | ok => rfl
    | error e =>
      have hplain : Finding.Plain found := fun x hx => Finding.isPlain_of_text (h x hx)
      exact absurd hplain ((Findings.orderKeys_yields found).of_error hr).2
  | _ => trivial

namespace Finding

theorem insert_ok {found : List Finding} {x : Finding} (h : ∀ y ∈ found ++ [x], y.1.IsText) :
    ∃ r, insert found x = .ok r := by
  cases hr : insert found x with
  | ok r => exact ⟨r, rfl⟩
  | error e => exact absurd (fun y hy => (h y hy).isPlain) ((insert_yields found x).of_error hr).2

theorem errors_proper {found : List Finding} (hnames : ∀ x ∈ found, x.1.IsText) : (errors found).Proper := by
  have hfst : (errors found).map (·.1) = Value.distinct (found.map (·.1)) := by
    rw [errors, List.map_map]
    exact List.map_id _
  have htext (n : Value) (hn : n ∈ found.map (·.1)) : n.codes?.isSome := by
    obtain ⟨x, hx, rfl⟩ := List.mem_map.mp hn
    exact (hnames x hx).codes_isSome
  obtain ⟨hnodup, hmem⟩ := Value.distinct_spec fun m _ n hn => Value.same_text_iff (v := m) (htext n hn)
  refine .of_texts (fun e he => htext e.1 ((hmem e.1).mp ?_)) (hfst ▸ hnodup)
  exact hfst ▸ List.mem_map_of_mem he

end Finding

namespace Findings

theorem add_settles {f : Findings} (hf : f.Sound) {x : Finding} (htext : ∀ y ∈ f.all ++ [x], y.1.IsText) :
    Yields (fun e => e = .wrongType ∧ ¬x.2.Settled)
      (fun r : Findings => (r.all.Perm (f.all ++ [x]) ∧ r.Sound) ∧ x.2.Settled) (f.add x) := by
  have hruleless : ∀ y ∈ f.ruleless ++ [x], y.1.IsText := fun y hy =>
    htext y (List.mem_append.mpr ((List.mem_append.mp hy).imp_left fun h => hf h))
  obtain ⟨all, hall⟩ := Finding.insert_ok htext
  obtain ⟨ruleless, hinsert⟩ := Finding.insert_ok hruleless
  have hyields := add_yields hf x
  have hsettled : (∃ r, f.add x = .ok r) ↔ x.2.Settled := by
    obtain ⟨name, i⟩ := x
    cases i with
    | keys found =>
      rw [add, hall, hinsert]
      simp only [Issue.Settled, bind, Except.bind, pure, Except.pure]
      cases orderKeys found <;> simp [Issue.rule]
    | _ => simp [add, hall, hinsert, Issue.Settled, Issue.rule, bind, Except.bind, pure, Except.pure]
  cases hadd : f.add x with
  | ok r => exact .ok ⟨hyields.of_ok hadd, hsettled.mp ⟨r, hadd⟩⟩
  | error e =>
    refine .error ⟨(hyields.of_error hadd).1, fun h => ?_⟩
    obtain ⟨r, hr⟩ := hsettled.mpr h
    rw [hadd] at hr
    cases hr

end Findings

namespace Schema

/-- An option that can be checked, with findings that can be put in order. -/
def Settled (s : Schema) (e : Value × Value) : Prop := ∃ is, s.issues e.1 e.2 = .ok is ∧ ∀ i ∈ is, i.Settled

/-- Something is found about the option that cannot be copied with the option's value. -/
def Buried [Limits] (s : Schema) (e : Value × Value) : Prop :=
  ∃ x ∈ s.found e, Limits.copies < x.copyDepth e.2.copyDepth

theorem findings_settle {s : Schema} (hs : ∀ f ∈ s, f.Regular) {es : Value.Entries} (htext : ∀ e ∈ es, e.1.IsText) :
    Yields (fun e => e = .wrongType ∧ ∃ e ∈ es, ¬s.Settled e) (fun _ => ∀ e ∈ es, s.Settled e) (s.findings es) := by
  refine Yields.map (P := fun f : Findings => (∀ e ∈ es, s.Settled e) ∧ (∀ x ∈ f.all, x.1.IsText) ∧ f.Sound) ?_
    fun f hf => hf.1
  refine Yields.foldlM (I := fun done (f : Findings) => (∀ e ∈ done, s.Settled e) ∧ (∀ x ∈ f.all, x.1.IsText) ∧ f.Sound)
    ⟨by simp, by simp [Findings.none], fun _ h => h⟩ fun done e f hdone hf => ?_
  have he : e ∈ es := hdone.subset (List.mem_append_right done List.mem_cons_self)
  cases his : s.issues e.1 e.2 with
  | error err =>
    refine .error ⟨issues_error hs his, e, he, ?_⟩
    rintro ⟨is, hok, -⟩
    rw [hok] at his
    cases his
  | ok is =>
    have hloop : Yields (fun err => err = .wrongType ∧ ∃ i ∈ is, ¬i.Settled)
        (fun r : Findings => (∀ i ∈ is, i.Settled) ∧ (∀ x ∈ r.all, x.1.IsText) ∧ r.Sound)
        (is.foldlM (fun found i => found.add (e.1, i)) f) := by
      refine Yields.foldlM (I := fun (seen : List Issue) (r : Findings) =>
        (∀ i ∈ seen, i.Settled) ∧ (∀ x ∈ r.all, x.1.IsText) ∧ r.Sound) ⟨by simp, hf.2⟩ fun seen i r hseen hr => ?_
      have hi : i ∈ is := hseen.subset (List.mem_append_right seen List.mem_cons_self)
      have hnames : ∀ y ∈ r.all ++ [(e.1, i)], y.1.IsText :=
        List.forall_mem_append.mpr ⟨hr.2.1, by simpa using htext e he⟩
      refine (Findings.add_settles hr.2.2 hnames).mono (fun err herr => ⟨herr.1, i, hi, herr.2⟩) fun r' hr' => ?_
      exact ⟨List.forall_mem_append.mpr ⟨hr.1, by simpa using hr'.2⟩, fun x hx => hnames x (hr'.1.1.subset hx), hr'.1.2⟩
    refine hloop.mono (fun err herr => ⟨herr.1, e, he, ?_⟩) fun r hr => ⟨List.forall_mem_append.mpr ⟨hf.1, ?_⟩, hr.2⟩
    · rintro ⟨is', hok, hsettled⟩
      obtain ⟨i, hi, hno⟩ := herr.2
      rw [his] at hok
      cases hok
      exact hno (hsettled i hi)
    · simpa using ⟨is, his, hr.1⟩

/-- How a check of options with textual names ends, told from its options. -/
inductive Verdict [Limits] (s : Schema) (es : Value.Entries) : Except Failure Unit → Prop where
  | accepted (none : ∀ e ∈ es, s.issues e.1 e.2 = .ok []) : Verdict s es (.ok ())
  | stuck (unsettled : ∃ e ∈ es, ¬s.Settled e) : Verdict s es (.error .wrongType)
  | tooDeep (settled : ∀ e ∈ es, s.Settled e) (buried : ∃ e ∈ es, s.Buried e) : Verdict s es (.error .tooDeep)
  | rejected {found : List Finding} (settled : ∀ e ∈ es, s.Settled e) (shallow : ∀ e ∈ es, ¬s.Buried e)
    (some : found ≠ []) (order : s.InOrder es found) :
    Verdict s es (.error (.invalidOptions (.map (Finding.errors found)) none))

theorem Settled.of_nil {s : Schema} {e : Value × Value} (h : s.issues e.1 e.2 = .ok []) : s.Settled e :=
  ⟨[], h, by simp⟩

theorem not_buried_of_nil [Limits] {s : Schema} {e : Value × Value} (h : s.issues e.1 e.2 = .ok []) : ¬s.Buried e := by
  rintro ⟨x, hx, -⟩
  rw [found_eq h] at hx
  cases hx

theorem offends_iff {s : Schema} {e : Value × Value} : s.offends e = true ↔ s.issues e.1 e.2 ≠ .ok [] := by
  rw [offends]
  cases s.issues e.1 e.2 with
  | error f => simp
  | ok is => cases is <;> simp

theorem flatMap_offends (s : Schema) (es : Value.Entries) : (es.filter s.offends).flatMap s.found = es.flatMap s.found := by
  induction es with
  | nil => rfl
  | cons e es ih =>
    rw [List.filter_cons, List.flatMap_cons]
    split
    · rw [List.flatMap_cons, ih]
    · rename_i hoff
      have hnone : s.found e = [] := found_eq (not_not.mp (mt offends_iff.mpr hoff))
      rw [ih, hnone, List.nil_append]

namespace Verdict
variable {s : Schema} {es fs : Value.Entries} {r r' : Except Failure Unit}

theorem of_perm [Limits] (h : s.Verdict es r) (hperm : (es.filter s.offends).Perm (fs.filter s.offends)) :
    s.Verdict fs r := by
  have hmem {e : Value × Value} (hoff : s.issues e.1 e.2 ≠ .ok []) : e ∈ es ↔ e ∈ fs := by
    simpa [offends_iff.mpr hoff] using hperm.mem_iff (a := e)
  have hsettled (h : ∀ e ∈ es, s.Settled e) : ∀ e ∈ fs, s.Settled e := fun e he => by
    by_cases hoff : s.issues e.1 e.2 = .ok []
    · exact .of_nil hoff
    · exact h e ((hmem hoff).mpr he)
  cases h with
  | accepted none => exact .accepted fun e he => by_contra fun hoff => hoff (none e ((hmem hoff).mpr he))
  | stuck unsettled =>
    obtain ⟨e, he, hno⟩ := unsettled
    exact .stuck ⟨e, (hmem (mt .of_nil hno)).mp he, hno⟩
  | tooDeep settled buried =>
    obtain ⟨e, he, hdeep⟩ := buried
    exact .tooDeep (hsettled settled) ⟨e, (hmem fun hnil => not_buried_of_nil hnil hdeep).mp he, hdeep⟩
  | rejected settled shallow some order =>
    refine .rejected (hsettled settled) (fun e he hdeep => ?_) some ⟨?_, order.names, order.ascending⟩
    · exact shallow e ((hmem fun hnil => not_buried_of_nil hnil hdeep).mpr he) hdeep
    · have hfound := hperm.flatMap_right s.found
      rw [flatMap_offends, flatMap_offends] at hfound
      exact order.all.trans hfound

theorem nothing_found (h : ∀ e ∈ es, s.issues e.1 e.2 = .ok []) : es.flatMap s.found = [] :=
  List.flatMap_eq_nil_iff.mpr fun e he => found_eq (h e he)

section
variable [Limits]

theorem accepted_iff_nil (h : s.Verdict es r) : r = .ok () ↔ ∀ e ∈ es, s.issues e.1 e.2 = .ok [] := by
  cases h with
  | accepted none => exact iff_of_true rfl none
  | stuck unsettled => exact iff_of_false nofun fun hnil => unsettled.elim fun e he => he.2 (.of_nil (hnil e he.1))
  | tooDeep settled buried =>
    exact iff_of_false nofun fun hnil => buried.elim fun e he => not_buried_of_nil (hnil e he.1) he.2
  | rejected settled shallow some order =>
    exact iff_of_false nofun fun hnil => some (nothing_found hnil ▸ order.all).eq_nil

theorem stuck_iff (h : s.Verdict es r) : r = .error .wrongType ↔ ∃ e ∈ es, ¬s.Settled e := by
  cases h with
  | accepted none => exact iff_of_false nofun fun ⟨e, he, hno⟩ => hno (.of_nil (none e he))
  | stuck unsettled => exact iff_of_true rfl unsettled
  | tooDeep settled | rejected settled => exact iff_of_false nofun fun ⟨e, he, hno⟩ => hno (settled e he)

theorem tooDeep_iff (h : s.Verdict es r) :
    r = .error .tooDeep ↔ (∀ e ∈ es, s.Settled e) ∧ ∃ e ∈ es, s.Buried e := by
  cases h with
  | accepted none => exact iff_of_false nofun fun ⟨_, e, he, h⟩ => not_buried_of_nil (none e he) h
  | stuck unsettled => exact iff_of_false nofun fun h => unsettled.elim fun e he => he.2 (h.1 e he.1)
  | tooDeep settled buried => exact iff_of_true rfl ⟨settled, buried⟩
  | rejected settled shallow => exact iff_of_false nofun fun ⟨_, e, he, h⟩ => shallow e he h

theorem unique (h : s.Verdict es r) (h' : s.Verdict es r') : r = r' := by
  cases h with
  | accepted none => exact (h'.accepted_iff_nil.mpr none).symm
  | stuck unsettled => exact (h'.stuck_iff.mpr unsettled).symm
  | tooDeep settled buried => exact (h'.tooDeep_iff.mpr ⟨settled, buried⟩).symm
  | rejected settled shallow some order =>
    cases h' with
    | accepted none => exact absurd (nothing_found none ▸ order.all).eq_nil some
    | stuck unsettled => exact unsettled.elim fun e he => absurd (settled e he.1) he.2
    | tooDeep _ buried => exact buried.elim fun e he => absurd he.2 (shallow e he.1)
    | rejected _ _ _ order' =>
      rw [Finding.eq_of_ascending order.ascending order'.ascending (order.all.trans order'.all.symm)]

end

end Verdict

section
variable {s : Schema} (hs : ∀ f ∈ s, f.Regular) (hstrict : ∀ f ∈ s, f.Strict) {es : Value.Entries} (hes : es.Proper)
  (htext : ∀ e ∈ es, e.1.IsText)
include hs hstrict hes htext

theorem verdict [Limits] : s.Verdict es (s.checkValues es) := by
  rw [checkValues, check]
  cases hfound : s.findings es with
  | error e =>
    obtain ⟨rfl, hstuck⟩ := (findings_settle hs htext).of_error hfound
    exact .stuck hstuck
  | ok found =>
    have hsettled : ∀ e ∈ es, s.Settled e := (findings_settle hs htext).of_ok hfound
    have horder : s.InOrder es found := inOrder_of_distinct hs hfound (distinct_found hstrict hes htext)
    cases found with
    | nil =>
      refine .accepted fun e he => ?_
      obtain ⟨is, his, -⟩ := hsettled e he
      have hnone : s.found e = [] := List.flatMap_eq_nil_iff.mp horder.all.nil_eq.symm e he
      rw [found_eq his, List.map_eq_nil_iff] at hnone
      rw [his, hnone]
    | cons x found =>
      have hdepth {y : Finding} {e : Value × Value} (he : e ∈ es) (hy : y ∈ s.found e) :
          y.copyDepth (((Value.Keyed.get? y.1 es).map (·.copyDepth)).getD 0) = y.copyDepth e.2.copyDepth := by
        rw [name_of_found hy, depth_of_mem hes he]
      change Verdict s es (if _ then _ else _)
      split
      · rename_i hdeep
        obtain ⟨y, hy, hlimit⟩ := List.any_eq_true.mp hdeep
        obtain ⟨e, he, hmem⟩ := List.mem_flatMap.mp (horder.all.subset hy)
        rw [hdepth he hmem, decide_eq_true_eq] at hlimit
        exact .tooDeep hsettled ⟨e, he, y, hmem, hlimit⟩
      · rename_i hshallow
        refine .rejected hsettled (fun e he hburied => hshallow ?_) (List.cons_ne_nil x found) horder
        obtain ⟨y, hy, hlimit⟩ := hburied
        refine List.any_eq_true.mpr ⟨y, horder.all.symm.subset (List.mem_flatMap.mpr ⟨e, he, hy⟩), ?_⟩
        rwa [hdepth he hy, decide_eq_true_eq]

theorem mem_errors_iff [Limits] {found : List Finding} (settled : ∀ e ∈ es, s.Settled e)
    (shallow : ∀ e ∈ es, ¬s.Buried e) (order : s.InOrder es found) {e : Value × Value} (he : e ∈ es) (l : Value) :
    (e.1, l) ∈ Finding.errors found ↔ s.checkValues [e] = .error (.invalidOptions (.map [(e.1, l)]) none) := by
  have hname : e.1.IsText := htext e he
  have hone : Value.Keyed.Proper [e] := ⟨by simpa using hes.self e he, List.pairwise_singleton ..⟩
  have hget {found' : List Finding} (order' : s.InOrder [e] found') :
      Value.Keyed.get? e.1 (Finding.errors found) = Value.Keyed.get? e.1 (Finding.errors found') := by
    refine order.reported_alike order' hname ?_
    rw [found_of_name s hes hname, found_of_name s hone hname, hes.get?_of_mem he, hone.get?_of_mem List.mem_cons_self]
  rw [← (Finding.errors_proper order.names).get?_eq_some_iff hname.codes_isSome]
  have halone := verdict hs hstrict hone (by simpa using hname)
  generalize s.checkValues [e] = r at halone
  cases halone with
  | accepted none =>
    have hnothing : s.InOrder [e] [] := ⟨(Verdict.nothing_found none).symm ▸ .refl _, by simp, .nil⟩
    rw [hget hnothing]
    exact iff_of_false nofun nofun
  | stuck unsettled => exact unsettled.elim fun d hd => absurd (settled d (List.mem_singleton.mp hd.1 ▸ he)) hd.2
  | tooDeep _ buried => exact buried.elim fun d hd => absurd hd.2 (shallow d (List.mem_singleton.mp hd.1 ▸ he))
  | rejected settled' _ some order' =>
    obtain ⟨hnames, -⟩ := errors_spec hone (fun d hd => (settled' d hd).imp fun _ h => h.1) order'.all
    have hoff : s.offends e = true := offends_iff.mpr fun hnil => by
      have hnone : [e].flatMap s.found = [] := Verdict.nothing_found (by simpa using hnil)
      exact some (hnone ▸ order'.all).eq_nil
    rw [offenders, List.filter_cons_of_pos hoff] at hnames
    obtain ⟨x, hx, hxe⟩ := List.map_eq_singleton_iff.mp hnames.eq_singleton
    obtain ⟨n, m⟩ := x
    obtain rfl : n = e.1 := hxe
    rw [hget order', hx, Value.Keyed.get?_cons, if_pos (hone.self e List.mem_cons_self)]
    simp

end
end Schema

namespace Options

def Wellformed (e : Value × Value) : Prop := ∃ n, e.1 = .str n ∧ (Grammatical e.2 n ∨ Slipped e.2 n)

/-- Options, or errors by the names of options. -/
def Answered (r : Except Failure Options) : Prop :=
  (∃ o, r = .ok o) ∨ ∃ reports, r = .error (.invalidOptions (.map reports) none)

theorem settled_of_shallow [Limits] {e : Value × Value} (hname : e.1.IsText)
    (hdepth : ¬Wellformed e → e.2.copyDepth ≤ Limits.copies)
    (hwitnesses : ∀ ws, e = (.str "witnesses", .map ws) → ∀ w ∈ ws, w.1.codes?.isSome) :
    Schema.options.Settled e ∧ ¬Schema.options.Buried e := by
  have hissues := Schema.texts_issues hwitnesses
  constructor
  · obtain ⟨is, his, htexts⟩ := hissues
    exact ⟨is, his, fun i hi => (htexts i hi).settled⟩
  · intro hburied
    obtain ⟨hoff, hdeep⟩ := (Schema.deep_found_iff hname.codes_isSome hissues _).mp hburied
    have hmalformed : ¬Wellformed e := fun h => Schema.offends_iff.mp hoff ((issues_nil_iff _ _).mpr h)
    exact Nat.not_lt.mpr (hdepth hmalformed) hdeep

theorem validate_error_iff [Limits] {es : Value.Entries} {f : Failure} :
    validate (.map es) = .error f ↔ Schema.options.checkValues es = .error f := by
  refine ⟨checkValues_of_error, fun h => ?_⟩
  change (Schema.options.checkValues es >>= fun _ => .ok (ofDocument es)) = _
  rw [h]
  rfl

section
variable {es : Value.Entries}

theorem accepted_iff_wellformed [Limits] : (∃ o, validate (.map es) = .ok o) ↔ ∀ e ∈ es, Wellformed e := by
  simp only [validate_map_iff, issues_nil_iff]
  exact ⟨fun ⟨_, h, _⟩ => h, fun h => ⟨_, h, rfl⟩⟩

variable (hes : es.Proper) (htext : ∀ e ∈ es, e.1.IsText)
include hes htext

theorem verdict [Limits] : Schema.options.Verdict es (Schema.options.checkValues es) :=
  Schema.verdict Schema.regular_options Schema.strict_options hes htext

theorem proper_alone {e : Value × Value} (he : e ∈ es) : Value.Keyed.Proper [e] ∧ ∀ d ∈ [e], d.1.IsText :=
  ⟨⟨by simpa using hes.self e he, List.pairwise_singleton ..⟩, by simpa using htext e he⟩

section
variable [Limits]

theorem alone_stuck_iff {e : Value × Value} (he : e ∈ es) :
    validate (.map [e]) = .error .wrongType ↔ ¬Schema.options.Settled e := by
  obtain ⟨hone, hname⟩ := proper_alone hes htext he
  rw [validate_error_iff, (verdict hone hname).stuck_iff]
  simp

theorem alone_tooDeep_iff {e : Value × Value} (he : e ∈ es) :
    validate (.map [e]) = .error .tooDeep ↔ Schema.options.Settled e ∧ Schema.options.Buried e := by
  obtain ⟨hone, hname⟩ := proper_alone hes htext he
  rw [validate_error_iff, (verdict hone hname).tooDeep_iff]
  simp

theorem answered_iff : Answered (validate (.map es)) ↔
    ∀ e ∈ es, Schema.options.Settled e ∧ ¬Schema.options.Buried e := by
  have hend := verdict hes htext
  have hunanswered {f : Failure} (hf : validate (.map es) = .error f) (hkind : f = .wrongType ∨ f = .tooDeep) :
      ¬Answered (validate (.map es)) := by
    rw [hf]
    obtain rfl | rfl := hkind <;> rintro (⟨o, ⟨⟩⟩ | ⟨reports, ⟨⟩⟩)
  generalize hr : Schema.options.checkValues es = r at hend
  cases hend with
  | accepted none =>
    refine iff_of_true (.inl ⟨_, (validate_map_iff es _).mpr ⟨none, rfl⟩⟩) fun e he => ?_
    exact ⟨.of_nil (none e he), Schema.not_buried_of_nil (none e he)⟩
  | stuck unsettled =>
    refine iff_of_false (hunanswered (validate_error_iff.mpr hr) (.inl rfl)) fun h => ?_
    exact unsettled.elim fun e he => he.2 (h e he.1).1
  | tooDeep _ buried =>
    refine iff_of_false (hunanswered (validate_error_iff.mpr hr) (.inr rfl)) fun h => ?_
    exact buried.elim fun e he => (h e he.1).2 he.2
  | rejected settled shallow =>
    exact iff_of_true (.inr ⟨_, validate_error_iff.mpr hr⟩) fun e he => ⟨settled e he, shallow e he⟩

theorem exists_alone_of_unanswered {f : Failure} (hf : validate (.map es) = .error f) (hno : ¬Answered (.error f)) :
    ∃ e ∈ es, validate (.map [e]) = .error f := by
  have hend := verdict hes htext
  rw [validate_error_iff.mp hf] at hend
  cases hend with
  | stuck unsettled => exact unsettled.imp fun e he => ⟨he.1, (alone_stuck_iff hes htext he.1).mpr he.2⟩
  | tooDeep settled buried =>
    exact buried.imp fun e he => ⟨he.1, (alone_tooDeep_iff hes htext he.1).mpr ⟨settled e he.1, he.2⟩⟩
  | rejected => exact absurd (.inr ⟨_, rfl⟩) hno

theorem reports_spec {reports : Value.Entries} (h : validate (.map es) = .error (.invalidOptions (.map reports) none)) :
    (reports.map (·.1)).Nodup ∧ (∀ n, n ∈ reports.map (·.1) ↔ ∃ e ∈ es, e.1 = n ∧ ¬Wellformed e) ∧
      ∀ e ∈ es, ∀ l, (e.1, l) ∈ reports ↔ validate (.map [e]) = .error (.invalidOptions (.map [(e.1, l)]) none) := by
  have hend := verdict hes htext
  rw [validate_error_iff.mp h] at hend
  cases hend with
  | rejected settled shallow some order =>
    obtain ⟨hnames, -⟩ := Schema.errors_spec hes (fun e he => (settled e he).imp fun _ h => h.1) order.all
    refine ⟨(Finding.errors_proper order.names).nodup, fun n => ?_, fun e he l => ?_⟩
    · rw [hnames.mem_iff, Schema.offenders, List.mem_map]
      simp only [List.mem_filter, Schema.offends_iff, Ne, issues_nil_iff, and_assoc, Wellformed]
      exact exists_congr fun e => and_congr_right fun _ => and_comm
    · rw [validate_error_iff]
      exact Schema.mem_errors_iff Schema.regular_options Schema.strict_options hes htext settled shallow order he l

theorem validateDocument_congr {fs : Value.Entries} (hfs : fs.Proper) (htext' : ∀ e ∈ fs, e.1.IsText)
    (h : (es.filter Schema.options.offends).Perm (fs.filter Schema.options.offends))
    (hdocument : ofDocument es = ofDocument fs) : validateDocument es = validateDocument fs := by
  have hcheck := ((verdict hes htext).of_perm h).unique (verdict hfs htext')
  change (Schema.options.checkValues es >>= fun _ => .ok (ofDocument es)) =
    (Schema.options.checkValues fs >>= fun _ => .ok (ofDocument fs))
  rw [hcheck, hdocument]

end

end

theorem validate_toValue [Limits] (o : Options) : validate o.toValue = validateDocument o.document := by
  have hfields : ofFields o.fields = o := by simp [ofFields, fields, Value.field?, Value.ofOption]
  refine validate_of_given ?_
  rw [toValue, given?, if_pos rfl, hfields]

theorem names_of_perm {o : Options} {es : Value.Entries} (h : es.Perm o.document) :
    (∀ e ∈ es, ∃ n ∈ Schema.optionNames, e.1 = .str n) ∧ es.Proper := by
  have hnames (e : Value × Value) (he : e ∈ es) : ∃ n ∈ Schema.optionNames, e.1 = .str n := by
    obtain ⟨f, hf, rfl⟩ := List.mem_map.mp (h.subset he)
    exact ⟨f.1, List.mem_map_of_mem hf, rfl⟩
  refine ⟨hnames, .of_texts (fun e he => ?_) ((h.map (·.1)).nodup_iff.mpr ?_)⟩
  · obtain ⟨n, -, hn⟩ := hnames e he
    rw [hn]
    rfl
  · simp [document, fields]

theorem validate_ways [Limits] {o : Options} {es : Value.Entries} (h : es.Perm o.document) :
    validate (.map es) = validate o.toValue ∧ validate (.map (es.filter (·.2.isGiven))) = validate o.toValue := by
  obtain ⟨hnames, hes⟩ := names_of_perm h
  obtain ⟨hnames', hall⟩ := names_of_perm (.refl o.document)
  have htext {fs : Value.Entries} (hfs : ∀ e ∈ fs, ∃ n ∈ Schema.optionNames, e.1 = .str n) (e : Value × Value)
      (he : e ∈ fs) : e.1.IsText := by
    obtain ⟨n, -, hn⟩ := hfs e he
    exact hn ▸ .str n
  have hmap : validateDocument es = validateDocument o.document := by
    refine validateDocument_congr hes (htext hnames) hall (htext hnames') (h.filter _) ?_
    simp only [ofDocument, hes.get?_perm hall h (k := .str _) rfl]
  have hgiven : validateDocument (es.filter (·.2.isGiven)) = validateDocument es := by
    have hsub (e : Value × Value) (he : e ∈ es.filter (·.2.isGiven)) : e ∈ es := (List.mem_filter.mp he).1
    have hproper : Value.Keyed.Proper (es.filter (·.2.isGiven)) :=
      ⟨fun e he => hes.self e (hsub e he), hes.apart.sublist List.filter_sublist⟩
    have hoffends : (es.filter (·.2.isGiven)).filter Schema.options.offends = es.filter Schema.options.offends := by
      rw [List.filter_filter]
      refine List.filter_congr fun e he => ?_
      cases hgiven : e.2.isGiven with
      | true => exact Bool.and_true _
      | false =>
        obtain ⟨n, hn, hname⟩ := hnames e he
        have hnone : e.2 = .none := not_not.mp (mt (Value.isGiven_iff e.2).mpr (by simp [hgiven]))
        rw [Schema.offends, hname, hnone, Schema.issues_null hn, Bool.and_false]
    refine validateDocument_congr hproper (fun e he => htext hnames e (hsub e he)) hes (htext hnames) ?_ ?_
    · rw [hoffends]
    · simp only [ofDocument, Value.ofOption_get?_given hes (k := .str _) rfl]
  rw [validate_toValue, ← hmap]
  exact ⟨rfl, hgiven⟩

/-- A document is accepted if all of its options are, each in a document of its own. It is answered, by options or by
errors, if all of them are: if the witnesses among them have texts for names, as soon as none that is refused is too deep
to be copied. The errors then have one entry for each option that is unknown or has a value it may not have, with the
errors reported of that option alone; a document that is not answered ends as one of its options alone does. Options given
as such, as a mapping in any order, or without those that are nothing come to the same. -/
theorem options_are_checked_apart [Limits] :
    (∀ es : Value.Entries, es.Proper → (∀ e ∈ es, e.1.IsText) →
      let alone (e : Value × Value) := validate (.map [e])
      ((∃ o, validate (.map es) = .ok o) ↔ ∀ e ∈ es, ∃ o, alone e = .ok o) ∧
      (Answered (validate (.map es)) ↔ ∀ e ∈ es, Answered (alone e)) ∧
      (Answered (validate (.map es)) ↔ ∀ e ∈ es, Schema.options.Settled e ∧ ¬Schema.options.Buried e) ∧
      ((∀ e ∈ es, (¬Wellformed e → e.2.copyDepth ≤ Limits.copies) ∧
        ∀ ws, e = (.str "witnesses", .map ws) → ∀ w ∈ ws, w.1.codes?.isSome) → Answered (validate (.map es))) ∧
      (∀ f, validate (.map es) = .error f → ¬Answered (.error f) → ∃ e ∈ es, alone e = .error f) ∧
      ∀ reports, validate (.map es) = .error (.invalidOptions (.map reports) none) →
        (reports.map (·.1)).Nodup ∧ (∀ n, n ∈ reports.map (·.1) ↔ ∃ e ∈ es, e.1 = n ∧ ¬Wellformed e) ∧
          ∀ e ∈ es, ∀ l, (e.1, l) ∈ reports ↔ alone e = .error (.invalidOptions (.map [(e.1, l)]) none)) ∧
    ∀ (o : Options) (es : Value.Entries), es.Perm o.document →
      validate (.map es) = validate o.toValue ∧ validate (.map (es.filter (·.2.isGiven))) = validate o.toValue := by
  refine ⟨fun es hes htext => ?_, fun o es h => validate_ways h⟩
  intro alone
  refine ⟨?_, ?_, answered_iff hes htext, fun h => (answered_iff hes htext).mpr fun e he => ?_,
    fun f hf hno => exists_alone_of_unanswered hes htext hf hno, fun reports h => reports_spec hes htext h⟩
  · simp [alone, accepted_iff_wellformed]
  · rw [answered_iff hes htext]
    refine forall₂_congr fun e he => ?_
    obtain ⟨hone, hname⟩ := proper_alone hes htext he
    simp [alone, answered_iff hone hname]
  · exact settled_of_shallow (htext e he) (h e he).1 (h e he).2

theorem proper_texts {es : Value.Entries} (hnames : ∀ e ∈ es, ∃ n, e.1 = .str n) (hnodup : (es.map (·.1)).Nodup) :
    es.Proper ∧ ∀ e ∈ es, e.1.IsText := by
  have htext (e : Value × Value) (he : e ∈ es) : e.1.IsText := (hnames e he).elim fun n hn => hn ▸ .str n
  exact ⟨.of_texts (fun e he => (htext e he).codes_isSome) hnodup, htext⟩

def malformedKey : Value × Value := (.str "coin_pk", .str "xy")

def mixedNames : Value.Entries := [(.bytes [0], .fn (.written 1) "w" []), (.int 5, .fn (.written 1) "w" [])]

def mixedWitnesses : Value × Value := (.str "witnesses", .map mixedNames)

theorem malformed_key_is_told_apart :
    let es : Value.Entries := [(.str "bad", .int 1), (.str "private_state", .int 3), malformedKey]
    (es.Proper ∧ ∀ e ∈ es, e.1.IsText) ∧
      (∃ reports, validate (.map es) = .error (.invalidOptions (.map reports) none) ∧
        (.str "coin_pk", toldOfKey) ∈ reports ∧ .str "private_state" ∉ reports.map (·.1)) ∧
      validate ({ coinKey := .str "xy" } : Options).toValue =
        .error (.invalidOptions (.map [(.str "coin_pk", toldOfKey)]) none) := by
  intro es
  obtain ⟨hproper, htext⟩ : es.Proper ∧ ∀ e ∈ es, e.1.IsText :=
    proper_texts (by simp [es, malformedKey]) (by simp [es, malformedKey])
  obtain ⟨hapart, hways⟩ := options_are_checked_apart
  obtain ⟨-, -, -, -, -, hreports⟩ := hapart es hproper htext
  have halone : validate (.map [malformedKey]) = .error (.invalidOptions (.map [(.str "coin_pk", toldOfKey)]) none) := rfl
  obtain ⟨-, hgiven⟩ := hways { coinKey := .str "xy" } _ (.refl _)
  refine ⟨⟨hproper, htext⟩, ⟨[(.str "bad", .list [.str "unknown field"]), (.str "coin_pk", toldOfKey)], ?_⟩,
    hgiven ▸ halone⟩
  have hrejected : validate (.map [(.str "bad", .int 1), (.str "private_state", .int 3), malformedKey]) =
      .error (.invalidOptions (.map [(.str "bad", .list [.str "unknown field"]), (.str "coin_pk", toldOfKey)]) none) := rfl
  obtain ⟨-, -, htold⟩ := hreports _ hrejected
  exact ⟨hrejected, (htold malformedKey (by simp [es]) toldOfKey).mpr halone, by simp⟩

/-- Nothing is told of a malformed key beside an option that is too deep to be copied, or beside witnesses that cannot be
put in order. -/
theorem unanswered_option_hides_errors :
    let deep : Value × Value := (.str "bad", Fixture.nested 345)
    (∀ e ∈ [deep, mixedWitnesses], Value.Keyed.Proper [malformedKey, e] ∧ ∀ d ∈ [malformedKey, e], d.1.IsText) ∧
      (∀ e ∈ [malformedKey, deep, mixedWitnesses], ¬Wellformed e) ∧
      validate (.map [malformedKey, deep]) = .error .tooDeep ∧
      validate (.map [malformedKey, mixedWitnesses]) = .error .wrongType := by
  intro deep
  have hproper : ∀ e ∈ [deep, mixedWitnesses],
      Value.Keyed.Proper [malformedKey, e] ∧ ∀ d ∈ [malformedKey, e], d.1.IsText := by
    refine List.forall_mem_cons.mpr ⟨proper_texts ?_ ?_, List.forall_mem_singleton.mpr (proper_texts ?_ ?_)⟩
    all_goals simp [malformedKey, deep, mixedWitnesses]
  have hkey : Schema.options.issues malformedKey.1 malformedKey.2 = .ok [.notHex "xy", .tooShort 64] := rfl
  have hdeep : Schema.options.issues deep.1 deep.2 = .ok [.unknown] := rfl
  have hmixed : Schema.options.issues mixedWitnesses.1 mixedWitnesses.2 =
      .ok [.keys [(.int 5, .notOfType "string"), (.bytes [0], .notOfType "string")]] := by
    have hcallable : Field.notCallable mixedNames = [] :=
      (Field.notCallable_nil_iff _).mpr (by simp [mixedNames, Value.isCallable])
    change Field.witnessIssues (.map mixedNames) = _
    rw [Field.witnessIssues, hcallable]
    rfl
  have hunsettled : ¬Schema.options.Settled mixedWitnesses := by
    rintro ⟨is, his, hsettled⟩
    rw [hmixed] at his
    cases his
    cases hsettled _ List.mem_cons_self
  have hburied : Schema.options.Buried deep := by
    refine ⟨(.str "bad", .unknown), ?_, ?_⟩
    · rw [Schema.found_eq hdeep]
      exact List.mem_singleton_self _
    · rw [Fixture.copyDepth_nested]
      decide
  obtain ⟨hdeeply, htext⟩ := hproper deep List.mem_cons_self
  obtain ⟨hmixedly, htext'⟩ := hproper mixedWitnesses (List.mem_cons_of_mem _ List.mem_cons_self)
  refine ⟨hproper, ?_, validate_error_iff.mpr ((verdict hdeeply htext).tooDeep_iff.mpr ⟨?_, ?_⟩),
    validate_error_iff.mpr ((verdict hmixedly htext').stuck_iff.mpr ?_)⟩
  · simp [Wellformed, ← issues_nil_iff, hkey, hdeep, hmixed]
  · refine List.forall_mem_cons.mpr ⟨⟨_, hkey, ?_⟩, List.forall_mem_singleton.mpr ⟨_, hdeep, ?_⟩⟩
    all_goals simp [Issue.Settled]
  · exact ⟨_, List.mem_cons_of_mem _ List.mem_cons_self, hburied⟩
  · exact ⟨_, List.mem_cons_of_mem _ List.mem_cons_self, hunsettled⟩

end Options
end CircuitHarness
