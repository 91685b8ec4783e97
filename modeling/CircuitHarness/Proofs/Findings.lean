import CircuitHarness.Options
import CircuitHarness.Proofs.Sorting

/-! What a check of options finds: all issues of all options, in some order, so that a document is accepted if no option
has any. Only options whose names have no common order can keep a check from ending. -/
namespace CircuitHarness

theorem Value.less_error {x y : Value} {e : Failure} (h : x.less y = .error e) : e = .wrongType := by
  rw [less] at h
  split at h <;> cases h
  rfl

namespace Finding

theorem before_error {x y : Finding} {e : Failure} (h : before x y = .error e) : e = .wrongType := by
  rw [before] at h
  split at h
  · cases h
  · rw [nameBefore] at h
    repeat' split at h
    all_goals first | exact Value.less_error h | cases h

def isPlain (v : Value) : Bool := isInteger v || isText v

theorem before_of_plain {x y : Finding} (hx : isPlain x.1) (hy : isPlain y.1) : ∃ b, before x y = .ok b := by
  rw [before]
  split
  · exact ⟨_, rfl⟩
  · rw [nameBefore]
    cases hx1 : x.1 <;> rw [hx1] at hx <;> cases hx <;> cases hy1 : y.1 <;> rw [hy1] at hy <;> cases hy <;>
      exact ⟨_, rfl⟩

def Plain (found : List Finding) : Prop := ∀ x ∈ found, isPlain x.1

theorem insert_yields (found : List Finding) (x : Finding) :
    Yields (fun e => e = .wrongType ∧ ¬Plain (found ++ [x])) (fun r => r.Perm (found ++ [x])) (insert found x) := by
  cases h : insert found x with
  | ok r => exact .ok (Sorting.sort_perm h)
  | error e =>
    obtain ⟨y, hy, z, hz, hzy⟩ := Sorting.sort_error h
    refine .error ⟨before_error hzy, fun hall => ?_⟩
    obtain ⟨b, hb⟩ := before_of_plain (hall z hz) (hall y hy)
    rw [hb] at hzy
    cases hzy

theorem Plain.of_subset {found found' : List Finding} (h : Plain found) (hsub : found' ⊆ found) : Plain found' :=
  fun x hx => h x (hsub hx)

theorem insertAll_yields (found : List Finding) :
    Yields (fun e => e = .wrongType ∧ ¬Plain found) (fun r => r.Perm found) (found.foldlM insert []) := by
  refine Yields.foldlM (I := fun done (r : List Finding) => r.Perm done) (.refl _) fun done x r hdone hr => ?_
  have hperm : (r ++ [x]).Perm (done ++ [x]) := hr.append_right [x]
  have hsub : r ++ [x] ⊆ found := fun y hy => hdone.subset (hperm.subset hy)
  exact (insert_yields r x).mono (fun e he => ⟨he.1, fun h => he.2 (h.of_subset hsub)⟩) fun r' hr' => hr'.trans hperm

end Finding

def Issue.Plain : Issue → Prop
  | .keys found => Finding.Plain found
  | _ => True

/-- About an option itself and not about keys of it. -/
def Issue.Own (i : Issue) : Prop := ∀ found, i ≠ .keys found

theorem Issue.Own.plain {i : Issue} (h : i.Own) : i.Plain := by
  cases i with
  | keys found => exact absurd rfl (h found)
  | _ => trivial

namespace Findings
open Finding (Plain)

theorem orderKeys_yields (found : List Finding) :
    Yields (fun e => e = .wrongType ∧ ¬Plain found) (fun _ : Unit => True) (orderKeys found) := by
  rw [orderKeys]
  generalize (found.map (·.2.rule)).eraseDups = rules
  induction rules with
  | nil => exact .ok trivial
  | cons rule rules ih =>
    have hsub : found.filter (·.2.rule = rule) ⊆ found := fun x hx => (List.mem_filter.mp hx).1
    have hrule := Finding.insertAll_yields (found.filter (·.2.rule = rule))
    have hstep := hrule.andThen (F := fun e => e = .wrongType ∧ ¬Plain found) (f := fun _ => pure ())
      (Q := fun _ : Unit => True) (fun e he => ⟨he.1, fun h => he.2 (h.of_subset hsub)⟩) fun _ _ => .ok trivial
    exact hstep.bind fun _ _ => ih

def Sound (f : Findings) : Prop := f.ruleless ⊆ f.all

theorem add_yields {f : Findings} (hf : f.Sound) (x : Finding) :
    Yields (fun e => e = .wrongType ∧ ¬(Plain (f.all ++ [x]) ∧ x.2.Plain))
      (fun r : Findings => r.all.Perm (f.all ++ [x]) ∧ r.Sound) (f.add x) := by
  have hsub : f.ruleless ++ [x] ⊆ f.all ++ [x] := fun y hy =>
    List.mem_append.mpr ((List.mem_append.mp hy).imp_left fun h => hf h)
  have hall := Finding.insert_yields f.all x
  refine hall.andThen (fun e he => ⟨he.1, fun h => he.2 h.1⟩) fun all hperm => ?_
  have hruleless : Yields (fun e => e = .wrongType ∧ ¬(Plain (f.all ++ [x]) ∧ x.2.Plain))
      (fun r : Findings => r.all.Perm (f.all ++ [x]) ∧ r.Sound)
      (if x.2.rule.isNone then (do return ⟨all, ← Finding.insert f.ruleless x⟩) else pure ⟨all, f.ruleless⟩) := by
    split
    · have hinsert := Finding.insert_yields f.ruleless x
      exact hinsert.andThen (fun e he => ⟨he.1, fun h => he.2 (h.1.of_subset hsub)⟩) fun r hr =>
        .ok ⟨hperm, fun y hy => hperm.symm.subset (hsub (hr.subset hy))⟩
    · exact .ok ⟨hperm, fun y hy => hperm.symm.subset (List.mem_append_left [x] (hf hy))⟩
  obtain ⟨name, i⟩ := x
  cases i with
  | keys found =>
    have horder := orderKeys_yields found
    exact horder.andThen (fun e he => ⟨he.1, fun h => he.2 h.2⟩) fun _ _ => hruleless
  | _ => exact hruleless

theorem addAll_yields {f : Findings} (hf : f.Sound) (xs : List Finding) :
    Yields (fun e => e = .wrongType ∧ ¬(Plain (f.all ++ xs) ∧ ∀ x ∈ xs, x.2.Plain))
      (fun r : Findings => r.all.Perm (f.all ++ xs) ∧ r.Sound) (xs.foldlM add f) := by
  refine Yields.foldlM (I := fun done (r : Findings) => r.all.Perm (f.all ++ done) ∧ r.Sound)
    ⟨by rw [List.append_nil], hf⟩ fun done x r hdone hr => ?_
  have hperm : (r.all ++ [x]).Perm (f.all ++ (done ++ [x])) := by
    rw [← List.append_assoc]
    exact hr.1.append_right [x]
  have hsub : r.all ++ [x] ⊆ f.all ++ xs := fun y hy =>
    List.mem_append.mpr ((List.mem_append.mp (hperm.subset hy)).imp_right fun h => hdone.subset h)
  have hx : x ∈ xs := hdone.subset (List.mem_append_right done List.mem_cons_self)
  exact (add_yields hr.2 x).mono (fun e he => ⟨he.1, fun h => he.2 ⟨h.1.of_subset hsub, h.2 x hx⟩⟩) fun r' hr' =>
    ⟨hr'.1.trans hperm, hr'.2⟩

end Findings

namespace Field
open Finding (Plain)

def nameFound (es : Value.Entries) : List Finding := es.filterMap fun e => (nameIssue e.1).map (e.1, ·)

theorem nameFindings_yields (es : Value.Entries) :
    Yields (fun e => e = .wrongType ∧ ¬Plain (nameFound es)) (fun r => r.Perm (nameFound es)) (nameFindings es) := by
  have hloop : nameFindings es = (nameFound es).foldlM Finding.insert [] := by
    rw [nameFindings, nameFound, List.foldlM_filterMap]
    congr 1
    funext found e
    cases nameIssue e.1 <;> rfl
  rw [hloop]
  exact Finding.insertAll_yields (nameFound es)

theorem own_hexIssues (v : Value) : ∀ i ∈ hexIssues v, i.Own := by
  rw [hexIssues]
  split <;> simp [Issue.Own]

theorem own_keyIssues (v : Value) : ∃ is, keyIssues v = .ok is ∧ ∀ i ∈ is, i.Own := by
  rw [keyIssues]
  split
  · refine ⟨_, rfl, List.forall_mem_append.mpr ⟨List.forall_mem_append.mpr ⟨own_hexIssues v, ?_⟩, ?_⟩⟩ <;>
      split <;> simp [Issue.Own]
  · exact ⟨[], rfl, List.forall_mem_nil _⟩

theorem own_addressIssues (v : Value) : ∃ is, addressIssues v = .ok is ∧ ∀ i ∈ is, i.Own := by
  rw [addressIssues]
  split
  · refine ⟨_, rfl, ?_⟩
    split
    · simp [Issue.Own]
    · exact own_hexIssues v
  · exact ⟨[], rfl, List.forall_mem_nil _⟩

theorem own_issues {f : Field} (h : ∀ v, ∃ is, f.checks v = .ok is ∧ ∀ i ∈ is, i.Own) (v : Value) :
    ∃ is, f.issues v = .ok is ∧ ∀ i ∈ is, i.Own := by
  unfold Field.issues
  split
  · refine ⟨_, rfl, ?_⟩
    split <;> simp [Issue.Own]
  · split
    · exact h v
    · exact ⟨_, rfl, by simp [Issue.Own]⟩

def Regular (f : Field) : Prop := ∀ v e, f.checks v = .error e → e = .wrongType

theorem Regular.issues {f : Field} (hf : f.Regular) {v : Value} {e : Failure} (h : f.issues v = .error e) :
    e = .wrongType := by
  unfold Field.issues at h
  split at h
  · cases h
  · split at h
    · exact hf v e h
    · cases h

theorem regular_privateState (nullable : Bool) (type : OptionType) : (privateState nullable type).Regular :=
  fun _ _ h => by cases h

theorem regular_coinKey (nullable : Bool) : (coinKey nullable).Regular := by
  intro v e h
  change keyIssues v = .error e at h
  rw [keyIssues] at h
  split at h <;> cases h

theorem regular_address (nullable : Bool) : (address nullable).Regular := by
  intro v e h
  change addressIssues v = .error e at h
  rw [addressIssues] at h
  split at h <;> cases h

theorem regular_witnesses (nullable : Bool) : (witnesses nullable).Regular := by
  intro v e h
  change witnessIssues v = .error e at h
  cases v with
  | map es =>
    rw [witnessIssues] at h
    cases hn : nameFindings es with
    | error f =>
      rw [hn] at h
      cases h
      exact ((nameFindings_yields es).of_error hn).1
    | ok found =>
      rw [hn] at h
      cases h
  | _ => cases h

end Field

namespace Schema
open Finding (isPlain)

theorem regular_options : ∀ f ∈ options, f.Regular := by
  simp only [options, List.forall_mem_cons]
  exact ⟨Field.regular_privateState _ _, Field.regular_witnesses _, Field.regular_coinKey _, Field.regular_address _,
    by simp⟩

theorem regular_replacement : ∀ f ∈ replacement, f.Regular := by
  simp only [replacement, List.mem_singleton, forall_eq]
  exact Field.regular_witnesses _

theorem regular_file : ∀ f ∈ file, f.Regular := by
  simp only [file, List.forall_mem_cons]
  exact ⟨Field.regular_privateState _ _, Field.regular_coinKey _, Field.regular_address _, by simp⟩

theorem mem_of_field? {s : Schema} {name : Value} {f : Field} (h : s.field? name = some f) : f ∈ s := by
  cases name with
  | str n => exact List.mem_of_find?_eq_some h
  | _ => cases h

theorem issues_error {s : Schema} (hs : ∀ f ∈ s, f.Regular) {name v : Value} {e : Failure}
    (h : s.issues name v = .error e) : e = .wrongType := by
  rw [issues] at h
  cases hf : s.field? name with
  | none =>
    rw [hf] at h
    cases h
  | some f =>
    rw [hf] at h
    exact (hs f (mem_of_field? hf)).issues h

def found (s : Schema) (e : Value × Value) : List Finding := ((s.issues e.1 e.2).toOption.getD []).map (e.1, ·)

def Plain (s : Schema) (document : Value.Entries) : Prop :=
  ∀ e ∈ document, (∃ is, s.issues e.1 e.2 = .ok is) ∧ ∀ x ∈ s.found e, isPlain x.1 ∧ x.2.Plain

theorem found_eq {s : Schema} {e : Value × Value} {is : List Issue} (h : s.issues e.1 e.2 = .ok is) :
    s.found e = is.map (e.1, ·) := by
  rw [found, h]
  rfl

theorem name_of_found {s : Schema} {e : Value × Value} {x : Finding} (hx : x ∈ s.found e) : x.1 = e.1 := by
  obtain ⟨i, -, rfl⟩ := List.mem_map.mp hx
  rfl

theorem findings_yields {s : Schema} (hs : ∀ f ∈ s, f.Regular)
    (document : Value.Entries) :
    Yields (fun e => e = .wrongType ∧ ¬s.Plain document)
      (fun r => (∀ e ∈ document, ∃ is, s.issues e.1 e.2 = .ok is) ∧ r.Perm (document.flatMap s.found))
      (s.findings document) := by
  refine Yields.map (P := fun f : Findings => (∀ e ∈ document, ∃ is, s.issues e.1 e.2 = .ok is) ∧
    f.all.Perm (document.flatMap s.found) ∧ f.Sound) ?_ fun f hf => ⟨hf.1, hf.2.1⟩
  refine Yields.foldlM (I := fun done (f : Findings) => (∀ e ∈ done, ∃ is, s.issues e.1 e.2 = .ok is) ∧
    f.all.Perm (done.flatMap s.found) ∧ f.Sound) ?start fun done e f hdone hf => ?_
  case start => exact ⟨by simp, .refl _, fun _ h => h⟩
  have he : e ∈ document := hdone.subset (List.mem_append_right done List.mem_cons_self)
  cases his : s.issues e.1 e.2 with
  | error err =>
    refine .error ⟨issues_error hs his, fun h => ?_⟩
    obtain ⟨is, hok⟩ := (h e he).1
    rw [hok] at his
    cases his
  | ok is =>
    have hloop : is.foldlM (fun found i => found.add (e.1, i)) f = (s.found e).foldlM Findings.add f := by
      rw [found_eq his, List.foldlM_map]
    have hflat : (done ++ [e]).flatMap s.found = done.flatMap s.found ++ s.found e := by simp
    have hperm : (f.all ++ s.found e).Perm ((done ++ [e]).flatMap s.found) := by
      rw [hflat]
      exact hf.2.1.append_right _
    change Yields _ _ (is.foldlM (fun found i => found.add (e.1, i)) f)
    rw [hloop]
    refine (Findings.addAll_yields hf.2.2 (s.found e)).mono (fun err herr => ⟨herr.1, fun h => herr.2 ⟨?_, ?_⟩⟩)
      fun f' hf' => ⟨?_, hf'.1.trans hperm, hf'.2⟩
    · intro x hx
      obtain ⟨e', he', hx⟩ := List.mem_flatMap.mp (hperm.subset hx)
      exact ((h e' (hdone.subset he')).2 x hx).1
    · exact fun x hx => ((h e he).2 x hx).2
    · intro e' he'
      obtain he' | he' := List.mem_append.mp he'
      · exact hf.1 e' he'
      · rw [List.mem_singleton.mp he']
        exact ⟨is, his⟩

section
variable [Limits]

/-- How a check ends. -/
inductive CheckEnd (s : Schema) (source : Option String) (depth : Value → Nat) (document : Value.Entries) :
    Except Failure Unit → Prop where
  | accepted (none : ∀ e ∈ document, s.issues e.1 e.2 = .ok []) : CheckEnd s source depth document (.ok ())
  | stuck (names : ¬s.Plain document) : CheckEnd s source depth document (.error .wrongType)
  | tooDeep (found : List Finding) (all : found.Perm (document.flatMap s.found))
    (deep : ∃ x ∈ found, Limits.copies < x.copyDepth (depth x.1)) : CheckEnd s source depth document (.error .tooDeep)
  | rejected (found : List Finding) (some : found ≠ []) (all : found.Perm (document.flatMap s.found))
    (answered : ∀ e ∈ document, ∃ is, s.issues e.1 e.2 = .ok is) :
    CheckEnd s source depth document (.error (.invalidOptions (.map (Finding.errors found)) source))

theorem checkEnd {s : Schema} (hs : ∀ f ∈ s, f.Regular) (source : Option String)
    (depth : Value → Nat) (document : Value.Entries) :
    CheckEnd s source depth document (s.check source depth document) := by
  rw [check]
  cases hfound : s.findings document with
  | error e =>
    obtain ⟨rfl, hnames⟩ := (findings_yields hs document).of_error hfound
    exact .stuck hnames
  | ok found =>
    obtain ⟨hok, hperm⟩ := (findings_yields hs document).of_ok hfound
    cases found with
    | nil =>
      refine .accepted fun e he => ?_
      obtain ⟨is, his⟩ := hok e he
      have hnone : s.found e = [] := List.flatMap_eq_nil_iff.mp hperm.nil_eq.symm e he
      rw [found_eq his, List.map_eq_nil_iff] at hnone
      rw [his, hnone]
    | cons x found =>
      change CheckEnd s source depth document (if _ then _ else _)
      split
      · rename_i hdeep
        exact .tooDeep _ hperm (by simpa using hdeep)
      · exact .rejected _ (List.cons_ne_nil x found) hperm hok

theorem check_ok_iff {s : Schema} (hs : ∀ f ∈ s, f.Regular) {source : Option String}
    {depth : Value → Nat} {document : Value.Entries} :
    s.check source depth document = .ok () ↔ ∀ e ∈ document, s.issues e.1 e.2 = .ok [] := by
  have hend := checkEnd hs source depth document
  refine ⟨fun h => ?_, fun h => ?_⟩
  · rw [h] at hend
    cases hend with
    | accepted hnone => exact hnone
  · have hnone (e : Value × Value) (he : e ∈ document) : s.found e = [] := found_eq (h e he)
    have hall : document.flatMap s.found = [] := List.flatMap_eq_nil_iff.mpr hnone
    cases hc : s.check source depth document with
    | ok u => rfl
    | error f =>
      rw [hc] at hend
      cases hend with
      | stuck names =>
        refine absurd (fun e he => ⟨⟨[], h e he⟩, fun x hx => ?_⟩) names
        rw [hnone e he] at hx
        cases hx
      | tooDeep found all deep =>
        obtain ⟨x, hx, -⟩ := deep
        rw [hall] at all
        cases all.subset hx
      | rejected found some all answered =>
        rw [hall] at all
        exact absurd all.eq_nil some

theorem checkValues_ok_iff {s : Schema} (hs : ∀ f ∈ s, f.Regular) (document : Value.Entries) :
    s.checkValues document = .ok () ↔ ∀ e ∈ document, s.issues e.1 e.2 = .ok [] := check_ok_iff hs

end

end Schema
end CircuitHarness
