import CircuitHarness.Proofs.Construction
import CircuitHarness.Proofs.OptionFile
import CircuitHarness.Proofs.Reporting

/-! Options from a file and options in a program, held to two schemas made of the same rules. A file has no witnesses, its
private state is a mapping, and nothing in it can be left out by giving nothing; for the rest the two go together. -/
namespace CircuitHarness

namespace Schema

def fileNames : List String := ["private_state", "coin_pk", "contract_address"]
def textNames : List String := ["coin_pk", "contract_address"]

def optionNames : List String := options.map (·.name)

theorem issues_null {n : String} (hn : n ∈ optionNames) : options.issues (.str n) .none = .ok [] := by
  simp only [optionNames, options, List.map_cons, List.map_nil, List.mem_cons, List.not_mem_nil, or_false] at hn
  rcases hn with rfl | rfl | rfl | rfl <;> rfl

theorem issues_alike {n : String} (hn : n ∈ textNames) {v : Value} (hv : v ≠ .none) :
    file.issues (.str n) v = options.issues (.str n) v := by
  have halike (f g : Field) (htype : f.type = g.type) (hchecks : f.checks = g.checks) : f.issues v = g.issues v := by
    cases v with
    | none => exact absurd rfl hv
    | _ => simp only [Field.issues, htype, hchecks]
  simp only [textNames, List.mem_cons, List.not_mem_nil, or_false] at hn
  rcases hn with rfl | rfl
  · exact halike (.coinKey false) (.coinKey true) rfl rfl
  · exact halike (.address false) (.address true) rfl rfl

theorem file_issues_state (v : Value) : file.issues (.str "private_state") v = .ok [] ↔ ∃ es, v = .map es := by
  change (Field.privateState false .mapping).issues v = .ok [] ↔ _
  cases v <;> simp [Field.issues, Field.privateState, OptionType.admits, Field.free]

theorem file_issues_null (name : Value) : file.issues name .none ≠ .ok [] := by
  cases name with
  | str n =>
    rw [issues]
    cases hf : file.field? (.str n) with
    | none => simp
    | some f =>
      have hmem : f ∈ file := mem_of_field? hf
      simp only [file, List.mem_cons, List.not_mem_nil, or_false] at hmem
      rcases hmem with rfl | rfl | rfl <;> simp [Field.issues, Field.privateState, Field.coinKey, Field.address]
  | _ => simp [issues, field?]

theorem file_issues_unknown {n : String} (hn : n ∉ fileNames) (v : Value) : file.issues (.str n) v = .ok [.unknown] := by
  simp only [fileNames, List.mem_cons, List.not_mem_nil, or_false, not_or] at hn
  obtain ⟨hstate, hkey, haddress⟩ := hn
  simp [issues, field?, file, Field.privateState, Field.coinKey, Field.address, Ne.symm hstate, Ne.symm hkey,
    Ne.symm haddress]

/-- An option of a file is in order if it is so in a program, and is given, and a private state is a mapping. -/
theorem file_issues_nil_iff (name v : Value) : file.issues name v = .ok [] ↔
    (∃ n ∈ fileNames, name = .str n) ∧ v ≠ .none ∧ options.issues name v = .ok [] ∧
      (name = .str "private_state" → ∃ es, v = .map es) := by
  by_cases hv : v = .none
  · subst hv
    exact iff_of_false (file_issues_null name) fun h => h.2.1 rfl
  cases name with
  | str n =>
    by_cases hstate : n = "private_state"
    · subst hstate
      have hissues : options.issues (.str "private_state") v = .ok [] := by cases v <;> rfl
      rw [file_issues_state, hissues]
      simp [hv, fileNames]
    by_cases hn : n ∈ textNames
    · have hfile : n ∈ fileNames := List.mem_cons_of_mem _ hn
      rw [issues_alike hn hv]
      simp [hv, hfile, hstate]
    · have hfile : n ∉ fileNames := fun h => (List.mem_cons.mp h).elim hstate hn
      rw [file_issues_unknown hfile]
      simp [hfile]
  | _ => simp [issues, field?]

end Schema

namespace Value

def isGiven : Value → Bool
  | .none => false
  | _ => true

theorem isGiven_iff (v : Value) : v.isGiven = true ↔ v ≠ .none := by
  cases v <;> simp [isGiven]

theorem ofOption_get?_given {es : Entries} (hes : es.Proper) {k : Value} (hk : k.codes?.isSome) :
    ofOption (Keyed.get? k (es.filter (·.2.isGiven))) = ofOption (Keyed.get? k es) := by
  induction es with
  | nil => rfl
  | cons e es ih =>
    obtain ⟨m, v⟩ := e
    have hrest := ih hes.tail
    rw [List.filter_cons, Keyed.get?_cons]
    by_cases hv : v = .none
    · subst hv
      change ofOption (Keyed.get? k (es.filter (·.2.isGiven))) = _
      by_cases hm : m.same k
      · -- what is left out was the only entry under the key
        obtain rfl := (same_text_iff hk).mp hm
        have hothers : Keyed.get? m es = Option.none := hes.get?_tail
        rw [hrest, hothers, if_pos hm]
        rfl
      · rw [hrest, if_neg hm]
    · rw [if_pos ((isGiven_iff v).mpr hv), Keyed.get?_cons]
      split
      · rfl
      · exact hrest

end Value

namespace Options

section
variable [Limits]

/-- The mapping that a file holds; an empty file holds an empty one. -/
inductive Gives (load : Yaml.Loader) : FileContent → Value.Keyed Yaml.Part → Prop where
  | nothing {bs : List UInt8} (loaded : load bs = .ok .nothing) : Gives load (.bytes bs) []
  | mapping {bs : List UInt8} {parts : Value.Keyed Yaml.Part} (loaded : load bs = .ok (.mapping parts)) :
    Gives load (.bytes bs) parts

theorem ofMapping_ok {path : String} {parts : Value.Keyed Yaml.Part} {o : Options} (h : ofMapping path parts = .ok o) :
    (∀ e ∈ values parts, Schema.file.issues e.1 e.2 = .ok []) ∧ o = ofDocument (values parts) := by
  rw [ofMapping] at h
  cases hcheck : Schema.file.check (some path) (copyDepthOf parts) (values parts) with
  | error f =>
    rw [hcheck] at h
    cases h
  | ok u =>
    rw [hcheck] at h
    exact ⟨(Schema.check_ok_iff Schema.regular_file).mp hcheck, (Except.ok.inj h).symm⟩

variable {load : Yaml.Loader} {content : FileContent}

theorem Gives.parse {σ : Type} {parts : Value.Keyed Yaml.Part} (h : Gives load content parts) (path : String) (s : σ) :
    (parse load path content s).result = ofMapping path parts := by
  rw [parse_result]
  cases h with
  | nothing loaded =>
    rw [ofContent_bytes, loaded]
    rfl
  | mapping loaded =>
    rw [ofContent_bytes, loaded]
    rfl

theorem gives_of_parse {σ : Type} {path : String} {s : σ} {o : Options}
    (h : (Options.parse load path content s).result = .ok o) : ∃ parts, Gives load content parts := by
  rw [parse_result] at h
  cases content with
  | missing => cases h
  | directory => cases h
  | bytes bs =>
    rw [ofContent_bytes] at h
    cases hload : load bs with
    | error f =>
      rw [hload] at h
      cases h
    | ok c =>
      rw [hload] at h
      cases c with
      | nothing => exact ⟨[], .nothing hload⟩
      | mapping parts => exact ⟨parts, .mapping hload⟩
      | other => cases h

end

section
variable {es : Value.Entries}

theorem validate_map_iff [Limits] (es : Value.Entries) (o : Options) : validate (.map es) = .ok o ↔
    (∀ e ∈ es, Schema.options.issues e.1 e.2 = .ok []) ∧ o = ofDocument es := by
  rw [validate_iff]
  simp [given?]

theorem validate_given [Limits] (hes : es.Proper) (hnames : ∀ e ∈ es, ∃ n ∈ Schema.optionNames, e.1 = .str n)
    (o : Options) : validate (.map (es.filter (·.2.isGiven))) = .ok o ↔ validate (.map es) = .ok o := by
  have hdocument : ofDocument (es.filter (·.2.isGiven)) = ofDocument es := by
    simp only [ofDocument, Value.ofOption_get?_given hes (k := .str _) rfl]
  rw [validate_map_iff, validate_map_iff, hdocument]
  refine and_congr_left fun _ => ⟨fun h e he => ?_, fun h e he => h e (List.mem_filter.mp he).1⟩
  by_cases hv : e.2 = .none
  · obtain ⟨n, hn, hname⟩ := hnames e he
    rw [hname, hv]
    exact Schema.issues_null hn
  · exact h e (List.mem_filter.mpr ⟨he, (Value.isGiven_iff e.2).mpr hv⟩)

end
end Options

namespace Schema

theorem own_issues_in_program {n : String} (hn : n ∈ fileNames) (v : Value) :
    ∃ is, options.issues (.str n) v = .ok is ∧ ∀ i ∈ is, i.Own := by
  simp only [fileNames, List.mem_cons, List.not_mem_nil, or_false] at hn
  rcases hn with rfl | rfl | rfl
  · exact Field.own_issues (fun _ => ⟨[], rfl, List.forall_mem_nil _⟩) v
  · exact Field.own_issues Field.own_keyIssues v
  · exact Field.own_issues Field.own_addressIssues v

theorem errors_alike {es : Value.Entries} (hes : es.Proper)
    (hgiven : ∀ e ∈ es, (∃ n ∈ fileNames, e.1 = .str n) ∧ e.2 ≠ .none) :
    ∃ fo ff, (options.findings es = .ok fo ∧ options.InOrder es fo) ∧ (file.findings es = .ok ff ∧ file.InOrder es ff) ∧
      ∀ n ∈ textNames, Value.Keyed.get? (.str n) (Finding.errors fo) = Value.Keyed.get? (.str n) (Finding.errors ff) := by
  have htext (e : Value × Value) (he : e ∈ es) : e.1.IsText := by
    obtain ⟨⟨n, -, hname⟩, -⟩ := hgiven e he
    rw [hname]
    exact .str n
  have hprogram : ∃ fo, options.findings es = .ok fo ∧ options.InOrder es fo := by
    refine exists_inOrder regular_options strict_options hes htext fun e he => ?_
    obtain ⟨⟨n, hn, hname⟩, -⟩ := hgiven e he
    rw [hname]
    exact own_issues_in_program hn e.2
  obtain ⟨fo, ho⟩ := hprogram
  obtain ⟨ff, hf⟩ := exists_inOrder regular_file strict_file hes htext fun e _ => own_issues e.1 e.2
  refine ⟨fo, ff, ho, hf, fun n hn => ho.2.reported_alike hf.2 (.str n) ?_⟩
  rw [found_of_name options hes (.str n), found_of_name file hes (.str n)]
  cases hv : Value.Keyed.get? (.str n) es with
  | none => rfl
  | some v =>
    have hne : v ≠ .none := (hgiven _ (Value.Keyed.mem_of_get? hv)).2
    simp only [Option.map_some, Option.getD_some, found, issues_alike hn hne]

section
variable [Limits] {es : Value.Entries} {found : List Finding} (hes : es.Proper)
  (hnames : ∀ e ∈ es, ∃ n ∈ fileNames, e.1 = .str n)
include hnames

theorem file_check_eq (hfound : file.findings es = .ok found) (horder : file.InOrder es found) (source : Option String)
    (depth : Value → Nat) : file.check source depth es = if found.isEmpty then .ok ()
      else if ∃ e ∈ es, file.offends e ∧ Limits.copies < depth e.1 then .error .tooDeep
      else .error (.invalidOptions (.map (Finding.errors found)) source) := by
  refine check_eq (fun e he => ?_) (fun e he => ?_) hfound horder.all source depth
  · obtain ⟨n, -, hname⟩ := hnames e he
    rw [hname]
    rfl
  · obtain ⟨is, his, hown⟩ := own_issues e.1 e.2
    exact ⟨is, his, fun i hi => (hown i hi).texts⟩

include hes in
theorem validate_eq (hfound : options.findings es = .ok found) (horder : options.InOrder es found) :
    Options.validate (.map es) = if found.isEmpty then .ok (Options.ofDocument es)
      else if ∃ e ∈ es, options.offends e ∧ Limits.copies < e.2.copyDepth then .error .tooDeep
      else .error (.invalidOptions (.map (Finding.errors found)) none) := by
  change (options.checkValues es >>= fun _ => .ok (Options.ofDocument es)) = _
  rw [checkValues_eq (fun e he => ?_) (fun e he => ?_) hes hfound horder.all]
  · split
    · rfl
    · split <;> rfl
  · obtain ⟨n, -, hname⟩ := hnames e he
    rw [hname]
    rfl
  · obtain ⟨n, hn, hname⟩ := hnames e he
    obtain ⟨is, his, hown⟩ := own_issues_in_program hn e.2
    exact ⟨is, hname ▸ his, fun i hi => (hown i hi).texts⟩

end
end Schema

namespace Options

/-- Options that a file is accepted with are accepted in a program, and taken over alike. What is accepted in a program
is accepted of a file, too, if it is all there, no witnesses are given and a private state is a mapping; and then,
accepted or not, the same is found about the key and about the address. Each side reports what it finds, unless the value
of an option that it refuses is too deep to be copied for the report. An option that is nothing is left out in a program
and is never accepted in a file. -/
theorem files_agree_with_programs [Limits] {σ : Type} (load : Yaml.Loader) (path : String) (content : FileContent)
    (s : σ) {es : Value.Entries} (hes : es.Proper) (hnames : ∀ e ∈ es, ∃ n ∈ Schema.optionNames, e.1 = .str n) :
    (∀ o, (parse load path content s).result = .ok o →
      ∃ parts, Gives load content parts ∧ validate (.map (values parts)) = .ok o) ∧
    (∀ parts, Gives load content parts → (∃ e ∈ values parts, e.2 = .none) →
      ∀ o, (parse load path content s).result ≠ .ok o) ∧
    (∀ o, validate (.map (es.filter (·.2.isGiven))) = .ok o ↔ validate (.map es) = .ok o) ∧
    ((∀ e ∈ es, (∃ n ∈ Schema.fileNames, e.1 = .str n) ∧ e.2 ≠ .none) →
      (∀ o, validate (.map es) = .ok o → (∀ e ∈ es, e.1 = .str "private_state" → ∃ fs, e.2 = .map fs) →
        ∀ source depth, Schema.file.check source depth es = .ok ()) ∧
      ∃ fo ff, Schema.options.findings es = .ok fo ∧ Schema.file.findings es = .ok ff ∧
        validate (.map es) = (if fo.isEmpty then .ok (ofDocument es)
          else if ∃ e ∈ es, Schema.options.offends e ∧ Limits.copies < e.2.copyDepth then .error .tooDeep
          else .error (.invalidOptions (.map (Finding.errors fo)) none)) ∧
        (∀ source depth, Schema.file.check source depth es = if ff.isEmpty then .ok ()
          else if ∃ e ∈ es, Schema.file.offends e ∧ Limits.copies < depth e.1 then .error .tooDeep
          else .error (.invalidOptions (.map (Finding.errors ff)) source)) ∧
        ∀ n ∈ Schema.textNames,
          Value.Keyed.get? (.str n) (Finding.errors fo) = Value.Keyed.get? (.str n) (Finding.errors ff)) := by
  refine ⟨fun o ho => ?_, fun parts hparts hnull o ho => ?_, validate_given hes hnames, fun hgiven => ⟨?_, ?_⟩⟩
  · obtain ⟨parts, hparts⟩ := gives_of_parse ho
    obtain ⟨hissues, hdocument⟩ := ofMapping_ok ((hparts.parse path s).symm.trans ho)
    refine ⟨parts, hparts, (validate_map_iff (values parts) o).mpr ⟨fun e he => ?_, hdocument⟩⟩
    exact ((Schema.file_issues_nil_iff e.1 e.2).mp (hissues e he)).2.2.1
  · obtain ⟨hissues, -⟩ := ofMapping_ok ((hparts.parse path s).symm.trans ho)
    obtain ⟨e, he, hnone⟩ := hnull
    exact ((Schema.file_issues_nil_iff e.1 e.2).mp (hissues e he)).2.1 hnone
  · intro o ho hstate source depth
    refine (Schema.check_ok_iff Schema.regular_file).mpr fun e he => ?_
    obtain ⟨hname, hne⟩ := hgiven e he
    have hissues := ((validate_map_iff es o).mp ho).1 e he
    exact (Schema.file_issues_nil_iff e.1 e.2).mpr ⟨hname, hne, hissues, hstate e he⟩
  · obtain ⟨fo, ff, ⟨hfo, ho⟩, ⟨hff, hf⟩, halike⟩ := Schema.errors_alike hes hgiven
    have hfile : ∀ e ∈ es, ∃ n ∈ Schema.fileNames, e.1 = .str n := fun e he => (hgiven e he).1
    exact ⟨fo, ff, hfo, hff, Schema.validate_eq hes hfile hfo ho, Schema.file_check_eq hfile hff hf, halike⟩

def toldOfKey : Value := .list [.str "'xy' is not a hex string.", .str "min length is 64"]

def keyBeside (state : Value) : Value.Entries := [(.str "private_state", state), (.str "coin_pk", .str "xy")]

theorem keyBeside_given (state : Value) (h : state ≠ .none) : (keyBeside state).Proper ∧
    ∀ e ∈ keyBeside state, (∃ n ∈ Schema.fileNames, e.1 = .str n) ∧ e.2 ≠ .none := by
  refine ⟨?_, by simp [keyBeside, Schema.fileNames, h]⟩
  constructor <;> simp [keyBeside, ← Bool.not_eq_true, Value.same_str_iff]

theorem short_key_reported_alike :
    let es := keyBeside (.int 1)
    (es.Proper ∧ (∀ e ∈ es, ∃ n ∈ Schema.optionNames, e.1 = .str n) ∧
        ∀ e ∈ es, (∃ n ∈ Schema.fileNames, e.1 = .str n) ∧ e.2 ≠ .none) ∧
      validate (.map es) = .error (.invalidOptions (.map [(.str "coin_pk", toldOfKey)]) none) ∧
      Schema.file.check (some "options.yaml") (fun _ => 2) es = .error (.invalidOptions
        (.map [(.str "coin_pk", toldOfKey), (.str "private_state", .list [.str "must be of dict type"])])
        (some "options.yaml")) := by
  intro es
  obtain ⟨hes, hgiven⟩ := keyBeside_given (.int 1) nofun
  have hnames : ∀ e ∈ es, ∃ n ∈ Schema.optionNames, e.1 = .str n := by
    simp [es, keyBeside, Schema.optionNames, Schema.options, Field.privateState, Field.witnesses, Field.coinKey,
      Field.address]
  obtain ⟨-, -, -, hreports⟩ := files_agree_with_programs Yaml.loadBytes "options.yaml" .missing () hes hnames
  obtain ⟨-, fo, ff, hfo, hff, hprogram, hfile, -⟩ := hreports hgiven
  have hinProgram :
      Schema.options.findings es = .ok [(.str "coin_pk", .notHex "xy"), (.str "coin_pk", .tooShort 64)] := by
    cbv
  have hinFile : Schema.file.findings es =
      .ok [(.str "coin_pk", .notHex "xy"), (.str "coin_pk", .tooShort 64), (.str "private_state", .notOfType "dict")] := by
    cbv
  obtain rfl := Except.ok.inj (hfo.symm.trans hinProgram)
  obtain rfl := Except.ok.inj (hff.symm.trans hinFile)
  have hlimit : 1 < Limits.copies := by decide
  have hshallow : ¬∃ e ∈ es, Schema.options.offends e ∧ Limits.copies < e.2.copyDepth := by
    simp [es, keyBeside, Value.copyDepth, hlimit]
  have hshallow' : ¬∃ e ∈ es, Schema.file.offends e ∧ Limits.copies < 2 := by
    simp [es, keyBeside, hlimit]
  refine ⟨⟨hes, hnames, hgiven⟩, hprogram.trans ?_, (hfile (some "options.yaml") fun _ => 2).trans ?_⟩
  · rw [if_neg hshallow]
    cbv
  · rw [if_neg hshallow']
    cbv

def nestedList : Nat → Value
  | 0 => .int 1
  | n+1 => .list [nestedList n]

theorem copyDepth_nestedList (n : Nat) : (nestedList n).copyDepth = 2*n+2 := by
  induction n with
  | zero => rfl
  | succ n ih =>
    simp only [nestedList, Value.copyDepth, Value.copyDepths, ih]
    omega

def partsBeside (state : Value) : Value.Keyed Yaml.Part :=
  [(.str "private_state", ⟨state, none, state.copyDepth⟩), (.str "coin_pk", ⟨.str "xy", some 0, 2⟩)]

theorem ofMapping_beside [Limits] {xs : List Value} (hdeep : Limits.copies < (Value.list xs).copyDepth)
    (path : String) : ofMapping path (partsBeside (.list xs)) = .error .tooDeep := by
  have hfound : Schema.file.findings (values (partsBeside (.list xs))) =
      .ok [(.str "coin_pk", .notHex "xy"), (.str "coin_pk", .tooShort 64), (.str "private_state", .notOfType "dict")] := by
    cbv
  refine ofMapping_of_escape (.report hfound ⟨(.str "private_state", .notOfType "dict"), by simp, ?_⟩)
  exact (Finding.tooDeep_iff (x := (.str "private_state", .notOfType "dict")) rfl trivial _).mpr hdeep

/-- Beside a private state that is a list, a program reports of the key, and a file nothing if the list is too deep to
be copied for the report. -/
theorem deep_state_hides_key :
    let state := nestedList 600
    values (partsBeside state) = keyBeside state ∧
      ((keyBeside state).Proper ∧ ∀ e ∈ keyBeside state, (∃ n ∈ Schema.fileNames, e.1 = .str n) ∧ e.2 ≠ .none) ∧
      validate (.map (keyBeside state)) = .error (.invalidOptions (.map [(.str "coin_pk", toldOfKey)]) none) ∧
      (parse (fun _ => .ok (.mapping (partsBeside state))) "options.yaml" (.bytes []) ()).result = .error .tooDeep := by
  intro state
  have hdeep : Limits.copies < state.copyDepth := by
    rw [copyDepth_nestedList]
    decide
  obtain ⟨xs, hstate⟩ : ∃ xs, state = .list xs := ⟨_, rfl⟩
  clear_value state
  subst hstate
  have hgives : Gives (fun _ => .ok (.mapping (partsBeside (.list xs)))) (.bytes []) (partsBeside (.list xs)) :=
    .mapping rfl
  refine ⟨rfl, keyBeside_given _ nofun, rfl, ?_⟩
  exact (hgives.parse "options.yaml" ()).trans (ofMapping_beside hdeep "options.yaml")

end Options
end CircuitHarness
