import CircuitHarness.Options.File
import CircuitHarness.Proofs.Findings
import CircuitHarness.Proofs.Utf8

/-! What reading an options file can end in, whatever loads the document in it. What is wrong with a file is told by one
of two failures, unless it cannot be loaded for another reason than that it breaks the rules of the language, or names
have no common order, or a value that is refused is nested too deep to be copied for the report. -/
namespace CircuitHarness

namespace Utf8

theorem decode_length (n : Nat) (g : Option Begun) (bs : List UInt8) : (decode n g bs).1.length ≤ bs.length := by
  induction bs generalizing n g with
  | nil => cases g <;> exact Nat.le_refl 0
  | cons b bs ih =>
    rw [decode]
    split
    · exact Nat.zero_le _
    · split
      · exact Nat.succ_le_succ (ih _ _)
      · exact Nat.le_succ_of_le (ih _ _)

end Utf8

namespace Yaml

namespace Source

theorem unifyLines_length (cs : List Char) : (unifyLines cs).length ≤ cs.length := by
  fun_induction unifyLines cs with
  | case1 r ih => exact Nat.le_succ_of_le (Nat.succ_le_succ ih)
  | case2 c r _ ih => exact Nat.succ_le_succ ih
  | case3 => exact Nat.le_refl 0

theorem known_length (bs : List UInt8) (n : Nat) : known bs n ≤ bs.length := by
  have hdecode : (Utf8.decode 0 none (bs.take n)).1.length ≤ bs.length :=
    Nat.le_trans (Utf8.decode_length 0 none _) (List.length_take_le' n bs)
  rw [known]
  refine Nat.le_trans (unifyLines_length _) (Nat.le_trans ?_ hdecode)
  split
  · rw [List.length_dropLast]
    exact Nat.sub_le _ 1
  · exact Nat.le_refl _

theorem ofBytes_undecodable {bs : List UInt8} (hlen : bs.length < block) (hbad : ∀ cs, bs ≠ Utf8.encode cs) :
    ofBytes bs = ⟨[], some .notUtf8⟩ := by
  have hsound (n : Nat) : (if n < bs.length then knownBefore bs n bs.length 0 0 0 0 else known bs bs.length) < 2*portion := by
    split
    · rename_i hn
      have hblock : n < 0+nextBlock 0 0 (portion-0%portion) := by
        rw [Nat.zero_add, nextBlock]
        exact Nat.lt_of_lt_of_le (Nat.lt_trans hn hlen) (Nat.le_max_left _ _)
      obtain ⟨k, hk⟩ := Nat.exists_eq_succ_of_ne_zero (Nat.ne_zero_of_lt hn)
      rw [hk, knownBefore, if_pos hblock]
      decide
    · exact Nat.lt_of_le_of_lt (known_length bs bs.length) hlen
  rw [ofBytes]
  cases hd : Utf8.decode 0 none bs with
  | mk cs bad =>
    cases bad with
    | none => exact absurd ((Utf8.decode_iff 0).mp hd) (hbad cs)
    | some n =>
      change sift ⟨(unifyLines cs).take (portionStart _), _⟩ = _
      rw [portionStart, if_pos (hsound n)]
      rfl

end Source

theorem Lexer.run_succ (beyond : Nat → Option Fault) (n : Nat) (out : Array Token) (l : Lexer) :
    run beyond (n+1) out l = match l.step with
    | .ok (m, last) => match beyond m.cursor.index with
      | some f => (out, some f)
      | none => if last then (out ++ m.tokens, none) else run beyond n (out ++ m.handOut.1) m.handOut.2
    | .error e => (out, some ((beyond e.index).getD e.fault)) := by
  exact rfl

theorem Lexer.run_unread (f : Fault) (n : Nat) (out : Array Token) (l : Lexer) :
    run (fun _ => some f) (n+1) out l = (out, some f) := by
  rw [run_succ]
  cases l.step <;> rfl

theorem scan_unread (f : Fault) : Token.scan ⟨[], some f⟩ = ([], some f) := by
  have hbeyond : (fun i => if (Lexer.start []).cursor.size ≤ i then some f else none) = fun _ => some f :=
    funext fun i => if_pos (Nat.zero_le i)
  unfold Token.scan
  dsimp only
  rw [hbeyond, Lexer.run_unread]

theorem load_unread [Limits] (f : Fault) : load ⟨[], some f⟩ = .error f := by
  rw [load, scan_unread]
  rfl

theorem loadBytes_undecodable [Limits] {bs : List UInt8} (hlen : bs.length < Source.block)
    (hbad : ∀ cs, bs ≠ Utf8.encode cs) : loadBytes bs = .error .notUtf8 := by
  rw [loadBytes, Source.ofBytes_undecodable hlen hbad, load_unread]

end Yaml

namespace Schema

theorem own_checks {f : Field} (hf : f ∈ file) (v : Value) : ∃ is, f.checks v = .ok is ∧ ∀ i ∈ is, i.Own := by
  simp only [file, List.mem_cons, List.not_mem_nil, or_false] at hf
  obtain rfl | rfl | rfl := hf
  · exact ⟨[], rfl, List.forall_mem_nil _⟩
  · exact Field.own_keyIssues v
  · exact Field.own_addressIssues v

theorem own_issues (name v : Value) : ∃ is, file.issues name v = .ok is ∧ ∀ i ∈ is, i.Own := by
  rw [issues]
  cases hf : file.field? name with
  | none => exact ⟨_, rfl, by simp [Issue.Own]⟩
  | some f => exact Field.own_issues (own_checks (mem_of_field? hf)) v

end Schema

namespace Options
open Finding (isPlain)

/-- Options, or one of the two failures that tell what is wrong with the file. -/
inductive Diagnosed (path : String) : Except Failure Options → Prop where
  | accepted (o : Options) : Diagnosed path (.ok o)
  | unreadable (details : Value) : Diagnosed path (.error (.unreadableOptions details path))
  | invalid (errors : Value) : Diagnosed path (.error (.invalidOptions errors (some path)))

def values (parts : Value.Keyed Yaml.Part) : Value.Entries := parts.map fun e => (e.1, e.2.value)

def copyDepthOf (parts : Value.Keyed Yaml.Part) (name : Value) : Nat :=
  ((Value.Keyed.get? name parts).map (·.copyDepth)).getD 0

section
variable [Limits]

/-- What a mapping in a file can fail with besides: its findings cannot be put in order, or what is found cannot be
copied for the report. -/
inductive MappingEscape (parts : Value.Keyed Yaml.Part) : Failure → Prop where
  | names {f : Failure} (stuck : Schema.file.findings (values parts) = .error f) : MappingEscape parts f
  | report {found : List Finding} (ordered : Schema.file.findings (values parts) = .ok found)
    (deep : ∃ x ∈ found, Limits.copies < x.copyDepth (copyDepthOf parts x.1)) : MappingEscape parts .tooDeep

/-- What loading a file can make it fail with besides: all that is wrong with a document other than a broken rule of the
language, and what a mapping can fail with. -/
inductive LoadEscape : Except Yaml.Fault Yaml.Content → Failure → Prop where
  | fault {f : Yaml.Fault} (path : String) (other : ∀ problem, f ≠ .malformed problem) :
    LoadEscape (.error f) (ofFault path f)
  | mapping {parts : Value.Keyed Yaml.Part} {f : Failure} (escape : MappingEscape parts f) :
    LoadEscape (.ok (.mapping parts)) f

def Escape (load : Yaml.Loader) (content : FileContent) (f : Failure) : Prop :=
  ∃ bs, content = .bytes bs ∧ LoadEscape (load bs) f

end

section
variable {path : String} {parts : Value.Keyed Yaml.Part} {f : Failure}

def ofMapping [Limits] (path : String) (parts : Value.Keyed Yaml.Part) : Except Failure Options := do
  Schema.file.check (some path) (copyDepthOf parts) (values parts)
  return ofDocument (values parts)

section
variable [Limits]

theorem ofMapping_of_escape (h : MappingEscape parts f) : ofMapping path parts = .error f := by
  cases h with
  | names stuck =>
    rw [ofMapping, Schema.check, stuck]
    rfl
  | report ordered deep =>
    rename_i found
    rw [ofMapping, Schema.check, ordered]
    obtain ⟨x, hx, hdeep⟩ := deep
    cases found with
    | nil => cases hx
    | cons y found =>
      have hany : ((y :: found).any fun x => decide (Limits.copies < x.copyDepth (copyDepthOf parts x.1))) = true :=
        List.any_eq_true.mpr ⟨x, hx, decide_eq_true hdeep⟩
      change (if _ then _ else _ : Except Failure Unit) >>= _ = _
      rw [if_pos hany]
      rfl

theorem escape_kind (h : MappingEscape parts f) : f = .wrongType ∨ f = .tooDeep := by
  cases h with
  | names stuck => exact .inl ((Schema.findings_yields Schema.regular_file _).of_error stuck).1
  | report => exact .inr rfl

theorem ofMapping_diagnosed (h : ∀ f, ¬MappingEscape parts f) : Diagnosed path (ofMapping path parts) := by
  rw [ofMapping, Schema.check]
  cases hfound : Schema.file.findings (values parts) with
  | error e => exact absurd (.names hfound) (h e)
  | ok found =>
    cases found with
    | nil => exact .accepted _
    | cons x found =>
      have hshallow : ¬((x :: found).any fun x =>
          decide (Limits.copies < x.copyDepth (copyDepthOf parts x.1))) = true :=
        fun hany => h _ (.report hfound (by simpa using hany))
      change Diagnosed path ((if _ then _ else _ : Except Failure Unit) >>= _)
      rw [if_neg hshallow]
      exact .invalid _

theorem MappingEscape.undiagnosed (h : MappingEscape parts f) : ¬Diagnosed path (.error f) := by
  obtain rfl | rfl := escape_kind h <;> exact fun hd => by cases hd

end

end

section
variable {path : String} {loaded : Except Yaml.Fault Yaml.Content} {content : FileContent} {f : Failure}

section
variable [Limits]

def ofLoaded (path : String) : Except Yaml.Fault Yaml.Content → Except Failure Options
  | .error f => .error (ofFault path f)
  | .ok c => document? path c >>= ofMapping path

theorem ofContent_bytes (load : Yaml.Loader) (path : String) (bs : List UInt8) :
    ofContent load path (.bytes bs) = ofLoaded path (load bs) := by
  rw [ofContent, readContent]
  cases load bs <;> rfl

theorem ofLoaded_of_escape (h : LoadEscape loaded f) : ofLoaded path loaded = .error f := by
  cases h with
  | fault path' other =>
    rename_i g
    cases g with
    | malformed problem => exact absurd rfl (other problem)
    | _ => rfl
  | mapping escape => exact ofMapping_of_escape escape

theorem LoadEscape.undiagnosed (h : LoadEscape loaded f) : ¬Diagnosed path (.error f) := by
  cases h with
  | fault path' other =>
    rename_i g
    cases g with
    | malformed problem => exact absurd rfl (other problem)
    | _ => exact fun hd => by cases hd
  | mapping escape => exact escape.undiagnosed

theorem ofLoaded_diagnosed (h : ∀ f, ¬LoadEscape loaded f) : Diagnosed path (ofLoaded path loaded) := by
  cases loaded with
  | error g =>
    cases g with
    | malformed problem => exact .unreadable _
    | _ => exact absurd (LoadEscape.fault path fun _ heq => by cases heq) (h _)
  | ok c =>
    cases c with
    | nothing => exact .accepted _
    | other => exact .unreadable _
    | mapping parts => exact ofMapping_diagnosed fun f hf => h f (.mapping hf)

end

end

/-- The names of the options are texts and integers, and nothing in them is nested too deep to be copied. -/
structure Modest [Limits] (parts : Value.Keyed Yaml.Part) : Prop where
  names : ∀ e ∈ parts, isPlain e.1
  copied : ∀ e ∈ parts, e.2.copyDepth ≤ Limits.copies

namespace Modest
variable {parts : Value.Keyed Yaml.Part}

section
variable [Limits]

theorem copyDepthOf_le (h : Modest parts) (name : Value) : copyDepthOf parts name ≤ Limits.copies := by
  rw [copyDepthOf, Value.Keyed.get?]
  cases hfind : parts.find? fun e => e.1.same name with
  | none => exact Nat.zero_le _
  | some e => exact h.copied e (List.mem_of_find?_eq_some hfind)

theorem found (h : Modest parts) {e : Value × Value} (he : e ∈ values parts) {x : Finding}
    (hx : x ∈ Schema.file.found e) : isPlain x.1 ∧ x.2.Own := by
  obtain ⟨p, hp, rfl⟩ := List.mem_map.mp he
  obtain ⟨is, his, hown⟩ := Schema.own_issues p.1 p.2.value
  rw [Schema.found_eq his] at hx
  obtain ⟨i, hi, rfl⟩ := List.mem_map.mp hx
  exact ⟨h.names p hp, hown i hi⟩

theorem plain (h : Modest parts) : Schema.file.Plain (values parts) := by
  refine fun e he => ⟨?_, fun x hx => (h.found he hx).imp_right Issue.Own.plain⟩
  obtain ⟨is, his, -⟩ := Schema.own_issues e.1 e.2
  exact ⟨is, his⟩

theorem copyDepth_le {x : Finding} (hname : isPlain x.1) (hown : x.2.Own) {n : Nat} (hn : n ≤ Limits.copies) :
    x.copyDepth n ≤ Limits.copies := by
  have hpath : (Value.tuple [x.1]).copyDepth ≤ Limits.copies := by
    have hfive : (Value.tuple [x.1]).copyDepth = 5 := by
      cases hx : x.1 <;> rw [hx] at hname <;> cases hname <;> rfl
    rw [hfive]
    exact Nat.le_trans (by decide) Limits.roomy
  obtain ⟨name, i⟩ := x
  rw [Finding.copyDepth]
  cases i with
  | keys found => exact absurd rfl (hown found)
  | _ => exact Nat.max_le.mpr ⟨Nat.max_le.mpr ⟨hn, hpath⟩, Nat.zero_le _⟩

theorem not_escape (h : Modest parts) (f : Failure) : ¬MappingEscape parts f := by
  intro hf
  cases hf with
  | names stuck => exact ((Schema.findings_yields Schema.regular_file _).of_error stuck).2 h.plain
  | report ordered deep =>
    obtain ⟨x, hx, hdeep⟩ := deep
    have hall := ((Schema.findings_yields Schema.regular_file _).of_ok ordered).2
    obtain ⟨e, he, hx⟩ := List.mem_flatMap.mp (hall.subset hx)
    obtain ⟨hname, hown⟩ := h.found he hx
    exact Nat.not_lt.mpr (copyDepth_le hname hown (h.copyDepthOf_le x.1)) hdeep

end

end Modest

theorem parse_result [Limits] {σ : Type} (load : Yaml.Loader) (path : String) (content : FileContent) (s : σ) :
    (parse load path content s).result = ofContent load path content := by
  simp only [parse, Action.bind_result, Action.note_result, Action.lift_result]

/-- What reading a file ends in, for any way to load a document. If what is no text cannot be loaded, a small file that
is none always escapes; a mapping does not if its names have an order and nothing in it is nested too deep. -/
theorem parse_diagnosed_iff [Limits] {σ : Type} (load : Yaml.Loader) (hdecode : ∀ bs : List UInt8,
    bs.length < Yaml.Source.block → (∀ cs, bs ≠ Utf8.encode cs) → load bs = .error .notUtf8)
    (path : String) (content : FileContent) (s : σ) :
    let r := (parse load path content s).result
    (Diagnosed path r ↔ ∀ f, ¬Escape load content f) ∧ (∀ f, Escape load content f → r = .error f) ∧
      (∀ bs, content = .bytes bs → bs.length < Yaml.Source.block → (∀ cs, bs ≠ Utf8.encode cs) →
        r = .error .notUtf8) ∧
      ∀ bs parts, content = .bytes bs → load bs = .ok (.mapping parts) → Modest parts → Diagnosed path r := by
  have hescape (f : Failure) (h : Escape load content f) : ofContent load path content = .error f := by
    obtain ⟨bs, rfl, hload⟩ := h
    rw [ofContent_bytes]
    exact ofLoaded_of_escape hload
  have hdiagnosed (h : ∀ f, ¬Escape load content f) : Diagnosed path (ofContent load path content) := by
    cases content with
    | missing => exact .unreadable _
    | directory => exact .unreadable _
    | bytes bs =>
      rw [ofContent_bytes]
      exact ofLoaded_diagnosed fun f hf => h f ⟨bs, rfl, hf⟩
  simp only [parse_result]
  refine ⟨⟨fun h f hf => ?_, hdiagnosed⟩, hescape, ?_, ?_⟩
  · rw [hescape f hf] at h
    obtain ⟨bs, rfl, hload⟩ := hf
    exact hload.undiagnosed h
  · rintro bs rfl hlen hbad
    rw [ofContent_bytes, hdecode bs hlen hbad]
    rfl
  · rintro bs parts rfl hload hmodest
    refine hdiagnosed ?_
    rintro f ⟨bs', ⟨⟩, hf⟩
    rw [hload] at hf
    cases hf with
    | mapping escape => exact hmodest.not_escape f escape

theorem stray_ne_encode (cs : List Char) : [0xff] ≠ Utf8.encode cs :=
  fun h => by cases (Utf8.decode_iff 0).mpr h

theorem missing_told_stray_byte_not : (∀ bs : List UInt8, bs.length < Yaml.Source.block →
      (∀ cs, bs ≠ Utf8.encode cs) → Yaml.loadBytes bs = .error .notUtf8) ∧
    Diagnosed "options.yaml" (parse Yaml.loadBytes "options.yaml" .missing ()).result ∧
    (parse Yaml.loadBytes "options.yaml" (.bytes [0xff]) ()).result = .error .notUtf8 := by
  have hdecode (bs : List UInt8) : bs.length < Yaml.Source.block → (∀ cs, bs ≠ Utf8.encode cs) →
      Yaml.loadBytes bs = .error .notUtf8 := Yaml.loadBytes_undecodable
  obtain ⟨hmissing, -⟩ := parse_diagnosed_iff Yaml.loadBytes hdecode "options.yaml" .missing ()
  obtain ⟨-, -, hstray, -⟩ := parse_diagnosed_iff Yaml.loadBytes hdecode "options.yaml" (.bytes [0xff]) ()
  refine ⟨hdecode, hmissing.mpr ?_, hstray _ rfl (by decide) stray_ne_encode⟩
  rintro f ⟨bs, ⟨⟩, -⟩

theorem stray_byte_escapes : let r := (parse Yaml.loadBytes "options.yaml" (.bytes [0xff]) ()).result
    r = .error .notUtf8 ∧ ¬Diagnosed "options.yaml" r := by
  have hr : (parse Yaml.loadBytes "options.yaml" (.bytes [0xff]) ()).result = .error .notUtf8 := by
    rw [parse_result, ofContent_bytes, Yaml.loadBytes_undecodable (by decide) stray_ne_encode]
    rfl
  rw [hr]
  exact ⟨rfl, nofun⟩

end Options
end CircuitHarness
