import CircuitHarness.Proofs.Entries
import CircuitHarness.Proofs.Placing
import CircuitHarness.Proofs.Rejection

/-! The order of findings about options whose names are texts. It is strict where no option breaks a rule twice, so what is
reported about an option depends on that option alone. -/
namespace CircuitHarness

namespace Value

namespace Keyed.Proper
variable {β : Type} {e : Value × β} {es : Keyed β}

theorem tail (h : Keyed.Proper (e :: es)) : Keyed.Proper es :=
  ⟨fun d hd => h.self d (List.mem_cons_of_mem _ hd), h.apart.of_cons⟩

theorem get?_tail (h : Keyed.Proper (e :: es)) : Keyed.get? e.1 es = Option.none := by
  rw [Keyed.get?, Option.map_eq_none_iff, List.find?_eq_none]
  intro d hd hde
  rw [((List.pairwise_cons.mp h.apart).1 d hd).2] at hde
  cases hde

end Keyed.Proper

/-- A text in the one spelling it has. -/
inductive IsText : Value → Prop where
  | str (s : String) : IsText (.str s)
  | codes (cs : List Nat) (halves : cs.any Surrogate.isHalf = true) : IsText (.codes cs)

def codePoints (v : Value) : List Nat := v.codes?.getD []

theorem IsText.codes_isSome {v : Value} (h : v.IsText) : v.codes?.isSome := by
  cases h <;> rfl

theorem IsText.isPlain {v : Value} (h : v.IsText) : Finding.isPlain v := by
  cases h <;> rfl

theorem char_no_half (c : Char) : Surrogate.isHalf c.toNat = false := by
  have hvalid : c.toNat < 0xd800 ∨ 0xdfff < c.toNat ∧ c.toNat < 0x110000 := c.valid
  simp only [Surrogate.isHalf, Surrogate.isHigh, Surrogate.isLow, Bool.or_eq_false_iff, Bool.and_eq_false_iff,
    decide_eq_false_iff_not]
  omega

theorem IsText.eq_of_codePoints {v w : Value} (hv : v.IsText) (hw : w.IsText) (h : v.codePoints = w.codePoints) :
    v = w := by
  have hno (s : String) : (s.toList.map Char.toNat).any Surrogate.isHalf = false := by
    simp [char_no_half]
  cases hv with
  | str s =>
    cases hw with
    | str t =>
      have hst : s.toList.map Char.toNat = t.toList.map Char.toNat := h
      have hinj : Function.Injective Char.toNat := fun _ _ => Char.toNat_inj.mp
      rw [String.toList_inj.mp (List.map_injective_iff.mpr hinj hst)]
    | codes ds hds =>
      have hsd : s.toList.map Char.toNat = ds := h
      rw [← hsd, hno] at hds
      cases hds
  | codes cs hcs =>
    cases hw with
    | str t =>
      have hct : cs = t.toList.map Char.toNat := h
      rw [hct, hno] at hcs
      cases hcs
    | codes ds hds => exact congrArg Value.codes h

theorem codes_lt_iff (cs ds : List Char) : cs.map Char.toNat < ds.map Char.toNat ↔ cs < ds := by
  induction cs generalizing ds with
  | nil => cases ds <;> simp
  | cons c cs ih =>
    cases ds with
    | nil => simp
    | cons d ds =>
      have hlt : c.toNat < d.toNat ↔ c < d := Iff.rfl
      simp [List.cons_lt_cons_iff, ih, hlt, Char.toNat_inj]

theorem less_text {v w : Value} (hv : v.IsText) (hw : w.IsText) :
    v.less w = .ok (decide (v.codePoints < w.codePoints)) := by
  rw [less_ok_iff]
  cases hv with
  | str s =>
    cases hw with
    | str t =>
      have hst : s < t ↔ (Value.str s).codePoints < (Value.str t).codePoints :=
        String.lt_iff_toList_lt.trans (codes_lt_iff s.toList t.toList).symm
      exact congrArg some (decide_eq_decide.mpr hst)
    | codes ds hds => rfl
  | codes cs hcs => cases hw <;> rfl

end Value

namespace Finding
open Sorting (Before Ascending Place)

def ruleRank (r : Option String) : WithBot String := r

def rank (x : Finding) : List Nat ×ₗ WithBot String := toLex (x.1.codePoints, ruleRank x.2.rule)

theorem ruleBefore_iff (a b : Option String) : ruleBefore a b = true ↔ ruleRank a ≤ ruleRank b := by
  cases a with
  | none => exact iff_of_true rfl bot_le
  | some r =>
    cases b with
    | none => exact iff_of_false Bool.false_ne_true (not_le_of_gt (WithBot.bot_lt_coe r))
    | some q => exact decide_eq_true_iff.trans WithBot.coe_le_coe.symm

theorem nameBefore_text {a b : Value} (ha : a.IsText) (hb : b.IsText) : nameBefore a b = a.less b := by
  cases ha <;> cases hb <;> rfl

theorem before_of_text {x y : Finding} (hx : x.1.IsText) (hy : y.1.IsText) :
    before x y = .ok (decide (x.rank ≤ y.rank)) := by
  have hsame : x.1.same y.1 = true ↔ x.1 = y.1 := Value.same_text_iff hy.codes_isSome
  have hle : x.rank ≤ y.rank ↔ x.1.codePoints < y.1.codePoints ∨
      x.1.codePoints = y.1.codePoints ∧ ruleRank x.2.rule ≤ ruleRank y.2.rule := Prod.Lex.toLex_le_toLex
  rw [before]
  by_cases hxy : x.1 = y.1
  · rw [if_pos (hsame.mpr hxy)]
    have hrule : ruleBefore x.2.rule y.2.rule = true ↔ x.rank ≤ y.rank := by
      rw [ruleBefore_iff, hle, hxy]
      simp
    exact congrArg Except.ok (Bool.eq_iff_iff.mpr (hrule.trans decide_eq_true_iff.symm))
  · rw [if_neg (mt hsame.mp hxy)]
    have hne : x.1.codePoints ≠ y.1.codePoints := mt (hx.eq_of_codePoints hy) hxy
    rw [nameBefore_text hx hy, Value.less_text hx hy]
    refine congrArg Except.ok (decide_eq_decide.mpr ?_)
    rw [hle]
    exact ⟨.inl, fun h => h.resolve_right fun h => hne h.1⟩

/-- Findings about options with textual names, none of which breaks a rule twice. -/
structure Distinct (found : List Finding) : Prop where
  names : ∀ x ∈ found, x.1.IsText
  ranks : (found.map rank).Nodup

theorem before_iff {x y : Finding} (hx : x.1.IsText) (hy : y.1.IsText) : Before before x y ↔ x.rank < y.rank := by
  refine ⟨fun h => ?_, fun h => ⟨?_, ?_⟩⟩
  · have hno := h.no
    rw [before_of_text hy hx] at hno
    simpa using hno
  · rw [before_of_text hx hy]
    simpa using h.le
  · rw [before_of_text hy hx]
    simpa using h

theorem Distinct.perm {found found' : List Finding} (h : Distinct found) (hp : found.Perm found') : Distinct found' where
  names x hx := h.names x (hp.symm.subset hx)
  ranks := (hp.map rank).nodup_iff.mp h.ranks

theorem Distinct.insert {found : List Finding} {x : Finding} (h : Distinct (found ++ [x]))
    (hfound : Ascending before found) :
    ∃ r, insert found x = .ok r ∧ r.Perm (found ++ [x]) ∧ Ascending before r := by
  have hmem {y : Finding} (hy : y ∈ found) : y.1.IsText := h.names y (List.mem_append_left [x] hy)
  have hx : x.1.IsText := h.names x (List.mem_append_right found List.mem_cons_self)
  have hranks := h.ranks
  rw [List.map_append, List.nodup_append] at hranks
  have htotal (y : Finding) (hy : y ∈ found) : Before before y x ∨ Before before x y := by
    have hne : y.rank ≠ x.rank := hranks.2.2 _ (List.mem_map_of_mem hy) _ List.mem_cons_self
    rw [before_iff (hmem hy) hx, before_iff hx (hmem hy)]
    exact lt_or_gt_of_ne hne
  obtain ⟨k, hk⟩ := Sorting.exists_place hfound htotal fun y hy z hz hxy hyz => by
    rw [before_iff hx (hmem hz)]
    exact ((before_iff hx (hmem hy)).mp hxy).trans ((before_iff (hmem hy) (hmem hz)).mp hyz)
  exact ⟨_, hk.sort hfound, Sorting.put_perm x found k, hk.ascending hfound⟩

theorem Distinct.of_sublist {found found' : List Finding} (h : Distinct found) (hs : found'.Sublist found) :
    Distinct found' where
  names x hx := h.names x (hs.subset hx)
  ranks := h.ranks.sublist (hs.map rank)

/-- Put in order in either of two ways, the same findings are the same list. -/
theorem eq_of_ascending {found found' : List Finding} (h : Ascending before found) (h' : Ascending before found')
    (hperm : found.Perm found') : found = found' := by
  refine hperm.eq_of_pairwise (fun x y _ _ hxy hyx => ?_) h h'
  have hno := hxy.no
  rw [hyx.yes] at hno
  cases hno

end Finding

namespace Findings
open Finding (Distinct before)
open Sorting (Ascending)

theorem add_all {f r : Findings} {x : Finding} (h : f.add x = .ok r) : Finding.insert f.all x = .ok r.all := by
  simp only [add, bind, Except.bind, pure, Except.pure] at h
  repeat' split at h
  all_goals cases h
  all_goals assumption

theorem addAll_ascending {f : Findings} {xs : List Finding} (h : Distinct (f.all ++ xs)) (hf : Ascending before f.all) :
    Yields (fun _ => True) (fun r : Findings => r.all.Perm (f.all ++ xs) ∧ Ascending before r.all) (xs.foldlM add f) := by
  refine Yields.foldlM (I := fun done (r : Findings) => r.all.Perm (f.all ++ done) ∧ Ascending before r.all)
    ⟨by rw [List.append_nil], hf⟩ fun done x r hdone hr => ?_
  have hperm : (r.all ++ [x]).Perm (f.all ++ (done ++ [x])) := by
    rw [← List.append_assoc]
    exact hr.1.append_right [x]
  have hdistinct : Distinct (r.all ++ [x]) :=
    (h.of_sublist ((List.Sublist.refl f.all).append hdone.sublist)).perm hperm.symm
  obtain ⟨all, hinsert, hall, hascending⟩ := hdistinct.insert hr.2
  cases hadd : r.add x with
  | error e => exact .error trivial
  | ok r' =>
    obtain rfl : r'.all = all := Except.ok.inj ((add_all hadd).symm.trans hinsert)
    exact .ok ⟨hall.trans hperm, hascending⟩

end Findings

namespace Schema
open Finding (Distinct before)
open Sorting (Ascending)

theorem findings_ascending {s : Schema} {document : Value.Entries} {found : List Finding}
    (h : s.findings document = .ok found) (hd : Distinct (document.flatMap s.found)) : Ascending before found := by
  refine Yields.of_ok (E := fun _ => True) (P := fun r => Ascending before r) ?_ h
  refine Yields.map (P := fun f : Findings => f.all.Perm (document.flatMap s.found) ∧ Ascending before f.all) ?_
    fun f hf => hf.2
  refine Yields.foldlM (I := fun done (f : Findings) => f.all.Perm (done.flatMap s.found) ∧ Ascending before f.all)
    ⟨.refl _, .nil⟩ fun done e f hdone hf => ?_
  cases his : s.issues e.1 e.2 with
  | error err => exact .error trivial
  | ok is =>
    have hloop : is.foldlM (fun found i => found.add (e.1, i)) f = (s.found e).foldlM Findings.add f := by
      rw [found_eq his, List.foldlM_map]
    have hflat : (done ++ [e]).flatMap s.found = done.flatMap s.found ++ s.found e := by simp
    have hperm : (f.all ++ s.found e).Perm ((done ++ [e]).flatMap s.found) := by
      rw [hflat]
      exact hf.1.append_right _
    have hsub : ((done ++ [e]).flatMap s.found).Sublist (document.flatMap s.found) := by
      obtain ⟨rest, hrest⟩ := hdone
      have hall : document.flatMap s.found = (done ++ [e]).flatMap s.found ++ rest.flatMap s.found := by
        rw [← hrest, List.flatMap_append]
      rw [hall]
      exact List.sublist_append_left _ _
    change Yields _ _ (is.foldlM (fun found i => found.add (e.1, i)) f)
    rw [hloop]
    exact (Findings.addAll_ascending ((hd.of_sublist hsub).perm hperm.symm) hf.2).mono (fun _ h => h) fun r hr =>
      ⟨hr.1.trans hperm, hr.2⟩

theorem found_of_name (s : Schema) {es : Value.Entries} (hes : es.Proper) {n : Value} (hn : n.IsText) :
    (es.flatMap s.found).filter (fun x => x.1.same n) =
      ((Value.Keyed.get? n es).map fun v => s.found (n, v)).getD [] := by
  have hsame (v : Value) : v.same n = true ↔ v = n := Value.same_text_iff hn.codes_isSome
  induction es with
  | nil => rfl
  | cons e es ih =>
    obtain ⟨m, v⟩ := e
    rw [List.flatMap_cons, List.filter_append, ih hes.tail, Value.Keyed.get?_cons]
    by_cases hm : m = n
    · subst hm
      have hothers : Value.Keyed.get? m es = none := hes.get?_tail
      have hall : (s.found (m, v)).filter (fun x => x.1.same m) = s.found (m, v) :=
        List.filter_eq_self.mpr fun x hx => (hsame x.1).mpr (name_of_found hx)
      rw [if_pos ((hsame m).mpr rfl), hall, hothers]
      exact List.append_nil _
    · have hnone : (s.found (m, v)).filter (fun x => x.1.same n) = [] :=
        List.filter_eq_nil_iff.mpr fun x hx hxn => hm ((name_of_found hx).symm.trans ((hsame x.1).mp hxn))
      rw [if_neg (mt (hsame m).mp hm), hnone]
      rfl

end Schema

namespace Finding

theorem report_filter (n : Value) (found : List Finding) :
    report n (found.filter fun x => x.1.same n) = report n found := by
  rw [report, report, List.filter_filter]
  simp

theorem get?_map_text {n : Value} (hn : n.IsText) (g : Value → Value) (ns : List Value) :
    Value.Keyed.get? n (ns.map fun m => (m, g m)) = if ns.any (·.same n) then some (g n) else none := by
  induction ns with
  | nil => rfl
  | cons m ns ih =>
    rw [List.map_cons, Value.Keyed.get?_cons, ih, List.any_cons]
    by_cases hm : m.same n
    · rw [if_pos hm, hm, (Value.same_text_iff hn.codes_isSome).mp hm]
      rfl
    · simp [hm]

theorem get?_errors {found : List Finding} (hnames : ∀ x ∈ found, x.1.IsText) {n : Value} (hn : n.IsText) :
    Value.Keyed.get? n (errors found) =
      if (found.filter fun x => x.1.same n).isEmpty then none else some (.list (report n found)) := by
  have hsame (x : Value) (hx : x ∈ found.map (·.1)) (y : Value) (hy : y ∈ found.map (·.1)) :
      x.same y = true ↔ x = y := by
    obtain ⟨z, hz, rfl⟩ := List.mem_map.mp hy
    exact Value.same_text_iff (hnames z hz).codes_isSome
  have hany : (Value.distinct (found.map (·.1))).any (·.same n) = !(found.filter fun x => x.1.same n).isEmpty := by
    rw [Bool.eq_iff_iff, List.any_eq_true]
    simp [(Value.distinct_spec hsame).2]
  rw [errors, get?_map_text hn (fun m => .list (report m found)), hany]
  cases (found.filter fun x => x.1.same n).isEmpty <;> rfl

end Finding

namespace Field

def Strict (f : Field) : Prop := ∀ v is, f.checks v = .ok is → (is.map Issue.rule).Nodup

theorem Strict.issues {f : Field} (hf : f.Strict) {v : Value} {is : List Issue} (h : f.issues v = .ok is) :
    (is.map Issue.rule).Nodup := by
  unfold Field.issues at h
  split at h
  · cases h
    split <;> simp
  · split at h
    · exact hf v is h
    · cases h
      exact List.nodup_singleton _

theorem hexIssues_rules (v : Value) : (hexIssues v).map Issue.rule = [] ∨ (hexIssues v).map Issue.rule = [none] := by
  rw [hexIssues]
  split
  · exact .inl rfl
  · exact .inr rfl

theorem strict_privateState (nullable : Bool) (type : OptionType) : (privateState nullable type).Strict := by
  rintro v _ ⟨⟩
  exact List.nodup_nil

theorem strict_coinKey (nullable : Bool) : (coinKey nullable).Strict := by
  intro v is h
  change keyIssues v = .ok is at h
  rw [keyIssues] at h
  split at h <;> cases h
  · obtain hhex | hhex := hexIssues_rules v <;> simp only [List.map_append, hhex] <;> split <;> split <;>
      simp [Issue.rule]
  · exact List.nodup_nil

theorem strict_address (nullable : Bool) : (address nullable).Strict := by
  intro v is h
  change addressIssues v = .ok is at h
  rw [addressIssues] at h
  split at h <;> cases h
  · split
    · exact List.nodup_singleton _
    · obtain hhex | hhex := hexIssues_rules v <;> simp [hhex]
  · exact List.nodup_nil

theorem strict_witnesses (nullable : Bool) : (witnesses nullable).Strict := by
  intro v is h
  change witnessIssues v = .ok is at h
  cases v with
  | map es =>
    rw [witnessIssues] at h
    cases hn : nameFindings es with
    | error f =>
      rw [hn] at h
      cases h
    | ok found =>
      rw [hn] at h
      cases h
      cases found <;> cases notCallable es <;> simp [Issue.rule]
  | _ =>
    cases h
    exact List.nodup_nil

end Field

namespace Schema
open Finding (Distinct before)

structure InOrder (s : Schema) (es : Value.Entries) (found : List Finding) : Prop where
  all : found.Perm (es.flatMap s.found)
  names : ∀ x ∈ found, x.1.IsText
  ascending : Sorting.Ascending before found

theorem strict_options : ∀ f ∈ options, f.Strict := by
  simp only [options, List.forall_mem_cons]
  exact ⟨Field.strict_privateState _ _, Field.strict_witnesses _, Field.strict_coinKey _, Field.strict_address _, by simp⟩

theorem strict_file : ∀ f ∈ file, f.Strict := by
  simp only [file, List.forall_mem_cons]
  exact ⟨Field.strict_privateState _ _, Field.strict_coinKey _, Field.strict_address _, by simp⟩

section
variable {s : Schema} (hs : ∀ f ∈ s, f.Strict)
include hs

theorem issues_rules {name v : Value} {is : List Issue} (h : s.issues name v = .ok is) : (is.map Issue.rule).Nodup := by
  rw [issues] at h
  cases hf : s.field? name with
  | none =>
    rw [hf] at h
    cases h
    exact List.nodup_singleton _
  | some f =>
    rw [hf] at h
    exact (hs f (mem_of_field? hf)).issues h

theorem found_ranks (e : Value × Value) : ((s.found e).map Finding.rank).Nodup := by
  rw [found]
  cases his : s.issues e.1 e.2 with
  | error f => exact List.nodup_nil
  | ok is =>
    have hranks : (is.map (e.1, ·)).map Finding.rank =
        (is.map Issue.rule).map fun r => toLex (e.1.codePoints, Finding.ruleRank r) := by
      rw [List.map_map, List.map_map]
      rfl
    change ((is.map (e.1, ·)).map Finding.rank).Nodup
    rw [hranks]
    exact (issues_rules hs his).map fun a b h => congrArg (fun r => (ofLex r).2) h

theorem distinct_found {es : Value.Entries} (hes : es.Proper) (htext : ∀ e ∈ es, e.1.IsText) :
    Distinct (es.flatMap s.found) where
  names x hx := by
    obtain ⟨e, he, hx⟩ := List.mem_flatMap.mp hx
    rw [name_of_found hx]
    exact htext e he
  ranks := by
    rw [List.map_flatMap, List.nodup_flatMap]
    refine ⟨fun e _ => found_ranks hs e, hes.apart.imp_of_mem fun {d e} hd he hde => ?_⟩
    intro r hrd hre
    obtain ⟨x, hx, rfl⟩ := List.mem_map.mp hrd
    obtain ⟨y, hy, hxy⟩ := List.mem_map.mp hre
    have hcodes : y.1.codePoints = x.1.codePoints := congrArg (fun r => (ofLex r).1) hxy
    rw [name_of_found hx, name_of_found hy] at hcodes
    have heq : e.1 = d.1 := (htext e he).eq_of_codePoints (htext d hd) hcodes
    rw [heq, hes.self d hd] at hde
    cases hde.1

end

theorem inOrder_of_distinct {s : Schema} (hs : ∀ f ∈ s, f.Regular) {es : Value.Entries} {found : List Finding}
    (h : s.findings es = .ok found) (hd : Distinct (es.flatMap s.found)) : s.InOrder es found := by
  have hall : found.Perm (es.flatMap s.found) := ((findings_yields hs es).of_ok h).2
  exact ⟨hall, (hd.perm hall.symm).names, findings_ascending h hd⟩

theorem exists_inOrder {s : Schema} (hs : ∀ f ∈ s, f.Regular) (hstrict : ∀ f ∈ s, f.Strict) {es : Value.Entries}
    (hes : es.Proper) (htext : ∀ e ∈ es, e.1.IsText)
    (hown : ∀ e ∈ es, ∃ is, s.issues e.1 e.2 = .ok is ∧ ∀ i ∈ is, i.Own) :
    ∃ found, s.findings es = .ok found ∧ s.InOrder es found := by
  have hplain : s.Plain es := by
    intro e he
    obtain ⟨is, his, hi⟩ := hown e he
    refine ⟨⟨is, his⟩, fun x hx => ?_⟩
    rw [found_eq his] at hx
    obtain ⟨i, hmem, rfl⟩ := List.mem_map.mp hx
    exact ⟨(htext e he).isPlain, (hi i hmem).plain⟩
  cases hfound : s.findings es with
  | error e => exact absurd hplain ((findings_yields hs es).of_error hfound).2
  | ok found => exact ⟨found, rfl, inOrder_of_distinct hs hfound (distinct_found hstrict hes htext)⟩

/-- The same findings about an option are reported alike, whatever else is found. -/
theorem InOrder.reported_alike {s t : Schema} {es fs : Value.Entries} {found found' : List Finding}
    (h : s.InOrder es found) (h' : t.InOrder fs found') {n : Value} (hn : n.IsText)
    (hsame : ((es.flatMap s.found).filter fun x => x.1.same n) = (fs.flatMap t.found).filter fun x => x.1.same n) :
    Value.Keyed.get? n (Finding.errors found) = Value.Keyed.get? n (Finding.errors found') := by
  have hfilter : (found.filter fun x => x.1.same n) = found'.filter fun x => x.1.same n := by
    have hown := h.all.filter fun x : Finding => x.1.same n
    have hown' := h'.all.filter fun x : Finding => x.1.same n
    rw [← hsame] at hown'
    exact Finding.eq_of_ascending (h.ascending.sublist List.filter_sublist) (h'.ascending.sublist List.filter_sublist)
      (hown.trans hown'.symm)
  rw [Finding.get?_errors h.names hn, Finding.get?_errors h'.names hn, ← Finding.report_filter n found,
    ← Finding.report_filter n found', hfilter]

end Schema
end CircuitHarness
