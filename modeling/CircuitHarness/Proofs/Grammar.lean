import Mathlib
import CircuitHarness.Proofs.Findings
import CircuitHarness.Proofs.Hex

/-! Which options are accepted. They keep to a grammar, but for one line feed that may stand behind the digits of a key or
an address; a key with a line feed behind it cannot be decoded. -/
namespace CircuitHarness

def Hex.IsDigitCode (n : Nat) : Prop := 48 ≤ n ∧ n ≤ 57 ∨ 65 ≤ n ∧ n ≤ 70 ∨ 97 ≤ n ∧ n ≤ 102

theorem Hex.isDigit_iff (c : Char) : isDigit c = true ↔ IsDigitCode c.toNat := by
  rw [isDigit, digit?_eq, IsDigitCode]
  split
  · simp [*]
  · split
    · simp [*]
    · split
      · simp [*]
      · simp only [Option.isSome_none, Bool.false_eq_true, false_iff]
        omega

namespace Hex

theorem IsDigitCode.ascii {n : Nat} (h : IsDigitCode n) : 0 < n ∧ n < 128 := by
  rw [IsDigitCode] at h
  omega

/-- Two digits make a byte, and with one left over before a line feed nothing can be read. -/
theorem decodeFrom_digits (n : Nat) (cs : List Char) (h : ∀ c ∈ cs, isDigit c) :
    (cs.length % 2 = 0 → ∃ k, decodeFrom n cs = .ok k ∧ 2*k.length = cs.length) ∧
      (cs.length % 2 = 1 → ∃ m, decodeFrom n (cs ++ ['\n']) = .error m) := by
  match cs with
  | [] => exact ⟨fun _ => ⟨[], rfl, rfl⟩, nofun⟩
  | [c] =>
    refine ⟨nofun, fun _ => ?_⟩
    obtain ⟨i, hi⟩ := Option.isSome_iff_exists.mp (h c List.mem_cons_self)
    refine ⟨n+1, ?_⟩
    rw [List.singleton_append, decodeFrom, isBlank_of_digit hi, hi]
    rfl
  | c :: d :: r =>
    obtain ⟨i, hi⟩ := Option.isSome_iff_exists.mp (h c (by simp))
    obtain ⟨j, hj⟩ := Option.isSome_iff_exists.mp (h d (by simp))
    obtain ⟨heven, hodd⟩ := decodeFrom_digits (n+2) r fun x hx => h x (by simp [hx])
    have hlength : (c :: d :: r).length = r.length+2 := rfl
    refine ⟨fun hr => ?_, fun hr => ?_⟩
    · obtain ⟨k, hk, hkr⟩ := heven (by omega)
      refine ⟨byte i j :: k, by rw [decodeFrom_pair hi hj, hk]; rfl, ?_⟩
      rw [List.length_cons, hlength]
      omega
    · obtain ⟨m, hm⟩ := hodd (by omega)
      exact ⟨m, by rw [List.cons_append, List.cons_append, decodeFrom_pair hi hj, hm]; rfl⟩

end Hex

namespace Surrogate

theorem toNat_ofNat (n : Nat) : (Char.ofNat n).toNat = n ∨ (Char.ofNat n).toNat = 0 := by
  rw [Char.ofNat]
  split
  · exact .inl rfl
  · exact .inr rfl

theorem toNat_char {n : Nat} (h : n < 128) : (char n).toNat = n := by
  have hhalf : isHalf n = false := by
    simp only [isHalf, isHigh, isLow, Bool.or_eq_false_iff, Bool.and_eq_false_iff, decide_eq_false_iff_not]
    omega
  rw [char, hhalf, if_neg Bool.false_ne_true, Char.ofNat, dif_pos (.inl (by omega))]
  rfl

theorem toNat_char_of_ascii {n : Nat} (h : 0 < (char n).toNat ∧ (char n).toNat < 128) : (char n).toNat = n := by
  rw [char] at h ⊢
  split at h
  · exact absurd h.2 (by decide)
  · rename_i hhalf
    rw [if_neg hhalf]
    have hn := toNat_ofNat n
    omega

theorem chars_ascii {cs : List Nat} (h : (∀ c ∈ chars cs, 0 < c.toNat ∧ c.toNat < 128) ∨ ∀ n ∈ cs, n < 128) :
    (chars cs).map Char.toNat = cs := by
  have hone {n : Nat} (h : (0 < (char n).toNat ∧ (char n).toNat < 128) ∨ n < 128) : (char n).toNat = n :=
    h.elim toNat_char_of_ascii toNat_char
  induction cs using chars.induct with
  | case1 => rfl
  | case2 n =>
    rw [chars, List.map_singleton, hone (h.imp (fun h => h _ List.mem_cons_self) fun h => h n List.mem_cons_self)]
  | case3 n m r hpair ih =>
    have hhigh : 0xd800 ≤ n := by
      simp only [isHigh, Bool.and_eq_true, decide_eq_true_eq] at hpair
      exact hpair.1.1
    obtain h | h := h
    · have hjoined := h (Char.ofNat (join n m)) (by rw [chars, if_pos hpair]; exact List.mem_cons_self)
      have hbig : 0x10000 ≤ join n m := Nat.le_trans (Nat.le_add_right _ _) (Nat.le_add_right _ _)
      generalize join n m = k at hjoined hbig
      have hk := toNat_ofNat k
      omega
    · have hn := h n List.mem_cons_self
      omega
  | case4 n m r hpair ih =>
    rw [chars, if_neg hpair] at h ⊢
    rw [List.map_cons, hone (h.imp (fun h => h _ List.mem_cons_self) fun h => h n List.mem_cons_self)]
    rw [ih (h.imp (fun h c hc => h c (List.mem_cons_of_mem _ hc)) fun h k hk => h k (List.mem_cons_of_mem n hk))]

end Surrogate

theorem Value.text_codes {v : Value} {cs : List Nat} (hv : v.codes? = some cs)
    (h : (∀ c ∈ v.text.toList, 0 < c.toNat ∧ c.toNat < 128) ∨ ∀ n ∈ cs, n < 128) : v.text.toList.map Char.toNat = cs := by
  cases v with
  | str s =>
    cases hv
    rfl
  | codes ds =>
    cases hv
    have htext : (Value.codes cs).text.toList = Surrogate.chars cs := by
      rw [Value.text, Surrogate.text, String.toList_ofList]
    rw [htext] at h ⊢
    exact Surrogate.chars_ascii h
  | _ => cases hv

def Hex.Ended (cs : List Nat) : Prop :=
  (∀ c ∈ cs, IsDigitCode c) ∨ ∃ ds, cs = ds ++ [10] ∧ ∀ c ∈ ds, IsDigitCode c

namespace Field

theorem isHex_iff (s : String) : isHex s = true ↔ Hex.Ended (s.toList.map Char.toNat) := by
  rw [isHex]
  generalize s.toList = cs
  have hall (cs : List Char) : cs.all Hex.isDigit = true ↔ ∀ c ∈ cs.map Char.toNat, Hex.IsDigitCode c := by
    simp [Hex.isDigit_iff]
  have hfeed (ds : List Char) : (ds ++ ['\n']).map Char.toNat = ds.map Char.toNat ++ [10] := by simp
  split
  · rename_i hlast
    have hcs : cs = cs.dropLast ++ ['\n'] := (List.getLast?_eq_some_iff.mp hlast).elim fun ds h => by simp [h]
    rw [hall]
    refine ⟨fun h => .inr ⟨_, ?_, h⟩, fun h => ?_⟩
    · rw [← hfeed, ← hcs]
    · rw [hcs, hfeed] at h
      obtain h | ⟨ds, hds, h⟩ := h
      · exact absurd (h 10 (by simp)) (by rw [Hex.IsDigitCode]; omega)
      · rwa [List.append_cancel_right hds]
  · rename_i hlast
    rw [hall]
    refine ⟨.inl, fun h => h.elim id ?_⟩
    rintro ⟨ds, hds, -⟩
    obtain ⟨l, r, rfl, -, hr⟩ := List.map_eq_append_iff.mp hds
    obtain ⟨c, rfl, hc⟩ := List.map_eq_singleton_iff.mp hr
    have hfeed : c = '\n' := Char.toNat_inj.mp hc
    simp [hfeed] at hlast

theorem isHex_text {v : Value} {cs : List Nat} (hv : v.codes? = some cs) :
    isHex v.text = true ↔ Hex.Ended cs := by
  have hascii {ns : List Nat} (h : Hex.Ended ns) : ∀ n ∈ ns, 0 < n ∧ n < 128 := by
    obtain h | ⟨ds, rfl, h⟩ := h
    · exact fun n hn => (h n hn).ascii
    · intro n hn
      obtain hn | hn := List.mem_append.mp hn
      · exact (h n hn).ascii
      · rw [List.mem_singleton.mp hn]
        omega
  rw [isHex_iff]
  refine ⟨fun h => ?_, fun h => ?_⟩
  · rwa [Value.text_codes hv (.inl fun c hc => hascii h _ (List.mem_map_of_mem hc))] at h
  · rwa [Value.text_codes hv (.inr fun n hn => (hascii h n hn).2)]

theorem nameIssue_none_iff (v : Value) : nameIssue v = none ↔ ∃ c cs, v.codes? = some (c :: cs) := by
  unfold nameIssue
  split
  · simp [Value.codes?]
  · cases v.codes? with
    | none => simp
    | some cs => cases cs <;> simp

theorem notCallable_nil_iff (es : Value.Entries) : notCallable es = [] ↔ ∀ e ∈ es, e.2.isCallable := by
  rw [notCallable, ← List.length_eq_zero_iff, List.length_mergeSort, List.length_eq_zero_iff]
  simp

theorem witnessIssues_nil_iff (es : Value.Entries) :
    witnessIssues (.map es) = .ok [] ↔ ∀ e ∈ es, (∃ c cs, e.1.codes? = some (c :: cs)) ∧ e.2.isCallable := by
  have hnames : nameFound es = [] ↔ ∀ e ∈ es, ∃ c cs, e.1.codes? = some (c :: cs) := by
    simp only [nameFound, List.filterMap_eq_nil_iff, Option.map_eq_none_iff, nameIssue_none_iff]
  have hsplit : (∀ e ∈ es, (∃ c cs, e.1.codes? = some (c :: cs)) ∧ e.2.isCallable) ↔
      nameFound es = [] ∧ notCallable es = [] := by
    rw [hnames, notCallable_nil_iff]
    exact ⟨fun h => ⟨fun e he => (h e he).1, fun e he => (h e he).2⟩, fun h e he => ⟨h.1 e he, h.2 e he⟩⟩
  rw [hsplit, witnessIssues]
  cases hf : nameFindings es with
  | error e =>
    refine ⟨fun h => ?_, fun h => ?_⟩
    · cases h
    · refine absurd (fun x hx => ?_) ((nameFindings_yields es).of_error hf).2
      rw [h.1] at hx
      cases hx
  | ok found =>
    have hperm : found.Perm (nameFound es) := (nameFindings_yields es).of_ok hf
    have hfound : nameFound es = [] ↔ found = [] :=
      ⟨fun h => (h ▸ hperm).eq_nil, fun h => (h ▸ hperm).nil_eq.symm⟩
    rw [hfound]
    cases found <;> cases notCallable es <;> simp [pure, Except.pure, bind, Except.bind]

theorem keyIssues_nil_iff {v : Value} {cs : List Nat} (hv : v.codes? = some cs) :
    keyIssues v = .ok [] ↔ cs.length = Key.hexLength ∧ Hex.Ended cs := by
  simp only [keyIssues, hv, hexIssues, ← isHex_text hv, Except.ok.injEq, List.append_eq_nil_iff]
  cases isHex v.text with
  | true =>
    simp only [↓reduceIte, true_and, and_true]
    split <;> split <;> simp <;> omega
  | false => simp

theorem addressIssues_nil_iff {v : Value} {cs : List Nat} (hv : v.codes? = some cs) :
    addressIssues v = .ok [] ↔ 0 < cs.length ∧ Hex.Ended cs := by
  simp only [addressIssues, hv, hexIssues, ← isHex_text hv, Except.ok.injEq]
  cases cs <;> simp

end Field

namespace Options

def given? : Value → Option Value.Entries
  | .none => some []
  | .map es => some es
  | .record t fs => if t = typeName then some (ofFields fs).document else none
  | _ => none

def Digits (allowed : Nat → Prop) (v : Value) : Prop :=
  ∃ cs, v.codes? = some cs ∧ allowed cs.length ∧ ∀ c ∈ cs, Hex.IsDigitCode c

def DigitsAndFeed (allowed : Nat → Prop) (v : Value) : Prop :=
  ∃ ds, v.codes? = some (ds ++ [10]) ∧ allowed (ds.length+1) ∧ ∀ c ∈ ds, Hex.IsDigitCode c

def Table (v : Value) : Prop :=
  ∃ es, v = .map es ∧ ∀ e ∈ es, (∃ c cs, e.1.codes? = some (c :: cs)) ∧ e.2.isCallable

/-- What an option is meant to be. -/
def Grammatical (v : Value) : String → Prop
  | "private_state" => True
  | "witnesses" => v = .none ∨ Table v
  | "coin_pk" => v = .none ∨ Digits (· = 64) v
  | "contract_address" => v = .none ∨ Digits (0 < ·) v
  | _ => False

/-- What is let through besides, because a line feed at the end is not looked at. -/
def Slipped (v : Value) : String → Prop
  | "coin_pk" => DigitsAndFeed (· = 64) v
  | "contract_address" => DigitsAndFeed (0 < ·) v
  | _ => False

theorem not_digits {allowed : Nat → Prop} {v : Value} (ds : List Nat) (hv : v.codes? = some (ds ++ [10])) :
    ¬Digits allowed v := by
  rintro ⟨cs, hcs, -, h⟩
  rw [hv] at hcs
  cases hcs
  exact absurd (h 10 (by simp)) (by rw [Hex.IsDigitCode]; omega)

theorem digits_or_feed {allowed : Nat → Prop} {v : Value} {cs : List Nat} (hv : v.codes? = some cs) :
    Digits allowed v ∨ DigitsAndFeed allowed v ↔ allowed cs.length ∧ Hex.Ended cs := by
  rw [Digits, DigitsAndFeed, hv]
  constructor
  · rintro (⟨_, ⟨rfl⟩, hlength, h⟩ | ⟨ds, ⟨rfl⟩, hlength, h⟩)
    · exact ⟨hlength, .inl h⟩
    · exact ⟨by rwa [List.length_append], .inr ⟨ds, rfl, h⟩⟩
  · rintro ⟨hlength, h | ⟨ds, rfl, h⟩⟩
    · exact .inl ⟨cs, rfl, hlength, h⟩
    · exact .inr ⟨ds, rfl, by rwa [List.length_append] at hlength, h⟩

theorem text_issues_iff {f : Field} (hnull : f.nullable = true) (htype : f.type = .text) {allowed : Nat → Prop}
    (hchecks : ∀ v cs, v.codes? = some cs → (f.checks v = .ok [] ↔ allowed cs.length ∧ Hex.Ended cs)) (v : Value) :
    f.issues v = .ok [] ↔ v = .none ∨ (Digits allowed v ∨ DigitsAndFeed allowed v) := by
  have hother (hv : v.codes? = none) : ¬(Digits allowed v ∨ DigitsAndFeed allowed v) := by
    rw [Digits, DigitsAndFeed, hv]
    rintro (⟨cs, ⟨⟩, -⟩ | ⟨ds, ⟨⟩, -⟩)
  have htext {cs : List Nat} (hv : v.codes? = some cs) (hne : v ≠ .none) :
      f.checks v = .ok [] ↔ v = .none ∨ (Digits allowed v ∨ DigitsAndFeed allowed v) := by
    rw [hchecks v cs hv, digits_or_feed hv, or_iff_right hne]
  cases v with
  | none => simp [Field.issues, hnull]
  | str s => simpa [Field.issues, htype, OptionType.admits] using htext rfl (by simp)
  | codes cs => simpa [Field.issues, htype, OptionType.admits] using htext rfl (by simp)
  | _ => simpa [Field.issues, htype, OptionType.admits] using hother rfl

theorem witnesses_issues_iff (v : Value) : (Field.witnesses true).issues v = .ok [] ↔ v = .none ∨ Table v := by
  cases v with
  | none => simp [Field.issues, Field.witnesses]
  | map es =>
    have hchecks : (Field.witnesses true).issues (.map es) = Field.witnessIssues (.map es) := rfl
    rw [hchecks, Field.witnessIssues_nil_iff]
    simp [Table]
  | _ => simp [Field.issues, Field.witnesses, OptionType.admits, Table]

theorem issues_nil_iff (name v : Value) :
    Schema.options.issues name v = .ok [] ↔ ∃ n, name = .str n ∧ (Grammatical v n ∨ Slipped v n) := by
  cases name with
  | str n =>
    have hn : (∃ m, Value.str n = .str m ∧ (Grammatical v m ∨ Slipped v m)) ↔ Grammatical v n ∨ Slipped v n := by
      simp
    rw [hn]
    by_cases hstate : n = "private_state"
    · subst hstate
      have hissues : Schema.options.issues (.str "private_state") v = .ok [] := by cases v <;> rfl
      exact iff_of_true hissues (.inl trivial)
    by_cases hwitnesses : n = "witnesses"
    · subst hwitnesses
      change (Field.witnesses true).issues v = .ok [] ↔ (v = .none ∨ Table v) ∨ False
      rw [or_false]
      exact witnesses_issues_iff v
    by_cases hkey : n = "coin_pk"
    · subst hkey
      change (Field.coinKey true).issues v = .ok [] ↔ (v = .none ∨ Digits (· = 64) v) ∨ DigitsAndFeed (· = 64) v
      rw [or_assoc]
      exact text_issues_iff rfl rfl (fun v cs hv => Field.keyIssues_nil_iff hv) v
    by_cases haddress : n = "contract_address"
    · subst haddress
      change (Field.address true).issues v = .ok [] ↔ (v = .none ∨ Digits (0 < ·) v) ∨ DigitsAndFeed (0 < ·) v
      rw [or_assoc]
      exact text_issues_iff rfl rfl (fun v cs hv => Field.addressIssues_nil_iff hv) v
    · have hissues : Schema.options.issues (.str n) v = .ok [.unknown] := by
        simp [Schema.issues, Schema.field?, Schema.options, Field.privateState, Field.witnesses, Field.coinKey,
          Field.address, Ne.symm hstate, Ne.symm hwitnesses, Ne.symm hkey, Ne.symm haddress]
      have hnone : ¬(Grammatical v n ∨ Slipped v n) := by simp [Grammatical, Slipped, *]
      rw [hissues]
      exact iff_of_false (by simp) hnone
  | _ => simp [Schema.issues, Schema.field?]

section
variable [Limits]

theorem validateDocument_iff (es : Value.Entries) (o : Options) :
    validateDocument es = .ok o ↔ (∀ e ∈ es, Schema.options.issues e.1 e.2 = .ok []) ∧ o = ofDocument es := by
  rw [← Schema.checkValues_ok_iff Schema.regular_options]
  change (Schema.options.checkValues es >>= fun _ => .ok (ofDocument es)) = .ok o ↔ Schema.options.checkValues es = .ok () ∧ _
  cases Schema.options.checkValues es with
  | error e => simp [bind, Except.bind]
  | ok u => simp [bind, Except.bind, eq_comm]

theorem validate_of_given {options : Value} {es : Value.Entries} (h : given? options = some es) :
    validate options = validateDocument es := by
  cases options with
  | none =>
    cases h
    rfl
  | map fs =>
    cases h
    rfl
  | record t fs =>
    rw [given?] at h
    split at h
    · rename_i ht
      cases h
      simp [validate, ht]
    · cases h
  | _ => cases h

theorem validate_of_not_given {options : Value} (h : given? options = none) :
    ∃ type, validate options = validate.refuse type := by
  cases options with
  | none | map es => cases h
  | record t fs =>
    rw [given?] at h
    split at h
    · cases h
    · rename_i ht
      exact ⟨t, by simp [validate, ht]⟩
  | _ => exact ⟨_, rfl⟩

theorem validate_iff (v : Value) (o : Options) :
    validate v = .ok o ↔ ∃ es, given? v = some es ∧ (∀ e ∈ es, Schema.options.issues e.1 e.2 = .ok []) ∧
      o = ofDocument es := by
  cases hv : given? v with
  | none =>
    obtain ⟨type, hrefused⟩ := validate_of_not_given hv
    simp [hrefused, validate.refuse]
  | some es =>
    rw [validate_of_given hv, validateDocument_iff]
    simp

end

theorem eq_ofDocument_iff (o : Options) (es : Value.Entries) :
    o = ofDocument es ↔ ∀ f ∈ o.fields, f.2 = .ofOption (Value.Keyed.get? (.str f.1) es) := by
  cases o
  simp [ofDocument, fields]

theorem ofHex_digits {s : String} (h : Digits (· = 64) (.str s)) : ∃ k, Key.ofHex s = .ok k ∧ k.length = 32 := by
  obtain ⟨_, ⟨rfl⟩, hlength, h⟩ := h
  have hdigits (c : Char) (hc : c ∈ s.toList) : Hex.IsDigitCode c.toNat := h _ (List.mem_map_of_mem hc)
  obtain ⟨heven, -⟩ := Hex.decodeFrom_digits 0 s.toList fun c hc => (Hex.isDigit_iff c).mpr (hdigits c hc)
  rw [List.length_map] at hlength
  obtain ⟨k, hk, hkl⟩ := heven (by omega)
  refine ⟨k, ?_, by omega⟩
  rw [Key.ofHex, Hex.decode_ascii fun c hc => (hdigits c hc).ascii.2, hk]

theorem ofHex_feed {s : String} (h : DigitsAndFeed (· = 64) (.str s)) : ∃ e, Key.ofHex s = .error e := by
  obtain ⟨ds, hs, hlength, h⟩ := h
  injection hs with hs
  obtain ⟨l, r, hlr, rfl, hr⟩ := List.map_eq_append_iff.mp hs
  obtain ⟨c, rfl, hc⟩ := List.map_eq_singleton_iff.mp hr
  have hfeed : c = '\n' := Char.toNat_inj.mp hc
  subst hfeed
  have hdigits (c : Char) (hc : c ∈ l) : Hex.IsDigitCode c.toNat := h _ (List.mem_map_of_mem hc)
  have hascii (c : Char) (hc : c ∈ s.toList) : c.toNat < 128 := by
    rw [hlr] at hc
    obtain hc | hc := List.mem_append.mp hc
    · exact (hdigits c hc).ascii.2
    · rw [List.mem_singleton.mp hc]
      decide
  obtain ⟨-, hodd⟩ := Hex.decodeFrom_digits 0 l fun c hc => (Hex.isDigit_iff c).mpr (hdigits c hc)
  rw [List.length_map] at hlength
  obtain ⟨m, hm⟩ := hodd (by omega)
  exact ⟨.notHex m, by rw [Key.ofHex, Hex.decode_ascii hascii, hlr, hm]⟩

theorem ofHex_iff {s : String} (h : Grammatical (.str s) "coin_pk" ∨ Slipped (.str s) "coin_pk") :
    (∃ k, Key.ofHex s = .ok k ∧ k.length = 32) ↔ ¬Slipped (.str s) "coin_pk" := by
  by_cases hslipped : Slipped (.str s) "coin_pk"
  · obtain ⟨e, he⟩ := ofHex_feed hslipped
    refine iff_of_false ?_ fun hno => hno hslipped
    rintro ⟨k, hk, -⟩
    rw [he] at hk
    cases hk
  · obtain ⟨⟨⟩⟩ | hdigits := h.resolve_right hslipped
    exact iff_of_true (ofHex_digits hdigits) hslipped

theorem mem_of_get? {es : Value.Entries} (hes : ∀ e ∈ es, ∃ n, e.1 = .str n) {n : String} {v : Value}
    (h : Value.Keyed.get? (.str n) es = some v) : (.str n, v) ∈ es := by
  obtain ⟨e, he, rfl⟩ := Option.map_eq_some_iff.mp h
  have hmem : e ∈ es := List.mem_of_find?_eq_some he
  have hsame := List.find?_some he
  obtain ⟨m, hm⟩ := hes e hmem
  have hmn : m = n := by simpa [hm, Value.same] using hsame
  rw [← hmn, ← hm]
  exact hmem

/-- Options are accepted if each keeps to the grammar or is one of the texts let through besides, and then they hold what
was given. A key so accepted decodes to 32 bytes if and only if it was not one of those. -/
theorem accepted_iff [Limits] (v : Value) (o : Options) :
    (validate v = .ok o ↔ ∃ es, given? v = some es ∧
        (∀ e ∈ es, ∃ n, e.1 = .str n ∧ (Grammatical e.2 n ∨ Slipped e.2 n)) ∧
        ∀ f ∈ o.fields, f.2 = .ofOption (Value.Keyed.get? (.str f.1) es)) ∧
      (validate v = .ok o → ∀ s, o.coinKey = .str s →
        ((∃ k, Key.ofHex s = .ok k ∧ k.length = 32) ↔ ¬Slipped (.str s) "coin_pk")) := by
  have hiff := validate_iff v o
  simp only [issues_nil_iff, eq_ofDocument_iff] at hiff
  refine ⟨hiff, fun h s hs => ofHex_iff ?_⟩
  obtain ⟨es, -, hes, hfields⟩ := hiff.mp h
  have hkey : o.coinKey = .ofOption (Value.Keyed.get? (.str "coin_pk") es) :=
    hfields ("coin_pk", o.coinKey) (by simp [fields])
  rw [hs] at hkey
  cases hget : Value.Keyed.get? (.str "coin_pk") es with
  | none =>
    rw [hget] at hkey
    cases hkey
  | some w =>
    rw [hget] at hkey
    cases hkey
    obtain ⟨_, ⟨rfl⟩, h⟩ := hes _ (mem_of_get? (fun e he => (hes e he).imp fun _ h => h.1) hget)
    exact h

theorem zeroKey_is_accepted :
    let o : Options := { coinKey := .str Key.zeroText }
    validate (.map [(.str "coin_pk", .str Key.zeroText)]) = .ok o ∧
      ∃ k, Key.ofHex Key.zeroText = .ok k ∧ k.length = 32 := by
  intro o
  obtain ⟨hiff, hdecodes⟩ := accepted_iff (.map [(.str "coin_pk", .str Key.zeroText)]) o
  have hdigits : Digits (· = 64) (.str Key.zeroText) := by
    refine ⟨List.replicate 64 48, by cbv, by cbv, fun c hc => ?_⟩
    rw [List.eq_of_mem_replicate hc]
    exact .inl (by decide)
  have hfeed : ¬Slipped (.str Key.zeroText) "coin_pk" := (ofHex_iff (.inl (.inr hdigits))).mp (ofHex_digits hdigits)
  have haccepted : validate (.map [(.str "coin_pk", .str Key.zeroText)]) = .ok o := by
    refine hiff.mpr ⟨_, rfl, fun e he => ?_, ?_⟩
    · rw [List.mem_singleton.mp he]
      exact ⟨_, rfl, .inl (.inr hdigits)⟩
    · simp [o, fields, Value.Keyed.get?, Value.same, Value.ofOption]
  exact ⟨haccepted, (hdecodes haccepted _ rfl).mpr hfeed⟩

def fedKey : String := String.ofList (List.replicate 63 '0' ++ ['\n'])

/-- A key that is let through and cannot be decoded, and an address without a digit. -/
theorem fedKey_is_accepted :
    (validate (.map [(.str "coin_pk", .str fedKey), (.str "contract_address", .str "\n")]) =
        .ok { coinKey := .str fedKey, address := .str "\n" }) ∧
      ¬Grammatical (.str fedKey) "coin_pk" ∧ ¬Grammatical (.str "\n") "contract_address" ∧
      Key.ofHex fedKey = .error (.notHex 63) := by
  refine ⟨?_, ?_, ?_, ?_⟩
  · cbv
  · rintro (h | h)
    · cases h
    · exact not_digits (List.replicate 63 48) (by cbv) h
  · rintro (h | h)
    · cases h
    · exact not_digits [] (by cbv) h
  · cbv

end Options
end CircuitHarness
