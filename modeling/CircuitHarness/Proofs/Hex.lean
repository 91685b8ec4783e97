import CircuitHarness.Address

/-! Pairs of hexadecimal digits in either case always read as bytes, and a text that is, in lower case, how some bytes
are written reads as those bytes. -/
namespace CircuitHarness
namespace Hex

theorem toNat_digitChar {n : Nat} (h : n < 16) : (digitChar n).toNat = if n < 10 then 48+n else 87+n := by
  revert n
  decide

theorem toNat_toLower (c : Char) :
    c.toLower.toNat = if 65 ≤ c.toNat ∧ c.toNat ≤ 90 then c.toNat+32 else c.toNat := by
  unfold Char.toLower
  simp only [Char.toNat, ge_iff_le, UInt32.le_iff_toNat_le]
  split
  · rename_i h
    change 65 ≤ c.val.toNat ∧ c.val.toNat ≤ 90 at h
    rw [if_pos h, UInt32.toNat_add]
    change (c.val.toNat+32)%4294967296 = _
    omega
  · rename_i h
    change ¬(65 ≤ c.val.toNat ∧ c.val.toNat ≤ 90) at h
    rw [if_neg h]

theorem digit?_eq (c : Char) : digit? c =
    if 48 ≤ c.toNat ∧ c.toNat ≤ 57 then some (c.toNat-48)
    else if 97 ≤ c.toNat ∧ c.toNat ≤ 102 then some (c.toNat-87)
    else if 65 ≤ c.toNat ∧ c.toNat ≤ 70 then some (c.toNat-55)
    else none := by
  simp only [digit?, Char.le_def, UInt32.le_iff_toNat_le]
  rfl

theorem digit?_of_lower {c : Char} {n : Nat} (hn : n < 16) (h : c.toLower = digitChar n) : digit? c = some n := by
  have hc : c.toLower.toNat = (digitChar n).toNat := by rw [h]
  rw [toNat_toLower, toNat_digitChar hn] at hc
  rw [digit?_eq]
  grind

theorem digit?_bound {c : Char} {n : Nat} (h : digit? c = some n) : 48 ≤ c.toNat ∧ c.toNat < 128 := by
  rw [digit?_eq] at h
  grind

theorem isBlank_of_digit {c : Char} {n : Nat} (h : digit? c = some n) : isBlank c = false := by
  have hb : 48 ≤ c.toNat ∧ c.toNat < 128 := digit?_bound h
  have hs : c ≠ ' ' := by
    rintro rfl
    exact absurd hb.1 (by decide)
  simp only [isBlank, Bool.or_eq_false_iff, decide_eq_false_iff_not, Bool.and_eq_false_iff]
  exact ⟨hs, .inr (by omega)⟩

theorem decodeFrom_pair {c d : Char} {i j : Nat} (hc : digit? c = some i) (hd : digit? d = some j) (n : Nat)
    (r : List Char) : decodeFrom n (c :: d :: r) = (decodeFrom (n+2) r).map (byte i j :: ·) := by
  rw [decodeFrom, isBlank_of_digit hc, hc, hd]
  rfl

theorem decode_ascii {s : String} (h : ∀ c ∈ s.toList, c.toNat < 128) : decode s = decodeFrom 0 s.toList := by
  have hn : s.toList.findIdx? (127 < ·.toNat) = none := by
    rw [List.findIdx?_eq_none_iff]
    intro c hc
    have hb : c.toNat < 128 := h c hc
    simp only [decide_eq_false_iff_not]
    omega
  rw [decode, hn]

theorem decode_eq {s : String} (h : ∀ c ∈ s.toList, ∃ n, digit? c = some n) : decode s = decodeFrom 0 s.toList :=
  decode_ascii fun c hc =>
    have ⟨_, hd⟩ := h c hc
    (digit?_bound hd).2

theorem byte_halves (b : UInt8) : byte (b.toNat/16) (b.toNat%16) = b := by
  rw [byte, Nat.div_add_mod, UInt8.ofNat_toNat]

theorem digits_of_lower {cs : List Char} {k : List UInt8} (h : cs.map Char.toLower = encodeChars k) :
    (∀ c ∈ cs, ∃ n, digit? c = some n) ∧ ∀ n, decodeFrom n cs = .ok k := by
  induction k generalizing cs with
  | nil =>
    rw [encodeChars, List.map_eq_nil_iff] at h
    subst h
    exact ⟨by simp, fun n => rfl⟩
  | cons b k ih =>
    rw [encodeChars, List.map_eq_cons_iff] at h
    obtain ⟨c, cs, rfl, hc, h⟩ := h
    rw [List.map_eq_cons_iff] at h
    obtain ⟨d, cs, rfl, hd, h⟩ := h
    have hb : b.toNat < 256 := b.toNat_lt
    have hi : digit? c = some (b.toNat/16) := digit?_of_lower (by omega) hc
    have hj : digit? d = some (b.toNat%16) := digit?_of_lower (by omega) hd
    obtain ⟨hall, hdec⟩ := ih h
    refine ⟨?_, fun n => ?_⟩
    · intro x hx
      simp only [List.mem_cons] at hx
      obtain rfl | rfl | hx := hx
      · exact ⟨_, hi⟩
      · exact ⟨_, hj⟩
      · exact hall x hx
    · rw [decodeFrom_pair hi hj, hdec, byte_halves]
      rfl

theorem decode_of_lower {s : String} {k : List UInt8} (h : s.map Char.toLower = encode k) : decode s = .ok k := by
  have hc : s.toList.map Char.toLower = encodeChars k := by
    rw [← String.toList_map, h, encode, String.toList_ofList]
  obtain ⟨hall, hdec⟩ := digits_of_lower hc
  rw [decode_eq hall, hdec]

theorem toLower_digitChar {n : Nat} (h : n < 16) : (digitChar n).toLower = digitChar n := by
  revert n
  decide

theorem toLower_encodeChars (k : List UInt8) : (encodeChars k).map Char.toLower = encodeChars k := by
  induction k with
  | nil => rfl
  | cons b k ih =>
    have hb : b.toNat < 256 := b.toNat_lt
    have hi : b.toNat/16 < 16 := by omega
    have hj : b.toNat%16 < 16 := by omega
    simp [encodeChars, toLower_digitChar hi, toLower_digitChar hj, ih]

def Pairs (s : String) : Prop := s.toList.length % 2 = 0 ∧ s.toList.all isDigit = true

theorem toLower_of_digit {c : Char} {n : Nat} (h : digit? c = some n) : n < 16 ∧ c.toLower = digitChar n := by
  rw [digit?_eq] at h
  have hn : n < 16 := by grind
  have hnat : c.toLower.toNat = (digitChar n).toNat := by
    rw [toNat_toLower, toNat_digitChar hn]
    grind
  exact ⟨hn, Char.ext (UInt32.toNat_inj.mp hnat)⟩

theorem encodeChars_byte {i j : Nat} (hi : i < 16) (hj : j < 16) (k : List UInt8) :
    encodeChars (byte i j :: k) = digitChar i :: digitChar j :: encodeChars k := by
  have hb : (byte i j).toNat = 16*i+j := by
    rw [byte, UInt8.toNat_ofNat']
    omega
  have hhigh : (16*i+j)/16 = i := by omega
  have hlow : (16*i+j)%16 = j := by omega
  rw [encodeChars, hb, hhigh, hlow]

theorem decodeFrom_pairs (n : Nat) (cs : List Char) (even : cs.length % 2 = 0) (h : ∀ c ∈ cs, isDigit c) :
    ∃ k, decodeFrom n cs = .ok k ∧ cs.map Char.toLower = encodeChars k := by
  match cs with
  | [] => exact ⟨[], rfl, rfl⟩
  | [c] => cases even
  | c :: d :: r =>
    obtain ⟨i, hi⟩ := Option.isSome_iff_exists.mp (h c (by simp))
    obtain ⟨j, hj⟩ := Option.isSome_iff_exists.mp (h d (by simp))
    obtain ⟨hi16, hc⟩ := toLower_of_digit hi
    obtain ⟨hj16, hd⟩ := toLower_of_digit hj
    have hr : r.length % 2 = 0 := by
      simp only [List.length_cons] at even
      omega
    obtain ⟨k, hk, hlower⟩ := decodeFrom_pairs (n+2) r hr fun x hx => h x (by simp [hx])
    refine ⟨byte i j :: k, ?_, ?_⟩
    · rw [decodeFrom_pair hi hj, hk]
      rfl
    · simp only [List.map_cons, hc, hd, hlower, encodeChars_byte hi16 hj16]

theorem Pairs.decode {s : String} (h : Pairs s) : ∃ k, decode s = .ok k ∧ s.map Char.toLower = encode k := by
  have hall : ∀ c ∈ s.toList, isDigit c := List.all_eq_true.mp h.2
  rw [decode_eq fun c hc => Option.isSome_iff_exists.mp (hall c hc)]
  obtain ⟨k, hk, hlower⟩ := decodeFrom_pairs 0 s.toList h.1 hall
  refine ⟨k, hk, ?_⟩
  rw [encode, ← hlower, ← String.toList_map, String.ofList_toList]

/-- What was read is written, in lower case, as the text without its blanks. -/
theorem lower_of_decodeFrom {n : Nat} {cs : List Char} {k : List UInt8} (h : decodeFrom n cs = .ok k) :
    (cs.filter fun c => !isBlank c).map Char.toLower = encodeChars k := by
  fun_induction decodeFrom n cs generalizing k with
  | case1 =>
    cases h
    rfl
  | case2 n c hblank =>
    cases h
    simp [hblank, encodeChars]
  | case3 => cases h
  | case4 => cases h
  | case5 n c d r hblank ih =>
    rw [List.filter_cons_of_neg (by simp [hblank])]
    exact ih h
  | case6 => cases h
  | case7 => cases h
  | case8 n c d r hblank i j hj hi ih =>
    cases hr : decodeFrom (n+2) r with
    | error e =>
      rw [hr] at h
      cases h
    | ok k' =>
      rw [hr] at h
      cases h
      obtain ⟨hi16, hc⟩ := toLower_of_digit hi
      obtain ⟨hj16, hd⟩ := toLower_of_digit hj
      rw [List.filter_cons_of_pos (by simp [hblank]), List.filter_cons_of_pos (by simp [isBlank_of_digit hj])]
      rw [List.map_cons, List.map_cons, hc, hd, ih hr, ← encodeChars_byte hi16 hj16]

theorem decodeFrom_of_decode {s : String} {k : List UInt8} (h : decode s = .ok k) : decodeFrom 0 s.toList = .ok k := by
  rw [decode] at h
  split at h
  · cases h
  · exact h

theorem lower_iff_unblank {s : String} {k : List UInt8} (h : decode s = .ok k) :
    s.map Char.toLower = encode k ↔ ∀ c ∈ s.toList, isBlank c = false := by
  have hlower := lower_of_decodeFrom (decodeFrom_of_decode h)
  rw [encode, ← String.toList_inj, String.toList_map, String.toList_ofList]
  refine ⟨fun hs c hc => ?_, fun hs => ?_⟩
  · obtain ⟨n, hn⟩ := (digits_of_lower hs).1 c hc
    exact isBlank_of_digit hn
  · rwa [List.filter_eq_self.mpr fun c hc => by simp [hs c hc]] at hlower

end Hex

namespace Key

theorem ofHex_error {s : String} {f : Failure} (h : ofHex s = .error f) : f.kind = "ValueError" := by
  rw [ofHex] at h
  split at h <;> cases h
  rfl

theorem ofHex_of_lower {s : String} {k : Key} (h : s.map Char.toLower = k.toHex) : ofHex s = .ok k := by
  rw [ofHex, Hex.decode_of_lower h]

theorem ofHex_toHex (k : Key) : ofHex k.toHex = .ok k := by
  refine ofHex_of_lower ?_
  rw [toHex, Hex.encode, ← String.toList_inj, String.toList_map, String.toList_ofList, Hex.toLower_encodeChars]

theorem ofHex_pairs {s : String} (h : Hex.Pairs s) : ∃ k, ofHex s = .ok k ∧ s.map Char.toLower = k.toHex := by
  obtain ⟨k, hk, hlower⟩ := h.decode
  refine ⟨k, ?_, hlower⟩
  rw [ofHex, hk]

theorem lower_iff_unblank {s : String} {k : Key} (h : ofHex s = .ok k) :
    s.map Char.toLower = k.toHex ↔ ∀ c ∈ s.toList, Hex.isBlank c = false := by
  rw [ofHex] at h
  split at h
  · rename_i hd
    cases h
    exact Hex.lower_iff_unblank hd
  · cases h

theorem ofHex_eq_iff {s : String} (h : Hex.Pairs s) {k : Key} : ofHex s = .ok k ↔ s.map Char.toLower = k.toHex := by
  refine ⟨fun hk => ?_, ofHex_of_lower⟩
  obtain ⟨k', hk', hlower⟩ := ofHex_pairs h
  rw [hk] at hk'
  cases hk'
  exact hlower

end Key
end CircuitHarness
