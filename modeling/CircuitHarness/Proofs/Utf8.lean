import CircuitHarness.Text.Utf8

/-! Bytes can be read as UTF-8 if they are the bytes of a text, and then that text is read. -/
namespace CircuitHarness.Utf8

def encode (cs : List Char) : List UInt8 := cs.flatMap String.utf8EncodeChar

def next? (s : Option Begun) (b : UInt8) : Option Begun := s.elim (begin? b.toNat) (·.next? b.toNat)

/-- The bytes that bring a character in progress to its end. -/
inductive Ends : Option Begun → List UInt8 → Char → Prop where
  | last {s : Option Begun} {b : UInt8} {g : Begun} (step : next? s b = some g) (owed : g.owed = 0) :
    Ends s [b] (Char.ofNat g.code)
  | inner {s : Option Begun} {b : UInt8} {g : Begun} {bs : List UInt8} {c : Char} (step : next? s b = some g)
    (owed : g.owed ≠ 0) (rest : Ends (some g) bs c) : Ends s (b :: bs) c

theorem decode_append {s : Option Begun} {bs : List UInt8} {c : Char} (h : Ends s bs c) (n : Nat) (r : List UInt8) :
    decode n s (bs ++ r) = (c :: (decode (n+bs.length) none r).1, (decode (n+bs.length) none r).2) := by
  induction h generalizing n with
  | last step owed =>
    rw [List.singleton_append, decode]
    rw [next?] at step
    rw [step]
    simp only [owed, if_true, List.length_singleton]
  | inner step owed rest ih =>
    rw [List.cons_append, decode]
    rw [next?] at step
    rw [step]
    simp only [owed, if_false, List.length_cons]
    rw [ih, Nat.add_assoc, Nat.add_comm 1]

theorem ends_of_decode {n : Nat} {s : Option Begun} {bs : List UInt8} {cs : List Char}
    (h : decode n s bs = (cs, none)) (hne : s.isSome ∨ bs ≠ []) :
    ∃ p r c cs', bs = p ++ r ∧ cs = c :: cs' ∧ Ends s p c ∧ decode (n+p.length) none r = (cs', none) := by
  induction bs generalizing n s with
  | nil =>
    cases s with
    | none => simp at hne
    | some g => cases h
  | cons b bs ih =>
    rw [decode] at h
    cases hstep : next? s b with
    | none =>
      rw [next?] at hstep
      rw [hstep] at h
      cases h
    | some g =>
      have hstep' := hstep
      rw [next?] at hstep'
      rw [hstep'] at h
      dsimp only at h
      split at h
      · rename_i howed
        obtain ⟨rfl, hbad⟩ := Prod.mk.inj h
        exact ⟨[b], bs, _, _, rfl, rfl, .last hstep howed, Prod.ext rfl hbad⟩
      · rename_i howed
        obtain ⟨p, r, c, cs', rfl, rfl, hends, hrest⟩ := ih h (.inl rfl)
        refine ⟨b :: p, r, c, cs', rfl, rfl, .inner hstep howed hends, ?_⟩
        rw [List.length_cons, Nat.add_comm p.length, ← Nat.add_assoc]
        exact hrest

theorem next?_some {g g' : Begun} {b : UInt8} : next? (some g) b = some g' ↔
    (g.least ≤ b.toNat ∧ b.toNat ≤ g.most) ∧ g' = ⟨64*g.code+(b.toNat-0x80), g.owed-1, 0x80, 0xbf⟩ := by
  change (if (decide (g.least ≤ b.toNat) && decide (b.toNat ≤ g.most)) = true then some _ else none) = _ ↔ _
  simp only [Bool.and_eq_true, decide_eq_true_eq]
  split
  · rename_i hb
    exact ⟨fun h => ⟨hb, (Option.some.inj h).symm⟩, fun h => congrArg some h.2.symm⟩
  · rename_i hb
    exact iff_of_false nofun fun h => hb h.1

theorem ends_one {code least most : Nat} {bs : List UInt8} {c : Char} : Ends (some ⟨code, 1, least, most⟩) bs c ↔
    ∃ b : UInt8, bs = [b] ∧ (least ≤ b.toNat ∧ b.toNat ≤ most) ∧ c = Char.ofNat (64*code+(b.toNat-0x80)) := by
  constructor
  · intro h
    cases h with
    | last step owed =>
      obtain ⟨hb, rfl⟩ := next?_some.mp step
      exact ⟨_, rfl, hb, rfl⟩
    | inner step owed rest =>
      obtain ⟨-, rfl⟩ := next?_some.mp step
      exact (owed rfl).elim
  · rintro ⟨b, rfl, hb, hc⟩
    rw [hc]
    exact .last (g := ⟨64*code+(b.toNat-0x80), 0, 0x80, 0xbf⟩) (next?_some.mpr ⟨hb, rfl⟩) rfl

theorem ends_more {code k least most : Nat} {bs : List UInt8} {c : Char} : Ends (some ⟨code, k+2, least, most⟩) bs c ↔
    ∃ (b : UInt8) (r : List UInt8), bs = b :: r ∧ (least ≤ b.toNat ∧ b.toNat ≤ most) ∧
      Ends (some ⟨64*code+(b.toNat-0x80), k+1, 0x80, 0xbf⟩) r c := by
  constructor
  · intro h
    cases h with
    | last step owed =>
      obtain ⟨-, rfl⟩ := next?_some.mp step
      cases owed
    | inner step owed rest =>
      obtain ⟨hb, rfl⟩ := next?_some.mp step
      exact ⟨_, _, rfl, hb, rest⟩
  · rintro ⟨b, r, rfl, hb, rest⟩
    exact .inner (next?_some.mpr ⟨hb, rfl⟩) (Nat.succ_ne_zero k) rest

theorem toNat_ofNat {v : Nat} (h : v.isValidChar) : (Char.ofNat v).toNat = v := by
  rw [Char.ofNat, dif_pos h]
  rfl

theorem utf8EncodeChar_eq (c : Char) : String.utf8EncodeChar c =
    if c.toNat ≤ 127 then [UInt8.ofNat c.toNat]
    else if c.toNat ≤ 2047 then [UInt8.ofNat (c.toNat/64%32+192), UInt8.ofNat (c.toNat%64+128)]
    else if c.toNat ≤ 65535 then
      [UInt8.ofNat (c.toNat/4096%16+224), UInt8.ofNat (c.toNat/64%64+128), UInt8.ofNat (c.toNat%64+128)]
    else [UInt8.ofNat (c.toNat/262144%8+240), UInt8.ofNat (c.toNat/4096%64+128), UInt8.ofNat (c.toNat/64%64+128),
      UInt8.ofNat (c.toNat%64+128)] := rfl

theorem byte_eq {b : UInt8} {n : Nat} (h : b.toNat = n) : b = UInt8.ofNat n := by
  rw [← h, UInt8.ofNat_toNat]

inductive First (b : Nat) : Begun → Prop where
  | one (h : b < 0x80) : First b ⟨b, 0, 0, 0⟩
  | two (h : 0xc2 ≤ b ∧ b < 0xe0) : First b ⟨b-0xc0, 1, 0x80, 0xbf⟩
  | three {least most : Nat} (h : 0xe0 ≤ b ∧ b < 0xf0) (hleast : least = if b = 0xe0 then 0xa0 else 0x80)
    (hmost : most = if b = 0xed then 0x9f else 0xbf) : First b ⟨b-0xe0, 2, least, most⟩
  | four {least most : Nat} (h : 0xf0 ≤ b ∧ b < 0xf5) (hleast : least = if b = 0xf0 then 0x90 else 0x80)
    (hmost : most = if b = 0xf4 then 0x8f else 0xbf) : First b ⟨b-0xf0, 3, least, most⟩

theorem begin?_iff {b : Nat} {g : Begun} : begin? b = some g ↔ First b g := by
  rw [begin?]
  constructor
  · intro h
    split at h
    · exact Option.some.inj h ▸ .one (by assumption)
    split at h
    · cases h
    split at h
    · exact Option.some.inj h ▸ .two (by omega)
    split at h
    · exact Option.some.inj h ▸ .three (by omega) rfl rfl
    split at h
    · exact Option.some.inj h ▸ .four (by omega) rfl rfl
    · cases h
  · intro h
    cases h with
    | one h => rw [if_pos h]
    | two h => rw [if_neg (by omega), if_neg (by omega), if_pos h.2]
    | three h hleast hmost =>
      rw [if_neg (by omega), if_neg (by omega), if_neg (by omega), if_pos h.2, hleast, hmost]
    | four h hleast hmost =>
      rw [if_neg (by omega), if_neg (by omega), if_neg (by omega), if_neg (by omega), if_pos h.2, hleast, hmost]

theorem encode_of_ends {bs : List UInt8} {c : Char} (h : Ends none bs c) : bs = String.utf8EncodeChar c := by
  cases h with
  | last step owed =>
    rename_i b g
    cases begin?_iff.mp step with
    | one h =>
      dsimp only
      rw [utf8EncodeChar_eq, toNat_ofNat (.inl (by omega)), if_pos (by omega), UInt8.ofNat_toNat]
    | _ => cases owed
  | inner step owed rest =>
    rename_i b g r
    cases begin?_iff.mp step with
    | one h => exact (owed rfl).elim
    | two h =>
      obtain ⟨b₁, rfl, h₁, hc⟩ := ends_one.mp rest
      rw [hc, utf8EncodeChar_eq, toNat_ofNat (.inl (by omega)), if_neg (by omega), if_pos (by omega)]
      simp only [List.cons.injEq, and_true]
      exact ⟨byte_eq (by omega), byte_eq (by omega)⟩
    | three h hleast hmost =>
      obtain ⟨b₁, _, rfl, h₁, rest⟩ := ends_more.mp rest
      obtain ⟨b₂, rfl, h₂, hc⟩ := ends_one.mp rest
      have hb₁ : (0x80 ≤ b₁.toNat ∧ b₁.toNat ≤ 0xbf) ∧ (b.toNat = 0xe0 → 0xa0 ≤ b₁.toNat) ∧
          (b.toNat = 0xed → b₁.toNat ≤ 0x9f) := by
        split at hleast <;> split at hmost <;> omega
      have hvalid : (64*(64*(b.toNat-0xe0)+(b₁.toNat-0x80))+(b₂.toNat-0x80)).isValidChar := by
        rw [Nat.isValidChar]
        omega
      rw [hc, utf8EncodeChar_eq, toNat_ofNat hvalid, if_neg (by omega), if_neg (by omega), if_pos (by omega)]
      simp only [List.cons.injEq, and_true]
      exact ⟨byte_eq (by omega), byte_eq (by omega), byte_eq (by omega)⟩
    | four h hleast hmost =>
      obtain ⟨b₁, _, rfl, h₁, rest⟩ := ends_more.mp rest
      obtain ⟨b₂, _, rfl, h₂, rest⟩ := ends_more.mp rest
      obtain ⟨b₃, rfl, h₃, hc⟩ := ends_one.mp rest
      have hb₁ : (0x80 ≤ b₁.toNat ∧ b₁.toNat ≤ 0xbf) ∧ (b.toNat = 0xf0 → 0x90 ≤ b₁.toNat) ∧
          (b.toNat = 0xf4 → b₁.toNat ≤ 0x8f) := by
        split at hleast <;> split at hmost <;> omega
      have hvalid : (64*(64*(64*(b.toNat-0xf0)+(b₁.toNat-0x80))+(b₂.toNat-0x80))+(b₃.toNat-0x80)).isValidChar := by
        rw [Nat.isValidChar]
        omega
      rw [hc, utf8EncodeChar_eq, toNat_ofNat hvalid, if_neg (by omega), if_neg (by omega), if_neg (by omega)]
      simp only [List.cons.injEq, and_true]
      exact ⟨byte_eq (by omega), byte_eq (by omega), byte_eq (by omega), byte_eq (by omega)⟩

theorem toNat_byte {n : Nat} (h : n < 256) : (UInt8.ofNat n).toNat = n := UInt8.toNat_ofNat_of_lt' h

theorem next?_first {n : Nat} {g : Begun} (hn : n < 256) (h : First n g) : next? none (UInt8.ofNat n) = some g := by
  change begin? (UInt8.ofNat n).toNat = some g
  rw [toNat_byte hn]
  exact begin?_iff.mpr h

theorem ends_of_encode (c : Char) : Ends none (String.utf8EncodeChar c) c := by
  have hvalid : c.toNat.isValidChar := c.valid
  have hchar {n : Nat} (h : n = c.toNat) : c = Char.ofNat n := by rw [h, Char.ofNat_toNat]
  rw [utf8EncodeChar_eq]
  split
  · rw [hchar rfl, toNat_ofNat hvalid]
    exact .last (next?_first (by omega) (.one (by omega))) rfl
  split
  · refine .inner (next?_first (by omega) (.two (by omega))) (Nat.succ_ne_zero 0) (ends_one.mpr ⟨_, rfl, ?_, hchar ?_⟩)
    · rw [toNat_byte (by omega)]
      omega
    · rw [toNat_byte (by omega)]
      omega
  split
  · refine .inner (next?_first (by omega) (.three (by omega) rfl rfl)) (Nat.succ_ne_zero 1)
      (ends_more.mpr ⟨_, _, rfl, ?_, ends_one.mpr ⟨_, rfl, ?_, hchar ?_⟩⟩)
    · rw [toNat_byte (by omega)]
      constructor <;> split <;> omega
    · rw [toNat_byte (by omega)]
      omega
    · rw [toNat_byte (by omega), toNat_byte (by omega)]
      omega
  · refine .inner (next?_first (by omega) (.four (by omega) rfl rfl)) (Nat.succ_ne_zero 2)
      (ends_more.mpr ⟨_, _, rfl, ?_, ends_more.mpr ⟨_, _, rfl, ?_, ends_one.mpr ⟨_, rfl, ?_, hchar ?_⟩⟩⟩)
    · rw [toNat_byte (by omega)]
      constructor <;> split <;> omega
    · rw [toNat_byte (by omega)]
      omega
    · rw [toNat_byte (by omega)]
      omega
    · rw [toNat_byte (by omega), toNat_byte (by omega), toNat_byte (by omega)]
      omega

theorem ends_iff {bs : List UInt8} {c : Char} : Ends none bs c ↔ bs = String.utf8EncodeChar c :=
  ⟨encode_of_ends, fun h => h ▸ ends_of_encode c⟩

theorem decode_iff {bs : List UInt8} {cs : List Char} (n : Nat) : decode n none bs = (cs, none) ↔ bs = encode cs := by
  constructor
  · intro h
    induction cs generalizing n bs with
    | nil =>
      by_cases hbs : bs = []
      · exact hbs
      · obtain ⟨p, r, c, cs', -, hcs, -⟩ := ends_of_decode h (.inr hbs)
        cases hcs
    | cons c cs ih =>
      have hbs : bs ≠ [] := by
        rintro rfl
        cases h
      obtain ⟨p, r, _, _, rfl, ⟨rfl⟩, hends, hrest⟩ := ends_of_decode h (.inr hbs)
      rw [ends_iff.mp hends, ih _ hrest]
      rfl
  · rintro rfl
    induction cs generalizing n with
    | nil => rfl
    | cons c cs ih =>
      rw [encode, List.flatMap_cons, decode_append (ends_iff.mpr rfl)]
      change (c :: (decode _ none (encode cs)).1, (decode _ none (encode cs)).2) = _
      rw [ih]

end CircuitHarness.Utf8
