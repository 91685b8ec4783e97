import CircuitHarness.Proofs.Caller
import CircuitHarness.Proofs.Reachable
import CircuitHarness.Proofs.Samples

/-! Whom the text of a sender stands for. It reads as a key if it is made of pairs of digits with blanks between them, and
the key is written as the same text in lower case and without the blanks. So an impure call under a caller's text runs for
the key that the text reads as, whether the text was read or only compared with how the current key is written. -/
namespace CircuitHarness
namespace Hex

/-- Pairs of digits with blanks between them, and none inside a pair: whatever the blanks leave in one piece is nothing but
pairs. -/
def Spaced (cs : List Char) : Prop := ∀ piece ∈ cs.splitOnP isBlank, Pairs (String.ofList piece)

def plain (s : String) : String := String.ofList ((s.toList.filter fun c => !isBlank c).map Char.toLower)

instance (s : String) : Decidable (Pairs s) := inferInstanceAs (Decidable (_ ∧ _))
instance (cs : List Char) : Decidable (Spaced cs) := inferInstanceAs (Decidable (∀ piece ∈ cs.splitOnP isBlank, _))

variable {c d : Char} {cs ds : List Char}

theorem spaced_nil : Spaced [] := by
  intro piece h
  rw [List.splitOnP_nil, List.mem_singleton] at h
  subst h
  exact ⟨rfl, rfl⟩

theorem spaced_blank (hc : isBlank c = true) : Spaced (c :: cs) ↔ Spaced cs := by
  have hnone : Pairs (String.ofList []) := ⟨rfl, rfl⟩
  simp only [Spaced, List.splitOnP_cons_eq_if_modifyHead, hc, if_true, List.forall_mem_cons, hnone, true_and]

theorem splitOnP_solid (hc : isBlank c = false) {piece : List Char} {pieces : List (List Char)}
    (h : cs.splitOnP isBlank = piece :: pieces) : (c :: cs).splitOnP isBlank = (c :: piece) :: pieces := by
  simp [List.splitOnP_cons_eq_if_modifyHead, hc, h]

theorem spaced_pair {i j : Nat} (hc : digit? c = some i) (hd : digit? d = some j) :
    Spaced (c :: d :: cs) ↔ Spaced cs := by
  obtain ⟨piece, pieces, hcs⟩ := List.exists_cons_of_ne_nil (List.splitOnP_ne_nil isBlank cs)
  have hpair : Pairs (String.ofList (c :: d :: piece)) ↔ Pairs (String.ofList piece) := by
    have hlength : (c :: d :: piece).length % 2 = piece.length % 2 := Nat.add_mod_right piece.length 2
    simp only [Pairs, String.toList_ofList, hlength, List.all_cons, isDigit, hc, hd, Option.isSome_some, Bool.true_and]
  simp only [Spaced, splitOnP_solid (isBlank_of_digit hc) (splitOnP_solid (isBlank_of_digit hd) hcs), hcs,
    List.forall_mem_cons, hpair]

theorem not_spaced_alone (hc : isBlank c = false) {pieces : List (List Char)} (h : cs.splitOnP isBlank = [] :: pieces) :
    ¬Spaced (c :: cs) := by
  intro hspaced
  have hpairs : Pairs (String.ofList [c]) := hspaced [c] (by simp [splitOnP_solid hc h])
  simp [Pairs] at hpairs

theorem not_spaced_one (hc : isBlank c = false) : ¬Spaced [c] := not_spaced_alone hc List.splitOnP_nil

theorem Spaced.begins (h : Spaced (c :: cs)) (hc : isBlank c = false) :
    ∃ d r, cs = d :: r ∧ isDigit c = true ∧ isDigit d = true := by
  cases cs with
  | nil => exact absurd h (not_spaced_one hc)
  | cons d r =>
    cases hd : isBlank d with
    | true =>
      have hcut : (d :: r).splitOnP isBlank = [] :: r.splitOnP isBlank := by
        rw [List.splitOnP_cons_eq_if_modifyHead, if_pos hd]
      exact absurd h (not_spaced_alone hc hcut)
    | false =>
      obtain ⟨piece, pieces, hr⟩ := List.exists_cons_of_ne_nil (List.splitOnP_ne_nil isBlank r)
      have hpairs : Pairs (String.ofList (c :: d :: piece)) :=
        h (c :: d :: piece) (by simp [splitOnP_solid hc (splitOnP_solid hd hr)])
      have hall := hpairs.2
      rw [String.toList_ofList, List.all_cons, List.all_cons, Bool.and_eq_true, Bool.and_eq_true] at hall
      exact ⟨d, r, rfl, hall.1, hall.2.1⟩

theorem not_ok_of_error {n : Nat} : ¬∃ k : List UInt8, Except.error n = .ok k := by
  rintro ⟨k, hk⟩
  cases hk

theorem decodeFrom_ok_iff (n : Nat) (cs : List Char) : (∃ k, decodeFrom n cs = .ok k) ↔ Spaced cs := by
  fun_induction decodeFrom n cs with
  | case1 => exact iff_of_true ⟨[], rfl⟩ spaced_nil
  | case2 n c hblank => exact iff_of_true ⟨[], rfl⟩ ((spaced_blank hblank).mpr spaced_nil)
  | case3 n c hblank => exact iff_of_false not_ok_of_error (not_spaced_one (Bool.eq_false_iff.mpr hblank))
  | case4 n c hblank => exact iff_of_false not_ok_of_error (not_spaced_one (Bool.eq_false_iff.mpr hblank))
  | case5 n c d r hblank ih => rw [ih, spaced_blank hblank]
  | case6 n c d r hblank hc =>
    refine iff_of_false not_ok_of_error fun h => ?_
    obtain ⟨-, -, -, hdigit, -⟩ := h.begins (Bool.eq_false_iff.mpr hblank)
    rw [isDigit, hc] at hdigit
    cases hdigit
  | case7 n c d r hblank i hd hc =>
    refine iff_of_false not_ok_of_error fun h => ?_
    obtain ⟨d, r, hr, -, hdigit⟩ := h.begins (Bool.eq_false_iff.mpr hblank)
    cases hr
    rw [isDigit, hd] at hdigit
    cases hdigit
  | case8 n c d r hblank i j hj hi ih =>
    rw [spaced_pair hi hj, ← ih]
    cases decodeFrom (n+2) r with
    | error e => exact iff_of_false not_ok_of_error not_ok_of_error
    | ok k => exact iff_of_true ⟨byte i j :: k, rfl⟩ ⟨k, rfl⟩

theorem ascii_of_decodeFrom {n : Nat} {k : List UInt8} (h : decodeFrom n cs = .ok k) : ∀ c ∈ cs, c.toNat < 128 := by
  intro c hc
  by_cases hblank : isBlank c = true
  · rw [isBlank, Bool.or_eq_true, Bool.and_eq_true, decide_eq_true_iff, decide_eq_true_iff, decide_eq_true_iff] at hblank
    obtain rfl | hcontrol := hblank
    · decide
    · omega
  · obtain ⟨i, hi⟩ := (digits_of_lower (lower_of_decodeFrom h)).1 c (List.mem_filter.mpr ⟨hc, by simp [hblank]⟩)
    exact (digit?_bound hi).2

theorem decode_ok_iff (s : String) : (∃ k, decode s = .ok k) ↔ Spaced s.toList := by
  rw [← decodeFrom_ok_iff 0]
  constructor
  · rintro ⟨k, hk⟩
    exact ⟨k, decodeFrom_of_decode hk⟩
  · rintro ⟨k, hk⟩
    exact ⟨k, by rw [decode_ascii (ascii_of_decodeFrom hk), hk]⟩

example : Spaced "0A\tfF ".toList ∧ ¬Spaced "0 AfF".toList := by decide

/-- A text put in lower case, whatever that makes of the characters beyond ASCII, as long as each becomes something and
nothing it becomes is a digit. -/
inductive Lowers : List Char → List Char → Prop where
  | nil : Lowers [] []
  | ascii {c : Char} {cs ds : List Char} (h : c.toNat < 128) (rest : Lowers cs ds) : Lowers (c :: cs) (c.toLower :: ds)
  | beyond {c : Char} {cs ds piece : List Char} (h : 128 ≤ c.toNat) (something : piece ≠ [])
    (undigit : ∀ d ∈ piece, isDigit d = false) (rest : Lowers cs ds) : Lowers (c :: cs) (piece ++ ds)

theorem lowers_toLower (cs : List Char) : Lowers cs (cs.map Char.toLower) := by
  induction cs with
  | nil => exact .nil
  | cons c cs ih =>
    by_cases h : c.toNat < 128
    · exact .ascii h ih
    · refine .beyond (Nat.le_of_not_lt h) (List.cons_ne_nil c.toLower []) (fun d hd => ?_) ih
      rw [List.mem_singleton] at hd
      subst hd
      rw [isDigit, digit?_eq, toNat_toLower]
      grind

theorem Lowers.eq_of_ascii (h : Lowers cs ds) (hcs : ∀ c ∈ cs, c.toNat < 128) : ds = cs.map Char.toLower := by
  induction h with
  | nil => rfl
  | ascii h rest ih => rw [List.map_cons, ← ih fun c hc => hcs c (List.mem_cons_of_mem _ hc)]
  | beyond h => exact absurd (hcs _ List.mem_cons_self) (by omega)

theorem Lowers.eq_of_digits (h : Lowers cs ds) (hds : ∀ d ∈ ds, isDigit d = true) : ds = cs.map Char.toLower := by
  induction h with
  | nil => rfl
  | ascii h rest ih => rw [List.map_cons, ← ih fun d hd => hds d (List.mem_cons_of_mem _ hd)]
  | beyond h something undigit rest ih =>
    obtain ⟨d, hd⟩ := List.exists_mem_of_ne_nil _ something
    have hdigit := hds d (List.mem_append_left _ hd)
    rw [undigit d hd] at hdigit
    cases hdigit

theorem isDigit_of_written {k : List UInt8} (hd : d ∈ encodeChars k) : isDigit d = true := by
  obtain ⟨i, hi⟩ := (digits_of_lower (toLower_encodeChars k)).1 d hd
  rw [isDigit, hi]
  rfl

/-- Whether a text is, in lower case, how some bytes are written does not depend on what characters beyond ASCII become in
lower case. -/
theorem Lowers.written_iff {s t : String} (h : Lowers s.toList t.toList) (k : List UInt8) :
    t = encode k ↔ s.map Char.toLower = encode k := by
  simp only [encode, ← String.toList_inj, String.toList_map, String.toList_ofList]
  refine ⟨fun ht => ?_, fun hs => ?_⟩
  · rw [← h.eq_of_digits fun d hd => isDigit_of_written (ht ▸ hd), ht]
  · have hcs : ∀ c ∈ s.toList, c.toNat < 128 := by
      intro c hc
      obtain ⟨i, hi⟩ := (digits_of_lower hs).1 c hc
      exact (digit?_bound hi).2
    rw [h.eq_of_ascii hcs, hs]

end Hex

namespace Key

theorem ofHex_ok_iff (s : String) : (∃ k, ofHex s = .ok k) ↔ Hex.Spaced s.toList := by
  rw [← Hex.decode_ok_iff, ofHex]
  cases Hex.decode s <;> simp

theorem toHex_of_ofHex {s : String} {k : Key} (h : ofHex s = .ok k) : k.toHex = Hex.plain s := by
  rw [ofHex] at h
  split at h
  · rename_i hd
    cases h
    rw [Hex.plain, Hex.lower_of_decodeFrom (Hex.decodeFrom_of_decode hd)]
    rfl
  · cases h

end Key

namespace LocalState

theorem ofSender_ok_iff (s : String) : (∃ l, ofSender s = .ok l) ↔ Hex.Spaced s.toList := by
  rw [← Key.ofHex_ok_iff, ofSender]
  cases Key.ofHex s <;> simp [Except.map]

theorem of_ofSender {s : String} {l : LocalState} (h : ofSender s = .ok l) :
    l = .empty l.key ∧ l.key.toHex = Hex.plain s := by
  rw [ofSender] at h
  cases hk : Key.ofHex s with
  | error e =>
    rw [hk] at h
    cases h
  | ok k =>
    rw [hk] at h
    cases h
    exact ⟨rfl, Key.toHex_of_ofHex hk⟩

theorem ofSender_toHex (k : Key) : ofSender k.toHex = .ok (.empty k) := by
  rw [ofSender, Key.ofHex_toHex]
  rfl

end LocalState

namespace Simulator
variable {s : Simulator} {c : String}

/-- How an impure call goes for a caller given as a text: the text does not read as a key, and the call comes to that
whatever its circuit, or the circuit is run for the key that the text reads as. -/
inductive CallFor (s : Simulator) (c : String) : Prop where
  | refused (e : Failure) (kind : e.kind = "ValueError") (unread : LocalState.ofSender c = .error e)
    (outcome : ∀ (sv : Services Simulator) (m : Mark) (b : Bound Circuit) (args : List Value), b.kind = .impure →
      (callCallable sv args (.bound m b) s).result = .error e ∧
        (callCallable sv args (.bound m b) s).state = { s with caller := none, pending := some s.home })
  | ran (g : Handed) (read : LocalState.ofSender c = .ok (.empty g.context.key))
    (outcome : ∀ (sv : Services Simulator) (m : Mark) (b : Bound Circuit) (args : List Value), b.kind = .impure →
      (callCallable sv args (.bound m b) s).result =
          ((b.circuit g.context args).run sv g s.consumed).result.bind Prod.fst ∧
        (callCallable sv args (.bound m b) s).state =
          match ((b.circuit g.context args).run sv g s.consumed).result with
          | .error _ => ((b.circuit g.context args).run sv g s.consumed).state
          | .ok x => (commit x.2 ((b.circuit g.context args).run sv g s.consumed).state).state)

theorem consumed_active {caller : Caller} (h : s.activeCaller = some caller) :
    s.consumed = { s with caller := none, pending := some s.home } := by
  rw [consumed, h]
  rfl

/-- The text is only compared with how the current key is written, or read; both ways it is the text's key that the call
is for. -/
theorem callFor (hactive : s.activeCaller = some (.text c)) : CallFor s c := by
  have hkey : s.handed.map (·.context.key) = Key.ofHex c := by
    rw [handed_key, callerKey, hactive]
    rfl
  cases hg : s.handed with
  | error e =>
    rw [hg] at hkey
    refine .refused e (Key.ofHex_error hkey.symm) (by rw [LocalState.ofSender, ← hkey]; rfl) fun sv m b args hb => ?_
    have hcall := callCallable_impure sv args m hb s
    rw [hg, consumed_active hactive] at hcall
    exact hcall
  | ok g =>
    rw [hg] at hkey
    refine .ran g (by rw [LocalState.ofSender, ← hkey]; rfl) fun sv m b args hb => ?_
    have hcall := callCallable_impure sv args m hb s
    rw [hg] at hcall
    exact hcall

theorem handed_of_lowers (hactive : s.activeCaller = some (.text c)) {t : String} (h : Hex.Lowers c.toList t.toList) :
    s.handed = if t = s.context.sender then .ok s.current.handed else (s.manager.rebuild c none).map .fresh := by
  have hsame : t = s.context.sender ↔ c.map Char.toLower = s.context.sender := h.written_iff s.context.key
  rw [handed_eq, hactive]
  by_cases ht : t = s.context.sender
  · rw [if_pos ht]
    exact if_pos (hsame.mp ht)
  · rw [if_neg ht]
    exact if_neg (mt hsame.mpr ht)

/-- A text reads as a sender if and only if it is made of pairs of digits with blanks between them, and then the key is
written as the text in lower case without its blanks; what is written of a key reads as that key. In whatever state, an
impure call under a caller's text fails before its circuit is run, and leaves the current context as it is, or its circuit
is run on a context with the very key that the text reads as. What characters beyond ASCII become in lower case makes no
difference to that. -/
theorem senders_are_as_spelled :
    (∀ text : String, ((∃ l, LocalState.ofSender text = .ok l) ↔ Hex.Spaced text.toList) ∧
      ∀ l, LocalState.ofSender text = .ok l → l = .empty l.key ∧ l.key.toHex = Hex.plain text) ∧
    (∀ k : Key, LocalState.ofSender k.toHex = .ok (.empty k)) ∧
    ∀ (s : Simulator) (c : String), s.activeCaller = some (.text c) → CallFor s c ∧
      ∀ t : String, Hex.Lowers c.toList t.toList →
        s.handed = if t = s.context.sender then .ok s.current.handed else (s.manager.rebuild c none).map .fresh := by
  refine ⟨fun text => ⟨LocalState.ofSender_ok_iff text, ?_⟩, LocalState.ofSender_toHex, ?_⟩
  · intro l h
    exact LocalState.of_ofSender h
  · intro s c hactive
    exact ⟨callFor hactive, fun t h => handed_of_lowers hactive h⟩

theorem counter_called_as_spelled :
    let s := counter.after (.asCaller (some (.text "0A fF")))
    LocalState.ofSender "0A fF" = .ok (.empty [10, 255]) ∧ s.activeCaller = some (.text "0A fF") ∧
      Hex.Lowers "0A fF".toList "0a ff".toList ∧ s.handed = (s.manager.rebuild "0A fF" none).map .fresh ∧
      ∃ g : Handed, g.context.key = [10, 255] ∧ ∀ (m : Mark) (b : Bound Circuit) (args : List Value), b.kind = .impure →
        (call (.bound m b) args s).result =
          ((b.circuit g.context args).run (services Limits.calls) g s.consumed).result.bind Prod.fst := by
  intro s
  have hread : LocalState.ofSender "0A fF" = .ok (.empty [10, 255]) := by cbv
  have hlowers : Hex.Lowers "0A fF".toList "0a ff".toList := Hex.lowers_toLower "0A fF".toList
  obtain ⟨-, -, hcall⟩ := senders_are_as_spelled
  obtain ⟨hfor, hhanded⟩ := hcall s "0A fF" rfl
  refine ⟨hread, rfl, hlowers, (hhanded "0a ff" hlowers).trans (if_neg (by decide)), ?_⟩
  cases hfor with
  | refused e kind unread =>
    rw [hread] at unread
    cases unread
  | ran g read outcome =>
    rw [hread] at read
    have hkey : g.context.key = [10, 255] := (congrArg LocalState.key (Except.ok.inj read)).symm
    exact ⟨g, hkey, fun m b args hb => (outcome (services Limits.calls) m b args hb).1⟩

end Simulator
end CircuitHarness
