import Mathlib
import CircuitHarness.Proofs.Reachable
import CircuitHarness.Proofs.Samples

/-! A caller who is the current sender. The current context is handed out as it is if the caller's key is spelled without
blanks; with blanks it reads as the same key, but the context is made anew, and under the reset policy its coin records
are gone. -/
namespace CircuitHarness

theorem CircuitContext.rekey_self (c : CircuitContext) (policy : Carryover) : c.rekey c.key policy =
    match policy with
    | .reset => { c with localState := .empty c.key }
    | .preserve => c := by
  cases policy <;> rfl

namespace Simulator
variable {s : Simulator} {c : String}

/-- A caller who is the current sender is handed the current context, if the key is spelled without blanks. -/
theorem handed_unblank (hactive : s.activeCaller = some (.text c)) (hkey : Key.ofHex c = .ok s.context.key)
    (h : ∀ x ∈ c.toList, Hex.isBlank x = false) : s.handed = .ok s.current.handed := by
  have hspelled : c.map Char.toLower = s.context.sender := (Key.lower_iff_unblank hkey).mpr h
  rw [handed_eq, hactive]
  exact if_pos hspelled

theorem handed_blank (hactive : s.activeCaller = some (.text c)) (hkey : Key.ofHex c = .ok s.context.key)
    (h : ¬∀ x ∈ c.toList, Hex.isBlank x = false) :
    s.handed = .ok (.fresh (s.context.rekey s.context.key s.manager.carryover)) := by
  have hspelled : ¬c.map Char.toLower = s.context.sender := mt (Key.lower_iff_unblank hkey).mp h
  rw [handed_eq, hactive]
  refine (if_neg hspelled).trans ?_
  rw [Manager.rebuild, hkey]
  rfl

/-- In whatever state, an impure call for a caller whose key is the current one runs on the current context itself if the
key is spelled without blanks, in whichever case, and only then. Otherwise it runs on a context made anew, which has the
coin records so far only if the policy is to preserve them. -/
theorem own_caller_keeps_context_iff [Limits] (hactive : s.activeCaller = some (.text c))
    (hkey : Key.ofHex c = .ok s.context.key) :
    ∃ g, s.handed = .ok g ∧
      (∀ (m : Mark) (b : Bound Circuit) (args : List Value), b.kind = .impure → (call (.bound m b) args s).result =
        ((b.circuit g.context args).run (services Limits.calls) g s.consumed).result.bind Prod.fst) ∧
      (g = s.current.handed ↔ ∀ x ∈ c.toList, Hex.isBlank x = false) ∧
      ((∃ x ∈ c.toList, Hex.isBlank x = true) → g.mark = none ∧ g.context =
        match s.manager.carryover with
        | .reset => { s.context with localState := .empty s.context.key }
        | .preserve => s.context) := by
  have hrun {g : Handed} (hg : s.handed = .ok g) (m : Mark) (b : Bound Circuit) (args : List Value)
      (hb : b.kind = .impure) : (call (.bound m b) args s).result =
        ((b.circuit g.context args).run (services Limits.calls) g s.consumed).result.bind Prod.fst := by
    rw [call, (callCallable_impure (services Limits.calls) args m hb s).1, hg]
  by_cases hspelled : ∀ x ∈ c.toList, Hex.isBlank x = false
  · have hg := handed_unblank hactive hkey hspelled
    refine ⟨_, hg, hrun hg, iff_of_true rfl hspelled, ?_⟩
    rintro ⟨x, hx, hblank⟩
    rw [hspelled x hx] at hblank
    cases hblank
  · have hg := handed_blank hactive hkey hspelled
    refine ⟨_, hg, hrun hg, iff_of_false (fun he => ?_) hspelled, fun _ => ?_⟩
    · cases congrArg Handed.mark he
    · exact ⟨rfl, s.context.rekey_self s.manager.carryover⟩

def counterOfAb : Simulator :=
  (counter.after (.switchSender (.str "ab") none)).after (.call .impure (.str "setVal") [.int 5] .item)

theorem counterOfAb_reachable : Reachable Simple.config counterOfAb := by
  have hb : build "Counter" Simple.config 0 (.list []) .none = .ok counter := counter_built
  have hswitched : Operation.Known counter (.switchSender (.str "ab") none) := trivial
  exact .step (.step (.build hb) hswitched) trivial

theorem counterOfAb_kept :
    let s := counterOfAb.after (.asCaller (some (.text "AB")))
    Key.ofHex "AB" = .ok s.context.key ∧ s.context.localState.outputs = [.tuple [.str "setVal", .int 5]] ∧
      s.handed = .ok s.current.handed := by
  intro s
  have hkey : Key.ofHex "AB" = .ok s.context.key := by cbv
  obtain ⟨g, hg, -, hkept, -⟩ := own_caller_keeps_context_iff (s := s) rfl hkey
  have hspelled : ∀ x ∈ "AB".toList, Hex.isBlank x = false := by simp [Hex.isBlank]
  rw [hkept.mpr hspelled] at hg
  exact ⟨hkey, by cbv, hg⟩

/-- A blank does: the record of the first call is not in the context that the second is handed, although it is for the
same sender. -/
theorem blank_in_caller_drops_records :
    let s := counterOfAb.after (.asCaller (some (.text "ab ")))
    Reachable Simple.config s ∧ Key.ofHex "ab " = .ok s.context.key ∧
      s.context.localState.outputs = [.tuple [.str "setVal", .int 5]] ∧
      s.handed.map (·.context.localState) = .ok (.empty s.context.key) := by
  intro s
  have hkey : Key.ofHex "ab " = .ok s.context.key := by cbv
  have hblank : ¬∀ x ∈ "ab ".toList, Hex.isBlank x = false := by simp [Hex.isBlank]
  refine ⟨.step counterOfAb_reachable trivial, hkey, by cbv, ?_⟩
  rw [handed_blank (s := s) rfl hkey hblank]
  rfl

end Simulator
end CircuitHarness
