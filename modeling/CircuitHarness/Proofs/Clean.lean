import Mathlib
import CircuitHarness.Proofs.Samples
import CircuitHarness.Proofs.Twin

/-! What a new context, made the current one, leaves of the past. Overrides, failures and everything committed before are
without effect from then on; what stays is what was never in a context: callers, the contract and its witnesses, the
carryover policy and what was put into the cache. -/
namespace CircuitHarness

/-- A context that is not marked yet, or one from elsewhere: no override call of the simulator committed it. -/
def Handed.Novel (s : Simulator) (g : Handed) : Prop :=
  ∀ k, g.mark = some k → s.manager.Gave k ∧ ∀ o, s.override = some o → o.mark ≠ k

def Surface.label? : Surface → Option Value
  | .standIn label => some label
  | .dispatcher .. => none

namespace Simulator

def rewritten [Limits] (g : Handed) (s : Simulator) : Simulator := (s.after .resetCaller).after (.write g)

/-- A run shows the same on both, once no caller is named any more and the context is written. -/
def SameAfter [Limits] (g : Handed) (ms : List Move) (s t : Simulator) : Prop :=
  Simulator.front.history ms (Desk.start (s.rewritten g)) = Simulator.front.history ms (Desk.start (t.rewritten g))

variable {config : Config} {s t : Simulator} {g : Handed}

theorem rewritten_eq [Limits] (g : Handed) (s : Simulator) :
    s.rewritten g = { s with caller := none, persistentCaller := none, manager := s.manager.adopt g } := rfl

theorem novel_fresh (s : Simulator) (c : CircuitContext) : (Handed.fresh c).Novel s := by
  intro k hk
  cases hk

theorem rewritten_rooted [Limits] (hs : s.Rooted config) (hg : g.Novel s) : (s.rewritten g).Rooted config := by
  have hreset : (s.after .resetCaller).Rooted config := hs.after trivial
  have hknown : (Operation.write g).Known (s.after .resetCaller) := fun k hk => (hg k hk).1
  exact hreset.after hknown

theorem rewritten_returning [Limits] (hs : s.Marked) (hg : g.Novel s) :
    (s.rewritten g).returning (s.rewritten g).current.mark = none := by
  obtain ⟨c, m⟩ := g
  rw [rewritten_eq, Simulator.returning]
  cases ho : s.override with
  | none => rfl
  | some o =>
    cases m with
    | none => exact if_neg (Ties.not_given (hs.override o ho))
    | some k => exact if_neg ((hg k rfl).2 o ho)

theorem offers_of_label (hs : s.Sound) (ht : t.Sound) (hcontract : t.contract = s.contract)
    (h : ∀ k, (t.offered k).label? = (s.offered k).label?) : Offers s t := by
  intro k
  have hk := h k
  cases hx : s.offered k with
  | standIn label =>
    cases hy : t.offered k with
    | standIn label' =>
      rw [hx, hy] at hk
      cases hk
      exact .standIn label
    | dispatcher n e =>
      rw [hx, hy] at hk
      cases hk
  | dispatcher m d =>
    cases hy : t.offered k with
    | standIn label =>
      rw [hx, hy] at hk
      cases hk
    | dispatcher n e =>
      rw [hs.offered hx, ht.offered hy, hcontract]
      exact .dispatcher _ _ _

section
variable [Limits]

/-- Two simulators over a configuration, each with a past of its own, at the same address and with the same witnesses. -/
structure Comparable (config : Config) (s t : Simulator) : Prop where
  left : Reachable config s
  right : Reachable config t
  address : t.address = s.address
  witnesses : t.witnesses = s.witnesses

theorem Comparable.twin (h : Comparable config s t) (hcontract : t.contract = s.contract)
    (hcarryover : t.manager.carryover = s.manager.carryover)
    (hstandIns : ∀ k, (t.offered k).label? = (s.offered k).label?) (hgs : g.Novel s) (hgt : g.Novel t) :
    Twin config ([], False) (s.rewritten g) (t.rewritten g) := by
  have hs : s.Rooted config := h.left.rooted
  have ht : t.Rooted config := h.right.rooted
  have hconfig : t.config = s.config := ht.config.trans hs.config.symm
  have hs' : (s.rewritten g).Rooted config := rewritten_rooted hs hgs
  have ht' : (t.rewritten g).Rooted config := rewritten_rooted ht hgt
  have hreturning : (t.rewritten g).returning (t.rewritten g).current.mark =
      (s.rewritten g).returning (s.rewritten g).current.mark :=
    (rewritten_returning ht.marked hgt).trans (rewritten_returning hs.marked hgs).symm
  refine ⟨?_, fun h => h.elim, .start hs'.marked ht'.marked hreturning, ?_, hs', ht'⟩
  · rw [rewritten_eq, rewritten_eq, adopt_eq, adopt_eq, hconfig, h.address, h.witnesses, hcontract, hcarryover]
    rfl
  · exact (offers_of_label hs.sound ht.sound hcontract hstandIns).moved ⟨rfl, rfl⟩ ⟨rfl, rfl⟩

/-- If they besides have the same contract made of the witnesses, the same carryover policy and the same stand-ins put
into their caches, if any, then every run shows the same on both, once their callers are reset and a context is written
that neither has held. -/
theorem written_context_erases_history (hblind : config.Of fun _ f => f.Blind) (h : Comparable config s t)
    (hcontract : t.contract = s.contract) (hcarryover : t.manager.carryover = s.manager.carryover)
    (hstandIns : ∀ k, (t.offered k).label? = (s.offered k).label?) (hgs : g.Novel s) (hgt : g.Novel t) {ms : List Move}
    (hms : ∀ op, .operate op ∈ ms → op.Neutral fun _ f => f.Blind) : SameAfter g ms s t :=
  ((twin_front hblind fun _ _ h => h).run ⟨h.twin hcontract hcarryover hstandIns hgs hgt, .nil, .nil⟩ hms).1

end

def counterUsed : Simulator :=
  (counter.after (.asCaller (some (.text "ab")))).after (.call .impure (.str "setVal") [.int 5] .item)

def setAndGet : List Move :=
  [.operate (.call .impure (.str "setVal") [.int 3] .item), .operate (.call .pure (.str "getVal") [] .member)]

theorem used_counter_is_as_new :
    Comparable Simple.config counter counterUsed ∧ counterUsed.override.isSome ∧
    SameAfter (.fresh counter.context) setAndGet counter counterUsed := by
  have hnew : Reachable Simple.config counter := .build counter_built
  have hnamed : Operation.Known counter (.asCaller (some (.text "ab"))) := trivial
  have hused : Reachable Simple.config counterUsed := .step (.step hnew hnamed) (by exact trivial)
  have hcontract : counterUsed.contract = counter.contract :=
    ((later_asCaller _ counter).trans (later_after rfl _)).contract
  have hparts : counterUsed.override.isSome ∧ counterUsed.address = counter.address ∧
      counterUsed.witnesses = counter.witnesses ∧ counterUsed.manager.carryover = counter.manager.carryover ∧
      (counterUsed.offered .pure).label? = (counter.offered .pure).label? ∧
      (counterUsed.offered .impure).label? = (counter.offered .impure).label? := by cbv
  obtain ⟨hoverride, haddress, hwitnesses, hcarryover, hpure, himpure⟩ := hparts
  have hlabels : ∀ k, (counterUsed.offered k).label? = (counter.offered k).label? := by
    rintro (_ | _)
    · exact hpure
    · exact himpure
  have hcomparable : Comparable Simple.config counter counterUsed := ⟨hnew, hused, haddress, hwitnesses⟩
  refine ⟨hcomparable, hoverride, written_context_erases_history Simple.blind hcomparable hcontract hcarryover hlabels
    (novel_fresh _ _) (novel_fresh _ _) fun op hop => ?_⟩
  simp only [setAndGet, List.mem_cons, Move.operate.injEq, List.not_mem_nil, or_false] at hop
  obtain rfl | rfl := hop <;> exact trivial

theorem not_sameAfter [Limits] {α : Type} {ms : List Move} (look : Except Failure Shown × CircuitContext → α)
    {x y : List α} (hx : (Simulator.front.history ms (Desk.start (s.rewritten g))).map look = x)
    (hy : (Simulator.front.history ms (Desk.start (t.rewritten g))).map look = y) (hne : x ≠ y) :
    ¬SameAfter g ms s t := by
  intro h
  rw [SameAfter] at h
  rw [h] at hx
  exact hne (hx.symm.trans hy)

end Simulator

namespace Stale

def contract (label : String) : Artifact :=
  ⟨.ofList [("label", fun _ _ => .done (.ok (.str label)) none)], .ofList [],
    fun c _ => .ok ⟨Simple.start, c.privateState⟩⟩

def witness (label : String) : Value := .fn (.written 1) label []

def config : Config :=
  { Simple.config with
    contract := fun ws => match Value.Keyed.get? (.str "w") ws with
      | some (.fn _ label _) => .ok (contract label)
      | _ => .error (.missingKey (.str "w"))
    defaultWitnesses := [(.str "w", witness "first")] }

def simulator : Simulator :=
  { Simulator.counter with
    name := "Stale", config := config, witnesses := [(.str "w", witness "first")], contract := contract "first" }

def emptied [Limits] (s : Simulator) : Simulator := s.after (.setWitnesses (.map []))

def replaced : Simulator := simulator.after (.overrideWitness (.str "w") (witness "second"))

end Stale

namespace Telling

def contract : Artifact :=
  ⟨.ofList [("mark", fun _ _ => .marked fun m => .done (.ok (.int m.serial)) none)], .ofList [],
    fun c _ => .ok ⟨Simple.start, c.privateState⟩⟩

def config : Config := { Simple.config with contract := fun _ => .ok contract }

def simulator : Simulator := { Simulator.counter with name := "Telling", config := config, contract := contract }

end Telling

namespace Simulator

def told (x : Except Failure Shown × CircuitContext) : String ⊕ Int :=
  match x.1 with
  | .ok (.reply (.value (.int n))) => .inr n
  | .ok (.reply (.value (.str t))) => .inl t
  | _ => .inl ""

def counterPreserving : Simulator := counter.after (.setCarryover .preserve)

def counterStubbed : Simulator := counter.after (.cachePut .pure (some (.str "stub")))

def recorded : CircuitContext :=
  { counter.context with localState := ⟨List.replicate 32 0, .int 1, [], [.int 7]⟩ }

/-- What a written context does not erase: a carryover policy, a stand-in in the cache, and a contract made of witnesses
that were since replaced by ones it cannot be made of. And circuits may tell one run from another by themselves. -/
theorem written_context_leaves_traces :
    (Comparable Simple.config counter counterPreserving ∧
      ¬SameAfter (.fresh recorded) [.operate (.switchSender (.str "ab") none)] counter counterPreserving) ∧
    (Comparable Simple.config counter counterStubbed ∧
      ¬SameAfter (.fresh counter.context) [.operate (.call .pure (.str "getVal") [] .item)] counter counterStubbed) ∧
    (Comparable Stale.config (Stale.emptied Stale.simulator) (Stale.emptied Stale.replaced) ∧
      ¬SameAfter (.fresh counter.context) [.operate (.call .pure (.str "label") [] .item)]
        (Stale.emptied Stale.simulator) (Stale.emptied Stale.replaced)) ∧
    Comparable Telling.config Telling.simulator (Telling.simulator.after (.call .pure (.str "mark") [] .item)) ∧
      ¬SameAfter (.fresh counter.context) [.operate (.call .pure (.str "mark") [] .item)] Telling.simulator
        (Telling.simulator.after (.call .pure (.str "mark") [] .item)) := by
  have hcounter : Reachable Simple.config counter := .build counter_built
  have hstale : Reachable Stale.config Stale.simulator :=
    .build (show build "Stale" Stale.config 0 (.list []) .none = .ok Stale.simulator from rfl)
  have htelling : Reachable Telling.config Telling.simulator :=
    .build (show build "Telling" Telling.config 0 (.list []) .none = .ok Telling.simulator from rfl)
  have hreplaced : Reachable Stale.config Stale.replaced := .step hstale (by exact trivial)
  refine ⟨⟨⟨hcounter, .step hcounter (by exact trivial), rfl, rfl⟩, ?_⟩,
    ⟨⟨hcounter, .step hcounter (by exact trivial), rfl, rfl⟩, ?_⟩,
    ⟨⟨.step hstale (by exact trivial), .step hreplaced (by exact trivial), ?_, ?_⟩, ?_⟩,
    ⟨htelling, .step htelling (by exact trivial), ?_, ?_⟩, ?_⟩
  · refine not_sameAfter (fun x => x.2.localState.outputs.length) (x := [0]) (y := [1]) ?_ ?_ (by decide)
    · cbv
    · cbv
  · refine not_sameAfter told (x := [.inr 0]) (y := [.inl ""]) ?_ ?_ (by decide)
    · cbv
    · cbv
  · cbv
  · cbv
  · refine not_sameAfter told (x := [.inl "first"]) (y := [.inl "second"]) ?_ ?_ (by decide)
    · cbv
    · cbv
  · cbv
  · cbv
  · refine not_sameAfter told (x := [.inr 2]) (y := [.inr 3]) ?_ ?_ (by decide)
    · cbv
    · cbv

end Simulator
end CircuitHarness
