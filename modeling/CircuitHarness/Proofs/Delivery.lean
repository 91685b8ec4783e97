import CircuitHarness.Proofs.Logging

/-! Where records get to after a setup that worked: to the stream of the latest one and nowhere else, each of them once
and just when its level is high enough. -/
namespace CircuitHarness

theorem LevelChoice.resolve_of_severity {level : LevelChoice} {m : Int} (h : level.severity? = some m) :
    ∃ v, level.resolve = .ok v ∧ ∀ c : Console, c.level = v → c.number = m := by
  cases level with
  | number n =>
    obtain rfl : n = m := by simpa [severity?, number?] using h
    exact ⟨.int n, rfl, fun c hc => by rw [Console.number, hc]⟩
  | truth b =>
    obtain rfl : (if b then 1 else 0) = m := by simpa [severity?, number?] using h
    refine ⟨.bool b, rfl, fun c hc => ?_⟩
    rw [Console.number, hc]
    cases b <;> rfl
  | name s =>
    have hs : Level.ofName? s = some m := h
    exact ⟨.int m, by simp only [resolve, hs], fun c hc => by rw [Console.number, hc]⟩
  | other => cases h

namespace Console

def Request.configures? : Request → Option (Int × String)
  | .setup level stream => level.severity?.map fun m => (m, stream)
  | .record .. => none

def latest? : List Request → Option (Int × String)
  | [] => none
  | r :: rs => (latest? rs).or r.configures?

/-- At a level above zero, and by a logger with a name. -/
def Request.Loud : Request → Prop
  | .setup level _ => ∃ m, level.severity? = some m ∧ 0 < m
  | .record level logger _ => (∃ name, logger = .str name) ∧ ∃ n, level.number? = some n ∧ 0 < n

/-- Set up at level `m` on stream `s`. What loggers remember is right as long as their names are plain. -/
structure Configured (m : Int) (s : String) (c : Console) : Prop where
  positive : 0 < m
  handlers : c.handlers = [.stream s]
  number : c.number = m
  isOpen : c.isOpen s = true
  memo : ∀ h ∈ c.channels, Logger.Plain h.name → ∀ t ∈ h.taken, t.2 = (decide (0 < t.1) && decide (m ≤ t.1))

namespace Configured
variable {m : Int} {s : String} {c : Console}

theorem copies (h : Configured m s c) (name : String) : c.copies name = if name = s then 1 else 0 := by
  rw [Console.copies, h.handlers]
  by_cases he : name = s
  · subst he
    simp [h.isOpen]
  · simp [he, Ne.symm he]

theorem introduce (h : Configured m s c) (name : String) : Configured m s (c.introduce name) := by
  obtain ⟨hs, hi, hchannels⟩ := introduce_eq name c
  rw [hi]
  refine ⟨h.positive, h.handlers, h.number, h.isOpen, fun x hx hplain t ht => ?_⟩
  obtain hx | rfl := hchannels x hx
  · exact h.memo x hx hplain t ht
  · cases ht

theorem takes_fst (h : Configured m s c) {name : String} (hplain : Logger.Plain name) (level : Int) :
    (takes level name c).1 = (decide (0 < level) && decide (m ≤ level)) := by
  unfold takes
  split
  · rename_i t ht
    obtain ⟨x, hx, ht⟩ := Option.bind_eq_some_iff.mp ht
    have hname : x.name = name := by simpa using List.find?_some hx
    have hlevel : t.1 = level := by simpa using List.find?_some ht
    have hanswer := h.memo x (List.mem_of_find?_eq_some hx) (hname ▸ hplain) t (List.mem_of_find?_eq_some ht)
    rwa [hlevel] at hanswer
  · have hthreshold : c.threshold name = m := by
      have hne : m ≠ 0 := by have := h.positive; omega
      simp [threshold, belongs_of_plain hplain, h.number, hne]
    simp only [hthreshold]

theorem takes_snd (h : Configured m s c) (level : Int) (name : String) :
    Configured m s (takes level name c).2 := by
  obtain ⟨hs, ht, hchannels⟩ := takes_eq level name c
  rw [ht]
  refine ⟨h.positive, h.handlers, h.number, h.isOpen, fun x hx hplain t htaken => ?_⟩
  obtain hx | ⟨hname, g, hg, hgname, hanswers⟩ := hchannels x hx
  · exact h.memo x hx hplain t htaken
  · rw [hname] at hplain
    rw [hanswers] at htaken
    obtain rfl | htaken := List.mem_cons.mp htaken
    · exact h.takes_fst hplain level
    · exact h.memo g hg (hgname ▸ hplain) t htaken

theorem log (h : Configured m s c) (l : Line) : Configured m s (c.log l) := by
  obtain ⟨hhandlers, hlevel, hchannels, hstreams⟩ := log_spec l c
  have hasked : Configured m s (takes l.level l.logger (c.introduce l.logger)).2 :=
    (h.introduce l.logger).takes_snd l.level l.logger
  refine ⟨h.positive, hhandlers.trans h.handlers, ?_, (hstreams s).1.trans h.isOpen, fun x hx => ?_⟩
  · rw [← h.number, Console.number, hlevel, Console.number]
  · rw [hchannels] at hx
    exact hasked.memo x hx

theorem lines_log (h : Configured m s c) (l : Line) (name : String) :
    (c.log l).lines name = c.lines name ++ if name = s ∧ c.emits l = true then [l] else [] := by
  obtain ⟨-, -, -, hstreams⟩ := log_spec l c
  rw [(hstreams name).2, h.copies]
  by_cases he : c.emits l = true <;> by_cases hn : name = s <;> simp [he, hn]

theorem emits_of_plain (h : Configured m s c) {l : Line} (hplain : Logger.Plain l.logger) (hpos : 0 < l.level) :
    c.emits l = true ↔ m ≤ l.level := by
  have htaken := (h.introduce l.logger).takes_fst hplain l.level
  simp [emits, htaken, belongs_of_plain hplain, hpos]

end Configured

theorem emits_of_not_inside {l : Line} (h : ¬Logger.Inside l.logger) (c : Console) : c.emits l = false := by
  simp [emits, belongs_of_not_inside h]

variable {m : Int} {s : String} {c : Console}

theorem setup_configures {level : LevelChoice} (hm : level.severity? = some m) (hpos : 0 < m) (s : String) (c : Console) :
    (c.setup level s).1 = .ok () ∧ Configured m s (c.setup level s).2 ∧
      ∀ name, (c.setup level s).2.lines name = c.lines name ++ if name = s ∧ m ≤ 10 then [report level] else [] := by
  obtain ⟨v, hv, hnumber⟩ := LevelChoice.resolve_of_severity hm
  have hready : Configured m s (c.ready v s) := by
    refine ⟨hpos, rfl, hnumber _ rfl, isOpen_openStream c s, fun x hx _ t ht => ?_⟩
    obtain ⟨g, -, rfl⟩ := List.mem_map.mp hx
    cases ht
  rw [setup_ok hv]
  refine ⟨rfl, hready.log _, fun name => ?_⟩
  have hloud : (0 : Int) < 10 := by decide
  have hreported : (c.ready v s).emits (report level) = true ↔ m ≤ 10 := hready.emits_of_plain (.inl rfl) hloud
  simp only [hready.lines_log, lines_ready, hreported]

/-- A step of a run: what the latest setup set stays set until the next one. -/
theorem configured_after {r : Request} (hr : r.Loud) {x : Option (Int × String)}
    (hx : ∀ p, x = some p → Configured p.1 p.2 c) :
    ∀ p, r.configures?.or x = some p → Configured p.1 p.2 (c.after r) := by
  intro p hp
  cases r with
  | setup level stream =>
    obtain ⟨m, hm, hpos⟩ := hr
    obtain rfl : (m, stream) = p := by simpa [Request.configures?, hm] using hp
    exact (setup_configures hm hpos stream c).2.1
  | record level logger message =>
    obtain ⟨⟨name, rfl⟩, n, hn, -⟩ := hr
    have hlogged : c.after (.record level (.str name) message) = c.log ⟨n, name, message.text⟩ := by
      simp only [after, perform, record, hn]
    rw [hlogged]
    exact (hx p hp).log _

theorem configured_run {rs : List Request} (hloud : ∀ r ∈ rs, r.Loud) {x : Option (Int × String)}
    (hx : ∀ p, x = some p → Configured p.1 p.2 c) :
    ∀ p, (latest? rs).or x = some p → Configured p.1 p.2 (c.run rs) := by
  induction rs generalizing c x with
  | nil => exact hx
  | cons r rs ih =>
    intro p hp
    -- what the first request sets is what was set before the others
    rw [latest?, Option.or_assoc] at hp
    exact ih (fun r hr => hloud r (List.mem_cons_of_mem _ hr)) (configured_after (hloud r List.mem_cons_self) hx) p hp

/-- Over any run of setups and records at levels above zero, from any console. Whenever a setup follows, it works and adds
nothing but its own report, to its own stream and if its level lets it through. Once there was a setup there is one
handler, and a record adds one line at most, to the stream of the latest setup: just when its level is at least that
setup's, for a logger with a plain name inside the package, and never, for one outside. -/
theorem records_reach_latest_setup {rs : List Request} (hloud : ∀ r ∈ rs, r.Loud) (c₀ : Console) :
    let c := c₀.run rs
    (∀ level m s, level.severity? = some m → 0 < m →
      (c.perform (.setup level s)).1 = .ok () ∧ ∀ name, (c.after (.setup level s)).lines name =
        c.lines name ++ if name = s ∧ m ≤ 10 then [report level] else []) ∧
    ∀ m s, latest? rs = some (m, s) → c.handlers = [.stream s] ∧ c.number = m ∧
      ∀ level n logger message, level.number? = some n → 0 < n →
        let r := Request.record level (.str logger) message
        (c.perform r).1 = .ok () ∧ ∃ written : Bool,
          (∀ name, (c.after r).lines name =
            c.lines name ++ if name = s ∧ written = true then [⟨n, logger, message.text⟩] else []) ∧
          (Logger.Plain logger → (written = true ↔ m ≤ n)) ∧ (¬Logger.Inside logger → written = false) := by
  intro c
  refine ⟨fun level m s hm hpos => ?_, fun m s hlatest => ?_⟩
  · obtain ⟨hr, -, hlines⟩ := setup_configures hm hpos s c
    exact ⟨hr, hlines⟩
  · have hc : Configured m s c := configured_run hloud (x := none) (by simp) (m, s) (by simp [hlatest])
    refine ⟨hc.handlers, hc.number, fun level n logger message hn hpos => ?_⟩
    have hperform : c.perform (.record level (.str logger) message) = (.ok (), c.log ⟨n, logger, message.text⟩) := by
      simp only [perform, record, hn]
    refine ⟨by rw [hperform], c.emits ⟨n, logger, message.text⟩, fun name => ?_, fun hplain => ?_, fun houtside => ?_⟩
    · rw [after, hperform]
      exact hc.lines_log _ name
    · exact hc.emits_of_plain hplain hpos
    · exact emits_of_not_inside houtside c

theorem second_stream_is_reached :
    let rs : List Request :=
      [.setup (.name "INFO") "a", .record (.number 40) (.str "contractsim_core.cache") (.str "full"),
        .setup (.truth true) "b"]
    let r := Request.record (.number 10) (.str "contractsim_core.cache") (.str "miss")
    (∀ r ∈ rs, r.Loud) ∧ latest? rs = some (1, "b") ∧ Logger.Plain "contractsim_core.cache" ∧
      ∀ name, ((start.run rs).after r).lines name =
        (start.run rs).lines name ++ if name = "b" then [⟨10, "contractsim_core.cache", "miss"⟩] else [] := by
  intro rs r
  have hloud : ∀ r ∈ rs, r.Loud := by
    intro r hr
    simp only [rs, List.mem_cons, List.not_mem_nil, or_false] at hr
    obtain rfl | rfl | rfl := hr
    · exact ⟨20, rfl, by decide⟩
    · exact ⟨⟨_, rfl⟩, 40, rfl, by decide⟩
    · exact ⟨1, rfl, by decide⟩
  have hlatest : latest? rs = some (1, "b") := rfl
  have hplain : Logger.Plain "contractsim_core.cache" := .inr ⟨"cache".toList, by unfold Logger.Dotted; decide, by decide⟩
  obtain ⟨-, hreached⟩ := records_reach_latest_setup hloud start
  obtain ⟨-, -, hrecorded⟩ := hreached 1 "b" hlatest
  obtain ⟨-, written, hlines, hiff, -⟩ :=
    hrecorded (.number 10) 10 "contractsim_core.cache" (.str "miss") rfl (by decide)
  have hwritten : written = true := (hiff hplain).mpr (by decide)
  simp only [hwritten, and_true] at hlines
  exact ⟨hloud, hlatest, hplain, hlines⟩

/-- By their names these loggers are inside the package, but a dot behind the package's name is passed over, so at first
their records are lost. One has answered then for a level under the setup's; once the name in between is known its records
get through, and the answer is remembered. -/
theorem doubled_dot_is_misjudged :
    let c := start.after (.setup (.number 40) "a")
    let record (n : Int) (logger : String) := Request.record (.number n) (.str logger) (.str "text")
    let x := "contractsim_core..x"
    let y := "contractsim_core....y"
    let rs := [record 35 y, record 35 "contractsim_core...", record 35 y]
    (∀ r ∈ Request.setup (.number 40) "a" :: record 45 x :: rs, r.Loud) ∧ Logger.Inside x ∧ Logger.Inside y ∧
      c.handlers = [.stream "a"] ∧ c.number = 40 ∧ (c.after (record 45 x)).lines "a" = [] ∧
      ((c.run rs).lines "a").map (fun l => (l.level, l.logger)) = [(35, y)] := by
  have hset : Configured 40 "a" (start.after (.setup (.number 40) "a")) :=
    (setup_configures rfl (by decide) "a" start).2.1
  refine ⟨fun r hr => ?_, .inr ⟨".x".toList, ?_⟩, .inr ⟨"...y".toList, ?_⟩, hset.handlers, hset.number, ?_, ?_⟩
  · simp only [List.mem_cons, List.not_mem_nil, or_false] at hr
    obtain rfl | rfl | rfl | rfl | rfl := hr
    · exact ⟨40, rfl, by decide⟩
    all_goals exact ⟨⟨_, rfl⟩, _, rfl, by decide⟩
  · unfold Logger.Dotted
    decide
  · unfold Logger.Dotted
    decide
  · decide +kernel
  · decide +kernel

end Console
end CircuitHarness
