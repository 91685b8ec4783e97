import Mathlib
import CircuitHarness.Proofs.Hierarchy

/-! What is written to the streams over runs of setups and records. A record is written once for each handler on a
stream; a setup that works leaves one handler, and one that fails leaves none. -/
namespace CircuitHarness

def LevelChoice.severity? : LevelChoice → Option Int
  | .name s => Level.ofName? s
  | level => level.number?

namespace Console

inductive Request where
  | setup (level : LevelChoice) (stream : String)
  | record (level : LevelChoice) (logger message : Value)

def perform : Request → Console → Except Failure Unit × Console
  | .setup level stream, c => c.setup level stream
  | .record level logger message, c => c.record level logger message

def after (c : Console) (r : Request) : Console := (c.perform r).2
def run (c : Console) (rs : List Request) : Console := rs.foldl after c

def lines (c : Console) (name : String) : List Line := ((c.streams.find? (·.1 = name)).map (·.2)).getD []

def isOpen (c : Console) (name : String) : Bool := c.streams.any (·.1 = name)

def copies (c : Console) (name : String) : Nat := if c.isOpen name then c.handlers.count (.stream name) else 0

def emits (l : Line) (c : Console) : Bool :=
  let (taken, c) := takes l.level l.logger (c.introduce l.logger)
  taken && c.belongs l.logger

variable {c t : Console} {l : Line} {name s : String}

theorem lines_openStream (c : Console) (s name : String) : (c.openStream s).lines name = c.lines name := by
  unfold openStream
  split
  · rfl
  · simp only [lines, List.find?_append]
    cases c.streams.find? (·.1 = name) with
    | some x => rfl
    | none => by_cases h : s = name <;> simp [h]

theorem isOpen_openStream (c : Console) (s : String) : (c.openStream s).isOpen s = true := by
  unfold openStream
  split
  · assumption
  · simp [isOpen]

theorem handle_eq (l : Line) (c : Console) (h : Handler) : ∃ ss, handle l c h = { c with streams := ss } := by
  cases h with
  | discard => exact ⟨c.streams, rfl⟩
  | stream s => exact ⟨_, rfl⟩

theorem fst_written (s : String) (l : Line) (x : String × List Line) :
    (if x.1 = s then (x.1, x.2 ++ [l]) else x).1 = x.1 := by
  split <;> rfl

theorem isOpen_handle (l : Line) (c : Console) (h : Handler) (name : String) :
    (handle l c h).isOpen name = c.isOpen name := by
  cases h with
  | discard => rfl
  | stream s => simp only [isOpen, handle, List.any_map, Function.comp_def, fst_written]

theorem lines_handle (l : Line) (c : Console) (h : Handler) (name : String) :
    (handle l c h).lines name = c.lines name ++ if h = .stream name ∧ c.isOpen name = true then [l] else [] := by
  cases h with
  | discard => simp [handle]
  | stream s =>
    simp only [lines, isOpen, handle, List.find?_map, Function.comp_def, fst_written, Handler.stream.injEq]
    cases hf : c.streams.find? (·.1 = name) with
    | none =>
      have hopen : c.streams.any (·.1 = name) = false := by simpa using hf
      simp [hopen]
    | some x =>
      have hx : x.1 = name := by simpa using List.find?_some hf
      have hopen : c.streams.any (·.1 = name) = true :=
        List.any_eq_true.mpr ⟨x, List.mem_of_find?_eq_some hf, by simpa using hx⟩
      by_cases he : s = name
      · simp [hopen, hx, he]
      · simp [hx, he, Ne.symm he]

theorem foldl_handle (hs : List Handler) (l : Line) (c : Console) :
    let d := hs.foldl (handle l) c
    d.handlers = c.handlers ∧ d.level = c.level ∧ d.channels = c.channels ∧
      ∀ name, d.isOpen name = c.isOpen name ∧
        d.lines name = c.lines name ++ List.replicate (if c.isOpen name then hs.count (.stream name) else 0) l := by
  induction hs generalizing c with
  | nil => simp
  | cons h hs ih =>
    obtain ⟨ss, hss⟩ := handle_eq l c h
    obtain ⟨hhandlers, hlevel, hchannels, hstreams⟩ := ih (handle l c h)
    refine ⟨hhandlers.trans (by rw [hss]), hlevel.trans (by rw [hss]), hchannels.trans (by rw [hss]), fun name => ?_⟩
    obtain ⟨hopen, hlines⟩ := hstreams name
    rw [isOpen_handle] at hopen hlines
    refine ⟨hopen, ?_⟩
    rw [List.foldl_cons, hlines, lines_handle, List.append_assoc, List.count_cons]
    congr 1
    by_cases hn : c.isOpen name = true
    · by_cases he : h = .stream name
      · simp [hn, he, List.replicate_succ]
      · simp [hn, he]
    · simp [hn]

theorem introduce_eq (name : String) (c : Console) : ∃ hs, c.introduce name = { c with channels := hs } ∧
    ∀ h ∈ hs, h ∈ c.channels ∨ h = ⟨name, []⟩ := by
  unfold introduce
  split
  · exact ⟨c.channels, rfl, fun h => .inl⟩
  · exact ⟨_, rfl, fun h hh => by simpa using hh⟩

/-- A logger that is asked remembers its answer, and nothing else changes. -/
theorem takes_eq (level : Int) (name : String) (c : Console) :
    ∃ hs, (takes level name c).2 = { c with channels := hs } ∧
      ∀ h ∈ hs, h ∈ c.channels ∨
        h.name = name ∧ ∃ g ∈ c.channels, g.name = name ∧ h.taken = (level, (takes level name c).1) :: g.taken := by
  unfold takes
  split
  · exact ⟨c.channels, rfl, fun h => .inl⟩
  · refine ⟨_, rfl, fun h hh => ?_⟩
    obtain ⟨g, hg, rfl⟩ := List.mem_map.mp hh
    by_cases he : g.name = name
    · rw [if_pos he]
      exact .inr ⟨rfl, g, hg, he, rfl⟩
    · rw [if_neg he]
      exact .inl hg

theorem log_spec (l : Line) (c : Console) :
    let d := c.log l
    d.handlers = c.handlers ∧ d.level = c.level ∧
      d.channels = (takes l.level l.logger (c.introduce l.logger)).2.channels ∧
      ∀ name, d.isOpen name = c.isOpen name ∧
        d.lines name = c.lines name ++ List.replicate (if c.emits l then c.copies name else 0) l := by
  obtain ⟨hs, hi, -⟩ := introduce_eq l.logger c
  obtain ⟨hs', ht, -⟩ := takes_eq l.level l.logger (c.introduce l.logger)
  rw [hi] at ht
  by_cases he : c.emits l = true
  · obtain ⟨hhandlers, hlevel, hchannels, hstreams⟩ := foldl_handle c.handlers l { c with channels := hs' }
    have hlog : c.log l = c.handlers.foldl (handle l) { c with channels := hs' } := by
      simp only [emits, hi, ht] at he
      simp only [log, hi, ht, he, if_true]
    rw [hlog, hi, ht]
    refine ⟨hhandlers, hlevel, hchannels, fun name => ?_⟩
    rw [if_pos he]
    exact hstreams name
  · have hlog : c.log l = { c with channels := hs' } := by
      simp only [emits, hi, ht] at he
      simp only [log, hi, ht, he]
      rfl
    rw [hlog, hi, ht]
    refine ⟨rfl, rfl, rfl, fun name => ⟨rfl, ?_⟩⟩
    rw [if_neg he]
    exact (List.append_nil _).symm

theorem copies_log (l : Line) (c : Console) (name : String) : (c.log l).copies name = c.copies name := by
  obtain ⟨hhandlers, -, -, hstreams⟩ := log_spec l c
  rw [copies, hhandlers, (hstreams name).1, copies]

/-- As a setup that works leaves the console, but for its own report. -/
def ready (level : Value) (stream : String) (c : Console) : Console :=
  { c.openStream stream with
    handlers := [.stream stream], level := level, channels := c.channels.map fun h => ⟨h.name, []⟩ }

def report (level : LevelChoice) : Line :=
  ⟨10, Logger.package, "Logging configured at level " ++ level.opposite ++ "."⟩

theorem setup_ok {level : LevelChoice} {v : Value} (h : level.resolve = .ok v) (stream : String) (c : Console) :
    c.setup level stream = (.ok (), (c.ready v stream).log (report level)) := by
  simp only [setup, h]
  rfl

theorem setup_error {level : LevelChoice} {f : Failure} (h : (c.setup level s).1 = .error f) :
    let t := (c.setup level s).2
    t.handlers = [] ∧ t.level = c.level ∧ t.channels = c.channels ∧ ∀ name, t.lines name = c.lines name := by
  cases hr : level.resolve with
  | ok v =>
    rw [setup_ok hr] at h
    cases h
  | error g =>
    have hbare : (c.setup level s).2 = { c.openStream s with handlers := [] } := by simp only [setup, hr]
    rw [hbare]
    have hopened : (c.openStream s).level = c.level ∧ (c.openStream s).channels = c.channels := by
      unfold openStream
      split <;> exact ⟨rfl, rfl⟩
    exact ⟨rfl, hopened.1, hopened.2, lines_openStream c s⟩

theorem copies_of_no_handlers (h : c.handlers = []) (name : String) : c.copies name = 0 := by
  simp [copies, h]

theorem copies_ready (v : Value) (stream : String) (c : Console) (name : String) :
    (c.ready v stream).copies name = if name = stream then 1 else 0 := by
  have hopen : (c.ready v stream).isOpen stream = true := isOpen_openStream c stream
  have hhandlers : (c.ready v stream).handlers = [.stream stream] := rfl
  rw [copies, hhandlers]
  by_cases h : name = stream
  · subst h
    simp [hopen]
  · simp [h, Ne.symm h]

theorem lines_ready (v : Value) (stream : String) (c : Console) (name : String) :
    (c.ready v stream).lines name = c.lines name := lines_openStream c stream name

/-- Of two consoles nobody can tell which one is written to. -/
structure Alike (c t : Console) : Prop where
  level : c.level = t.level
  channels : c.channels = t.channels
  lines : ∀ name, c.lines name = t.lines name
  copies : ∀ name, c.copies name = t.copies name

theorem introduce_channels_congr (hc : c.channels = t.channels) (name : String) :
    (c.introduce name).channels = (t.introduce name).channels := by
  unfold introduce
  rw [hc]
  split <;> simp [hc]

theorem belongs_congr (hc : c.channels = t.channels) (name : String) : c.belongs name = t.belongs name := by
  have hknows : c.knows = t.knows := by
    funext name
    rw [knows, knows, hc]
  have hbelow (n : Nat) (name : String) : c.isBelow n name = t.isBelow n name := by
    induction n generalizing name with
    | zero => rfl
    | succ n ih => simp only [isBelow, hknows, ih]
  exact hbelow _ name

theorem takes_congr (hl : c.level = t.level) (hc : c.channels = t.channels) (level : Int) (name : String) :
    (takes level name c).1 = (takes level name t).1 ∧
      (takes level name c).2.channels = (takes level name t).2.channels := by
  have hthreshold : c.threshold name = t.threshold name := by
    rw [threshold, threshold, belongs_congr hc, number, number, hl]
  unfold takes
  rw [hc, hthreshold]
  split
  · exact ⟨rfl, hc⟩
  · exact ⟨rfl, rfl⟩

theorem Alike.log (h : Alike c t) (l : Line) : Alike (c.log l) (t.log l) := by
  obtain ⟨-, hlevel, hchannels, hstreams⟩ := log_spec l c
  obtain ⟨-, hlevel', hchannels', hstreams'⟩ := log_spec l t
  obtain ⟨hs, hi, -⟩ := introduce_eq l.logger c
  obtain ⟨hs', hi', -⟩ := introduce_eq l.logger t
  have hknown : (c.introduce l.logger).level = (t.introduce l.logger).level := by rw [hi, hi']; exact h.level
  obtain ⟨htaken, hmemo⟩ := takes_congr hknown (introduce_channels_congr h.channels l.logger) l.level l.logger
  have hemits : c.emits l = t.emits l := by
    simp only [emits]
    rw [htaken, belongs_congr hmemo]
  refine ⟨hlevel.trans (h.level.trans hlevel'.symm), hchannels.trans (hmemo.trans hchannels'.symm), fun name => ?_,
    fun name => ?_⟩
  · rw [(hstreams name).2, (hstreams' name).2, h.lines, hemits, h.copies]
  · rw [copies_log, copies_log, h.copies]

theorem Alike.introduce (h : Alike c t) (name : String) : Alike (c.introduce name) (t.introduce name) := by
  have hchannels := introduce_channels_congr h.channels name
  obtain ⟨hs, hi, -⟩ := introduce_eq name c
  obtain ⟨hs', hi', -⟩ := introduce_eq name t
  rw [hi, hi'] at hchannels ⊢
  exact ⟨h.level, hchannels, h.lines, h.copies⟩

theorem Alike.after (h : Alike c t) (r : Request) : Alike (c.after r) (t.after r) := by
  cases r with
  | setup level stream =>
    simp only [Console.after, perform]
    cases hr : level.resolve with
    | error f =>
      have hfails (c : Console) : (c.setup level stream).1 = .error f := by simp only [setup, hr]
      obtain ⟨hhandlers, hlevel, hchannels, hlines⟩ := setup_error (hfails c)
      obtain ⟨hhandlers', hlevel', hchannels', hlines'⟩ := setup_error (hfails t)
      refine ⟨hlevel.trans (h.level.trans hlevel'.symm), hchannels.trans (h.channels.trans hchannels'.symm),
        fun name => ?_, fun name => ?_⟩
      · rw [hlines, hlines', h.lines]
      · rw [copies_of_no_handlers hhandlers, copies_of_no_handlers hhandlers']
    | ok v =>
      rw [setup_ok hr, setup_ok hr]
      have hready : Alike (c.ready v stream) (t.ready v stream) := by
        refine ⟨rfl, ?_, fun name => ?_, fun name => ?_⟩
        · simp only [ready, h.channels]
        · rw [lines_ready, lines_ready, h.lines]
        · rw [copies_ready, copies_ready]
      exact hready.log (report level)
  | record level logger message =>
    simp only [Console.after, perform, record]
    cases logger with
    | str name =>
      cases level.number? with
      | some n => exact h.log _
      | none => exact h.introduce name
    | _ => exact h

theorem Alike.run (h : Alike c t) (rs : List Request) : Alike (c.run rs) (t.run rs) := by
  induction rs generalizing c t with
  | nil => exact h
  | cons r rs ih => exact ih (h.after r)

def Request.IsRecord : Request → Prop
  | .record .. => True
  | .setup .. => False

theorem after_record_of_silent (h : ∀ name, c.copies name = 0) {r : Request} (hr : r.IsRecord) :
    (∀ name, (c.after r).copies name = 0) ∧ ∀ name, (c.after r).lines name = c.lines name := by
  cases r with
  | setup level stream => cases hr
  | record level logger message =>
    simp only [Console.after, perform, record]
    cases logger with
    | str name =>
      cases level.number? with
      | some n =>
        obtain ⟨-, -, -, hstreams⟩ := log_spec ⟨n, name, message.text⟩ c
        refine ⟨fun s => (copies_log _ c s).trans (h s), fun s => ?_⟩
        simp [(hstreams s).2, h]
      | none =>
        obtain ⟨hs, hi, -⟩ := introduce_eq name c
        dsimp only
        rw [hi]
        exact ⟨h, fun _ => rfl⟩
    | _ => exact ⟨h, fun _ => rfl⟩

theorem lines_run_of_silent (h : ∀ name, c.copies name = 0) {rs : List Request} (hrs : ∀ r ∈ rs, r.IsRecord)
    (name : String) : (c.run rs).lines name = c.lines name := by
  induction rs generalizing c with
  | nil => rfl
  | cons r rs ih =>
    obtain ⟨hsilent, hlines⟩ := after_record_of_silent h (hrs r List.mem_cons_self)
    exact (ih hsilent fun r hr => hrs r (List.mem_cons_of_mem _ hr)).trans (hlines name)

theorem exists_emitted (c : Console) (message : String) : ∃ n, c.emits ⟨n, Logger.package, message⟩ = true := by
  let d := c.introduce Logger.package
  -- above every level that was asked about, above the threshold and above zero
  obtain ⟨m, hm⟩ := (0 :: d.threshold Logger.package :: d.channels.flatMap (·.taken.map (·.1))).toFinset.exists_le
  have hzero : 0 ≤ m := hm _ (by simp)
  have hthreshold : d.threshold Logger.package ≤ m := hm _ (by simp)
  have hfresh : (d.channels.find? (·.name = Logger.package)).bind (fun h => h.taken.find? (·.1 = m+1)) = none := by
    rw [Option.bind_eq_none_iff]
    intro h hh
    rw [List.find?_eq_none]
    intro t ht he
    have hle : t.1 ≤ m := by
      refine hm _ ?_
      simp only [List.mem_toFinset, List.mem_cons, List.mem_flatMap, List.mem_map]
      exact .inr (.inr ⟨h, List.mem_of_find?_eq_some hh, t, ht, rfl⟩)
    simp only [decide_eq_true_eq] at he
    omega
  have htaken : (takes (m+1) Logger.package d).1 = true := by
    unfold takes
    rw [hfresh]
    simp only [Bool.and_eq_true, decide_eq_true_eq]
    omega
  refine ⟨m+1, ?_⟩
  simp only [emits, Bool.and_eq_true]
  exact ⟨htaken, belongs_of_plain (.inl rfl)⟩

/-- A setup that fails leaves the level and what is written as they are and takes every handler away: records are written
nowhere from then on, until a setup works. That goes unnoticed, over whatever is asked afterwards, if no handler wrote to
an open stream, and only then. -/
theorem failed_setup_unnoticed_iff {level : LevelChoice} {f : Failure} (h : (c.setup level s).1 = .error f) :
    let t := c.after (.setup level s)
    t.handlers = [] ∧ t.level = c.level ∧ (∀ name, t.lines name = c.lines name) ∧
      (∀ rs, (∀ r ∈ rs, Request.IsRecord r) → ∀ name, (t.run rs).lines name = c.lines name) ∧
      ((∀ rs name, (t.run rs).lines name = (c.run rs).lines name) ↔ ∀ name, c.copies name = 0) := by
  intro t
  obtain ⟨hhandlers, hlevel, hchannels, hlines⟩ := setup_error h
  have hsilent : ∀ name, t.copies name = 0 := copies_of_no_handlers hhandlers
  refine ⟨hhandlers, hlevel, hlines, fun rs hrs name => ?_, fun hsame name => ?_, fun hc rs name => ?_⟩
  · exact (lines_run_of_silent hsilent hrs name).trans (hlines name)
  · -- a record at a fresh level tells
    obtain ⟨n, hn⟩ := c.exists_emitted ""
    let r : Request := .record (.number n) (.str Logger.package) (.str "")
    have hlost : (t.after r).lines name = c.lines name :=
      ((after_record_of_silent hsilent (r := r) trivial).2 name).trans (hlines name)
    have hwritten : (c.after r).lines name = c.lines name ++ List.replicate (c.copies name) ⟨n, Logger.package, ""⟩ := by
      obtain ⟨-, -, -, hstreams⟩ := log_spec ⟨n, Logger.package, ""⟩ c
      have hl := (hstreams name).2
      rwa [if_pos hn] at hl
    have hone : (t.after r).lines name = (c.after r).lines name := hsame [r] name
    rw [hlost, hwritten] at hone
    simpa using hone
  · have halike : Alike t c := ⟨hlevel, hchannels, hlines, fun name => (hsilent name).trans (hc name).symm⟩
    exact (halike.run rs).lines name

theorem failed_first_setup_unnoticed :
    (start.setup (.name "LOUD") "b").1 = .error (.badValue "Unknown level: 'LOUD'") ∧
      ∀ rs name, ((start.after (.setup (.name "LOUD") "b")).run rs).lines name = (start.run rs).lines name := by
  have hfails : (start.setup (.name "LOUD") "b").1 = .error (.badValue "Unknown level: 'LOUD'") := by cbv
  obtain ⟨-, -, -, -, hiff⟩ := failed_setup_unnoticed_iff hfails
  exact ⟨hfails, hiff.mpr fun _ => rfl⟩

/-- What was logged to "a" is lost when a setup for "b" fails. -/
theorem failed_setup_silences :
    let c := start.after (.setup (.name "INFO") "a")
    let t := c.after (.setup (.name "LOUD") "b")
    let r : Request := .record (.number 40) (.str Logger.package) (.str "lost")
    (c.setup (.name "LOUD") "b").1 = .error (.badValue "Unknown level: 'LOUD'") ∧ c.handlers = [.stream "a"] ∧
      t.handlers = [] ∧ (c.after r).lines "a" = [⟨40, Logger.package, "lost"⟩] ∧ (t.after r).lines "a" = [] := by
  refine ⟨?_, ?_, ?_, ?_, ?_⟩
  · cbv
  · cbv
  · cbv
  · cbv
  · cbv

end Console
end CircuitHarness
