import CircuitHarness.Failure

/-! A report can be read back. A line of details or of a suggestion stands behind two blanks, and no heading, no gap
between the parts and no closing rule begins with a blank; cut at its line feeds, the report therefore gives back
the lines it was made of, whatever they say. -/
namespace CircuitHarness

namespace Lines

/-- `cur` is the open line, which holds no line end so far. -/
theorem not_ends_of_mem_cut {cur cs l : List Char} (hcur : ∀ c ∈ cur, ends c = false) (h : l ∈ cut cur cs) :
    ∀ c ∈ l, ends c = false := by
  have closed {cur : List Char} (hcur : ∀ c ∈ cur, ends c = false) : ∀ c ∈ cur.reverse, ends c = false :=
    fun c hc => hcur c (List.mem_reverse.mp hc)
  fun_induction cut cur cs with
  | case1 cur hempty => cases h
  | case2 cur hopen =>
    obtain rfl := List.mem_singleton.mp h
    exact closed hcur
  | case3 cur r ih =>
    obtain rfl | h := List.mem_cons.mp h
    · exact closed hcur
    · exact ih nofun h
  | case4 cur c r hr hend ih =>
    obtain rfl | h := List.mem_cons.mp h
    · exact closed hcur
    · exact ih nofun h
  | case5 cur c r hr hend ih =>
    refine ih (fun x hx => ?_) h
    obtain rfl | hx := List.mem_cons.mp hx
    · exact Bool.not_eq_true _ |>.mp hend
    · exact hcur x hx

theorem feed_not_mem_split {s l : String} (h : l ∈ split s) : '\n' ∉ l.toList := by
  obtain ⟨cs, hcs, rfl⟩ := List.mem_map.mp h
  rw [String.toList_ofList]
  intro hfeed
  have hends := not_ends_of_mem_cut (List.forall_mem_nil _) hcs '\n' hfeed
  exact absurd hends (by decide)

end Lines

namespace Subject

def values (s : Subject) : List Value := [s.simulator, s.circuit, s.sourceFile, s.userInput]

def IsPlain (s : Subject) : Prop := ∀ v ∈ s.values, v.isTruthy → '\n' ∉ v.text.toList

instance (s : Subject) : Decidable s.IsPlain :=
  inferInstanceAs (Decidable (∀ v ∈ s.values, v.isTruthy → '\n' ∉ v.text.toList))

end Subject

namespace Report

def head (r : Report) : List String :=
  ["", "", banner, "Error Type:     " ++ r.errorType] ++ subjectLines r.subject ++ [""]

theorem lines_eq (r : Report) :
    r.lines = r.head ++ "Details:" :: (indent r.details ++ (suggestionLines r.suggestion ++ [rule])) := by
  simp [lines, head]

def pieces (text : String) : List String := (text.toList.splitOn '\n').map String.ofList

def isBody (line : String) : Bool := line ≠ "" && line ≠ rule

def unindent (line : String) : String := String.ofList (line.toList.drop 2)

/-- The lines of the details, and those of the suggestion if there is one. -/
def read (text : String) : Option (List String × Option (List String)) :=
  match (pieces text).dropWhile (· ≠ "Details:") with
  | [] => none
  | _ :: r => some ((r.takeWhile isBody).map unindent, match r.dropWhile isBody with
    | "" :: "Suggestion:" :: q => some ((q.takeWhile isBody).map unindent)
    | _ => none)

theorem labelled_ne {label rest other : String} {c : Char} (hlabel : label.toList.head? = some c)
    (hother : other.toList.head? ≠ some c) : label ++ rest ≠ other := by
  rintro rfl
  rw [String.toList_append, List.head?_append, hlabel] at hother
  exact hother rfl

def frame : List String := ["", banner, "Details:", "Suggestion:", rule]

theorem head?_of_mem_frame {line : String} (h : line ∈ frame) : line.toList.head? ≠ some ' ' := by
  revert line
  decide

theorem indented_ne {other line : String} {ls : List String} (hother : other.toList.head? ≠ some ' ')
    (hline : line ∈ indent ls) : line ≠ other := by
  obtain ⟨l, -, rfl⟩ := List.mem_map.mp hline
  exact labelled_ne rfl hother

theorem map_unindent_indent (ls : List String) : (indent ls).map unindent = ls := by
  have hback (l : String) : unindent ("  " ++ l) = l := by
    rw [unindent, String.toList_append]
    exact String.ofList_toList
  rw [indent, List.map_map]
  exact (List.map_congr_left fun l _ => hback l).trans (List.map_id ls)

theorem isBody_of_mem_indent {ls : List String} {line : String} (h : line ∈ indent ls) : isBody line := by
  have hgap : line ≠ "" := indented_ne (by decide) h
  have hrule : line ≠ rule := indented_ne (by decide) h
  simp [isBody, hgap, hrule]

theorem takeWhile_indent {ls r : List String} (h : r.takeWhile isBody = []) :
    (indent ls ++ r).takeWhile isBody = indent ls := by
  rw [List.takeWhile_append_of_pos fun _ hl => isBody_of_mem_indent hl, h, List.append_nil]

theorem dropWhile_indent (ls r : List String) : (indent ls ++ r).dropWhile isBody = r.dropWhile isBody :=
  List.dropWhile_append_of_pos fun _ hl => isBody_of_mem_indent hl

def labels : List String := ["Simulator:      ", "Circuit:        ", "Source File:    ", "User Input:     '"]

theorem mem_subjectLines {s : Subject} {line : String} (h : line ∈ subjectLines s) :
    ∃ label ∈ labels, ∃ close ∈ ["", "'"], ∃ v ∈ s.values, v.isTruthy ∧ line = label ++ (v.text ++ close) := by
  have shown {label close : String} {v : Value} (h : line ∈ shown label v close) :
      v.isTruthy ∧ line = label ++ (v.text ++ close) := by
    rw [Report.shown] at h
    split at h
    · exact ⟨‹_›, (List.mem_singleton.mp h).trans String.append_assoc⟩
    · cases h
  simp only [subjectLines, List.mem_append, or_assoc] at h
  obtain h | h | h | h := h
  all_goals exact ⟨_, by simp [labels], _, by simp, _, by simp [Subject.values], shown h⟩

/-- No value can make a line of the head into the heading of the details. -/
theorem ne_details_of_mem_head {r : Report} {line : String} (h : line ∈ r.head) : line ≠ "Details:" := by
  simp only [head, List.mem_append, List.mem_cons, List.not_mem_nil, or_false] at h
  obtain ((rfl | rfl | rfl | rfl) | h) | rfl := h
  · decide
  · decide
  · decide
  · exact labelled_ne rfl (by decide)
  · obtain ⟨label, hlabel, close, -, v, -, -, rfl⟩ := mem_subjectLines h
    simp only [labels, List.mem_cons, List.not_mem_nil, or_false] at hlabel
    obtain rfl | rfl | rfl | rfl := hlabel <;> exact labelled_ne rfl (by decide)
  · decide

theorem feed_not_mem_head {r : Report} (htype : '\n' ∉ r.errorType.toList) (hsubject : r.subject.IsPlain)
    {line : String} (h : line ∈ r.head) : '\n' ∉ line.toList := by
  simp only [head, List.mem_append, List.mem_cons, List.not_mem_nil, or_false] at h
  obtain ((rfl | rfl | rfl | rfl) | h) | rfl := h
  · decide
  · decide
  · decide
  · rw [String.toList_append, List.mem_append, not_or]
    exact ⟨by decide, htype⟩
  · have hlabels : ∀ label ∈ labels, '\n' ∉ label.toList := by decide
    have hcloses : ∀ close ∈ ["", "'"], '\n' ∉ close.toList := by decide
    obtain ⟨label, hlabel, close, hclose, v, hv, hshown, rfl⟩ := mem_subjectLines h
    simp only [String.toList_append, List.mem_append, not_or]
    exact ⟨hlabels label hlabel, hsubject v hv hshown, hcloses close hclose⟩
  · decide

theorem feed_not_mem_indent {ls : List String} (hls : ∀ l ∈ ls, '\n' ∉ l.toList) {line : String}
    (h : line ∈ indent ls) : '\n' ∉ line.toList := by
  obtain ⟨l, hl, rfl⟩ := List.mem_map.mp h
  rw [String.toList_append, List.mem_append, not_or]
  exact ⟨by decide, hls l hl⟩

theorem pieces_intercalate {ls : List String} (hne : ls ≠ []) (hls : ∀ l ∈ ls, '\n' ∉ l.toList) :
    pieces ("\n".intercalate ls) = ls := by
  have hcut : ("\n".intercalate ls).toList.splitOn '\n' = ls.map String.toList := by
    rw [String.toList_intercalate]
    refine List.splitOn_intercalate '\n' (fun cs hcs => ?_) (by simpa using hne)
    obtain ⟨l, hl, rfl⟩ := List.mem_map.mp hcs
    exact hls l hl
  rw [pieces, hcut, List.map_map]
  exact (List.map_congr_left fun _ _ => String.ofList_toList).trans (List.map_id ls)

/-- What a report must be for its text to be cut where its lines end. -/
structure IsPlain (r : Report) : Prop where
  errorType : '\n' ∉ r.errorType.toList
  subject : r.subject.IsPlain
  details : ∀ l ∈ r.details, '\n' ∉ l.toList
  suggestion : ∀ ls, r.suggestion = some ls → ∀ l ∈ ls, '\n' ∉ l.toList

theorem IsPlain.feed_not_mem {r : Report} (h : r.IsPlain) {line : String} (hline : line ∈ r.lines) :
    '\n' ∉ line.toList := by
  rw [lines_eq, List.mem_append, List.mem_cons, List.mem_append, List.mem_append, List.mem_singleton] at hline
  obtain hline | rfl | hline | hline | rfl := hline
  · exact feed_not_mem_head h.errorType h.subject hline
  · decide
  · exact feed_not_mem_indent h.details hline
  · cases hs : r.suggestion with
    | none => simp [hs, suggestionLines] at hline
    | some ls =>
      rw [hs, suggestionLines, List.mem_append, List.mem_cons, List.mem_singleton] at hline
      obtain (rfl | rfl) | hline := hline
      · decide
      · decide
      · exact feed_not_mem_indent (h.suggestion ls hs) hline
  · decide

theorem IsPlain.pieces_render {r : Report} (h : r.IsPlain) : pieces r.render = r.lines :=
  pieces_intercalate (by simp [lines]) fun _ hl => h.feed_not_mem hl

theorem IsPlain.read_render {r : Report} (h : r.IsPlain) : read r.render = some (r.details, r.suggestion) := by
  -- No line of the head is the heading, whatever it shows, so the first heading is the one that was set.
  have hhead : (pieces r.render).dropWhile (· ≠ "Details:") =
      "Details:" :: (indent r.details ++ (suggestionLines r.suggestion ++ [rule])) := by
    rw [h.pieces_render, lines_eq, List.dropWhile_append_of_pos]
    · simp
    · intro line hline
      simpa using ne_details_of_mem_head hline
  have hrule : [rule].takeWhile isBody = [] := by decide
  rw [read, hhead]
  cases hs : r.suggestion with
  | none =>
    simp only [suggestionLines, List.nil_append]
    rw [takeWhile_indent hrule, dropWhile_indent, map_unindent_indent]
    rfl
  | some ls =>
    have hgap : (suggestionLines (some ls) ++ [rule]).takeWhile isBody = [] := rfl
    simp only
    rw [takeWhile_indent hgap, dropWhile_indent, map_unindent_indent]
    change some (r.details, some (((indent ls ++ [rule]).takeWhile isBody).map unindent)) = _
    rw [takeWhile_indent hrule, map_unindent_indent]

/-- The report of some parts, whose first heading of details is the one that the report sets itself. -/
theorem renderParts_reads_back (errorType : Value) (details suggestion : String) (subject : Subject)
    (htype : '\n' ∉ errorType.text.toList) (hsubject : subject.IsPlain) :
    ∃ text, Failure.renderParts errorType (.str details) (.str suggestion) subject = .ok text ∧
      (∃ head, (∀ line ∈ head, line ≠ "Details:") ∧
        pieces text = head ++ "Details:" :: (indent (Lines.split details) ++
          if suggestion = "" then [rule] else "" :: "Suggestion:" :: (indent (Lines.split suggestion) ++ [rule]))) ∧
      (∀ line ∈ indent (Lines.split details ++ Lines.split suggestion), line ∉ frame) ∧
      read text = some (Lines.split details, if suggestion = "" then none else some (Lines.split suggestion)) ∧
      ∀ other, Lines.split other ≠ Lines.split details →
        Failure.renderParts errorType (.str other) (.str suggestion) subject ≠ .ok text := by
  let report (details : String) : Report := ⟨errorType.text, Lines.split details,
    if suggestion = "" then none else some (Lines.split suggestion), subject⟩
  have hrender (details : String) :
      Failure.renderParts errorType (.str details) (.str suggestion) subject = .ok (report details).render := by
    by_cases h : suggestion = "" <;> simp [Failure.renderParts, Value.lines, Value.isTruthy, report, h] <;> rfl
  have hplain (details : String) : (report details).IsPlain := by
    refine ⟨htype, hsubject, fun l => Lines.feed_not_mem_split, fun ls hls l hl => ?_⟩
    obtain ⟨-, rfl⟩ : suggestion ≠ "" ∧ Lines.split suggestion = ls := by simpa [report] using hls
    exact Lines.feed_not_mem_split hl
  refine ⟨_, hrender details, ⟨(report details).head, fun _ => ne_details_of_mem_head, ?_⟩,
    fun _ hline hframe => indented_ne (head?_of_mem_frame hframe) hline rfl, (hplain details).read_render,
    fun other hother he => ?_⟩
  · rw [(hplain details).pieces_render, lines_eq]
    by_cases h : suggestion = "" <;> simp [report, h, suggestionLines]
  · have hread := (hplain other).read_render
    rw [hrender, Except.ok.injEq] at he
    rw [he, (hplain details).read_render] at hread
    exact hother (congrArg Prod.fst (Option.some.inj hread)).symm

theorem imitated_frame_reads_back :
    '\n' ∉ (Value.str "Odd\r").text.toList ∧ ({ circuit := .str "Details:" } : Subject).IsPlain ∧
      ∃ text, Failure.renderParts (.str "Odd\r") (.str ("Suggestion:\n\n" ++ rule ++ "\r\nDetails:\n"))
          (.str "\nDetails:\u2028Suggestion:") { circuit := .str "Details:" } = .ok text ∧
        read text = some (["Suggestion:", "", rule, "Details:"], some ["", "Details:", "Suggestion:"]) := by
  have htype : '\n' ∉ (Value.str "Odd\r").text.toList := by decide
  have hsubject : ({ circuit := .str "Details:" } : Subject).IsPlain := by decide
  obtain ⟨text, htext, -, -, hread, -⟩ := renderParts_reads_back (.str "Odd\r")
    ("Suggestion:\n\n" ++ rule ++ "\r\nDetails:\n") "\nDetails:\u2028Suggestion:" { circuit := .str "Details:" }
    htype hsubject
  refine ⟨htype, hsubject, text, htext, hread.trans ?_⟩
  decide

end Report
end CircuitHarness
