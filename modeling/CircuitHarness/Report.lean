import CircuitHarness.Text.Lines
import CircuitHarness.Value.Text

/-! The layout of a diagnostic report: a heading, what the fault was about, its details and, if there is one, a
suggestion. The lines of the last two are indented, so that none of them can pass for a heading. -/
namespace CircuitHarness

structure Subject where
  simulator : Value := .none
  circuit : Value := .none
  sourceFile : Value := .none
  userInput : Value := .none

structure Report where
  errorType : String
  details : List String
  suggestion : Option (List String)
  subject : Subject

namespace Report

def banner : String := "============= ContractSim Core: Actionable Diagnostic Report ============="
def rule : String := "=========================================================================="

def shown (label : String) (v : Value) (close : String) : List String :=
  if v.isTruthy then [label ++ v.text ++ close] else []

def subjectLines (s : Subject) : List String :=
  shown "Simulator:      " s.simulator "" ++ shown "Circuit:        " s.circuit "" ++
    shown "Source File:    " s.sourceFile "" ++ shown "User Input:     '" s.userInput "'"

def indent (ls : List String) : List String := ls.map ("  " ++ ·)

def suggestionLines : Option (List String) → List String
  | none => []
  | some ls => ["", "Suggestion:"] ++ indent ls

def lines (r : Report) : List String :=
  ["", "", banner, "Error Type:     " ++ r.errorType] ++ subjectLines r.subject ++ ["", "Details:"] ++
    indent r.details ++ suggestionLines r.suggestion ++ [rule]

def render (r : Report) : String := "\n".intercalate r.lines

end Report
end CircuitHarness
