/-! The text of a file path: empty parts and single dots are dropped, `..` is kept, and exactly two
leading slashes stay apart from one. -/
namespace CircuitHarness.Path

def root (cs : List Char) : String :=
  match (cs.takeWhile (· = '/')).length with
  | 0 => ""
  | 2 => "//"
  | _ => "/"

def parts (s : String) : List String := (s.splitOn "/").filter fun p => p ≠ "" && p ≠ "."

def normalize (s : String) : String :=
  match root s.toList ++ "/".intercalate (parts s) with
  | "" => "."
  | t => t

end CircuitHarness.Path
