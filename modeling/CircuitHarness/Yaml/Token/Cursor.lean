import CircuitHarness.Yaml.Token

/-! A place in the text of a stream, with its line and column. The end of the text reads as a null character. -/
namespace CircuitHarness.Yaml

def isBreak (c : Char) : Bool := c = '\n' || c.toNat = 0x85 || c.toNat = 0x2028 || c.toNat = 0x2029
def isEnd (c : Char) : Bool := c = '\x00'
def isBreakOrEnd (c : Char) : Bool := isBreak c || isEnd c
def isGap (c : Char) : Bool := c = ' ' || c = '\t' || isBreakOrEnd c
def isSpaceOrEnd (c : Char) : Bool := c = ' ' || isBreakOrEnd c
def isWord (c : Char) : Bool := c.isAlphanum || c = '-' || c = '_'
def isHexDigit (c : Char) : Bool := c.isDigit || ('a' ≤ c && c ≤ 'f') || ('A' ≤ c && c ≤ 'F')
def hexValue (c : Char) : Nat := if c.isDigit then c.toNat-48 else if 'a' ≤ c then c.toNat-87 else c.toNat-55
def numberOf (base : Nat) (cs : List Char) : Nat := cs.foldl (fun n c => base*n+hexValue c) 0
def digitLimit : Nat := 4300
def among (s : String) (c : Char) : Bool := s.toList.contains c

structure Cursor where
  rest : List Char
  size : Nat
  index : Nat
  line : Nat
  column : Nat
deriving Inhabited

namespace Cursor

def start (text : List Char) : Cursor := ⟨text, text.length, 0, 0, 0⟩

/-- No walk through the text has more steps. -/
def bound (c : Cursor) : Nat := c.size+1

def peek (c : Cursor) : Char := c.rest.head?.getD '\x00'
def peekAt (c : Cursor) (n : Nat) : Char := (c.rest[n]?).getD '\x00'

def next (c : Cursor) : Cursor :=
  match c.rest with
  | [] => c
  | x :: r =>
    if isBreak x then ⟨r, c.size, c.index+1, c.line+1, 0⟩
    else ⟨r, c.size, c.index+1, c.line, if x.toNat = 0xfeff then c.column else c.column+1⟩

def forward : Nat → Cursor → Cursor
  | 0, c => c
  | n+1, c => forward n c.next

def run (p : Char → Bool) (c : Cursor) : List Char := c.rest.takeWhile p
def skip (p : Char → Bool) (c : Cursor) : Cursor := c.forward (c.run p).length
def spaces (c : Cursor) : Cursor := c.skip (· = ' ')

def lineBreak (c : Cursor) : List Char × Cursor :=
  let x := c.peek
  if x = '\n' || x.toNat = 0x85 then (['\n'], c.next) else if isBreak x then ([x], c.next) else ([], c)

def comment (c : Cursor) : Cursor := if c.peek = '#' then c.skip fun x => !isBreakOrEnd x else c

def isMarker (x : Char) (c : Cursor) : Bool :=
  c.peek = x && c.peekAt 1 = x && c.peekAt 2 = x && isGap (c.peekAt 3)

def isSeparator (c : Cursor) : Bool := c.isMarker '-' || c.isMarker '.'

end Cursor

/-- A fault, and the index of the last character that was looked at. -/
structure Located where
  index : Nat
  fault : Fault

def Cursor.refuse (c : Cursor) (problem : String) : Except Located α := .error ⟨c.index, .malformed problem⟩

def refuse {α : Type} (problem : String) : Except Fault α := .error (.malformed problem)

end CircuitHarness.Yaml
