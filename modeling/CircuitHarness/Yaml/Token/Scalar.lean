import CircuitHarness.Yaml.Token.Cursor

/-! The four ways to write a scalar: literal or folded blocks, quoted text, and plain text. -/
namespace CircuitHarness.Yaml

namespace Block

def breaks (indent : Nat) : Nat → Cursor → List Char × Cursor
  | 0, c => ([], c)
  | n+1, c =>
    let c := c.forward (min (c.run (· = ' ')).length (indent-c.column))
    if isBreak c.peek then
      let (b, c) := c.lineBreak
      let (bs, c) := breaks indent n c
      (b ++ bs, c)
    else ([], c)

def indentation : Nat → Nat → Cursor → List Char × Nat × Cursor
  | 0, widest, c => ([], widest, c)
  | n+1, widest, c =>
    if c.peek = ' ' then
      let c := c.spaces
      indentation n (max widest c.column) c
    else if isBreak c.peek then
      let (b, c) := c.lineBreak
      let (bs, w, c) := indentation n widest c
      (b ++ bs, w, c)
    else ([], widest, c)

def digit? (c : Cursor) : Except Located (Option Nat × Cursor) :=
  if c.peek = '0' then c.refuse "expected indentation indicator in the range 1-9"
  else if c.peek.isDigit then .ok (some (hexValue c.peek), c.next) else .ok (none, c)

def chomp? (c : Cursor) : Option Bool × Cursor :=
  if c.peek = '+' then (some true, c.next) else if c.peek = '-' then (some false, c.next) else (none, c)

def indicators (c : Cursor) : Except Located ((Option Bool × Option Nat) × Cursor) := do
  let (chomp, c) := chomp? c
  let (digit, c) ← digit? c
  let (chomp, c) := if chomp.isNone && digit.isSome then chomp? c else (chomp, c)
  if isSpaceOrEnd c.peek then return ((chomp, digit), c)
  else c.refuse "expected chomping or indentation indicators"

def ignoredLine (c : Cursor) : Except Located Cursor :=
  let c := c.spaces.comment
  if isBreakOrEnd c.peek then .ok c.lineBreak.2 else c.refuse "expected a comment or a line break"

/-- The lines at column `indent`; `bs` are the breaks in front of the next one. The results are the text, the last
line break and the breaks behind it. -/
def lines (folded : Bool) (indent : Nat) : Nat → List Char → List Char → Cursor →
    (List Char × List Char × List Char) × Cursor
  | 0, last, bs, c => (([], last, bs), c)
  | n+1, last, bs, c =>
    if c.column = indent && !isEnd c.peek then
      let flush := !among " \t" c.peek
      let line := c.run fun x => !isBreakOrEnd x
      let c := c.forward line.length
      let (br, c) := c.lineBreak
      let (more, c) := breaks indent c.bound c
      if c.column = indent && !isEnd c.peek then
        let join := if folded && br = ['\n'] && flush && !among " \t" c.peek
          then if more.isEmpty then [' '] else [] else br
        let ((text, last, after), c) := lines folded indent n br more c
        ((bs ++ line ++ join ++ text, last, after), c)
      else ((bs ++ line, br, more), c)
    else (([], last, bs), c)

def scan (folded : Bool) (indent : Int) (c : Cursor) : Except Located (List Nat × Cursor) := do
  let ((chomp, digit), c) ← indicators c.next
  let c ← ignoredLine c
  let least := (max (indent+1) 1).toNat
  let (bs, indent, c) := match digit with
    | some d =>
      let (bs, c) := breaks (least+d-1) c.bound c
      (bs, least+d-1, c)
    | none =>
      let (bs, widest, c) := indentation c.bound 0 c
      (bs, max least widest, c)
  let ((text, last, after), c) := lines folded indent c.bound [] bs c
  let text := if chomp = some false then text else text ++ last
  return ((if chomp = some true then text ++ after else text).map Char.toNat, c)

end Block

namespace Quote

def escape? (c : Char) : Option Char :=
  match c with
  | '0' => some '\x00'
  | 'a' => some '\x07'
  | 'b' => some '\x08'
  | 't' | '\t' => some '\t'
  | 'n' => some '\n'
  | 'v' => some '\x0b'
  | 'f' => some '\x0c'
  | 'r' => some '\r'
  | 'e' => some '\x1b'
  | ' ' => some ' '
  | '"' => some '"'
  | '\\' => some '\\'
  | '/' => some '/'
  | 'N' => some (Char.ofNat 0x85)
  | '_' => some (Char.ofNat 0xa0)
  | 'L' => some (Char.ofNat 0x2028)
  | 'P' => some (Char.ofNat 0x2029)
  | _ => none

def codeLength? (c : Char) : Option Nat :=
  match c with
  | 'x' => some 2
  | 'u' => some 4
  | 'U' => some 8
  | _ => none

def code? (n : Nat) (c : Cursor) : Except Located Nat :=
  let ds := (c.rest.take n).takeWhile isHexDigit
  if ds.length = n then .ok (numberOf 16 ds)
  else (c.forward ds.length).refuse "expected escape sequence of hexadecimal numbers"

def codePoint (n : Nat) (c : Cursor) : Except Located (List Nat × Cursor) := do
  let k ← code? n c
  if 0x7fffffff < k then throw ⟨c.index, .tooLarge⟩
  if 0x10ffff < k then throw ⟨c.index, .badValue⟩
  return ([k], c.forward n)

def breaks : Nat → Cursor → Except Located (List Char × Cursor)
  | 0, c => .ok ([], c)
  | n+1, c =>
    if c.isSeparator then c.refuse "found unexpected document separator"
    else
      let c := c.skip (among " \t")
      if isBreak c.peek then do
        let (b, c) := c.lineBreak
        let (bs, c) ← breaks n c
        return (b ++ bs, c)
      else .ok ([], c)

def blanks (c : Cursor) : Except Located (List Char × Cursor) := do
  let gap := c.run (among " \t")
  let c := c.forward gap.length
  if isEnd c.peek then c.refuse "found unexpected end of stream"
  else if isBreak c.peek then
    let (b, c) := c.lineBreak
    let (bs, c) ← breaks c.bound c
    return (if b ≠ ['\n'] then b ++ bs else if bs.isEmpty then [' '] else bs, c)
  else return (gap, c)

def isOrdinary (c : Char) : Bool := !(isGap c || c = '\'' || c = '"' || c = '\\')

def solid (double : Bool) : Nat → Cursor → Except Located (List Nat × Cursor)
  | 0, c => .ok ([], c)
  | n+1, c =>
    let run := (c.run isOrdinary).map Char.toNat
    let c := c.forward run.length
    let go (codes : List Nat) (c : Cursor) : Except Located (List Nat × Cursor) := do
      let (more, c) ← solid double n c
      return (run ++ codes ++ more, c)
    let x := c.peek
    if !double && x = '\'' && c.peekAt 1 = '\'' then go [x.toNat] (c.forward 2)
    else if (double && x = '\'') || (!double && (x = '"' || x = '\\')) then go [x.toNat] c.next
    else if double && x = '\\' then
      let c := c.next
      match escape? c.peek, codeLength? c.peek with
      | some e, _ => go [e.toNat] c.next
      | none, some k => do
        let (codes, c) ← codePoint k c.next
        go codes c
      | none, none =>
        if isBreak c.peek then do
          let (text, c) ← breaks c.bound c.lineBreak.2
          go (text.map Char.toNat) c
        else c.refuse "found unknown escape character"
    else .ok (run, c)

def body (double : Bool) : Nat → Cursor → Except Located (List Nat × Cursor)
  | 0, c => .ok ([], c)
  | n+1, c => do
    let (codes, c) ← solid double c.bound c
    if c.peek = (if double then '"' else '\'') then return (codes, c.next)
    else
      let (gap, c) ← blanks c
      let (more, c) ← body double n c
      return (codes ++ gap.map Char.toNat ++ more, c)

def scan (double : Bool) (c : Cursor) : Except Located (List Nat × Cursor) := body double c.bound c.next

end Quote

namespace Plain

/-- Where plain text stops: at a gap, at a colon with a gap behind it, and in flow at the flow indicators. -/
def stops (flow : Bool) (x y : Char) : Bool :=
  isGap x || (x = ':' && (isGap y || (flow && among ",[]\x7b\x7d" y))) || (flow && among ",?[]\x7b\x7d" x)

def word (flow : Bool) : List Char → List Char
  | [] => []
  | x :: r => if stops flow x (r.head?.getD '\x00') then [] else x :: word flow r

def blankLines : Nat → Cursor → Option (List Char) × Cursor
  | 0, c => (some [], c)
  | n+1, c =>
    let c := c.spaces
    if isBreak c.peek then
      let (b, c) := c.lineBreak
      if c.isSeparator then (none, c)
      else
        let (bs, c) := blankLines n c
        (bs.map (b ++ ·), c)
    else (some [], c)

def gap (c : Cursor) : Option (List Char) × Bool × Cursor :=
  let blank := c.run (· = ' ')
  let c := c.forward blank.length
  if isBreak c.peek then
    let (b, c) := c.lineBreak
    if c.isSeparator then (none, true, c)
    else
      let (bs, c) := blankLines c.bound c
      (bs.map fun bs => if b ≠ ['\n'] then b ++ bs else if bs.isEmpty then [' '] else bs, true, c)
  else (if blank.isEmpty then none else some blank, false, c)

/-- The text, and whether a new line was begun behind its last word. -/
def words (flow : Bool) (indent : Int) : Nat → List Char → Bool → Cursor → (List Char × Bool) × Cursor
  | 0, _, fresh, c => (([], fresh), c)
  | n+1, blank, fresh, c =>
    let w := if c.peek = '#' then [] else word flow c.rest
    if w.isEmpty then (([], fresh), c)
    else
      let (next, ended, c) := gap (c.forward w.length)
      match next with
      | none => ((blank ++ w, ended), c)
      | some bs =>
        if c.peek = '#' || (!flow && (c.column : Int) < indent) then ((blank ++ w, ended), c)
        else
          let ((text, fresh), c) := words flow indent n bs ended c
          ((blank ++ w ++ text, fresh), c)

end Plain
end CircuitHarness.Yaml
