import CircuitHarness.Yaml.Source
import CircuitHarness.Yaml.Token.Scalar

/-! From text to tokens. Indentation opens and closes block collections, and what turns out to be a key, because a
colon follows it on its line, gets its key token afterwards, in front of what was written since. -/
namespace CircuitHarness.Yaml

/-- A token that may turn out to start a key. A required one has nothing else to be. -/
structure PossibleKey where
  place : Nat
  required : Bool
  index : Nat
  line : Nat
  column : Nat

/-- `keys` holds at most one possible key for each depth of flow. Of the tokens so far `taken` were handed out, and
`tokens` holds the others. -/
structure Lexer where
  cursor : Cursor
  flow : Nat
  indent : Int
  indents : List Int
  allowKey : Bool
  keys : List (Nat × PossibleKey)
  taken : Nat
  tokens : Array Token

namespace Lexer

def start (text : List Char) : Lexer := ⟨.start text, 0, -1, [], true, [], 0, #[]⟩

def push (t : Token) (l : Lexer) : Lexer := { l with tokens := l.tokens.push t }
def count (l : Lexer) : Nat := l.taken+l.tokens.size
def insertAt (n : Nat) (t : Token) (l : Lexer) : Lexer :=
  let n := n-l.taken
  { l with tokens := l.tokens.extract 0 n ++ #[t] ++ l.tokens.extract n l.tokens.size }
def forward (n : Nat) (l : Lexer) : Lexer := { l with cursor := l.cursor.forward n }
def allowing (b : Bool) (l : Lexer) : Lexer := { l with allowKey := b }
def inFlow (l : Lexer) : Bool := l.flow ≠ 0
def peek (l : Lexer) : Char := l.cursor.peek
def column (l : Lexer) : Int := l.cursor.column

def missingColon (l : Lexer) : Except Located α := l.cursor.refuse "could not find expected ':'"

def unwind (column : Int) (l : Lexer) : Lexer :=
  if l.inFlow then l else go l.indents l
where
  go : List Int → Lexer → Lexer
    | [], l => l
    | i :: r, l => if column < l.indent then go r { l.push .blockEnd with indent := i, indents := r } else l

def indentTo (column : Int) (l : Lexer) : Option Lexer :=
  if l.indent < column then some { l with indents := l.indent :: l.indents, indent := column } else none

def openBlock (t : Token) (l : Lexer) : Lexer :=
  match l.indentTo l.column with
  | some m => m.push t
  | none => l

def key? (l : Lexer) : Option PossibleKey := (l.keys.find? (·.1 = l.flow)).map (·.2)

def dropKey (l : Lexer) : Lexer := { l with keys := l.keys.filter (·.1 ≠ l.flow) }

def removeKey (l : Lexer) : Except Located Lexer :=
  match l.key? with
  | some k => if k.required then l.missingColon else .ok l.dropKey
  | none => .ok l

def saveKey (l : Lexer) : Except Located Lexer :=
  if l.allowKey then do
    let m ← l.removeKey
    let k : PossibleKey := ⟨m.count, !m.inFlow && m.indent = m.column, m.cursor.index, m.cursor.line, m.cursor.column⟩
    return { m with keys := (m.flow, k) :: m.keys }
  else .ok l

def isStale (l : Lexer) (k : PossibleKey) : Bool := k.line ≠ l.cursor.line || 1024 < l.cursor.index-k.index

/-- A key must be complete on its line and within 1024 characters. -/
def dropStale (l : Lexer) : Except Located Lexer :=
  if l.keys.any fun k => l.isStale k.2 && k.2.required then l.missingColon
  else .ok { l with keys := l.keys.filter fun k => !l.isStale k.2 }

def toNextToken : Nat → Lexer → Lexer
  | 0, l => l
  | n+1, l =>
    let c := l.cursor.spaces.comment
    if isBreak c.peek then
      toNextToken n { l with cursor := c.lineBreak.2, allowKey := l.allowKey || !l.inFlow }
    else { l with cursor := c }

def skipMark (l : Lexer) : Lexer :=
  if l.cursor.index = 0 && l.peek.toNat = 0xfeff then l.forward 1 else l

/-! Directives, anchors and tags. -/

def directiveEnd (c : Cursor) : Except Located Cursor := Block.ignoredLine c

def number (c : Cursor) : Except Located (Nat × Cursor) :=
  let ds := c.run Char.isDigit
  let d := c.forward ds.length
  if ds.isEmpty then c.refuse "expected a digit"
  else if digitLimit < ds.length then .error ⟨d.index, .badValue⟩
  else .ok (numberOf 10 ds, d)

def version (c : Cursor) : Except Located (Directive × Cursor) := do
  let (major, c) ← number c.spaces
  if c.peek ≠ '.' then c.refuse "expected a digit or '.'"
  else
    let (_, c) ← number c.next
    if isSpaceOrEnd c.peek then return (.version major, c) else c.refuse "expected a digit or ' '"

def tagHandle (c : Cursor) : Except Located (String × Cursor) :=
  if c.peek ≠ '!' then c.refuse "expected '!'"
  else if c.peekAt 1 = ' ' then .ok ("!", c.next)
  else
    let w := c.next.run isWord
    let d := c.next.forward w.length
    if d.peek = '!' then .ok (String.ofList ('!' :: w ++ ['!']), d.next) else d.refuse "expected '!'"

def isUri (c : Char) : Bool := c.isAlphanum || among "-;/?:@&=+$,_.!~*'()[]" c

def uriEscapes : Nat → Cursor → Except Located (List UInt8 × Cursor)
  | 0, c => .ok ([], c)
  | n+1, c =>
    if c.peek = '%' then
      let ds := (c.next.rest.take 2).takeWhile isHexDigit
      if ds.length = 2 then do
        let (bs, c) ← uriEscapes n (c.forward 3)
        return (UInt8.ofNat (numberOf 16 ds) :: bs, c)
      else (c.next.forward ds.length).refuse "expected URI escape sequence of 2 hexadecimal numbers"
    else .ok ([], c)

def uriText : Nat → Cursor → Except Located (List Char × Cursor)
  | 0, c => .ok ([], c)
  | n+1, c =>
    if isUri c.peek then do
      let (r, d) ← uriText n c.next
      return (c.peek :: r, d)
    else if c.peek = '%' then do
      let (bs, d) ← uriEscapes c.bound c
      match String.fromUTF8? ⟨bs.toArray⟩ with
      | some s => do
        let (r, d) ← uriText n d
        return (s.toList ++ r, d)
      | none => d.refuse "expected a text in UTF-8"
    else .ok ([], c)

def uri (c : Cursor) : Except Located (String × Cursor) := do
  let (cs, d) ← uriText c.bound c
  if d.index = c.index then d.refuse "expected URI" else return (String.ofList cs, d)

def tagDirective (c : Cursor) : Except Located (Directive × Cursor) := do
  let (handle, c) ← tagHandle c.spaces
  if c.peek ≠ ' ' then c.refuse "expected ' '"
  else
    let (start, c) ← uri c.spaces
    if isSpaceOrEnd c.peek then return (.tag handle start, c) else c.refuse "expected ' '"

def directive (c : Cursor) : Except Located (Token × Cursor) := do
  let name := c.next.run isWord
  let c := c.next.forward name.length
  if name.isEmpty || !isSpaceOrEnd c.peek then c.refuse "expected alphabetic or numeric character"
  else
    let (d, c) ← match String.ofList name with
      | "YAML" => version c
      | "TAG" => tagDirective c
      | _ => pure (Directive.other, c.skip fun x => !isBreakOrEnd x)
    return (.directive d, ← directiveEnd c)

def anchorName (c : Cursor) : Except Located (String × Cursor) :=
  let name := c.next.run isWord
  let d := c.next.forward name.length
  if name.isEmpty || !(isGap d.peek || among "?:,]\x7d%@\x60" d.peek) then
    d.refuse "expected alphabetic or numeric character"
  else .ok (String.ofList name, d)

def hasHandle : List Char → Bool
  | [] => false
  | x :: r => if isSpaceOrEnd x then false else x = '!' || hasHandle r

def tag (c : Cursor) : Except Located (Token × Cursor) := do
  let (t, c) ← (
    if c.peekAt 1 = '<' then do
      let (s, c) ← uri (c.forward 2)
      if c.peek ≠ '>' then c.refuse "expected '>'" else return (Token.tag none s, c.next)
    else if isGap (c.peekAt 1) then return (Token.tag none "!", c.next)
    else do
      let (handle, c) ← if hasHandle c.next.rest then tagHandle c else pure ("!", c.next)
      let (s, c) ← uri c
      return (Token.tag (some handle) s, c) : Except Located (Token × Cursor))
  if isSpaceOrEnd c.peek then return (t, c) else c.refuse "expected ' '"

/-! One token at a time. -/

def take (x : Except Located (Token × Cursor)) (l : Lexer) : Except Located Lexer := do
  let (t, c) ← x
  return { l.push t with cursor := c }

def single (t : Token) (l : Lexer) : Lexer := (l.push t).forward 1

def documentMarker (t : Token) (l : Lexer) : Except Located Lexer := do
  return ((← (l.unwind (-1)).removeKey).allowing false).push t |>.forward 3

def flowStart (t : Token) (l : Lexer) : Except Located Lexer := do
  let l ← l.saveKey
  return { l with flow := l.flow+1, allowKey := true }.single t

def flowEnd (t : Token) (l : Lexer) : Except Located Lexer := do
  let l ← l.removeKey
  return { l with flow := l.flow-1, allowKey := false }.single t

def flowEntry (l : Lexer) : Except Located Lexer := do return (← (l.allowing true).removeKey).single .flowEntry

def blockEntry (l : Lexer) : Except Located Lexer := do
  if !l.inFlow && !l.allowKey then l.cursor.next.refuse "sequence entries are not allowed here"
  else
    let l := if l.inFlow then l else l.openBlock .blockSequenceStart
    return (← (l.allowing true).removeKey).single .blockEntry

def explicitKey (l : Lexer) : Except Located Lexer := do
  if !l.inFlow && !l.allowKey then l.cursor.next.refuse "mapping keys are not allowed here"
  else
    let l := if l.inFlow then l else l.openBlock .blockMappingStart
    return (← (l.allowing !l.inFlow).removeKey).single .key

def value (l : Lexer) : Except Located Lexer := do
  match l.key? with
  | some k =>
    let l := l.dropKey.insertAt k.place .key
    let l := if l.inFlow then l else match l.indentTo k.column with
      | some m => m.insertAt k.place .blockMappingStart
      | none => l
    return (l.allowing false).single .value
  | none =>
    if !l.inFlow && !l.allowKey then l.cursor.next.refuse "mapping values are not allowed here"
    else
      let l := if l.inFlow then l else l.openBlock .blockMappingStart
      return (← (l.allowing !l.inFlow).removeKey).single .value

def atom (scan : Cursor → Except Located (Token × Cursor)) (l : Lexer) : Except Located Lexer := do
  let l ← l.saveKey
  (l.allowing false).take (scan l.cursor)

def blockScalar (folded : Bool) (l : Lexer) : Except Located Lexer := do
  let l ← (l.allowing true).removeKey
  let (s, c) ← Block.scan folded l.indent l.cursor
  return { l.push (.scalar s false) with cursor := c }

def quoted (double : Bool) (c : Cursor) : Except Located (Token × Cursor) := do
  let (s, c) ← Quote.scan double c
  return (.scalar s false, c)

def plain (l : Lexer) : Except Located Lexer := do
  let l ← l.saveKey
  let ((text, fresh), c) := Plain.words l.inFlow (l.indent+1) l.cursor.bound [] false l.cursor
  return { l.push (.scalar (text.map Char.toNat) true) with cursor := c, allowKey := fresh }

def startsPlain (l : Lexer) : Bool :=
  let x := l.peek
  !(isGap x || among "-?:,[]\x7b\x7d#&*!|>'\"%@\x60" x) ||
    (!isGap (l.cursor.peekAt 1) && (x = '-' || (!l.inFlow && (x = '?' || x = ':'))))

def finish (l : Lexer) : Except Located Lexer := do
  return { (← (l.unwind (-1)).removeKey).allowing false with keys := [] }.push .streamEnd

def step (l : Lexer) : Except Located (Lexer × Bool) := do
  let l ← (toNextToken l.cursor.bound l.skipMark).dropStale
  let l := l.unwind l.column
  let x := l.peek
  let gap := isGap (l.cursor.peekAt 1)
  let indicator := l.inFlow || gap
  let more (r : Except Located Lexer) : Except Located (Lexer × Bool) := r.map (·, false)
  if isEnd x then return (← l.finish, true)
  else if x = '%' && l.cursor.column = 0 then
    more do (← (l.unwind (-1)).removeKey).allowing false |>.take (directive l.cursor)
  else if l.cursor.column = 0 && l.cursor.isMarker '-' then more (l.documentMarker .documentStart)
  else if l.cursor.column = 0 && l.cursor.isMarker '.' then more (l.documentMarker .documentEnd)
  else if x = '[' then more (l.flowStart .flowSequenceStart)
  else if x = '\x7b' then more (l.flowStart .flowMappingStart)
  else if x = ']' then more (l.flowEnd .flowSequenceEnd)
  else if x = '\x7d' then more (l.flowEnd .flowMappingEnd)
  else if x = ',' then more l.flowEntry
  else if x = '-' && gap then more l.blockEntry
  else if x = '?' && indicator then more l.explicitKey
  else if x = ':' && indicator then more l.value
  else if x = '*' then more (l.atom fun c => (anchorName c).map fun (n, c) => (.alias n, c))
  else if x = '&' then more (l.atom fun c => (anchorName c).map fun (n, c) => (.anchor n, c))
  else if x = '!' then more (l.atom tag)
  else if x = '|' && !l.inFlow then more (l.blockScalar false)
  else if x = '>' && !l.inFlow then more (l.blockScalar true)
  else if x = '\'' then more (l.atom (quoted false))
  else if x = '"' then more (l.atom (quoted true))
  else if l.startsPlain then more l.plain
  else l.cursor.refuse "found character that cannot start any token"

/-- How many tokens are settled. Whether one that may start a key does so is known only from what comes behind it, so
from the first such token on all wait for the next. -/
def settled (l : Lexer) : Nat :=
  (l.keys.filter fun k => !l.isStale k.2).foldl (fun n k => min n k.2.place) l.count

def handOut (l : Lexer) : Array Token × Lexer :=
  let n := l.settled-l.taken
  (l.tokens.extract 0 n, { l with taken := l.taken+n, tokens := l.tokens.extract n l.tokens.size })

/-- Runs up to the end or to the first fault, behind the tokens `out`. Where the text cannot be read to its end, that is
the fault of the first step that looks beyond it. -/
def run (beyond : Nat → Option Fault) : Nat → Array Token → Lexer → Array Token × Option Fault
  | 0, out, _ => (out, some (.malformed "too many tokens"))
  | n+1, out, l =>
    match l.step with
    | .ok (m, last) => match beyond m.cursor.index with
      | some f => (out, some f)
      | none =>
        if last then (out ++ m.tokens, none)
        else
          let (ts, m) := m.handOut
          run beyond n (out ++ ts) m
    | .error e => (out, some ((beyond e.index).getD e.fault))

end Lexer

def Token.scan (s : Source) : List Token × Option Fault :=
  let l := Lexer.start s.text
  let (ts, fault) := Lexer.run (fun i => if l.cursor.size ≤ i then s.fault else none) (2*l.cursor.size+4) #[] l
  (ts.toList, fault)

end CircuitHarness.Yaml
