import CircuitHarness.Failure
import CircuitHarness.Journal

/-! Where records go: the package logger with its level and its handlers, and the named text streams a handler
writes to. A logger's level is its own or that of the nearest logger above it, and above it are names cut at dots. -/
namespace CircuitHarness

structure Line where
  level : Int
  logger : String
  message : String

inductive Handler where
  | discard
  | stream (name : String)
deriving DecidableEq

/-- A logger that was named before. It remembers which levels it took, until a level is set. -/
structure Channel where
  name : String
  taken : List (Int × Bool)

structure Console where
  handlers : List Handler
  level : Value
  streams : List (String × List Line)
  channels : List Channel

inductive LevelChoice where
  | number (n : Int)
  | truth (b : Bool)
  | name (s : String)
  | other

namespace Level

def root : Int := 30

def named : List (String × Int) :=
  [("CRITICAL", 50), ("FATAL", 50), ("ERROR", 40), ("WARN", 30), ("WARNING", 30), ("INFO", 20), ("DEBUG", 10),
    ("NOTSET", 0)]

def ofName? (s : String) : Option Int := (named.find? (·.1 = s)).map (·.2)

def text (n : Int) : String :=
  if n = 50 then "CRITICAL" else if n = 40 then "ERROR" else if n = 30 then "WARNING" else if n = 20 then "INFO"
  else if n = 10 then "DEBUG" else if n = 0 then "NOTSET" else "Level " ++ toString n

end Level

namespace LevelChoice

def number? : LevelChoice → Option Int
  | .number n => some n
  | .truth b => some (if b then 1 else 0)
  | _ => none

def resolve : LevelChoice → Except Failure Value
  | .number n => .ok (.int n)
  | .truth b => .ok (.bool b)
  | .name s => match Level.ofName? s with
    | some n => .ok (.int n)
    | none => .error (.badValue ("Unknown level: " ++ Quoted.text s))
  | .other => .error .wrongType

def opposite : LevelChoice → String
  | .number n => Level.text n
  | .truth b => if b then "Level " ++ Value.boolText b else Level.text 0
  | .name s => match Level.ofName? s with
    | some n => toString n
    | none => "Level " ++ s
  | .other => ""

end LevelChoice

def Line.text (time : String) (l : Line) : String :=
  let name := ((Level.text l.level).toList ++ List.replicate 5 ' ').take 5
  time ++ " [" ++ String.ofList name ++ "] [" ++ l.logger ++ "] " ++ l.message ++ "\n"

namespace Channel

/-- The names above a name, nearest first: what stands in front of each dot among the first `n` characters, where a dot
right in front of one that was cut at is passed over. -/
def above (name : List Char) : Bool → Nat → List String
  | _, 0 => []
  | true, n+1 => above name false n
  | false, n+1 =>
    if name[n]? = some '.' then if n = 0 then [] else String.ofList (name.take n) :: above name true n
    else above name false n

end Channel

namespace Console

def start : Console := ⟨[.discard], .int 20, [], []⟩

def openStream (name : String) (c : Console) : Console :=
  if c.streams.any (·.1 = name) then c else { c with streams := c.streams ++ [(name, [])] }

def knows (c : Console) (name : String) : Bool := name = Logger.package || c.channels.any (·.name = name)

/-- Whether the nearest known loggers above a name lead to the package logger, or the name is its own; every one of them
has a shorter name, and `n` bounds their number. -/
def isBelow (c : Console) : Nat → String → Bool
  | 0, _ => false
  | n+1, name =>
    name = Logger.package || match (Channel.above name.toList false name.length).find? c.knows with
      | some p => isBelow c n p
      | none => false

def belongs (c : Console) (name : String) : Bool := c.isBelow (name.length+1) name

def number (c : Console) : Int :=
  match c.level with
  | .int n => n
  | .bool true => 1
  | _ => 0

def threshold (c : Console) (name : String) : Int := if c.belongs name && c.number ≠ 0 then c.number else Level.root

def introduce (name : String) (c : Console) : Console :=
  if c.channels.any (·.name = name) then c else { c with channels := c.channels ++ [⟨name, []⟩] }

def takes (level : Int) (name : String) (c : Console) : Bool × Console :=
  match (c.channels.find? (·.name = name)).bind fun h => h.taken.find? (·.1 = level) with
  | some t => (t.2, c)
  | none =>
    let t : Bool := 0 < level && c.threshold name ≤ level
    (t, { c with channels := c.channels.map fun h => if h.name = name then ⟨name, (level, t) :: h.taken⟩ else h })

def handle (l : Line) (c : Console) : Handler → Console
  | .discard => c
  | .stream n =>
    { c with streams := c.streams.map fun s => if s.1 = n then (s.1, s.2 ++ [l]) else s }

def log (l : Line) (c : Console) : Console :=
  let (taken, c) := takes l.level l.logger (c.introduce l.logger)
  if taken && c.belongs l.logger then c.handlers.foldl (handle l) c else c

/-- A logger is named by a text, and what counts as absent names the one above all. A record is dropped if its level is no
number, though its logger is known from then on. -/
def record (level : LevelChoice) (logger message : Value) (c : Console) : Except Failure Unit × Console :=
  match logger with
  | .str name => match level.number? with
    | some n => (.ok (), c.log ⟨n, name, message.text⟩)
    | none => (.ok (), c.introduce name)
  | v => (if v.isTruthy then .error .wrongType else .ok (), c)

/-- Replaces the handlers by one on the named stream. The old ones are gone before the level is looked at. -/
def setup (level : LevelChoice) (stream : String) (c : Console) : Except Failure Unit × Console :=
  let bare := { c.openStream stream with handlers := [] }
  match level.resolve with
  | .error f => (.error f, bare)
  | .ok v =>
    let ready := { bare with handlers := [.stream stream], level := v, channels := c.channels.map fun (h : Channel) => ⟨h.name, []⟩ }
    (.ok (), ready.log ⟨10, Logger.package, "Logging configured at level " ++ level.opposite ++ "."⟩)

end Console
end CircuitHarness
