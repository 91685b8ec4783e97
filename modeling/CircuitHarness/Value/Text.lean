import CircuitHarness.Text.Quoted
import CircuitHarness.Decimal.Shortest
import CircuitHarness.Value

/-! Values as text: `repr` as they are written inside other values, `text` as they stand in a message. -/
namespace CircuitHarness
namespace Day

def text (d : Day) : String :=
  Decimal.padLeft 4 (toString d.year) ++ "-" ++ Decimal.padLeft 2 (toString d.month) ++ "-" ++
    Decimal.padLeft 2 (toString d.day)

def fields (d : Day) : String := toString d.year ++ ", " ++ toString d.month ++ ", " ++ toString d.day

end Day

namespace Moment

def two (n : Nat) : String := Decimal.padLeft 2 (toString n)

def offsetText : Option Int → String
  | none => ""
  | some o => (if o < 0 then "-" else "+") ++ two (o.natAbs/60) ++ ":" ++ two (o.natAbs%60)

def text (m : Moment) (gap : String) : String :=
  m.day.text ++ gap ++ two m.hour ++ ":" ++ two m.minute ++ ":" ++ two m.second ++
    (if m.micro = 0 then "" else "." ++ Decimal.padLeft 6 (toString m.micro)) ++ offsetText m.offset

def zone : Option Int → String
  | none => ""
  | some 0 => ", tzinfo=datetime.timezone.utc"
  | some o =>
    ", tzinfo=datetime.timezone(datetime.timedelta(" ++ (if o < 0 then "days=-1, " else "") ++
      "seconds=" ++ toString ((o%1440)*60) ++ "))"

def repr (m : Moment) : String :=
  "datetime.datetime(" ++ m.day.fields ++ ", " ++ toString m.hour ++ ", " ++ toString m.minute ++
    (if m.micro ≠ 0 then ", " ++ toString m.second ++ ", " ++ toString m.micro
     else if m.second ≠ 0 then ", " ++ toString m.second else "") ++ zone m.offset ++ ")"

end Moment

namespace Value

def boolText (b : Bool) : String := if b then "True" else "False"

def commas (ps : List String) : String := ", ".intercalate ps

mutual
def repr : Value → String
  | .none => "None"
  | .bool b => boolText b
  | .int n => toString n
  | .float x => Decimal.write x
  | .nan _ => "nan"
  | .str s => Quoted.text s
  | .codes cs => Quoted.codes cs
  | .bytes bs => Quoted.bytes bs
  | .list xs => "[" ++ commas (reprs xs) ++ "]"
  | .tuple [x] => "(" ++ repr x ++ ",)"
  | .tuple xs => "(" ++ commas (reprs xs) ++ ")"
  | .map es => "\x7b" ++ commas (reprEntries es) ++ "\x7d"
  | .set [] => "set()"
  | .set xs => "\x7b" ++ commas (reprs xs) ++ "\x7d"
  | .day d => "datetime.date(" ++ d.fields ++ ")"
  | .moment m => m.repr
  | .record t fs => t ++ "(" ++ commas (reprFields fs) ++ ")"
  | .fn _ l _ => "<function " ++ l ++ ">"
  | .kind k => "<CircuitKind." ++ k.name.toUpper ++ ": " ++ Quoted.text k.name ++ ">"
termination_by structural x => x
def reprs : List Value → List String
  | [] => []
  | x :: r => repr x :: reprs r
termination_by structural x => x
def reprEntries : List (Value × Value) → List String
  | [] => []
  | (k, v) :: r => (repr k ++ ": " ++ repr v) :: reprEntries r
termination_by structural x => x
def reprFields : List (String × Value) → List String
  | [] => []
  | (n, v) :: r => (n ++ "=" ++ repr v) :: reprFields r
termination_by structural x => x
end

def text : Value → String
  | .str s => s
  | .codes cs => Surrogate.text cs
  | .day d => d.text
  | .moment m => m.text " "
  | .kind k => k.name
  | v => v.repr

end Value
end CircuitHarness
