import CircuitHarness.Action
import CircuitHarness.Options
import CircuitHarness.Yaml.Document

/-! Options read from a file: a mapping in YAML, in UTF-8, held to the rules for files. -/
namespace CircuitHarness

inductive FileContent where
  | missing
  | directory
  | bytes (bs : List UInt8)

namespace Options

def yamlLead : String := "Invalid YAML syntax: "

def ofFault (path : String) : Yaml.Fault → Failure
  | .malformed problem => .unreadableOptions (.str (yamlLead ++ problem)) path
  | .badValue => .badValue "invalid literal"
  | .missingKey => .missingKey .none
  | .outOfRange => .outOfRange
  | .noAttribute => .noAttribute
  | .wrongType => .wrongType
  | .tooDeep => .tooDeep
  | .tooLarge => .tooLarge
  | .notUtf8 => .notUtf8

def readContent (load : Yaml.Loader) (path : String) : FileContent → Except Failure Yaml.Content
  | .bytes bs => match load bs with
    | .ok c => .ok c
    | .error f => .error (ofFault path f)
  | _ => .error (.unreadableOptions (.str ("Options file not found at path: " ++ path)) path)

/-- An empty file gives no options. -/
def document? (path : String) : Yaml.Content → Except Failure (Value.Keyed Yaml.Part)
  | .nothing => .ok []
  | .mapping es => .ok es
  | .other => .error (.unreadableOptions (.str "The root of the YAML file must be a dictionary (mapping).") path)

def ofContent [Limits] (load : Yaml.Loader) (path : String) (content : FileContent) : Except Failure Options := do
  let parts ← document? path (← readContent load path content)
  let es := parts.map fun e => (e.1, e.2.value)
  Schema.file.check (some path) (fun k => ((Value.Keyed.get? k parts).map (·.copyDepth)).getD 0) es
  return ofDocument es

def parse [Limits] (load : Yaml.Loader) (path : String) (content : FileContent) : Action σ Options := do
  Action.note .info Logger.options ("Loading simulator options from: " ++ path)
  Action.lift (ofContent load path content)

end Options
end CircuitHarness
