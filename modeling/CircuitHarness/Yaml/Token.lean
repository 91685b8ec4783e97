/-! The tokens of a YAML stream, and what can be wrong with one. -/
namespace CircuitHarness.Yaml

/-- `malformed` breaks a rule of the language, `tooDeep` nests more than is read and `notUtf8` is no text at all; the
others come from a code that is no character's and from a scalar that does not fit its tag. -/
inductive Fault where
  | malformed (problem : String)
  | badValue
  | missingKey
  | outOfRange
  | noAttribute
  | wrongType
  | tooDeep
  | tooLarge
  | notUtf8
deriving Inhabited

inductive Directive where
  | version (major : Nat)
  | tag (handle start : String)
  | other
deriving Inhabited

/-- A tag's `handle` is absent when the tag is written in full. A scalar is given by its code points. -/
inductive Token where
  | directive (d : Directive)
  | documentStart
  | documentEnd
  | streamEnd
  | blockSequenceStart
  | blockMappingStart
  | blockEnd
  | flowSequenceStart
  | flowSequenceEnd
  | flowMappingStart
  | flowMappingEnd
  | flowEntry
  | blockEntry
  | key
  | value
  | alias (name : String)
  | anchor (name : String)
  | tag (handle : Option String) (suffix : String)
  | scalar (codes : List Nat) (plain : Bool)
deriving Inhabited

end CircuitHarness.Yaml
