import RecordSchema.Yaml.ScalarStyle

/-!
# Tokens of YAML

The marks and scalars of a document. Where blocks begin and end is marked by tokens of their own,
since in the text only the indentation shows it.
-/

set_option autoImplicit false

namespace RecordSchema.Yaml

inductive Token where
  | version (major minor : Nat)
  | tagHandle (handle meaning : String)
  | documentStart
  | documentEnd
  | blockSequenceStart
  | blockMappingStart
  | blockEnd
  | flowSequenceStart
  | flowSequenceEnd
  | flowMappingStart
  | flowMappingEnd
  | blockEntry
  | flowEntry
  | key
  | value
  | alias (name : String)
  | anchor (name : String)
  | tag (handle suffix : String)
  | scalar (text : String) (style : ScalarStyle)
deriving DecidableEq

end RecordSchema.Yaml
