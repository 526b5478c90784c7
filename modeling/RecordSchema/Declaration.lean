/-!
# Declarations

What a schema document says, before any name in it is resolved. Every text is as it was written;
lists are in the order of the document. Bodies are kept by language, languages ascending.
-/

set_option autoImplicit false

namespace RecordSchema.Declaration

structure Constant where
  name : String
  value : Option String := none
  comment : Option String := none
deriving Inhabited

/-- A list of named integers over a base integer. -/
structure Enumeration where
  name : Option String := none
  base : Option String := none
  comment : Option String := none
  constants : List Constant := []
deriving Inhabited

/-- A run of bits of an attribute. Without an offset it starts where the one before it ends. -/
structure Bitfield where
  name : String
  size : Option UInt32 := none
  offset : Option UInt32 := none
  typeName : Option String := none
  accessor : Option String := none
  comment : Option String := none
deriving Inhabited

/-- A stretch of the bytes of a record. A shape has one entry per dimension, `*` for one without
bound. -/
structure Attribute where
  name : String
  typeName : Option String := none
  offset : Option String := none
  shape : List String := []
  accessor : Option String := none
  access : Option String := none
  comment : Option String := none
  bitfields : List Bitfield := []
  tags : List String := []
deriving Inhabited

structure Argument where
  name : String
  typeName : Option String := none
deriving Inhabited

/-- A method, given by an expression or a block of statements in each of several languages. -/
structure Method where
  name : String
  typeName : Option String := none
  rank : UInt32 := 0
  arguments : List Argument := []
  expressions : List (String × String) := []
  code : List (String × String) := []
  access : Option String := none
  comment : Option String := none
  tags : List String := []
deriving Inhabited

/-- An argument of a constructor, with the attribute or bitfield it initializes. -/
structure ConstructorArgument where
  name : String
  typeName : Option String := none
  destination : Option String := none
  expression : Option String := none
  method : Option String := none
deriving Inhabited

/-- An attribute or bitfield that a constructor initializes by itself. -/
structure Initializer where
  destination : String
  expression : String
deriving Inhabited

structure Constructor where
  arguments : List ConstructorArgument := []
  initializers : List Initializer := []
  comment : Option String := none
  tags : List String := []
deriving Inhabited

/-- One value of a dataset, taken from a method of the record. -/
structure DatasetEntry where
  name : String
  method : Option String := none
  rank : Option UInt32 := none
  tags : List String := []
deriving Inhabited

/-- Values that are stored together. -/
structure Dataset where
  name : String
  tags : List String := []
  entries : List DatasetEntry := []
deriving Inhabited

/-- One version of the form in which a record is stored. -/
structure StorageSchema where
  name : Option String := none
  version : UInt32 := 0
  tags : List String := []
  datasets : List Dataset := []
deriving Inhabited

structure Record where
  name : String
  typeId : Option UInt32 := none
  version : Option UInt32 := none
  base : Option String := none
  pack : Option UInt32 := none
  comment : Option String := none
  /-- The types of config object that the record needs. -/
  configs : List String := []
  tags : List String := []
  constants : List Constant := []
  enumerations : List Enumeration := []
  constructors : List Constructor := []
  attributes : List Attribute := []
  methods : List Method := []
  schemas : List StorageSchema := []
deriving Inhabited

/-- A package. A dotted name opens packages one inside the other. -/
inductive Package where
  | mk (name : String) (comment : Option String) (tags : List String) (constants : List Constant)
      (enumerations : List Enumeration) (packages : List Package) (records : List Record)
deriving Inhabited

/-- A document that is read for its declarations; the headers are included by generated code. -/
structure Import where
  file : String
  headers : List String := []
deriving Inhabited

structure Document where
  imports : List Import := []
  packages : List Package := []
deriving Inhabited

end RecordSchema.Declaration

namespace RecordSchema

/-- A document among those that make up a model. The record types of an included unit can be referred
to but are not emitted. -/
structure SourceUnit where
  document : Declaration.Document
  included : Bool := false
deriving Inhabited

end RecordSchema
