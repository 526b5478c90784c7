import RecordSchema.Declaration
import RecordSchema.Decoding.Reader
import RecordSchema.SortedMap

/-!
# Reading declarations

The form of a schema document: which fields its objects have, which of them may be left out, and
what they hold. Fields of other names are passed over.
-/

set_option autoImplicit false

namespace RecordSchema.Declaration

variable {ν : Type} (reader : Reader ν)

def Constant.read (depth : Nat) (node : ν) : Decoded Constant := do
  let fields ← reader.fields depth ["name", "value", "comment"] node
  pure
    { name := ← Reader.required fields "name" reader.text
      value := ← reader.optional fields "value" reader.text
      comment := ← reader.optional fields "comment" reader.text }

def Enumeration.read (depth : Nat) (node : ν) : Decoded Enumeration := do
  let fields ← reader.fields depth ["name", "base", "comment", "constants"] node
  pure
    { name := ← reader.optional fields "name" reader.text
      base := ← reader.optional fields "base" reader.text
      comment := ← reader.optional fields "comment" reader.text
      constants := ← Reader.withDefault fields "constants" []
        (reader.list (depth - 1) (Constant.read reader)) }

def Bitfield.read (depth : Nat) (node : ν) : Decoded Bitfield := do
  let fields ← reader.fields depth ["name", "size", "offset", "type", "accessor", "comment"] node
  pure
    { name := ← Reader.required fields "name" reader.text
      size := ← reader.optional fields "size" reader.word
      offset := ← reader.optional fields "offset" reader.word
      typeName := ← reader.optional fields "type" reader.text
      accessor := ← reader.optional fields "accessor" reader.text
      comment := ← reader.optional fields "comment" reader.text }

def Attribute.read (depth : Nat) (node : ν) : Decoded Attribute := do
  let fields ← reader.fields depth
    ["name", "type", "offset", "shape", "accessor", "access", "comment", "bitfields", "tags"] node
  pure
    { name := ← Reader.required fields "name" reader.text
      typeName := ← reader.optional fields "type" reader.text
      offset := ← reader.optional fields "offset" reader.text
      shape := ← Reader.withDefault fields "shape" [] (reader.texts (depth - 1))
      accessor := ← reader.optional fields "accessor" reader.text
      access := ← reader.optional fields "access" reader.text
      comment := ← reader.optional fields "comment" reader.text
      bitfields := ← Reader.withDefault fields "bitfields" []
        (reader.list (depth - 1) (Bitfield.read reader))
      tags := ← Reader.withDefault fields "tags" [] (reader.texts (depth - 1)) }

def Argument.read (depth : Nat) (node : ν) : Decoded Argument := do
  let fields ← reader.fields depth ["name", "type"] node
  pure
    { name := ← Reader.required fields "name" reader.text
      typeName := ← reader.optional fields "type" reader.text }

def readBodies (depth : Nat) (node : ν) : Decoded (List (String × String)) :=
  SortedMap.ofList <$> reader.textMap depth node

def Method.read (depth : Nat) (node : ν) : Decoded Method := do
  let fields ← reader.fields depth
    ["name", "type", "rank", "args", "expr", "code", "access", "comment", "tags"] node
  pure
    { name := ← Reader.required fields "name" reader.text
      typeName := ← reader.optional fields "type" reader.text
      rank := ← Reader.withDefault fields "rank" 0 reader.word
      arguments := ← Reader.withDefault fields "args" []
        (reader.list (depth - 1) (Argument.read reader))
      expressions := ← Reader.withDefault fields "expr" [] (readBodies reader (depth - 1))
      code := ← Reader.withDefault fields "code" [] (readBodies reader (depth - 1))
      access := ← reader.optional fields "access" reader.text
      comment := ← reader.optional fields "comment" reader.text
      tags := ← Reader.withDefault fields "tags" [] (reader.texts (depth - 1)) }

def ConstructorArgument.read (depth : Nat) (node : ν) : Decoded ConstructorArgument := do
  let fields ← reader.fields depth ["name", "type", "dest", "expr", "method"] node
  pure
    { name := ← Reader.required fields "name" reader.text
      typeName := ← reader.optional fields "type" reader.text
      destination := ← reader.optional fields "dest" reader.text
      expression := ← reader.optional fields "expr" reader.text
      method := ← reader.optional fields "method" reader.text }

/-- Reads an assignment of a constructor. -/
def Initializer.read (depth : Nat) (node : ν) : Decoded Initializer := do
  let fields ← reader.fields depth ["dest", "expr"] node
  pure
    { destination := ← Reader.required fields "dest" reader.text
      expression := ← Reader.required fields "expr" reader.text }

def Constructor.read (depth : Nat) (node : ν) : Decoded Constructor := do
  let fields ← reader.fields depth ["args", "init", "comment", "tags"] node
  pure
    { arguments := ← Reader.withDefault fields "args" []
        (reader.list (depth - 1) (ConstructorArgument.read reader))
      initializers := ← Reader.withDefault fields "init" []
        (reader.list (depth - 1) (Initializer.read reader))
      comment := ← reader.optional fields "comment" reader.text
      tags := ← Reader.withDefault fields "tags" [] (reader.texts (depth - 1)) }

def DatasetEntry.read (depth : Nat) (node : ν) : Decoded DatasetEntry := do
  let fields ← reader.fields depth ["name", "method", "rank", "tags"] node
  pure
    { name := ← Reader.required fields "name" reader.text
      method := ← reader.optional fields "method" reader.text
      rank := ← reader.optional fields "rank" reader.word
      tags := ← Reader.withDefault fields "tags" [] (reader.texts (depth - 1)) }

def Dataset.read (depth : Nat) (node : ν) : Decoded Dataset := do
  let fields ← reader.fields depth ["name", "tags", "attributes"] node
  pure
    { name := ← Reader.required fields "name" reader.text
      tags := ← Reader.withDefault fields "tags" [] (reader.texts (depth - 1))
      entries := ← Reader.withDefault fields "attributes" []
        (reader.list (depth - 1) (DatasetEntry.read reader)) }

def StorageSchema.read (depth : Nat) (node : ν) : Decoded StorageSchema := do
  let fields ← reader.fields depth ["name", "version", "tags", "datasets"] node
  pure
    { name := ← reader.optional fields "name" reader.text
      version := ← Reader.withDefault fields "version" 0 reader.word
      tags := ← Reader.withDefault fields "tags" [] (reader.texts (depth - 1))
      datasets := ← Reader.withDefault fields "datasets" []
        (reader.list (depth - 1) (Dataset.read reader)) }

def Record.fieldNames : List String :=
  ["name", "type-id", "version", "base", "pack", "comment", "config", "tags", "constants", "enums",
    "ctors", "attributes", "methods", "schemas"]

def Record.read (depth : Nat) (node : ν) : Decoded Record := do
  let fields ← reader.fields depth Record.fieldNames node
  pure
    { name := ← Reader.required fields "name" reader.text
      typeId := ← reader.optional fields "type-id" reader.word
      version := ← reader.optional fields "version" reader.word
      base := ← reader.optional fields "base" reader.text
      pack := ← reader.optional fields "pack" reader.word
      comment := ← reader.optional fields "comment" reader.text
      configs := ← Reader.withDefault fields "config" [] (reader.texts (depth - 1))
      tags := ← Reader.withDefault fields "tags" [] (reader.texts (depth - 1))
      constants := ← Reader.withDefault fields "constants" []
        (reader.list (depth - 1) (Constant.read reader))
      enumerations := ← Reader.withDefault fields "enums" []
        (reader.list (depth - 1) (Enumeration.read reader))
      constructors := ← Reader.withDefault fields "ctors" []
        (reader.list (depth - 1) (Constructor.read reader))
      attributes := ← Reader.withDefault fields "attributes" []
        (reader.list (depth - 1) (Attribute.read reader))
      methods := ← Reader.withDefault fields "methods" []
        (reader.list (depth - 1) (Method.read reader))
      schemas := ← Reader.withDefault fields "schemas" []
        (reader.list (depth - 1) (StorageSchema.read reader)) }

def Package.fieldNames : List String :=
  ["name", "comment", "tags", "constants", "enums", "packages", "types"]

def Package.readWith (depth : Nat) (nested : ν → Decoded Package) (node : ν) : Decoded Package := do
  let fields ← reader.fields depth Package.fieldNames node
  let name ← Reader.required fields "name" reader.text
  let comment ← reader.optional fields "comment" reader.text
  let tags ← Reader.withDefault fields "tags" [] (reader.texts (depth - 1))
  let constants ← Reader.withDefault fields "constants" []
    (reader.list (depth - 1) (Constant.read reader))
  let enumerations ← Reader.withDefault fields "enums" []
    (reader.list (depth - 1) (Enumeration.read reader))
  let packages ← Reader.withDefault fields "packages" []
    (reader.list (depth - 1) fun _ => nested)
  let records ← Reader.withDefault fields "types" []
    (reader.list (depth - 1) (Record.read reader))
  pure (.mk name comment tags constants enumerations packages records)

/-- Reads a package; the packages in it take two levels of nesting each. -/
def Package.read : Nat → ν → Decoded Package
  | 0 => fun _ => Decoded.refuse
  | 1 => Package.readWith reader 1 fun _ => Decoded.refuse
  | depth + 2 => Package.readWith reader (depth + 2) (Package.read depth)

def Import.read (depth : Nat) (node : ν) : Decoded Import := do
  let fields ← reader.fields depth ["file", "headers"] node
  pure
    { file := ← Reader.required fields "file" reader.text
      headers := ← Reader.withDefault fields "headers" [] (reader.texts (depth - 1)) }

def Document.read (depth : Nat) (node : ν) : Decoded Document := do
  let fields ← reader.fields depth ["use", "packages"] node
  pure
    { imports := ← Reader.withDefault fields "use" []
        (reader.list (depth - 1) (Import.read reader))
      packages := ← Reader.withDefault fields "packages" []
        (reader.list (depth - 1) (Package.read reader)) }

end RecordSchema.Declaration
