import RecordSchema.Decoding.Json
import RecordSchema.Json.Parser
import RecordSchema.Report.Encoding

/-!
# Reading reports

A report is read back from any notation that has a reader. Fields of other names are passed over.
-/

set_option autoImplicit false

namespace RecordSchema.Report

variable {ν : Type} (reader : Reader ν)

/-- Reads a value of a dataset. -/
def Entry.read (depth : Nat) (node : ν) : Decoded Entry := do
  let fields ← reader.fields depth ["name", "method", "rank", "tags"] node
  pure
    { name := ← Reader.required fields "name" reader.text
      method := ← Reader.required fields "method" reader.text
      rank := ← Reader.required fields "rank" reader.word
      tags := ← Reader.withDefault fields "tags" [] (reader.texts (depth - 1)) }

def Dataset.read (depth : Nat) (node : ν) : Decoded Dataset := do
  let fields ← reader.fields depth ["name", "tags", "attributes"] node
  pure
    { name := ← Reader.required fields "name" reader.text
      tags := ← Reader.withDefault fields "tags" [] (reader.texts (depth - 1))
      entries := ← Reader.required fields "attributes"
        (reader.list (depth - 1) (Entry.read reader)) }

def Schema.read (depth : Nat) (node : ν) : Decoded Schema := do
  let fields ← reader.fields depth ["name", "version", "tags", "datasets"] node
  pure
    { name := ← Reader.required fields "name" reader.text
      version := ← Reader.required fields "version" reader.word
      tags := ← Reader.withDefault fields "tags" [] (reader.texts (depth - 1))
      datasets := ← Reader.required fields "datasets"
        (reader.list (depth - 1) (Dataset.read reader)) }

def Attribute.read (depth : Nat) (node : ν) : Decoded Attribute := do
  let fields ← reader.fields depth ["name", "type", "offset", "shape", "accessor"] node
  pure
    { name := ← Reader.required fields "name" reader.text
      type := ← Reader.required fields "type" reader.text
      offset := ← Reader.required fields "offset" reader.text
      shape := ← Reader.withDefault fields "shape" [] (reader.texts (depth - 1))
      accessor := ← reader.optional fields "accessor" reader.text }

def Record.fieldNames : List String :=
  ["name", "type-id", "version", "size", "config", "tags", "attributes", "schemas"]

def Record.read (depth : Nat) (node : ν) : Decoded Record := do
  let fields ← reader.fields depth Record.fieldNames node
  pure
    { name := ← Reader.required fields "name" reader.text
      typeId := ← reader.optional fields "type-id" reader.word
      version := ← reader.optional fields "version" reader.word
      size := ← Reader.required fields "size" reader.text
      configs := ← Reader.withDefault fields "config" [] (reader.texts (depth - 1))
      tags := ← Reader.withDefault fields "tags" [] (reader.texts (depth - 1))
      attributes := ← Reader.required fields "attributes"
        (reader.list (depth - 1) (Attribute.read reader))
      schemas := ← Reader.required fields "schemas"
        (reader.list (depth - 1) (Schema.read reader)) }

def Package.read (depth : Nat) (node : ν) : Decoded Package := do
  let fields ← reader.fields depth ["name", "types"] node
  pure
    { name := ← Reader.required fields "name" reader.text
      records := ← Reader.required fields "types"
        (reader.list (depth - 1) (Record.read reader)) }

def read (depth : Nat) (node : ν) : Decoded Report := do
  let fields ← reader.fields depth ["packages"] node
  pure
    { packages := ← Reader.required fields "packages"
        (reader.list (depth - 1) (Package.read reader)) }

def ofJson? (value : Json) : Option Report :=
  value.decode (read Json.reader)

/-- Writes a report as a JSON text over several lines. -/
def toJsonText (report : Report) : String :=
  report.toJson.pretty

def ofJsonText? (text : String) : Option Report :=
  (Json.parse? text).bind ofJson?

end RecordSchema.Report
