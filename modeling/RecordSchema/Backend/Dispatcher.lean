import RecordSchema.Dispatch.ByName
import RecordSchema.Dispatch.ByNumber
import RecordSchema.Generation

/-!
# Dispatchers

The backends for a function that puts a record into the event or config store under its type, found
by number or by name.
-/

set_option autoImplicit false

namespace RecordSchema.Dispatcher

open Cpp Dispatch

/-- What a dispatcher depends on besides the model. -/
structure Options where
  /-- The header that the definitions include. -/
  header : String := "dispatch.h"
  /-- The namespace around the interfaces of the record types. -/
  interfaceNamespace : String := "Psana"
  /-- The namespace around the accessor classes. -/
  nativeNamespace : Option String := none
  /-- Type numbers for which nothing is done. -/
  ignored : List UInt32 := []
  /-- How many names may share a hash value without a warning. -/
  threshold : Nat := 3

/-- What a run has come to know. -/
structure State where
  /-- The record types met so far. -/
  records : List RecordId := []
  /-- The hash of the last dispatcher by name and its collisions. -/
  selected : Option (NameHash × Nat) := none
  warnings : List Warning := []

/-- The class of a record type as it is known to a dispatcher. -/
def nativeName (options : Options) (model : Model) (id : RecordId) : String :=
  inNamespace options.nativeNamespace (typeName model id)

/-- The interface of a record type as it is known to a dispatcher. -/
def interfaceName (options : Options) (model : Model) (id : RecordId) : String :=
  inNamespace (some options.interfaceNamespace) (typeName model id)

/-- Statements that try one config type after the other, each with what is done if it is there. -/
def configChain (indent : String) (condition : RecordId → String) (statement : RecordId → String)
    (configs : List RecordId) : String :=
  let branches := configs.zipIdx.map fun (config, position) =>
    indent ++ (if position = 0 then "if" else "\x7d else if") ++ " (" ++ condition config ++ ") \x7b\n" ++
      indent ++ "  " ++ statement config ++ "\n"
  String.join branches ++ indent ++ "\x7d\n"

def storeStatements (options : Options) (model : Model) (indent : String) (id : RecordId) : String :=
  let record := model.record id
  let native := nativeName options model id
  let interface := interfaceName options model id
  if record.configType then
    s!"{indent}cfgStore.put(boost::shared_ptr<const {native}>" ++
      s!"(xtc, (const {native}*)xtc->payload()), src);\n"
  else if record.valueType then
    s!"{indent}evt.put(boost::make_shared<{native}>(*(const {native}*)xtc->payload()), src);\n"
  else if record.configs.isEmpty then
    s!"{indent}evt.putProxy<{interface}>(boost::make_shared<EvtProxy<{interface}, {native}> >(xtc), src);\n"
  else
    configChain indent
      (fun config =>
        s!"boost::shared_ptr<const {nativeName options model config}> cfgPtr = cfgStore.get(src)")
      (fun config =>
        s!"evt.putProxy<{interface}>(boost::make_shared<EvtProxyCfg<{interface}, {native}, " ++
          s!"{nativeName options model config}> >(xtc, cfgPtr), src);")
      record.configs

/-- The factory that makes the proxy of a stored record. -/
def factoryName (model : Model) (id : RecordId) : String :=
  inNamespace (some (namespaceOf model (model.record id).package)) ("make_" ++ className model id)

def proxyStatements (options : Options) (model : Model) (indent : String) (id : RecordId) : String :=
  let record := model.record id
  let store := if record.configType then "cfgStore" else "evt"
  let put (arguments : String) : String :=
    s!"{store}.putProxy<{interfaceName options model id}>" ++
      s!"({factoryName model id}({arguments}), src);"
  if record.configs.isEmpty then indent ++ put "schema_version, group, idx" ++ "\n"
  else
    configChain indent
      (fun config =>
        s!"boost::shared_ptr<{interfaceName options model config}> cfgPtr = cfgStore.get(src)")
      (fun _ => put "schema_version, group, idx, cfgPtr")
      record.configs

def versionLines (options : Options) (model : Model) (entry : VersionCase) : String :=
  s!"    case {entry.version}:\n      \x7b\n        // {model.recordPath entry.record}\n" ++
    storeStatements options model "        " entry.record ++ "      \x7d\n      break;\n"

def numberLines (options : Options) (model : Model) (arm : UInt32 × NumberArm) : String :=
  s!"  case {arm.1}:\n" ++
    match arm.2 with
    | .ignored => "    // ignored\n    break;\n"
    | .versions cases =>
      "    switch (xtc->contains.version()) \x7b\n" ++
        String.join (cases.map (versionLines options model)) ++ "    \x7d\n    break;\n"

/-- The head of the function that converts raw records. -/
def numberHead : String :=
  "void xtcConvert(const boost::shared_ptr<Pds::Xtc>& xtc, PSEvt::Event& evt, " ++
    "PSEnv::EnvObjectStore& cfgStore)"

/-- The function that converts raw records. -/
def numberFunction (options : Options) (model : Model) (switch : NumberSwitch) : Generated where
  declaration := numberHead ++ ";\n"
  definition :=
    numberHead ++ "\n\x7b\n  const Pds::Src& src = xtc->src;\n  switch (xtc->contains.id()) \x7b\n" ++
      String.join (switch.map (numberLines options model)) ++ "  \x7d\n\x7d\n"

/-- The lines for one of several names of a hash value. -/
def comparedLines (options : Options) (model : Model) (claim : NameClaim) (position : Nat) :
    String :=
  (if position = 0 then "    if" else "    \x7d else if") ++
    s!" (typeName == \"{claim.1}\") \x7b\n" ++ proxyStatements options model "      " claim.2

def armLines (options : Options) (model : Model) : NameArm → String
  | .sole claim => s!"    // {claim.1}\n" ++ proxyStatements options model "    " claim.2
  | .compared claims =>
    String.join (claims.zipIdx.map fun (claim, position) =>
        comparedLines options model claim position) ++
      "    \x7d\n"

/-- The lines for a hash value. -/
def nameLines (options : Options) (model : Model) (arm : UInt32 × NameArm) : String :=
  s!"  case {arm.1}u:\n" ++ armLines options model arm.2 ++ "    break;\n"

/-- The value before the first byte of a hash, and the expression that takes in one more byte. -/
def hashSteps : NameHash → String × String
  | .djb2a => ("5381", "(hash * 33) ^ uint32_t((unsigned char)*it)")
  | .sdbm => ("0", "uint32_t((unsigned char)*it) + (hash << 6) + (hash << 16) - hash")

def hashDefinition (function : NameHash) : String :=
  let (seed, step) := hashSteps function
  "uint32_t str_hash(const std::string& str)\n\x7b\n" ++
    s!"  uint32_t hash = {seed};\n" ++
    "  for (std::string::const_iterator it = str.begin(); it != str.end(); ++ it) \x7b\n" ++
    s!"    hash = {step};\n" ++ "  \x7d\n  return hash;\n\x7d\n"

/-- The head of the function that converts stored records. -/
def nameHead : String :=
  "void hdfConvert(const hdf5pp::Group& group, int64_t idx, const std::string& typeName, " ++
    "int schema_version, const Pds::Src& src, PSEvt::Event& evt, PSEnv::EnvObjectStore& cfgStore)"

/-- The function that converts stored records, with the hash it uses. -/
def nameFunction (options : Options) (model : Model) (switch : NameSwitch) : Generated where
  declaration := nameHead ++ ";\n"
  definition :=
    "namespace \x7b\n\n" ++ hashDefinition switch.function ++ "\n\x7d // namespace\n\n" ++
      nameHead ++ "\n\x7b\n  switch (str_hash(typeName)) \x7b\n" ++
      String.join (switch.arms.map (nameLines options model)) ++ "  \x7d\n\x7d\n"

/-- What stands before the function. -/
def prologue (options : Options) (model : Model) : Generated where
  declaration := "#pragma once\n\n#include <string>\n#include <boost/shared_ptr.hpp>\n"
  definition :=
    includeLines [options.header] ++ "\n#include <boost/make_shared.hpp>\n" ++
      includeLines model.useHeaders ++ "\n"

/-- A dispatcher over the record types met during the traversal, given the function it ends with. -/
def collecting (name : String) (options : Options)
    (finish : Model → State → Generated × State) : Backend State where
  name := name
  brackets := false
  prologue model := do
    modify fun (state : State) => { state with records := [], warnings := [] }
    pure (prologue options model)
  visitRecord _ id := do
    modify fun (state : State) => { state with records := state.records ++ [id] }
    pure {}
  finish model := do
    let (text, state) := finish model (← get)
    set state
    pure text

/-- The dispatcher by type number. -/
def byNumber (options : Options) : Backend State :=
  collecting "dispatch" options fun model state =>
    (numberFunction options model (numberSwitch model state.records options.ignored), state)

/-- The dispatcher by type name. -/
def byName (options : Options) : Backend State :=
  collecting "dispatch-hash" options fun model state =>
    let (claims, repeated) := nameClaims model state.records
    let (switch, collisions) := nameSwitch claims
    (nameFunction options model switch,
      { state with
        selected := some (switch.function, collisions)
        warnings := state.warnings ++ repeated ++ switch.crowded options.threshold })

end RecordSchema.Dispatcher
