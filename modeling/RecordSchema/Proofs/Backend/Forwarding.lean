import RecordSchema.Proofs.Backend.Classes

/-!
# Wrappers and the classes behind them

A wrapper works out the heads of its methods for itself, and so does the class that it forwards to. They
come to the same: the public methods of the class that are no templates are those of the wrapper in the
same order, but for the size of an instance, and a wrapper passes on what it is given.
-/

set_option autoImplicit false

namespace RecordSchema

open Model Traversal

namespace Cpp

/-- The head of a public member function that can be called without a config object. -/
def plainMethod? : Access × ClassMember → Option Signature
  | (.publicly, .method _ signature _ _) => if signature.template then none else some signature
  | _ => none

/-- The heads of the public member functions of a class that are no templates, in order. -/
def Class.plainMethods (text : Class) : List Signature :=
  text.members.filterMap plainMethod?

end Cpp

namespace Wrappers

open Cpp

/-- The head of the function that a method of a wrapper calls. -/
def Forward.head (forward : Forward) : Signature where
  result := forward.result
  name := forward.name
  parameters := forward.parameters
  template := false

/-- The line of a method of a wrapper: a member function that calls the function of its name on the object
and passes on its parameters. -/
def forwardLine (forward : Forward) : String :=
  "  " ++ headText forward.head ++ " \x7b " ++ (if forward.returning then "return o->" else "o->") ++
    forward.name ++ "(" ++ ", ".intercalate (forward.parameters.map Parameter.name) ++ "); \x7d\n"

/-- A wrapper forwards to a class: the class declares what the wrapper calls and nothing else that could
be called from outside, and the wrapper hands on its own parameters. Both are written so. -/
structure ForwardsTo (model : Model) (id : RecordId) (wrapper : Wrapper) (text : Cpp.Class) : Prop where
  /-- Each method of the wrapper is a public member function under the same head. -/
  declared : ∀ forward ∈ wrapper.forwards, ∃ comment body inlined,
    (.publicly, .method comment forward.head body inlined) ∈ text.members
  complete : text.plainMethods = wrapper.forwards.map Forward.head ++
    (Accessors.sizeMember model id (model.record id)).filterMap
      fun member => plainMethod? (.publicly, member)
  passed : ∀ forward ∈ wrapper.forwards, forward.arguments = forward.parameters.map Parameter.name
  /-- The class has a line for each of these functions, among those that it shows to all. -/
  shown : ∀ forward ∈ wrapper.forwards, ShowsMethod text forward.head
  /-- The wrapper holds an object of the class and has a line for each of its methods. -/
  lines : wrapper.classLines = "class " ++ wrapper.className ++ "_Wrapper \x7b\n  boost::shared_ptr<" ++
    wrapper.native ++ "> o;\npublic:\n  " ++ wrapper.className ++ "_Wrapper(boost::shared_ptr<" ++
      wrapper.native ++ "> obj) : o(obj) \x7b\x7d\n" ++
        String.join (wrapper.forwards.map forwardLine) ++ "\x7d;\n\n"

section Heads

variable (model : Model) (method : Method)

private theorem resultText_eq : resultText model method = Accessors.resultText model method := by
  rw [resultText, Accessors.resultText]
  cases method.result with
  | none => rfl
  | some type => cases body : method.body <;> simp [isAccessor, Accessors.accessorRank?, body]

private theorem indexRank_eq :
    indexRank model method = (Accessors.accessorRank? model method.body).getD 0 := by
  rw [indexRank]
  cases method.body <;> rfl

/-- The head of a method that is no template is derived alike on both sides. -/
theorem head_forward (plain : method.configDependent = false) :
    (forward model method).head = Accessors.signature model method := by
  have declared : method.arguments.map (parameterOf model) =
      Accessors.declaredParameters model method := by
    refine List.map_congr_left fun argument _ => ?_
    cases type : argument.type <;> simp [parameterOf, type]
  simp only [Forward.head, forward, Accessors.signature, Accessors.indexParametersOf,
    resultText_eq, indexRank_eq, declared, plain]

/-- A method of a wrapper passes on its parameters as they come. -/
theorem arguments_forward :
    (forward model method).arguments = (forward model method).parameters.map Parameter.name := by
  simp [forward, parameterOf, Function.comp_def]

end Heads

end Wrappers

namespace Accessors

open Cpp

variable {model : Model} {id : RecordId}

/-- The member of a method shows its head if it can be called from outside without a config object. -/
theorem plainMethod?_methodMember {method : Method} {made : Access × ClassMember}
    (taken : methodMember model id method = some made) :
    plainMethod? made =
      if method.access == .publicly && !method.configDependent then some (signature model method)
      else none := by
  rw [methodMember] at taken
  obtain ⟨body, -, taken⟩ := Option.bind_eq_some_iff.mp taken
  cases taken
  cases access : method.access <;> cases plain : method.configDependent <;>
    simp [plainMethod?, signature, plain]

private theorem plainMethod?_constructorMember {constructor : Constructor} {made : Access × ClassMember}
    (taken : constructorMember model id constructor = some made) : plainMethod? made = none := by
  rw [constructorMember] at taken
  split at taken
  · cases taken
    rfl
  · obtain ⟨assigned, -, taken⟩ := Option.bind_eq_some_iff.mp taken
    cases taken
    rfl

/-- The public methods of a class that are no templates are the methods that can be forwarded to, and
the size. -/
theorem plainMethods_eq {text : Cpp.Class} (made : classOf model id = some text) :
    text.plainMethods = (forwardableMethods model id).map (signature model) ++
      (sizeMember model id (model.record id)).filterMap
        fun member => plainMethod? (.publicly, member) := by
  obtain ⟨anatomy⟩ := classOf_anatomy made
  have heads : anatomy.methods.filterMap plainMethod? =
      (forwardableMethods model id).map (signature model) := by
    rw [Outcome.filterMap_of_forall₂ anatomy.bodied fun _ _ => plainMethod?_methodMember,
      forwardableMethods, List.filter_map, List.map_map, ← List.filterMap_eq_map,
      List.filterMap_filter]
    rfl
  have constructors : anatomy.constructors.filterMap plainMethod? = [] := by
    rw [Outcome.filterMap_of_forall₂ anatomy.constructed fun _ _ => plainMethod?_constructorMember]
    exact List.filterMap_eq_nil_iff.mpr fun _ _ => rfl
  have identity : ((identityMembers (model.record id).identity).map (Access.publicly, ·)).filterMap
      plainMethod? = [] := by
    cases (model.record id).identity <;> rfl
  have constants : ((constantMembers model id (model.record id)).map (Access.publicly, ·)).filterMap
      plainMethod? = [] := by
    simp [constantMembers, plainMethod?]
  have enumerations : (((model.record id).enumerations.map fun entry =>
      ClassMember.enumeration (enumText model (model.enumeration entry.2))).map
        (Access.publicly, ·)).filterMap plainMethod? = [] := by
    simp [plainMethod?]
  have storage : (anatomy.storage.map (Access.privately, ·)).filterMap plainMethod? = [] := by
    simp [plainMethod?]
  rw [Class.plainMethods, anatomy.members]
  simp only [List.map_append, List.filterMap_append, identity, constants, enumerations, constructors,
    heads, storage, List.nil_append, List.append_nil]
  rw [List.filterMap_map]
  rfl

end Accessors

namespace Wrappers

open Cpp

private theorem forwards_head (options : Options) (model : Model) (id : RecordId) :
    (wrapperOf options model id).forwards.map Forward.head =
      (Accessors.forwardableMethods model id).map (Accessors.signature model) := by
  rw [wrapperOf, List.map_map]
  refine List.map_congr_left fun method listed => head_forward model method ?_
  have reachable := (List.mem_filter.mp listed).2
  simp only [Bool.and_eq_true, Bool.not_eq_true'] at reachable
  exact reachable.2

private theorem render_forward {forward : Forward}
    (passed : forward.arguments = forward.parameters.map Parameter.name) :
    forward.render = forwardLine forward := by
  have opens : ") const \x7b " = ") const" ++ " \x7b " := by decide +kernel
  have calls : (if forward.returning then "return o->" else "o->") =
      (if forward.returning then "return " else "") ++ "o->" := by
    split <;> decide +kernel
  have parameters : renderParameters forward.parameters = parametersText forward.parameters := rfl
  unfold Forward.render forwardLine headText Forward.head
  rw [passed, calls]
  simp only [opens, parameters, String.append_assoc]

theorem classLines_eq {wrapper : Wrapper}
    (passed : ∀ forward ∈ wrapper.forwards, forward.arguments = forward.parameters.map Parameter.name) :
    wrapper.classLines = "class " ++ wrapper.className ++ "_Wrapper \x7b\n  boost::shared_ptr<" ++
      wrapper.native ++ "> o;\npublic:\n  " ++ wrapper.className ++ "_Wrapper(boost::shared_ptr<" ++
        wrapper.native ++ "> obj) : o(obj) \x7b\x7d\n" ++
          String.join (wrapper.forwards.map forwardLine) ++ "\x7d;\n\n" := by
  have lines : wrapper.forwards.map Forward.render = wrapper.forwards.map forwardLine :=
    List.map_congr_left fun forward listed => render_forward (passed forward listed)
  have opens : "_Wrapper \x7b\n  boost::shared_ptr<" =
      "_Wrapper" ++ (" \x7b\n" ++ "  boost::shared_ptr<") := by decide +kernel
  have shows : "> o;\npublic:\n  " = "> o;\n" ++ ("public:\n" ++ "  ") := by decide +kernel
  have takes : "_Wrapper(boost::shared_ptr<" = "_Wrapper" ++ "(boost::shared_ptr<" := by decide +kernel
  unfold Wrapper.classLines Wrapper.name
  simp only [lines, opens, shows, takes, String.append_assoc]

/-- The class that looks up the objects of a type. -/
theorem getterLines_eq (wrapper : Wrapper) : wrapper.getterLines =
    "class " ++ wrapper.className ++ "_Getter : public psddl_python::" ++
      (if wrapper.configType then "EnvGetter" else "EventGetter") ++
        " \x7b\npublic:\n  const char* getTypeName() \x7b return \"" ++ wrapper.path ++
          "\"; \x7d\n  int getVersion() \x7b return " ++ ((wrapper.version.map toString).getD "-1") ++
            "; \x7d\n\x7d;\n\n" := by
  have opens : " \x7b\npublic:\n  const char* getTypeName() \x7b return \"" =
      " \x7b\n" ++ ("public:\n" ++ "  const char* getTypeName() \x7b return \"") := by decide +kernel
  have between : "\"; \x7d\n  int getVersion() \x7b return " =
      "\"; \x7d\n" ++ "  int getVersion() \x7b return " := by decide +kernel
  have closes : "; \x7d\n\x7d;\n\n" = "; \x7d\n" ++ "\x7d;\n\n" := by decide +kernel
  have version : wrapper.versionText = (wrapper.version.map toString).getD "-1" := by
    unfold Wrapper.versionText
    cases wrapper.version <;> rfl
  unfold Wrapper.getterLines
  simp only [opens, between, closes, version, String.append_assoc]

private theorem forwardsTo (options : Options) {model : Model} {id : RecordId} {text : Cpp.Class}
    (made : Accessors.classOf model id = some text) :
    ForwardsTo model id (wrapperOf options model id) text := by
  have complete := Accessors.plainMethods_eq made
  rw [← forwards_head options] at complete
  have declared : ∀ forward ∈ (wrapperOf options model id).forwards, ∃ comment body inlined,
      (.publicly, .method comment forward.head body inlined) ∈ text.members := by
    intro forward listed
    have shown : forward.head ∈ text.plainMethods := by
      rw [complete]
      exact List.mem_append_left _ (List.mem_map_of_mem listed)
    obtain ⟨⟨access, member⟩, among, head⟩ := List.mem_filterMap.mp shown
    cases access <;> cases member <;> simp only [plainMethod?, reduceCtorEq] at head
    split at head <;> cases head
    exact ⟨_, _, _, among⟩
  have passed : ∀ forward ∈ (wrapperOf options model id).forwards,
      forward.arguments = forward.parameters.map Parameter.name := by
    intro forward listed
    obtain ⟨method, -, rfl⟩ := List.mem_map.mp listed
    exact arguments_forward model method
  refine ⟨declared, complete, passed, fun forward listed => ?_, classLines_eq passed⟩
  obtain ⟨_, _, _, among⟩ := declared forward listed
  exact showsMethod among rfl

/-- A visit writes the wrapper of the type and the class that looks it up. -/
theorem visitRecord_ok {options : Options} {model : Model} {id : RecordId} {written : Generated}
    {state later : Registry}
    (called : ((backend options).visitRecord model id).run.run state = (.ok written, later)) :
    written = Generated.declare
      ((wrapperOf options model id).classLines ++ (wrapperOf options model id).getterLines) := by
  obtain ⟨_, _, -, called⟩ := run_bind_ok called
  exact (Except.ok.inj (congrArg Prod.fst called)).symm

section Built

variable {units : List SourceUnit} {built : Built}

/-- What a run of accessors has for a type that is emitted, and what a run of wrappers has for it: the
class declares each method that the wrapper forwards, under the head that the wrapper has for it, and the
wrapper passes on its parameters in order. There is no class only where its numbers are no words. -/
theorem build_forwards (accepted : build units = .ok built) (options : Options) (header : String)
    (outer : Option String) {id : RecordId} (inside : id.index < built.model.records.size)
    (emitted : built.model.isEmitted id) :
    (Accessors.classOf built.model id = none ↔ Accessors.ClassExceeds built.model id) ∧
      (∀ text, Accessors.classOf built.model id = some text →
        ForwardsTo built.model id (wrapperOf options built.model id) text) ∧
      (∀ generated, (run built.model (Accessors.backend header) outer).run.run () =
          (.ok generated, ()) →
        ∃ text before after, Accessors.classOf built.model id = some text ∧
          generated = before ++ text.render ++ after) ∧
      ∀ generated last, (run built.model (backend options) outer).run.run [] = (.ok generated, last) →
        ∃ before after,
          generated.declaration = before ++ (wrapperOf options built.model id).classLines ++ after := by
  obtain ⟨stages⟩ := build_stages accepted
  have visit := (build_mem_visited accepted id).mpr ⟨inside, emitted⟩
  refine ⟨stages.classOf_eq_none_iff inside, fun text made => forwardsTo options made,
    fun generated ran => Accessors.run_class ran visit, fun generated last ran => ?_⟩
  obtain ⟨before, written, after, _, _, called, rfl⟩ := run_visited ran visit
  obtain rfl := visitRecord_ok called
  refine ⟨before.declaration, (wrapperOf options built.model id).getterLines ++ after.declaration, ?_⟩
  change before.declaration ++ ((wrapperOf options built.model id).classLines ++
    (wrapperOf options built.model id).getterLines) ++ after.declaration = _
  simp only [String.append_assoc]

end Built

/-- A type with an array, a method that gives out a row of it, one without a value, one that is
protected and one that needs the config object. -/
def forwardingUnits : List SourceUnit :=
  let config : Declaration.Record :=
    { name := "Config", attributes := [{ name := "n", typeName := some "uint32_t" }] }
  let frame : Declaration.Record :=
    { name := "Frame", configs := ["Config"]
      attributes := [{ name := "cells", typeName := some "uint8_t", shape := ["2", "3"] }]
      methods := [
        { name := "row", typeName := some "uint8_t", rank := 1, arguments := [{ name := "index" }],
          expressions := [("C++", "&_cells[index][0]")] },
        { name := "check", code := [("C++", "assert(this);")] },
        { name := "hidden", typeName := some "uint32_t", access := some "protected",
          expressions := [("Any", "1")] },
        { name := "total", typeName := some "uint32_t",
          expressions := [("Any", "\x7bxtc-config\x7d.n()")] }] }
  [{ document := { packages := [.mk "Sample" none [] [] [] [] [config, frame]] } }]

theorem build_forwards_sample : ∃ built text, build forwardingUnits = .ok built ∧
    Accessors.classOf built.model ⟨1⟩ = some text ∧
    ForwardsTo built.model ⟨1⟩ (wrapperOf {} built.model ⟨1⟩) text ∧
    (wrapperOf {} built.model ⟨1⟩).forwards.map Forward.head =
      [⟨"uint8_t", "cells", [⟨"uint32_t", "i0"⟩, ⟨"uint32_t", "i1"⟩], false⟩,
        ⟨"const uint8_t*", "row", [⟨"uint32_t", "index"⟩], false⟩, ⟨"void", "check", [], false⟩] := by
  have computed : ∃ built, build forwardingUnits = .ok built ∧ 1 < built.model.records.size ∧
      built.model.isEmitted ⟨1⟩ ∧ (Accessors.classOf built.model ⟨1⟩).isSome ∧
      (wrapperOf {} built.model ⟨1⟩).forwards.map Forward.head =
        [⟨"uint8_t", "cells", [⟨"uint32_t", "i0"⟩, ⟨"uint32_t", "i1"⟩], false⟩,
          ⟨"const uint8_t*", "row", [⟨"uint32_t", "index"⟩], false⟩,
          ⟨"void", "check", [], false⟩] := exists_built (by decide +kernel)
  obtain ⟨built, accepted, inside, emitted, present, heads⟩ := computed
  obtain ⟨text, made⟩ := Option.isSome_iff_exists.mp present
  obtain ⟨-, forwards, -, -⟩ :=
    build_forwards accepted {} Accessors.defaultHeader none inside emitted
  exact ⟨built, text, accepted, made, forwards text made, heads⟩

end Wrappers

end RecordSchema
