import RecordSchema.Proofs.Backend.Forwarding

/-!
# What packages register

A run of wrappers keeps one list of registrations for each package that is open. The list of a package is
there from its entry to its exit, with the lists of the packages around it below, so no exit finds the
lists used up. At its exit a package has registered the emitted types that stand directly in it, whatever
the packages nested in it have registered between them.
-/

set_option autoImplicit false

namespace RecordSchema

open Model Traversal Wrappers

namespace Wrappers

/-!
## What is registered
-/

/-- What a type is registered as: its wrapper, and an entry for each method that is forwarded. -/
def registrationOf (model : Model) (id : RecordId) : Registration where
  wrapper := Cpp.className model id ++ "_Wrapper"
  className := Cpp.className model id
  methods := (Accessors.forwardableMethods model id).map Method.name

private theorem registration_wrapperOf (options : Options) (model : Model) (id : RecordId) :
    (wrapperOf options model id).registration = registrationOf model id := by
  simp only [Wrapper.registration, wrapperOf, registrationOf, Wrapper.name, List.map_map]
  rfl

/-- The emitted types among members, in their order. -/
def emittedAmong (model : Model) (members : List Member) : List RecordId :=
  members.filterMap fun
    | .record id => if model.isEmitted id then some id else none
    | _ => none

/-- The emitted types that a package owns itself, in the order of their declaration. -/
def registered (model : Model) (package : PackageId) : List RecordId :=
  emittedAmong model (model.contents (some (.package package)))

section Registered

variable {model : Model} {members : List Member} {id : RecordId}

private theorem emittedAmong_cons_record (emitted : model.isEmitted id) :
    emittedAmong model (.record id :: members) = id :: emittedAmong model members :=
  List.filterMap_cons_some (if_pos emitted)

private theorem emittedAmong_cons_other {member : Member}
    (other : ∀ id, member = .record id → ¬ model.isEmitted id) :
    emittedAmong model (member :: members) = emittedAmong model members := by
  refine List.filterMap_cons_none ?_
  cases member with
  | record id => exact if_neg (other id rfl)
  | package _ | enumeration _ | constant _ => rfl

private theorem mem_emittedAmong :
    id ∈ emittedAmong model members ↔ .record id ∈ members ∧ model.isEmitted id := by
  simp only [emittedAmong, List.mem_filterMap]
  constructor
  · rintro ⟨member, listed, found⟩
    cases member with
    | record other =>
      obtain ⟨emitted, same⟩ := Option.ite_none_right_eq_some.mp found
      cases same
      exact ⟨listed, emitted⟩
    | package _ | enumeration _ | constant _ => cases found
  · rintro ⟨listed, emitted⟩
    exact ⟨_, listed, if_pos emitted⟩

private theorem map_emittedAmong_sublist (model : Model) (members : List Member) :
    ((emittedAmong model members).map Member.record).Sublist members := by
  induction members with
  | nil => exact .slnil
  | cons member rest ih =>
    cases member with
    | record id =>
      by_cases emitted : model.isEmitted id
      · rw [emittedAmong_cons_record emitted]
        exact ih.cons_cons _
      · rw [emittedAmong_cons_other (by rintro _ ⟨⟩; exact emitted)]
        exact ih.cons _
    | package _ | enumeration _ | constant _ => exact ih.cons _

/-- A package registers what it owns and is emitted, each type once and in the order of its members. -/
structure Registers (model : Model) (package : PackageId) (ids : List RecordId) : Prop where
  mem_iff : ∀ id, id ∈ ids ↔
    id.index < model.records.size ∧ (model.record id).package = package ∧ model.isEmitted id
  nodup : ids.Nodup
  ordered : (ids.map Member.record).Sublist (model.contents (some (.package package)))

private theorem registers_registered (wellScoped : model.WellScoped) (package : PackageId) :
    Registers model package (registered model package) where
  mem_iff id := by
    rw [registered, mem_emittedAmong]
    constructor
    · rintro ⟨listed, emitted⟩
      obtain ⟨inside, home⟩ := home_of_contents wellScoped listed
      cases home
      exact ⟨inside, rfl, emitted⟩
    · rintro ⟨inside, rfl, emitted⟩
      have inRange : (Member.record id).reference.InRange model.census := inside
      exact ⟨(wellScoped.named.mem_iff inRange).mpr rfl, emitted⟩
  nodup := by
    have contents : (model.contents (some (.package package))).Nodup :=
      wellScoped.named.nodup fun member listed => (home_of_contents wellScoped listed).1
    exact .of_map _ (contents.sublist (map_emittedAmong_sublist model _))
  ordered := map_emittedAmong_sublist model _

end Registered

/-!
## What is written
-/

/-- What a visit writes: the wrapper of a type with a line for each method that is forwarded, and the class
that looks objects of the type up. -/
def visitText (options : Options) (model : Model) (id : RecordId) : Generated :=
  let name := Cpp.className model id
  let wrapped := Cpp.inNamespace options.nativeNamespace (Cpp.typeName model id)
  .declare
    ("class " ++ name ++ "_Wrapper \x7b\n  boost::shared_ptr<" ++ wrapped ++ "> o;\npublic:\n  " ++ name ++
        "_Wrapper(boost::shared_ptr<" ++ wrapped ++ "> obj) : o(obj) \x7b\x7d\n" ++
        String.join ((Accessors.forwardableMethods model id).map fun method =>
          forwardLine (forward model method)) ++ "\x7d;\n\n" ++
      ("class " ++ name ++ "_Getter : public psddl_python::" ++
        (if (model.record id).configType then "EnvGetter" else "EventGetter") ++
        " \x7b\npublic:\n  const char* getTypeName() \x7b return \"" ++ model.recordPath id ++
        "\"; \x7d\n  int getVersion() \x7b return " ++
        (((model.record id).identity.map Identity.version).map toString).getD "-1" ++
        "; \x7d\n\x7d;\n\n"))

private theorem visitText_eq (options : Options) (model : Model) (id : RecordId) :
    visitText options model id = .declare
      ((wrapperOf options model id).classLines ++ (wrapperOf options model id).getterLines) := by
  have passed : ∀ forward ∈ (wrapperOf options model id).forwards,
      forward.arguments = forward.parameters.map Cpp.Parameter.name := by
    intro forward listed
    obtain ⟨method, -, rfl⟩ := List.mem_map.mp listed
    exact arguments_forward model method
  rw [classLines_eq passed, getterLines_eq]
  unfold wrapperOf visitText
  rw [List.map_map]
  rfl

/-- The lines that register a type: its class, and an entry for each method that is forwarded. -/
def registrationText (model : Model) (id : RecordId) : String :=
  let name := Cpp.className model id
  "  boost::python::class_<" ++ name ++ "_Wrapper>(\"" ++ name ++ "\", boost::python::no_init)\n" ++
    String.join ((Accessors.forwardableMethods model id).map fun method =>
      "    .def(\"" ++ method.name ++ "\", &" ++ name ++ "_Wrapper::" ++ method.name ++ ")\n") ++
    "  ;\n"

/-- The function that registers types, if there are any. -/
def registrationsText (model : Model) (ids : List RecordId) : Generated :=
  if ids = [] then {}
  else
    { declaration := "void createWrappers(PyObject* module);\n"
      definition :=
        "void createWrappers(PyObject* module)\n\x7b\n  boost::python::scope mod = " ++
          "boost::python::object(boost::python::handle<>(boost::python::borrowed(module)));\n" ++
          String.join (ids.map (registrationText model)) ++ "\x7d\n" }

/-- A text within a namespace. -/
def bracketed (name : String) (text : Generated) : Generated :=
  ⟨"namespace " ++ name ++ " \x7b\n", "namespace " ++ name ++ " \x7b\n"⟩ ++
    (text ++ ⟨"\x7d // namespace " ++ name ++ "\n", "\x7d // namespace " ++ name ++ "\n"⟩)

/-- The text of a package around that of its members: what it registers comes last. -/
def packageText (model : Model) (id : PackageId) (inner : Generated) : Generated :=
  bracketed (Cpp.packageNamespace model id) (inner ++ registrationsText model (registered model id))

/-- A text within the outermost namespace, if there is one. -/
def namespaced (outer : Option String) (text : Generated) : Generated :=
  match outer with
  | some name => bracketed name text
  | none => text

private theorem render_registrationOf (model : Model) (id : RecordId) :
    (registrationOf model id).render = registrationText model id := by
  have wrapper : "_Wrapper>(\"" = "_Wrapper" ++ ">(\"" := by decide +kernel
  have scope : "_Wrapper::" = "_Wrapper" ++ "::" := by decide +kernel
  unfold Registration.render registrationText registrationOf
  simp only [wrapper, scope, List.map_map, Function.comp_def, String.append_assoc]

/-- The registrations of types are written as their function. -/
theorem creation_registrationOf (model : Model) (ids : List RecordId) :
    creation (ids.map (registrationOf model)) = registrationsText model ids := by
  have opens : creationHead ++ "\n\x7b\n" ++
        "  boost::python::scope mod = boost::python::object(boost::python::handle<>(" ++
        "boost::python::borrowed(module)));\n" =
      "void createWrappers(PyObject* module)\n\x7b\n  boost::python::scope mod = " ++
        "boost::python::object(boost::python::handle<>(boost::python::borrowed(module)));\n" := by
    decide +kernel
  have lines : (ids.map (registrationOf model)).map Registration.render =
      ids.map (registrationText model) := by
    rw [List.map_map]
    exact List.map_congr_left fun id _ => render_registrationOf model id
  unfold creation registrationsText
  rw [lines]
  cases ids with
  | nil => rfl
  | cons first rest =>
    exact congrArg (fun front => Generated.mk (creationHead ++ ";\n")
      (front ++ String.join ((first :: rest).map (registrationText model)) ++ "\x7d\n")) opens

private theorem registrationsText_eq_empty_iff {model : Model} {ids : List RecordId} :
    registrationsText model ids = {} ↔ ids = [] := by
  constructor
  · intro empty
    by_contra some
    rw [registrationsText, if_neg some] at empty
    have written : "void createWrappers(PyObject* module);\n" = "" := congrArg Generated.declaration empty
    exact absurd written (by decide)
  · rintro rfl
    rfl

/-- Whether nothing is written for a member. -/
def Unwritten (model : Model) : Member → Prop
  | .package id => ¬ Enters model id
  | .record id => ¬ model.isEmitted id
  | .enumeration _ | .constant _ => True

/-- The texts of members, one after the other: a visit for each type that is emitted, and for each
package that is entered its own text, around those of its members. -/
inductive Writes (options : Options) (model : Model) : List Member → Generated → Prop where
  | nil : Writes options model [] {}
  | record {id : RecordId} {members : List Member} {text : Generated} : model.isEmitted id →
      Writes options model members text →
      Writes options model (.record id :: members) (visitText options model id ++ text)
  | package {id : PackageId} {members : List Member} {inner text : Generated} : Enters model id →
      Writes options model (model.contents (some (.package id))) inner →
      Writes options model members text →
      Writes options model (.package id :: members) (packageText model id inner ++ text)
  | unwritten {member : Member} {members : List Member} {text : Generated} :
      Unwritten model member → Writes options model members text →
      Writes options model (member :: members) text

/-- Adds registrations to those of the innermost open package. -/
def Registry.addAll (registrations : List Registration) : Registry → Registry
  | [] => []
  | innermost :: outer => (innermost ++ registrations) :: outer

private theorem Registry.addAll_nil (registry : Registry) : registry.addAll [] = registry := by
  cases registry with
  | nil => rfl
  | cons innermost outer => rw [addAll, List.append_nil]

private theorem Registry.addAll_cons (registration : Registration) (rest : List Registration)
    (registry : Registry) :
    (registry.add registration).addAll rest = registry.addAll (registration :: rest) := by
  cases registry with
  | nil => rfl
  | cons innermost outer => rw [add, addAll, addAll, List.append_assoc, List.singleton_append]

section Words

variable {options : Options} {model : Model}

/-- A call that writes nothing and leaves the registrations as they are. -/
def isSilent : Step → Bool
  | .constant _ | .enumeration _ | .reference _ | .finish | .epilogue => true
  | _ => false

private theorem wrote_silent {steps : List Step} (silent : ∀ step ∈ steps, isSilent step)
    (registry : Registry) :
    Wrote model (backend options) registry (steps.map .called) {} registry := by
  induction steps with
  | nil => exact .nil registry
  | cons step rest ih =>
    obtain ⟨here, others⟩ := List.forall_mem_cons.mp silent
    have ran : ((backend options).hook model step).run.run registry = (.ok {}, registry) := by
      cases step with
      | constant _ | enumeration _ | reference _ | finish | epilogue => rfl
      | _ => cases here
    exact Generated.empty_append {} ▸ .called ran (ih others)

private theorem wrote_visit (id : RecordId) (registry : Registry) :
    Wrote model (backend options) registry [.called (.record id)] (visitText options model id)
      (registry.add (registrationOf model id)) := by
  rw [← registration_wrapperOf options, visitText_eq]
  exact .call rfl

private theorem wrote_reference (id : RecordId) (registry : Registry) :
    Wrote model (backend options) registry [.called (.reference id)] {} registry :=
  .call rfl

private theorem isSilent_of_value (members : List Member) {step : Step}
    (listed : step ∈ members.filterMap constantStep? ++ members.filterMap enumerationStep?) :
    isSilent step := by
  rcases List.mem_append.mp listed with constant | enumeration
  · obtain ⟨member, -, found⟩ := List.mem_filterMap.mp constant
    cases member <;> cases found
    rfl
  · obtain ⟨member, -, found⟩ := List.mem_filterMap.mp enumeration
    cases member <;> cases found
    rfl

private theorem wrote_bracketed (name : String) {word : List Event} {text : Generated}
    {registry last : Registry} (wrote : Wrote model (backend options) registry word text last) :
    Wrote model (backend options) registry (.opened name :: word ++ [.closed name]) (bracketed name text)
      last :=
  .opened (wrote.append (.close name last))

/-- A package has a list of its own while its members are gone through, which it takes away in the
end. -/
theorem wrote_package {id : PackageId} {inner : List Event} {text : Generated} {registry : Registry}
    (wrote : Wrote model (backend options) ([] :: registry) inner text
      (((registered model id).map (registrationOf model)) :: registry)) :
    Wrote model (backend options) registry (entry model true id ++ inner ++ exit model true id)
      (packageText model id text) registry := by
  have enters : Wrote model (backend options) registry [.called (.enter id)] {} ([] :: registry) :=
    .call rfl
  have leaves : Wrote model (backend options)
      (((registered model id).map (registrationOf model)) :: registry) [.called (.leave id)]
      (registrationsText model (registered model id)) registry := by
    rw [← creation_registrationOf]
    exact .call rfl
  have silent : Wrote model (backend options) ([] :: registry)
      (((model.contents (some (.package id))).filterMap constantStep? ++
        (model.contents (some (.package id))).filterMap enumerationStep?).map .called) {}
      ([] :: registry) := wrote_silent (fun _ => isSilent_of_value _) _
  have whole := wrote_bracketed (Cpp.packageNamespace model id)
    (enters.append (silent.append (wrote.append leaves)))
  simp only [Generated.empty_append] at whole
  simpa [entry, exit, packageText] using whole

/-- Where a package is only referred to, so are the types in it. -/
theorem wrote_references {shown : Bool} {members : List Member} {word : List Event}
    (meets : Meets model true shown members word) (passed : shown = false) (registry : Registry) :
    Wrote model (backend options) registry word {} registry := by
  induction meets with
  | nil => exact .nil registry
  | value _ _ ih => exact ih passed
  | reference id _ ih =>
    exact Generated.empty_append {} ▸ (wrote_reference id registry).append (ih passed)
  | passed _ _ _ ihInner ih => exact Generated.empty_append {} ▸ (ihInner rfl).append (ih passed)
  | record | entered => cases passed

/-- Going through members writes their texts and adds the registrations of the emitted types among them
to the innermost list, whatever the lists hold. The induction is on how members are gone through: what
is registered within a nested package goes to the list of that package, which is gone when the next
member comes. -/
theorem wrote_members (options : Options) {shown : Bool} {members : List Member} {word : List Event}
    (meets : Meets model true shown members word) (isShown : shown = true) :
    ∃ text, Writes options model members text ∧ ∀ registry,
      Wrote model (backend options) registry word text
        (registry.addAll ((emittedAmong model members).map (registrationOf model))) := by
  induction meets with
  | nil =>
    refine ⟨{}, .nil, fun registry => ?_⟩
    rw [show emittedAmong model [] = [] from rfl, List.map_nil, Registry.addAll_nil]
    exact .nil registry
  | @value _ member _ _ valued _ ih =>
    obtain ⟨text, writes, wrote⟩ := ih isShown
    refine ⟨text, .unwritten ?_ writes, fun registry => ?_⟩
    · cases member with
      | package _ | record _ => cases valued
      | enumeration _ | constant _ => trivial
    · rw [emittedAmong_cons_other (by rintro _ rfl; cases valued)]
      exact wrote registry
  | @record id _ _ _ ih =>
    obtain ⟨text, writes, wrote⟩ := ih rfl
    by_cases emitted : model.isEmitted id
    · refine ⟨_, .record emitted writes, fun registry => ?_⟩
      rw [recordStep, if_pos emitted, emittedAmong_cons_record emitted, List.map_cons,
        ← Registry.addAll_cons]
      exact (wrote_visit id registry).append (wrote _)
    · refine ⟨text, .unwritten emitted writes, fun registry => ?_⟩
      rw [recordStep, if_neg emitted,
        emittedAmong_cons_other (by rintro _ ⟨⟩; exact emitted)]
      exact Generated.empty_append text ▸ (wrote_reference id registry).append (wrote registry)
  | reference => cases isShown
  | entered enters _ _ ihInner ih =>
    obtain ⟨inner, writesInner, wroteInner⟩ := ihInner rfl
    obtain ⟨text, writes, wrote⟩ := ih rfl
    refine ⟨_, .package enters writesInner writes, fun registry => ?_⟩
    rw [emittedAmong_cons_other (by rintro _ ⟨⟩)]
    exact (wrote_package (wroteInner _)).append (wrote registry)
  | passed passes inMeets _ _ ih =>
    obtain ⟨text, writes, wrote⟩ := ih isShown
    refine ⟨text, .unwritten (passes isShown) writes, fun registry => ?_⟩
    rw [emittedAmong_cons_other (by rintro _ ⟨⟩)]
    exact Generated.empty_append text ▸ (wrote_references inMeets rfl registry).append (wrote registry)

/-- Outermost there are packages alone, so nothing is registered outside of them. -/
theorem emittedAmong_roots (model : Model) : emittedAmong model (model.contents none) = [] := by
  refine List.eq_nil_iff_forall_not_mem.mpr fun id listed => ?_
  obtain ⟨_, _, same⟩ := List.mem_map.mp (mem_emittedAmong.mp listed).1
  cases same

private theorem wrote_within (outer : Option String) {word : List Event} {text : Generated}
    {registry last : Registry} (wrote : Wrote model (backend options) registry word text last) :
    Wrote model (backend options) registry (within outer word) (namespaced outer text) last := by
  cases outer with
  | none => exact wrote
  | some name => exact wrote_bracketed name wrote

/-- The texts of all packages, after the lines that come first. -/
theorem wrote_all (options : Options) {packages : List Event}
    (meets : Meets model true true (model.contents none) packages) (outer : Option String) :
    ∃ text, Writes options model (model.contents none) text ∧ ∀ earlier : Registry,
      Wrote model (backend options) earlier
        (.called .prologue :: within outer (packages ++ [.called .finish]) ++ [.called .epilogue])
        (prologue options model ++ namespaced outer text) [] := by
  obtain ⟨text, writes, wrote⟩ := wrote_members options meets rfl
  refine ⟨text, writes, fun earlier => ?_⟩
  have starts : Wrote model (backend options) earlier [.called .prologue] (prologue options model) [] :=
    .call rfl
  have silent : ∀ step, isSilent step → Wrote model (backend options) [] ([step].map .called) {} [] :=
    fun step isSilent => wrote_silent (by simpa using isSilent) []
  have packages := wrote []
  rw [emittedAmong_roots, List.map_nil, Registry.addAll_nil] at packages
  have inner := packages.append (silent .finish rfl)
  rw [Generated.append_empty] at inner
  have whole := (starts.append (wrote_within outer inner)).append (silent .epilogue rfl)
  rwa [Generated.append_empty] at whole

/-- Wherever the word of a package stands, what is written there is the text of the package. -/
theorem wrote_segment {id : PackageId} {front inner back : List Event}
    (meets : Meets model true true (model.contents (some (.package id))) inner)
    {generated : Generated} {registry last : Registry}
    (wrote : Wrote model (backend options) registry
      (front ++ (entry model true id ++ inner ++ exit model true id) ++ back) generated last) :
    ∃ before text after, Writes options model (model.contents (some (.package id))) text ∧
      generated = before ++ packageText model id text ++ after := by
  obtain ⟨whole, after, _, wroteWhole, -, rfl⟩ := wrote.split
  obtain ⟨before, segment, between, -, wroteSegment, rfl⟩ := wroteWhole.split
  obtain ⟨text, writes, wroteText⟩ := wrote_members options meets rfl
  obtain ⟨rfl, -⟩ := wroteSegment.unique (wrote_package (wroteText ([] :: between)))
  exact ⟨before, text, after, writes, rfl⟩

end Words

section Built

variable {units : List SourceUnit} {built : Built}

/-- A run of wrappers succeeds, and neither what it writes nor what it leaves depends on what an earlier
run has left. It has written the texts of the packages, each with what the package registers after all
that its members write: the emitted types that it owns itself, each once and in the order of their
declaration, or nothing if there are none. -/
theorem build_registrations (accepted : build units = .ok built) (options : Options)
    (outer : Option String) : ∃ generated text,
      (∀ earlier : Registry,
        (run built.model (backend options) outer).run.run earlier = (.ok generated, [])) ∧
      generated = prologue options built.model ++ namespaced outer text ∧
      Writes options built.model (built.model.contents none) text ∧
      ∀ package, Traversal.Reached built.model package →
        Registers built.model package (registered built.model package) ∧
        (registrationsText built.model (registered built.model package) = {} ↔
          ∀ id : RecordId, id.index < built.model.records.size →
            (built.model.record id).package = package → ¬ built.model.isEmitted id) ∧
        ∃ before inner after,
          Writes options built.model (built.model.contents (some (.package package))) inner ∧
            generated = before ++ packageText built.model package inner ++ after := by
  obtain ⟨stages⟩ := build_stages accepted
  have wellScoped : built.model.WellScoped := stages.sound.toWellScoped
  obtain ⟨packages, meets, spells⟩ := steps_meets wellScoped true outer
  obtain ⟨text, writes, wrote⟩ := wrote_all options meets outer
  refine ⟨_, text, fun earlier => ?_, rfl, writes, fun package reached => ?_⟩
  · have completes : ((steps built.model true outer).foldlM (step built.model (backend options))
        ({} : Output)).run.run earlier = _ := spells.completes (wrote earlier)
    rw [run_eq, run_bind, show (backend options).brackets = true from rfl, completes]
    simp only [Generated.empty_append]
    rfl
  · have registers := registers_registered wellScoped package
    refine ⟨registers, ?_, ?_⟩
    · rw [registrationsText_eq_empty_iff, List.eq_nil_iff_forall_not_mem]
      simp only [registers.mem_iff, not_and]
    · obtain ⟨front, inner, back, split, inMeets, -⟩ :=
        (meets.nested wellScoped outer).segment package reached
      exact wrote_segment inMeets (split ▸ wrote [])

end Built

/-- A package with a type before and one after the package nested in it, an external one, and one that
has no types. -/
def nestedUnits : List SourceUnit :=
  let types (names : List String) : List Declaration.Record :=
    names.map fun name => { name, attributes := [{ name := "n", typeName := some "uint32_t" }] }
  [{ document := { packages := [.mk "Detector" none [] [] [] [] (types ["Config"])] } },
    { document :=
        { packages :=
            [.mk "Detector" none [] [] []
                [.mk "Raw" none [] [] [] [] (types ["Pixel"])] (types ["Frame"]),
              .mk "Clock" none ["external"] [] [] [] (types ["Time"]),
              .mk "Empty" none [] [] [] [] []] } }]

theorem build_registrations_sample : ∃ built generated, build nestedUnits = .ok built ∧
    built.model.records.toList.map (·.name) = ["Config", "Pixel", "Frame", "Time"] ∧
    (registered built.model ⟨0⟩).map (registrationOf built.model) =
      [⟨"Config_Wrapper", "Config", ["n"]⟩, ⟨"Frame_Wrapper", "Frame", ["n"]⟩] ∧
    (registered built.model ⟨1⟩).map (registrationOf built.model) =
      [⟨"Pixel_Wrapper", "Pixel", ["n"]⟩] ∧
    registered built.model ⟨3⟩ = [] ∧
    (run built.model (backend {}) none).run.run [[⟨"Old_Wrapper", "Old", []⟩]] = (.ok generated, []) ∧
    ∃ before inner after, generated = before ++ packageText built.model ⟨0⟩ inner ++ after := by
  have computed : ∃ built, build nestedUnits = .ok built ∧
      built.model.records.toList.map (·.name) = ["Config", "Pixel", "Frame", "Time"] ∧
      (registered built.model ⟨0⟩).map (registrationOf built.model) =
        [⟨"Config_Wrapper", "Config", ["n"]⟩, ⟨"Frame_Wrapper", "Frame", ["n"]⟩] ∧
      (registered built.model ⟨1⟩).map (registrationOf built.model) =
        [⟨"Pixel_Wrapper", "Pixel", ["n"]⟩] ∧
      registered built.model ⟨3⟩ = [] ∧ Traversal.Reached built.model ⟨0⟩ := exists_built (by decide +kernel)
  obtain ⟨built, accepted, names, outermost, nested, empty, reached⟩ := computed
  obtain ⟨generated, _, ran, -, -, packages⟩ := build_registrations accepted {} none
  obtain ⟨-, -, before, inner, after, -, whole⟩ := packages ⟨0⟩ reached
  exact ⟨built, generated, accepted, names, outermost, nested, empty, ran _, before, inner, after,
    whole⟩

end Wrappers

end RecordSchema
