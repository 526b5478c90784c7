import RecordSchema.Proofs.Backend.Classes
import RecordSchema.Proofs.Resolution.Uniqueness
import RecordSchema.Proofs.Traversal.Declared

/-!
# Names in one scope

A class and the namespaces of packages are scopes of generated code, and an enumeration leaves its
enumerators to the scope around it. A schema tells names apart only from others of their kind: the
constants and enumerations of a place, the enumerators of an enumeration, the methods of a type. So the
names of a scope are distinct if and only if those of different kinds are.
-/

set_option autoImplicit false

namespace RecordSchema

open Model Traversal

def Attribute.underscored (attr : Attribute) : Bool :=
  attr.name.toList.head? = some '_'

/-- Storage members of one name belong to attributes of one name, if both names begin with an underscore
or both do not. -/
theorem Attribute.name_of_fieldName {attr other : Attribute}
    (alike : attr.underscored = other.underscored) (same : attr.fieldName = other.fieldName) : attr.name = other.name := by
  by_cases begins : attr.name.toList.head? = some '_' <;>
    simp_all [underscored, fieldName]

namespace Cpp

/-- An enumeration leaves its own name and those of its enumerators to the scope around it. -/
def EnumText.names (text : EnumText) : List String :=
  text.name :: text.enumerators.map EnumeratorText.name

def paddingName (number : Nat) : String :=
  "__pad" ++ toString number

/-- The names that a member declares in the scope of its class. -/
def ClassMember.names : ClassMember → List String
  | identifier name _ _ => [name]
  | constant _ name _ => [name]
  | enumeration text => text.names
  | emptyConstructor _ | constructor _ => []
  | method _ signature _ _ => [signature.name]
  | pad number _ => [paddingName number]
  | field _ name _ _ => [name]

def Class.names (text : Class) : List String :=
  text.members.flatMap fun member => member.2.names

def ClassMember.pad? : ClassMember → Option Nat
  | pad number _ => some number
  | _ => none

private theorem paddingName_injective : Function.Injective paddingName := fun _ _ same =>
  Numeral.repr_injective ((String.append_right_inj _).mp same)

end Cpp

namespace Accessors

open Cpp

/-!
## What is declared
-/

/-- The names that the code of a declaration leaves to the namespace around it. -/
def namesOf (model : Model) : Member → List String
  | .package _ => []
  | .record id => [className model id]
  | .enumeration id => (enumText model (model.enumeration id)).names
  | .constant id => [(model.constant id).name]

/-- The names that steps declare in namespaces, each with the namespaces that are open, the innermost
first. -/
def scopedNames (model : Model) : List String → List Step → List (List String × String)
  | _, [] => []
  | scopes, step :: rest =>
    (step.declared?.toList.flatMap (namesOf model)).map (scopes, ·) ++
      ((turn scopes step).map fun after => scopedNames model after rest).getD []

/-- The names that the code of a model declares in namespaces. -/
def namespaceNames (model : Model) (outer : Option String) : List (List String × String) :=
  scopedNames model [] (steps model true outer)

/-- What a name is told apart from. -/
inductive NameKind where
  | identity
  /-- The names of a place. -/
  | declared (place : Scope)
  | enumerator (enumeration : EnumId)
  /-- The name of a type that has another in its place. -/
  | renamed (id : RecordId)
  | method
  | size
  /-- Storage members of attributes whose names begin with an underscore, or of others. -/
  | field (underscored : Bool)
  | padding
deriving DecidableEq

/-- Names of different kinds are different. -/
def KindsApart {α : Type} (names : List (NameKind × α)) : Prop :=
  ∀ one ∈ names, ∀ other ∈ names, one.2 = other.2 → one.1 = other.1

instance {α : Type} [DecidableEq α] (names : List (NameKind × α)) : Decidable (KindsApart names) :=
  inferInstanceAs (Decidable (∀ one ∈ names, ∀ other ∈ names, one.2 = other.2 → one.1 = other.1))

private theorem nodup_map_snd_iff {α : Type} {names : List (NameKind × α)} (nodup : names.Nodup) :
    (names.map Prod.snd).Nodup ↔ KindsApart names := by
  rw [List.nodup_map_iff_inj_on nodup]
  exact forall₄_congr fun one _ other _ => forall_congr' fun same =>
    ⟨congrArg Prod.fst, fun kinds => Prod.ext kinds same⟩

def kindsOf (model : Model) : Member → List (NameKind × String)
  | .package _ => []
  | .record id =>
    match (model.record id).cppName with
    | some name => [(.renamed id, name)]
    | none => [(.declared (.package (model.record id).package), (model.record id).name)]
  | .enumeration id =>
    (.declared (model.enumeration id).scope, (model.enumeration id).name) ::
      (model.enumeration id).constants.map fun enumerator => (.enumerator id, enumerator.name)
  | .constant id => [(.declared (model.constant id).scope, (model.constant id).name)]

def storedAttributes (model : Model) (record : Record) : List Attribute :=
  (record.attributes.map model.attr).takeWhile Attribute.stored

def paddingNumbers (model : Model) (record : Record) : List Nat :=
  ((storageMembers model record).getD []).filterMap ClassMember.pad?

/-- The names in the class of a record type by kind. -/
def classNames (model : Model) (id : RecordId) : List (NameKind × String) :=
  let record := model.record id
  ((identityMembers record.identity).flatMap ClassMember.names).map (NameKind.identity, ·) ++
    (model.contents (some (.record id))).flatMap (kindsOf model) ++
    (Resolution.methodNames model id).map (NameKind.method, ·) ++
    (if record.noSizeof then [] else [(NameKind.size, "_sizeof")]) ++
    (storedAttributes model record).map
      (fun attr => (NameKind.field attr.underscored, attr.fieldName)) ++
    (paddingNumbers model record).map fun number => (NameKind.padding, paddingName number)

/-- The namespaces in which a declaration is emitted, the innermost first. -/
def scopesOf (model : Model) (outer : Option String) (member : Member) : List String :=
  match model.home member with
  | some (.package package) => (namespacePath model package).reverse ++ outer.toList
  | _ => outer.toList

/-- The names in namespaces by kind. -/
def placedNames (model : Model) (outer : Option String) :
    List (NameKind × List String × String) :=
  (declared model outer).flatMap fun member =>
    (kindsOf model member).map fun name => (name.1, scopesOf model outer member, name.2)

section Members

variable {model : Model}

private theorem map_snd_kindsOf (member : Member) :
    (kindsOf model member).map Prod.snd = namesOf model member := by
  cases member with
  | package _ | constant _ => rfl
  | record id =>
    rw [kindsOf, namesOf, className]
    cases (model.record id).cppName <;> rfl
  | enumeration id =>
    simp only [kindsOf, namesOf, enumText, EnumText.names, List.map_cons, List.map_map]
    rfl

private theorem map_snd_flatMap_kindsOf (members : List Member) :
    (members.flatMap (kindsOf model)).map Prod.snd = members.flatMap (namesOf model) := by
  rw [List.map_flatMap]
  exact List.flatMap_congr fun member _ => map_snd_kindsOf member

/-- Where a name of a declaration comes from, by its kind. -/
theorem mem_kindsOf {member : Member} {name : NameKind × String} (named : name ∈ kindsOf model member) :
    (∃ place, name = (.declared place, model.memberName member) ∧ model.home member = some place) ∨
      (∃ id enumerator, member = .enumeration id ∧ name = (.enumerator id, enumerator)) ∨
      ∃ id other, member = .record id ∧ name = (.renamed id, other) := by
  cases member with
  | package _ => cases named
  | constant id => exact .inl ⟨_, List.mem_singleton.mp named, rfl⟩
  | enumeration id =>
    rcases List.mem_cons.mp named with rfl | later
    · exact .inl ⟨_, rfl, rfl⟩
    · obtain ⟨enumerator, _, rfl⟩ := List.mem_map.mp later
      exact .inr (.inl ⟨id, _, rfl, rfl⟩)
  | record id =>
    rw [kindsOf] at named
    split at named
    · exact .inr (.inr ⟨id, _, rfl, List.mem_singleton.mp named⟩)
    · exact .inl ⟨_, List.mem_singleton.mp named, rfl⟩

/-- With its kind, a name belongs to one declaration. -/
theorem eq_of_mem_kindsOf (wellNamed : model.WellNamed) {one other : Member}
    (inRange : one.reference.InRange model.census) (inRangeToo : other.reference.InRange model.census)
    {name : NameKind × String} (named : name ∈ kindsOf model one)
    (namedToo : name ∈ kindsOf model other) : one = other := by
  rcases mem_kindsOf named with ⟨place, rfl, home⟩ | ⟨id, enumerator, rfl, rfl⟩ | ⟨id, _, rfl, rfl⟩ <;>
    rcases mem_kindsOf namedToo with ⟨place', same, home'⟩ | ⟨id', _, rfl, same⟩ | ⟨id', _, rfl, same⟩ <;>
    obtain ⟨kinds, names⟩ := Prod.mk.inj same <;> cases kinds
  · exact wellNamed.member_eq inRange inRangeToo (home.trans home'.symm) names
  · rfl
  · rfl

/-- The names of different declarations are distinct within their kinds. -/
theorem nodup_kindsOf (wellNamed : model.WellNamed) (unambiguous : model.Unambiguous)
    {members : List Member} (distinct : members.Nodup)
    (inRange : ∀ member ∈ members, member.reference.InRange model.census) :
    (members.flatMap (kindsOf model)).Nodup := by
  refine List.nodup_flatMap.mpr ⟨fun member listed => ?_, ?_⟩
  · cases member with
    | package _ => exact List.nodup_nil
    | constant _ => exact List.nodup_singleton _
    | record id =>
      rw [kindsOf]
      split <;> exact List.nodup_singleton _
    | enumeration id =>
      refine List.nodup_cons.mpr ⟨by simp, List.Nodup.of_map Prod.snd ?_⟩
      rw [List.map_map]
      exact unambiguous.enumerators id
  · refine distinct.pairwise_of_forall_ne fun one listed other listedToo different => ?_
    intro name named namedToo
    exact different (eq_of_mem_kindsOf wellNamed (inRange one listed) (inRange other listedToo) named
      namedToo)

end Members

/-!
## Classes
-/

section Classes

variable {model : Model}

/-- The storage members of a class are named for its attributes, and paddings are numbered. -/
theorem storageMembersFrom_names {attributes : List Attribute} {cursor : Int} {padding : Nat}
    {members : List ClassMember}
    (made : storageMembersFrom model cursor padding attributes = some members) :
    (members.flatMap ClassMember.names).Perm
        ((attributes.takeWhile Attribute.stored).map Attribute.fieldName ++
          (members.filterMap ClassMember.pad?).map paddingName) ∧
      ∃ count, members.filterMap ClassMember.pad? = List.range' padding count := by
  induction attributes generalizing cursor padding members with
  | nil =>
    cases made
    exact ⟨.nil, 0, rfl⟩
  | cons attr rest ih =>
    rw [storageMembersFrom] at made
    split at made
    · rename_i stored
      obtain ⟨count, _, made⟩ := Option.bind_eq_some_iff.mp made
      obtain ⟨extent, _, made⟩ := Option.bind_eq_some_iff.mp made
      rw [List.takeWhile_cons_of_pos stored, List.map_cons, List.cons_append]
      split at made
      · obtain ⟨gap, _, made⟩ := Option.bind_eq_some_iff.mp made
        obtain ⟨next, _, made⟩ := Option.bind_eq_some_iff.mp made
        obtain ⟨others, further, made⟩ := Option.bind_eq_some_iff.mp made
        cases made
        obtain ⟨perm, gaps, numbered⟩ := ih further
        refine ⟨?_, gaps + 1, ?_⟩
        · exact ((perm.cons attr.fieldName).cons (paddingName padding)).trans
            ((List.Perm.swap _ _ _).trans (List.perm_middle.symm.cons _))
        · rw [List.range'_succ, ← numbered]
          rfl
      · obtain ⟨next, _, made⟩ := Option.bind_eq_some_iff.mp made
        obtain ⟨others, further, made⟩ := Option.bind_eq_some_iff.mp made
        cases made
        obtain ⟨perm, gaps, numbered⟩ := ih further
        exact ⟨perm.cons attr.fieldName, gaps, numbered⟩
    · rename_i unstored
      cases made
      rw [List.takeWhile_cons_of_neg unstored]
      exact ⟨.nil, 0, rfl⟩

private theorem names_of_constructorMember {id : RecordId} {constructor : Constructor}
    {made : Access × ClassMember} (taken : constructorMember model id constructor = some made) :
    made.2.names = [] := by
  rw [constructorMember] at taken
  split at taken
  · cases taken
    rfl
  · obtain ⟨assigned, _, taken⟩ := Option.bind_eq_some_iff.mp taken
    cases taken
    rfl

private theorem names_of_methodMember {id : RecordId} {method : Method} {made : Access × ClassMember}
    (taken : methodMember model id method = some made) : made.2.names = [method.name] := by
  obtain ⟨body, _, taken⟩ := Option.bind_eq_some_iff.mp taken
  cases taken
  rfl

/-- The class of a type has its names. -/
theorem names_perm {id : RecordId} {text : Cpp.Class} (made : classOf model id = some text) :
    text.names.Perm ((classNames model id).map Prod.snd) := by
  obtain ⟨anatomy⟩ := classOf_anatomy made
  have constructors : anatomy.constructors.flatMap (fun member => member.2.names) = [] := by
    have silent : ∀ constructor made, constructorMember model id constructor = some made →
        made.2.names = [] := fun _ _ => names_of_constructorMember
    rw [Outcome.flatMap_of_forall₂ anatomy.constructed silent]
    exact List.flatMap_eq_nil_iff.mpr fun _ _ => rfl
  have methods : anatomy.methods.flatMap (fun member => member.2.names) =
      Resolution.methodNames model id := by
    rw [Outcome.flatMap_of_forall₂ anatomy.bodied fun _ _ => names_of_methodMember,
      Resolution.methodNames, List.map_eq_flatMap]
  have declarations : ((constantMembers model id (model.record id)).flatMap ClassMember.names ++
      ((model.record id).enumerations.map fun entry =>
        ClassMember.enumeration (enumText model (model.enumeration entry.2))).flatMap
          ClassMember.names) =
      ((model.contents (some (.record id))).flatMap (kindsOf model)).map Prod.snd := by
    rw [map_snd_flatMap_kindsOf, contents, constantMembers]
    simp only [List.flatMap_append, List.flatMap_map]
    rfl
  have size : (sizeMember model id (model.record id)).flatMap ClassMember.names =
      (if (model.record id).noSizeof then [] else [(NameKind.size, "_sizeof")]).map Prod.snd := by
    rw [sizeMember]
    split <;> rfl
  obtain ⟨storage, -⟩ := storageMembersFrom_names anatomy.stored
  have paddings : paddingNumbers model (model.record id) =
      anatomy.storage.filterMap ClassMember.pad? := by
    rw [paddingNumbers, anatomy.stored, Option.getD_some]
  rw [Class.names, anatomy.members]
  simp only [classNames, List.flatMap_append, List.flatMap_map, List.map_append, List.map_map,
    Function.comp_def, constructors, methods, size, ← declarations, List.append_assoc, List.map_id',
    List.nil_append, List.perm_append_left_iff, paddings]
  exact storage

/-- The part of a class in which names of a kind stand. -/
def NameKind.part : NameKind → Nat
  | identity => 0
  | declared _ | enumerator _ | renamed _ => 1
  | method => 2
  | size => 3
  | field _ => 4
  | padding => 5

/-- Names of the parts before a part are distinct within their kinds. -/
structure Before (part : Nat) (names : List (NameKind × String)) : Prop where
  nodup : names.Nodup
  before : ∀ name ∈ names, name.1.part < part

theorem Before.append {part : Nat} {first second : List (NameKind × String)} (one : Before part first)
    (nodup : second.Nodup) (here : ∀ name ∈ second, name.1.part = part) :
    Before (part + 1) (first ++ second) := by
  refine ⟨List.nodup_append.mpr ⟨one.nodup, nodup, fun name listed other listedToo same => ?_⟩, ?_⟩
  · have earlier := one.before name listed
    rw [same, here other listedToo] at earlier
    exact Nat.lt_irrefl _ earlier
  · intro name listed
    rcases List.mem_append.mp listed with listed | listed
    · exact Nat.lt_succ_of_lt (one.before name listed)
    · exact Nat.lt_succ_of_le (here name listed).le

/-- The names of a class are distinct within their kinds. -/
theorem nodup_classNames (wellNamed : model.WellNamed) (unambiguous : model.Unambiguous)
    (id : RecordId) : (classNames model id).Nodup := by
  have identity : Before 1
      (((identityMembers (model.record id).identity).flatMap ClassMember.names).map
        (NameKind.identity, ·)) := by
    cases (model.record id).identity with
    | none => exact ⟨List.nodup_nil, nofun⟩
    | some identity => constructor <;> simp [identityMembers, ClassMember.names, NameKind.part]
  have inRange : ∀ member ∈ model.contents (some (.record id)), member.reference.InRange model.census :=
    fun member listed => wellNamed.closed.contents (some (.record id)) member listed
  have declared := nodup_kindsOf wellNamed unambiguous (wellNamed.named.nodup inRange) inRange
  have declaredPart : ∀ name ∈ (model.contents (some (.record id))).flatMap (kindsOf model),
      name.1.part = 1 := by
    intro name listed
    obtain ⟨member, _, named⟩ := List.mem_flatMap.mp listed
    rcases mem_kindsOf named with ⟨_, rfl, _⟩ | ⟨_, _, _, rfl⟩ | ⟨_, _, _, rfl⟩ <;> rfl
  have methods : ((Resolution.methodNames model id).map (NameKind.method, ·)).Nodup :=
    (unambiguous.methods id).map fun _ _ same => congrArg Prod.snd same
  have fields : ((storedAttributes model (model.record id)).map fun attr =>
      (NameKind.field attr.underscored, attr.fieldName)).Nodup := by
    have names : ((storedAttributes model (model.record id)).map Attribute.name).Nodup := by
      have distinct := unambiguous.attributes id
      rw [Resolution.attributeNames, ← Function.comp_def, ← List.map_map] at distinct
      exact ((List.takeWhile_sublist _).map Attribute.name).nodup distinct
    refine (List.pairwise_map.mp names).map _ fun attr other different same => different ?_
    obtain ⟨kinds, fields⟩ := Prod.mk.inj same
    exact Attribute.name_of_fieldName (NameKind.field.inj kinds) fields
  have paddings : ((paddingNumbers model (model.record id)).map fun number =>
      (NameKind.padding, paddingName number)).Nodup := by
    rw [List.nodup_map_iff fun _ _ same => paddingName_injective (congrArg Prod.snd same)]
    rw [paddingNumbers]
    cases made : storageMembers model (model.record id) with
    | none => exact List.nodup_nil
    | some storage =>
      obtain ⟨-, count, numbered⟩ := storageMembersFrom_names made
      rw [Option.getD_some, numbered]
      exact List.nodup_range' 1
  have size : (if (model.record id).noSizeof then [] else [(NameKind.size, "_sizeof")]).Nodup ∧
      ∀ name ∈ if (model.record id).noSizeof then [] else [(NameKind.size, "_sizeof")],
        name.1.part = 3 := by
    split <;> simp [NameKind.part]
  have methodParts := (identity.append declared declaredPart).append methods (by simp [NameKind.part])
  have fieldParts := (methodParts.append size.1 size.2).append fields (by simp [NameKind.part])
  exact (fieldParts.append paddings (by simp [NameKind.part])).nodup

end Classes

/-!
## Namespaces
-/

section Namespaces

variable {model : Model}

/-- If declarations are visited at home, their names are declared there. -/
theorem scopedNames_eq {outer : Option String} {scopes : List String} {steps : List Step}
    (home : VisitsAtHome model outer.toList scopes steps) :
    scopedNames model scopes steps = (steps.filterMap Step.declared?).flatMap fun member =>
      (namesOf model member).map (scopesOf model outer member, ·) := by
  induction steps generalizing scopes with
  | nil => rfl
  | cons step rest ih =>
    have here : (step.declared?.toList.flatMap (namesOf model)).map (scopes, ·) =
        step.declared?.toList.flatMap fun member =>
          (namesOf model member).map (scopesOf model outer member, ·) := by
      cases visit : step.declared? with
      | none => rfl
      | some member =>
        obtain ⟨package, at_home, reached⟩ := home [] step rest rfl member visit
        have same : scopesOf model outer member = scopes := by
          rw [scopesOf, at_home]
          exact (Option.some.inj reached).symm
        simp [same]
    have later : ((turn scopes step).map fun after => scopedNames model after rest).getD [] =
        (rest.filterMap Step.declared?).flatMap fun member =>
          (namesOf model member).map (scopesOf model outer member, ·) := by
      cases turned : turn scopes step with
      | some after =>
        refine ih fun front next back split member visit => ?_
        obtain ⟨package, at_home, reached⟩ :=
          home (step :: front) next back (by rw [split]; rfl) member visit
        rw [List.foldlM_cons, turned] at reached
        exact ⟨package, at_home, reached⟩
      | none =>
        have none : rest.filterMap Step.declared? = [] := by
          refine List.filterMap_eq_nil_iff.mpr fun next listed => ?_
          obtain ⟨front, back, split⟩ := List.append_of_mem listed
          cases visit : next.declared? with
          | none => rfl
          | some member =>
            obtain ⟨_, _, reached⟩ :=
              home (step :: front) next back (by rw [split]; rfl) member visit
            rw [List.foldlM_cons, turned] at reached
            cases reached
        rw [none]
        rfl
    rw [scopedNames, here, later, List.filterMap_cons]
    cases step.declared? <;> simp

private theorem namespaceNames_eq (wellScoped : model.WellScoped) (outer : Option String) :
    namespaceNames model outer = (placedNames model outer).map Prod.snd := by
  rw [namespaceNames, scopedNames_eq (steps_visitsAtHome wellScoped outer), placedNames, List.map_flatMap]
  refine List.flatMap_congr fun member _ => ?_
  rw [← map_snd_kindsOf, List.map_map, List.map_map]
  rfl

/-- The names in namespaces are distinct within their kinds. -/
theorem nodup_placedNames (wellNamed : model.WellNamed) (unambiguous : model.Unambiguous)
    (outer : Option String) : (placedNames model outer).Nodup := by
  have wellScoped : model.WellScoped := wellNamed.toWellScoped
  have distinct := nodup_kindsOf wellNamed unambiguous (nodup_declared wellScoped outer)
    fun member visit => inRange_of_declared wellScoped visit
  refine List.Nodup.of_map (fun name => (name.1, name.2.2)) ?_
  rw [placedNames, List.map_flatMap]
  simpa only [List.map_map, Function.comp_def, List.map_id'] using distinct

end Namespaces

/-- The names in the class of a type that is emitted, and those in namespaces, are distinct within their
kinds. All names in the class are distinct if and only if those of different kinds are, and so are all
names in each of the namespaces. -/
theorem build_scopeNames {units : List SourceUnit} {built : Built}
    (accepted : build units = .ok built) :
    (∀ id ∈ built.model.emittedRecords, ∀ text, classOf built.model id = some text →
      (classNames built.model id).Nodup ∧
        text.names.Perm ((classNames built.model id).map Prod.snd) ∧
        (text.names.Nodup ↔ KindsApart (classNames built.model id))) ∧
      ∀ outer, (placedNames built.model outer).Nodup ∧
        namespaceNames built.model outer = (placedNames built.model outer).map Prod.snd ∧
        ((namespaceNames built.model outer).Nodup ↔ KindsApart (placedNames built.model outer)) := by
  obtain ⟨stages⟩ := build_stages accepted
  constructor
  · intro id _ text made
    have distinct := nodup_classNames stages.wellNamed stages.unambiguous id
    have perm := names_perm made
    exact ⟨distinct, perm, perm.nodup_iff.trans (nodup_map_snd_iff distinct)⟩
  · intro outer
    have distinct := nodup_placedNames stages.wellNamed stages.unambiguous outer
    have same := namespaceNames_eq stages.sound.toWellScoped outer
    exact ⟨distinct, same, same ▸ nodup_map_snd_iff distinct⟩

/-- Enumerations of a package that share an enumerator, a type whose names are distinct, and one with a
constant that is called like the accessor of its attribute. -/
def sharedNameUnits : List SourceUnit :=
  let enumerations : List Declaration.Enumeration :=
    [{ name := some "Gain", constants := [{ name := "Low" }, { name := "High" }] },
      { name := some "Level", constants := [{ name := "Low" }] }]
  let attributes : List Declaration.Attribute := [{ name := "x", typeName := some "uint32_t" }]
  let types : List Declaration.Record :=
    [{ name := "Apart", typeId := some 7, version := some 1, attributes
       constants := [{ name := "limit", value := some "4" }] },
      { name := "Clash", attributes, constants := [{ name := "x", value := some "4" }] }]
  [{ document := { packages := [.mk "Sample" none [] [] enumerations [] types] } }]

theorem build_scopeNames_sample : ∃ built text, build sharedNameUnits = .ok built ∧
    ⟨0⟩ ∈ built.model.emittedRecords ∧ classOf built.model ⟨0⟩ = some text ∧
    text.names.Perm ["TypeId", "Version", "limit", "x", "_sizeof", "_x"] ∧ text.names.Nodup := by
  have computed : ∃ built, build sharedNameUnits = .ok built ∧
      ⟨0⟩ ∈ built.model.emittedRecords ∧ (classOf built.model ⟨0⟩).isSome ∧
      (classNames built.model ⟨0⟩).map Prod.snd =
        ["TypeId", "Version", "limit", "x", "_sizeof", "_x"] ∧
      KindsApart (classNames built.model ⟨0⟩) := exists_built (by decide +kernel)
  obtain ⟨built, accepted, emitted, made, names, apart⟩ := computed
  obtain ⟨text, made⟩ := Option.isSome_iff_exists.mp made
  obtain ⟨_, perm, distinct⟩ := (build_scopeNames accepted).1 ⟨0⟩ emitted text made
  exact ⟨built, text, accepted, emitted, made, names ▸ perm, distinct.mpr apart⟩

/-- A class with two members of one name, and a namespace with two enumerators of one name. -/
theorem build_not_scopeNames : ∃ built text, build sharedNameUnits = .ok built ∧
    ⟨1⟩ ∈ built.model.emittedRecords ∧ classOf built.model ⟨1⟩ = some text ∧
    ¬ text.names.Nodup ∧ ¬ (namespaceNames built.model none).Nodup := by
  have computed : ∃ built, build sharedNameUnits = .ok built ∧
      ⟨1⟩ ∈ built.model.emittedRecords ∧
      (classOf built.model ⟨1⟩).any (fun text => ¬ text.names.Nodup) = true ∧
      ¬ (namespaceNames built.model none).Nodup := exists_built (by decide +kernel)
  obtain ⟨built, accepted, emitted, made, twice⟩ := computed
  obtain ⟨text, made, shared⟩ := (Option.any_eq_true _ _).mp made
  exact ⟨built, text, accepted, emitted, made, of_decide_eq_true shared, twice⟩

end Accessors

end RecordSchema
