import Mathlib.Data.List.Forall2
import RecordSchema.Backend.Accessors
import RecordSchema.Proofs.Backend.Overflow
import RecordSchema.Proofs.Text
import RecordSchema.Proofs.Traversal.DeclarationOrder
import RecordSchema.Proofs.Traversal.Runs

/-!
# The classes of a run

What the class of a record type is made of, and where it stands in the code of a run: a run of accessors
that succeeds has written one class for each type that it visits, and one that fails has met a type whose
class comes to nothing.
-/

set_option autoImplicit false

/-!
## The text of accessor classes

What is written for a record type is the definition of a class, under its name and with its base, with the
lines of its members under their access. Constructors and member functions whose bodies are not in the class
are defined behind it. Constants and enumerations of packages are written on lines of their own.
-/

namespace RecordSchema

namespace Cpp

/-- The lines up to the first member: the name of a class, and its base. -/
def classHead (name : String) (base : Option String) : String :=
  match base with
  | some base => "class " ++ name ++ " : public " ++ base ++ " \x7b\npublic:\n"
  | none => "class " ++ name ++ " \x7b\npublic:\n"

/-- The parameters of a function. -/
def parametersText (parameters : List Parameter) : String :=
  ", ".intercalate (parameters.map fun parameter => parameter.type ++ " " ++ parameter.name)

/-- The head of a member function that is no template. -/
def headText (head : Signature) : String :=
  head.result ++ " " ++ head.name ++ "(" ++ parametersText head.parameters ++ ") const"

/-- The head of any member function. A template takes the config object before all else. -/
def qualifiedHead (qualifier : String) (head : Signature) : String :=
  let parameters := if head.template then ⟨"const Config&", "cfg"⟩ :: head.parameters else head.parameters
  head.result ++ " " ++ qualifier ++ head.name ++ "(" ++ parametersText parameters ++ ") const"

/-- A comment behind what it is about. -/
def remarkText (separator : String) (comment : Option String) : String :=
  (comment.map fun text => separator ++ "/**< " ++ Text.trim text ++ " */").getD ""

/-- The line of an enumerator. -/
def enumeratorLine (enumerator : EnumeratorText) : String :=
  match enumerator.value with
  | some value => "  " ++ enumerator.name ++ " = " ++ value ++ "," ++ remarkText " " enumerator.comment ++ "\n"
  | none => "  " ++ enumerator.name ++ "," ++ remarkText " " enumerator.comment ++ "\n"

/-- What stands between the parameters of a constructor and its body. -/
def initializersText (text : ConstructorText) : String :=
  if text.initializers = [] then ""
  else "\n  : " ++ ", ".intercalate (text.initializers.map fun entry => entry.1 ++ "(" ++ entry.2 ++ ")")

/-- The statements of a constructor. -/
def statementsText (text : ConstructorText) : String :=
  String.join (text.statements.map fun statement => "\n  " ++ statement)

/-- The lines of a member in its class. Bodies of templates are here, and those that are to be inlined. -/
def declaredText (name : String) : ClassMember → String
  | .identifier own value remark =>
    "  enum \x7b " ++ own ++ " = " ++ toString value ++ " /**< " ++ remark ++ " */ \x7d;\n"
  | .constant comment own value =>
    docComment "  " comment ++ "  enum \x7b " ++ own ++ " = " ++ value ++ " \x7d;\n"
  | .enumeration text =>
    docComment "  " text.comment ++ "  enum " ++ text.name ++ " \x7b\n" ++
      String.join (text.enumerators.map fun enumerator => "  " ++ enumeratorLine enumerator) ++ "  \x7d;\n"
  | .emptyConstructor comment => docComment "  " comment ++ "  " ++ name ++ "() \x7b\x7d\n"
  | .constructor text =>
    docComment "  " text.comment ++ "  " ++ name ++ "(" ++ parametersText text.parameters ++ ")" ++
      if text.form = .inlined then initializersText text ++ "\n  \x7b" ++ statementsText text ++ "\n  \x7d\n"
      else ";\n"
  | .method comment head body inlined =>
    docComment "  " comment ++ (if head.template then "  template <typename Config>\n" else "") ++
      "  " ++ qualifiedHead "" head ++
      match body with
      | some body => if head.template || inlined then " \x7b " ++ body ++ " \x7d\n" else ";\n"
      | none => ";\n"
  | .pad number bytes => "  char\t__pad" ++ toString number ++ "[" ++ toString bytes ++ "];\n"
  | .field type own dimensions comment =>
    "  " ++ type ++ "\t" ++ own ++ dimensions ++ ";" ++ remarkText "\t" comment ++ "\n"

/-- The lines of a member behind its class. -/
def definedText (name : String) : ClassMember → String
  | .constructor text =>
    if text.form = .defined then
      name ++ "::" ++ name ++ "(" ++ parametersText text.parameters ++ ")" ++ initializersText text ++
        "\n\x7b" ++ statementsText text ++ "\n\x7d\n"
    else ""
  | .method _ head (some body) inlined =>
    if head.template || inlined then ""
    else qualifiedHead (name ++ "::") head ++ "\n\x7b\n  " ++ body ++ "\n\x7d\n"
  | _ => ""

/-- The lines of the members with some access, under a keyword if there are any. -/
def sectionText (text : Class) (access : Access) (keyword : String) : String :=
  let lines := String.join ((text.membersWith access).map (declaredText text.name))
  if lines.isEmpty then "" else keyword ++ lines

def Class.text (text : Class) : Generated where
  declaration := "\n" ++ docComment "" text.comment ++ classHead text.name text.base ++
    String.join ((text.membersWith .publicly).map (declaredText text.name)) ++
    sectionText text .protectedly "protected:\n" ++ sectionText text .privately "private:\n" ++ "\x7d;\n"
  definition := String.join (text.members.map fun member => definedText text.name member.2)

/-- What a class shows to all has a line for a member function, which is declared there, or defined on the
line. -/
def ShowsMethod (text : Class) (head : Signature) : Prop :=
  ∃ front ending back hidden, (ending = ";\n" ∨ ∃ body, ending = " \x7b " ++ body ++ " \x7d\n") ∧
    text.render.declaration = "\n" ++ docComment "" text.comment ++ classHead text.name text.base ++
      (front ++ "  " ++ headText head ++ ending ++ back) ++ hidden ++ "\x7d;\n"

section Lines

variable {text : Class}

private theorem declaration_render (text : Class) : ∃ hidden, text.render.declaration =
    "\n" ++ docComment "" text.comment ++ classHead text.name text.base ++ text.memberLines .publicly ++
      hidden ++ "\x7d;\n" := by
  refine ⟨renderSection .protectedly (text.memberLines .protectedly) ++
    renderSection .privately (text.memberLines .privately), ?_⟩
  unfold Class.render classHead
  cases text.base <;> simp [String.append_assoc]

private theorem methodDeclaration_plain (comment body : Option String) {head : Signature} (inlined : Bool)
    (plain : head.template = false) : ∃ ending,
      (ending = ";\n" ∨ ∃ body, ending = " \x7b " ++ body ++ " \x7d\n") ∧
        methodDeclaration comment head body inlined =
          docComment "  " comment ++ "  " ++ headText head ++ ending := by
  have line : head.render "" = headText head := by
    simp only [Signature.render, headText, Signature.allParameters, plain, Bool.false_eq_true, if_false,
      String.append_empty]
    rfl
  have declared : methodDeclaration comment head body inlined =
      docComment "  " comment ++ "  " ++ headText head ++ (match body with
        | some body => if bodyInside head inlined then " \x7b " ++ body ++ " \x7d\n" else ";\n"
        | none => ";\n") := by
    rw [← line]
    cases body <;> simp [methodDeclaration, plain]
  refine ⟨_, ?_, declared⟩
  cases body with
  | none => exact .inl rfl
  | some body =>
    cases bodyInside head inlined with
    | true => exact .inr ⟨body, rfl⟩
    | false => exact .inl rfl

theorem showsMethod {comment body : Option String} {head : Signature} {inlined : Bool}
    (listed : (.publicly, .method comment head body inlined) ∈ text.members)
    (plain : head.template = false) : ShowsMethod text head := by
  obtain ⟨ending, ends, line⟩ := methodDeclaration_plain comment body inlined plain
  obtain ⟨hidden, whole⟩ := declaration_render text
  have shown : methodDeclaration comment head body inlined ∈
      (text.membersWith .publicly).map (ClassMember.declaration text.name) :=
    List.mem_map.mpr ⟨_, List.mem_filterMap.mpr ⟨_, listed, if_pos rfl⟩, rfl⟩
  obtain ⟨front, back, split⟩ := Text.Occurs.join shown
  refine ⟨front ++ docComment "  " comment, ending, back, hidden, ends, ?_⟩
  rw [whole, Class.memberLines, split, line]
  simp only [String.append_assoc]

end Lines

private theorem trailingComment_eq (separator : String) (comment : Option String) :
    trailingComment separator comment = remarkText separator comment := by
  cases comment <;> rfl

private theorem EnumeratorText.render_eq (indent : String) (enumerator : EnumeratorText) :
    enumerator.render indent = indent ++ enumeratorLine enumerator := by
  rw [EnumeratorText.render, enumeratorLine, trailingComment_eq]
  cases enumerator.value <;> simp [String.append_assoc]

theorem EnumText.render_eq (indent : String) (enumeration : EnumText) : enumeration.render indent =
    docComment indent enumeration.comment ++ indent ++ "enum " ++ enumeration.name ++ " \x7b\n" ++
      String.join (enumeration.enumerators.map fun enumerator => indent ++ enumeratorLine enumerator) ++
        indent ++ "\x7d;\n" := by
  rw [EnumText.render, List.map_congr_left fun enumerator _ => EnumeratorText.render_eq indent enumerator]

private theorem renderParameters_eq (parameters : List Parameter) :
    renderParameters parameters = parametersText parameters :=
  rfl

private theorem Signature.render_eq (qualifier : String) (head : Signature) :
    head.render qualifier = qualifiedHead qualifier head :=
  rfl

private theorem initializersText_eq (text : ConstructorText) :
    renderInitializers text.initializers = initializersText text := by
  rw [renderInitializers, initializersText]
  cases text.initializers <;> rfl

private theorem ClassMember.declaration_eq (name : String) (member : ClassMember) :
    member.declaration name = declaredText name member := by
  unfold declaration declaredText
  cases member with
  | enumeration text =>
    have opens : "  enum " = "  " ++ "enum " := rfl
    have closes : "  \x7d;\n" = "  " ++ "\x7d;\n" := rfl
    dsimp only
    rw [EnumText.render_eq, opens, closes]
    simp only [String.append_assoc]
  | constructor text =>
    dsimp only
    unfold ConstructorText.declaration
    rw [initializersText_eq]
    cases text.form <;>
      simp [ConstructorText.head, statementsText, renderStatements, renderParameters_eq, String.append_assoc]
  | method comment head body inlined =>
    dsimp only
    unfold methodDeclaration
    rw [Signature.render_eq]
    cases body <;> simp only [bodyInside, String.append_assoc]
  | identifier | constant | emptyConstructor | pad | field =>
    simp only [Text.toString_text, trailingComment_eq, String.append_assoc]

private theorem ClassMember.definition_eq (name : String) (member : ClassMember) :
    member.definition name = definedText name member := by
  unfold definition definedText
  cases member with
  | constructor text =>
    dsimp only
    unfold ConstructorText.definition
    rw [initializersText_eq]
    cases text.form <;>
      simp [ConstructorText.head, statementsText, renderStatements, renderParameters_eq, String.append_assoc]
  | method comment head body inlined =>
    cases body with
    | none => rfl
    | some body =>
      dsimp only
      rw [methodDefinition, Signature.render_eq]
      rfl
  | _ => rfl

private theorem memberLines_eq (text : Class) (access : Access) : text.memberLines access =
    String.join ((text.membersWith access).map (declaredText text.name)) :=
  congrArg String.join (List.map_congr_left fun member _ => member.declaration_eq text.name)

theorem Class.render_eq (text : Class) : text.render = text.text := by
  have behind : text.members.map (fun member => member.2.definition text.name) =
      text.members.map fun member => definedText text.name member.2 :=
    List.map_congr_left fun member _ => member.2.definition_eq text.name
  have hidden : renderSection .protectedly (text.memberLines .protectedly) =
      sectionText text .protectedly "protected:\n" := by
    rw [renderSection, memberLines_eq]
    rfl
  have own : renderSection .privately (text.memberLines .privately) =
      sectionText text .privately "private:\n" := by
    rw [renderSection, memberLines_eq]
    rfl
  unfold render Class.text classHead
  rw [behind, hidden, own, memberLines_eq]
  cases text.base <;> simp [String.append_assoc]

end Cpp

namespace Accessors

open Cpp Traversal

/-- What accessors write at a step: the definition of the class of a type, or the lines of a constant or an
enumeration of a package. -/
def WritesPart (model : Model) : Step → Generated → Prop
  | .record id, written => ∃ text, classOf model id = some text ∧
      (text.comment = (model.record id).comment ∧ text.name = className model id ∧
        text.base = (model.record id).base.map (typeName model)) ∧ written = text.text
  | .constant id, written => written.declaration =
      docComment "" (model.constant id).comment ++ "enum \x7b " ++ (model.constant id).name ++ " = " ++
        (model.constant id).value.source ++ " \x7d;\n"
  | .enumeration id, written => written.declaration =
      docComment "" (model.enumeration id).comment ++ "enum " ++ (model.enumeration id).name ++
        " \x7b\n" ++ String.join ((enumText model (model.enumeration id)).enumerators.map enumeratorLine) ++
          "\x7d;\n"
  | _, _ => True

section Hooks

variable {model : Model} {header : String}

/-- What a visit writes is the class of the type. -/
theorem visitRecord_ok {id : RecordId} {written : Generated} {state later : Unit}
    (called : ((backend header).visitRecord model id).run.run state = (.ok written, later)) :
    ∃ text, classOf model id = some text ∧ written = text.render := by
  obtain ⟨text, between, made, called⟩ := run_bind_ok called
  cases called
  cases taken : classOf model id with
  | none =>
    rw [taken] at made
    cases made
  | some text =>
    rw [taken] at made
    cases made
    exact ⟨_, rfl, rfl⟩

private theorem classOf_head {id : RecordId} {text : Cpp.Class} (made : classOf model id = some text) :
    text.comment = (model.record id).comment ∧ text.name = className model id ∧
      text.base = (model.record id).base.map (typeName model) := by
  unfold classOf at made
  obtain ⟨_, -, made⟩ := Option.bind_eq_some_iff.mp made
  obtain ⟨_, -, made⟩ := Option.bind_eq_some_iff.mp made
  obtain ⟨_, -, made⟩ := Option.bind_eq_some_iff.mp made
  cases made
  exact ⟨rfl, rfl, rfl⟩

/-- What a hook gives is written as it should be. -/
theorem writesPart {step : Step} {written : Generated} {state later : Unit}
    (called : ((backend header).hook model step).run.run state = (.ok written, later)) :
    WritesPart model step written := by
  cases step with
  | constant id =>
    cases called
    rfl
  | enumeration id =>
    cases called
    have rendered := EnumText.render_eq "" (enumText model (model.enumeration id))
    simp only [String.empty_append, String.append_empty] at rendered
    exact rendered
  | record id =>
    obtain ⟨text, made, rfl⟩ := visitRecord_ok called
    exact ⟨text, made, classOf_head made, text.render_eq⟩
  | _ => trivial

private theorem writesPart_of_parted {steps : List Step} {parts : Parts}
    (parted : Parted model (backend header) steps parts) :
    ∀ part ∈ parts, WritesPart model part.1 part.2 := by
  intro part listed
  by_cases isCall : part.1.isCall
  · obtain ⟨_, _, called⟩ := parted.called part listed isCall
    exact writesPart called
  · obtain ⟨step, written⟩ := part
    cases step <;> trivial

end Hooks

end Accessors

end RecordSchema

/-!
## Classes of a run
-/

namespace RecordSchema

open Model Traversal

/-- What is read item by item comes to the results in the order of the items. -/
theorem Outcome.forall₂_of_mapM {α β : Type} {items : List α} {read : α → Option β} {results : List β}
    (taken : items.mapM read = some results) :
    List.Forall₂ (fun item result => read item = some result) items results := by
  induction items generalizing results with
  | nil =>
    cases taken
    exact .nil
  | cons first rest ih =>
    rw [List.mapM_cons] at taken
    obtain ⟨head, here, taken⟩ := Option.bind_eq_some_iff.mp taken
    obtain ⟨tail, others, taken⟩ := Option.bind_eq_some_iff.mp taken
    cases taken
    exact .cons here (ih others)

/-- What can be told of each result from its item can be picked from the items. -/
theorem Outcome.filterMap_of_forall₂ {α β γ : Type} {related : α → β → Prop} {items : List α}
    {results : List β} (paired : List.Forall₂ related items results) {view : β → Option γ}
    {expected : α → Option γ}
    (each : ∀ item result, related item result → view result = expected item) :
    results.filterMap view = items.filterMap expected := by
  induction paired with
  | nil => rfl
  | cons here _ ih => rw [List.filterMap_cons, List.filterMap_cons, each _ _ here, ih]

theorem Outcome.flatMap_of_forall₂ {α β γ : Type} {related : α → β → Prop} {items : List α}
    {results : List β} (paired : List.Forall₂ related items results) {view : β → List γ}
    {expected : α → List γ} (each : ∀ item result, related item result → view result = expected item) :
    results.flatMap view = items.flatMap expected := by
  induction paired with
  | nil => rfl
  | cons here _ ih => rw [List.flatMap_cons, List.flatMap_cons, each _ _ here, ih]

namespace Accessors

open Cpp

/-- The members of a class by their origin. -/
structure Anatomy (model : Model) (id : RecordId) (text : Cpp.Class) where
  constructors : List (Access × ClassMember)
  methods : List (Access × ClassMember)
  storage : List ClassMember
  name : text.name = className model id
  constructed : List.Forall₂ (fun constructor made => constructorMember model id constructor = some made)
    (model.record id).constructors constructors
  bodied : List.Forall₂ (fun method made => methodMember model id (model.method method) = some made)
    (model.record id).methods methods
  stored : storageMembers model (model.record id) = some storage
  members : text.members =
    (identityMembers (model.record id).identity ++ constantMembers model id (model.record id) ++
        (model.record id).enumerations.map fun entry =>
          ClassMember.enumeration (enumText model (model.enumeration entry.2))).map
        (Access.publicly, ·) ++
      constructors ++ methods ++ (sizeMember model id (model.record id)).map (Access.publicly, ·) ++
      storage.map (Access.privately, ·)

theorem classOf_anatomy {model : Model} {id : RecordId} {text : Cpp.Class}
    (made : classOf model id = some text) : Nonempty (Anatomy model id text) := by
  unfold classOf at made
  obtain ⟨constructors, constructed, made⟩ := Option.bind_eq_some_iff.mp made
  obtain ⟨methods, bodied, made⟩ := Option.bind_eq_some_iff.mp made
  obtain ⟨storage, stored, made⟩ := Option.bind_eq_some_iff.mp made
  cases made
  exact ⟨constructors, methods, storage, rfl, Outcome.forall₂_of_mapM constructed,
    Outcome.forall₂_of_mapM bodied, stored, rfl⟩

section Runs

variable {model : Model} {header : String}

/-- A run that succeeds has written the class of a type that it visits, between what came before and
what comes after. -/
theorem run_class {outer : Option String} {generated : Generated} {last : Unit}
    (ran : (run model (backend header) outer).run.run () = (.ok generated, last)) {id : RecordId}
    (visit : id ∈ visited model) :
    ∃ text before after, classOf model id = some text ∧ generated = before ++ text.render ++ after := by
  obtain ⟨before, written, after, _, _, called, whole⟩ := run_visited ran visit
  obtain ⟨text, made, rfl⟩ := visitRecord_ok called
  exact ⟨text, before, after, made, whole⟩

/-- A run of accessors succeeds unless the class of a type that it visits comes to nothing. -/
theorem run_cases (model : Model) (header : String) (outer : Option String) :
    ((run model (backend header) outer).run.run () = (.error .overflow, ()) ∧
        ∃ id ∈ visited model, classOf model id = none) ∨
      ∃ generated, (run model (backend header) outer).run.run () = (.ok generated, ()) := by
  cases ran : (run model (backend header) outer).run.run () with
  | mk result last =>
    cases result with
    | ok generated => exact .inr ⟨generated, rfl⟩
    | error fault =>
      obtain ⟨step, listed, rfl, id, rfl, none⟩ := run_fails (backend_failsOnly header model) ran
      refine .inl ⟨rfl, id, ?_, none⟩
      rw [← filterMap_steps model true outer]
      exact List.mem_filterMap.mpr ⟨_, listed, rfl⟩

theorem exists_run (header : String) (outer : Option String)
    (made : ∀ id ∈ visited model, (classOf model id).isSome) :
    ∃ generated, (run model (backend header) outer).run.run () = (.ok generated, ()) := by
  rcases run_cases model header outer with ⟨-, id, visit, none⟩ | done
  · have present := made id visit
    rw [none] at present
    cases present
  · exact done

end Runs

end Accessors

end RecordSchema

/-!
## Classes and the classes that they need

A class needs the definition of its base, and of every type that a storage member of it holds. Classes are
written in the order of the declarations, which nothing that they need has a part in: a class comes after
what it needs if and only if the type is declared after it.
-/

namespace RecordSchema.Accessors

open Cpp Model Traversal

/-- The class of a type needs the definition of another's: that of its base, or that of a type which a
stored attribute holds by value. -/
def Needs (model : Model) (id other : RecordId) : Prop :=
  (model.record id).base = some other ∨
    ∃ attr ∈ (model.record id).attributes,
      (model.attr attr).stored = true ∧ (model.attr attr).type = .record other

/-- In the parts of some code, the class of a type comes before that of another. -/
def ClassBefore (model : Model) (parts : Parts) (first second : RecordId) : Prop :=
  ∃ front between back text later,
    classOf model first = some text ∧ classOf model second = some later ∧
      parts = front ++ (.record first, text.render) ::
        (between ++ (.record second, later.render) :: back)

/-- Of the types that are emitted, the class of each comes after those that it needs. -/
def DefinesBeforeUse (model : Model) (parts : Parts) : Prop :=
  ∀ id ∈ model.emittedRecords, ∀ other ∈ model.emittedRecords, Needs model id other →
    ClassBefore model parts other id

/-- Two results of a list that is filtered stand apart in the list. -/
theorem exists_pair_of_sublist_filterMap {α β : Type} {items : List α} {view : α → Option β}
    {first second : β} (pair : [first, second].Sublist (items.filterMap view)) :
    ∃ front item between other back, items = front ++ item :: (between ++ other :: back) ∧
      view item = some first ∧ view other = some second := by
  induction items with
  | nil => cases pair
  | cons head rest ih =>
    have later : [first, second].Sublist (rest.filterMap view) →
        ∃ front item between other back, head :: rest = front ++ item :: (between ++ other :: back) ∧
          view item = some first ∧ view other = some second := by
      intro pair
      obtain ⟨front, item, between, other, back, rfl, views⟩ := ih pair
      exact ⟨head :: front, item, between, other, back, rfl, views⟩
    rw [List.filterMap_cons] at pair
    split at pair
    · exact later pair
    · rename_i value here
      rcases List.sublist_cons_iff.mp pair with pair | ⟨tail, same, single⟩
      · exact later pair
      · cases same
        obtain ⟨other, listed, there⟩ := List.mem_filterMap.mp (List.singleton_sublist.mp single)
        obtain ⟨between, back, rfl⟩ := List.append_of_mem listed
        exact ⟨[], head, between, other, back, rfl, here, there⟩

/-- In the parts of a run, classes come in the order of the visits. -/
theorem classBefore_iff {model : Model} {header : String} {outer : Option String} {parts : Parts}
    (parted : Parted model (backend header) (steps model true outer) parts)
    {first second : RecordId} :
    ClassBefore model parts first second ↔ [first, second].Sublist (visited model) := by
  rw [← filterMap_steps model true outer, ← parted.steps, List.filterMap_map]
  constructor
  · rintro ⟨front, between, back, text, later, -, -, rfl⟩
    have pair : [(Step.record first, text.render), (Step.record second, later.render)].Sublist
        (front ++ (.record first, text.render) ::
          (between ++ (.record second, later.render) :: back)) :=
      .trans (.cons_cons _ (.trans (.cons_cons _ (List.nil_sublist back))
        (List.sublist_append_right between _))) (List.sublist_append_right front _)
    exact pair.filterMap (Step.visited? ∘ Prod.fst)
  · intro pair
    obtain ⟨front, ⟨step, written⟩, between, ⟨other, writtenToo⟩, back, rfl, here, there⟩ :=
      exists_pair_of_sublist_filterMap pair
    have record : ∀ {step : Step} {id : RecordId}, step.visited? = some id → step = .record id := by
      rintro ⟨⟩ id ⟨⟩
      rfl
    cases record here
    cases record there
    obtain ⟨_, _, called⟩ := parted.called (.record first, written) (by simp) rfl
    obtain ⟨_, _, calledToo⟩ := parted.called (.record second, writtenToo) (by simp) rfl
    obtain ⟨text, made, rfl⟩ := visitRecord_ok called
    obtain ⟨later, madeToo, rfl⟩ := visitRecord_ok calledToo
    exact ⟨front, between, back, text, later, made, madeToo, rfl⟩

section Built

variable {units : List SourceUnit} {built : Built}

private theorem build_mem_emittedRecords (accepted : build units = .ok built) {id : RecordId} :
    id ∈ built.model.emittedRecords ↔ id ∈ visited built.model := by
  rw [build_mem_visited accepted, emittedRecords, List.mem_filter, Layout.mem_recordIds]

/-- Accessors for a built model fail only where a number of a class is no word. Otherwise their code is
made of parts, the definitions of classes among them, in which the classes of the types that are emitted
come in the order of the declarations. So each comes after those that it needs if and only if every type is
declared after those that it needs. -/
theorem build_classOrder (accepted : build units = .ok built) (header : String)
    (outer : Option String) :
    ((run built.model (backend header) outer).run.run () = (.error .overflow, ()) ∧
        ∃ id ∈ built.model.emittedRecords, ClassExceeds built.model id) ∨
      ∃ generated parts,
        (run built.model (backend header) outer).run.run () = (.ok generated, ()) ∧
        Parted built.model (backend header) (steps built.model true outer) parts ∧
        generated = parts.joined ∧
        (∀ part ∈ parts, WritesPart built.model part.1 part.2) ∧
        (∀ first ∈ built.model.emittedRecords, ∀ second ∈ built.model.emittedRecords,
          ClassBefore built.model parts first second ↔ built.model.DeclaredBefore first second) ∧
        (DefinesBeforeUse built.model parts ↔
          ∀ id ∈ built.model.emittedRecords, ∀ other ∈ built.model.emittedRecords,
            Needs built.model id other → built.model.DeclaredBefore other id) := by
  obtain ⟨stages⟩ := build_stages accepted
  rcases run_cases built.model header outer with ⟨failed, id, visit, none⟩ | ⟨generated, ran⟩
  · refine .inl ⟨failed, id, (build_mem_emittedRecords accepted).mpr visit, ?_⟩
    exact (stages.classOf_eq_none_iff ((build_mem_visited accepted id).mp visit).1).mp none
  · obtain ⟨parts, parted, whole⟩ := run_parts ran
    have order : ∀ first ∈ built.model.emittedRecords, ∀ second ∈ built.model.emittedRecords,
        ClassBefore built.model parts first second ↔ built.model.DeclaredBefore first second := by
      intro first emitted second emittedToo
      rw [classBefore_iff parted]
      exact build_pair_visited_iff accepted ((build_mem_emittedRecords accepted).mp emitted)
        ((build_mem_emittedRecords accepted).mp emittedToo)
    refine .inr ⟨generated, parts, ran, parted, whole, writesPart_of_parted parted, order, ?_⟩
    refine forall₂_congr fun id emitted => forall₂_congr fun other emittedToo => ?_
    rw [order other emittedToo id emitted]

end Built

/-- A type that is declared before its base, and one that is declared after a type that it holds. -/
def forwardUnits : List SourceUnit :=
  let base : Declaration.Record :=
    { name := "Base", attributes := [{ name := "head", typeName := some "uint32_t" }] }
  let derived : Declaration.Record :=
    { name := "Derived", base := some "Base"
      attributes := [{ name := "tail", typeName := some "uint32_t" }] }
  let holder : Declaration.Record :=
    { name := "Holder", attributes := [{ name := "part", typeName := some "Base" }] }
  [{ document := { packages := [.mk "Sample" none [] [] [] [] [derived, base, holder]] } }]

theorem build_classOrder_sample : ∃ built parts, build forwardUnits = .ok built ∧
    Parted built.model (backend defaultHeader) (steps built.model true none) parts ∧
    Needs built.model ⟨2⟩ ⟨1⟩ ∧ ClassBefore built.model parts ⟨1⟩ ⟨2⟩ := by
  have computed : ∃ built, build forwardUnits = .ok built ∧
      (∀ id ∈ visited built.model, (classOf built.model id).isSome) ∧
      ⟨1⟩ ∈ built.model.emittedRecords ∧ ⟨2⟩ ∈ built.model.emittedRecords ∧
      [Member.record ⟨1⟩, .record ⟨2⟩].Sublist (built.model.contents (some (.package ⟨0⟩))) ∧
      ∃ attr ∈ (built.model.record ⟨2⟩).attributes,
        (built.model.attr attr).stored = true ∧ (built.model.attr attr).type = .record ⟨1⟩ :=
    exists_built (by decide +kernel)
  obtain ⟨built, accepted, made, base, holder, listed, held⟩ := computed
  rcases build_classOrder accepted defaultHeader none with
    ⟨failed, -⟩ | ⟨generated, parts, -, parted, -, -, order, -⟩
  · obtain ⟨generated, ran⟩ := exists_run defaultHeader none made
    rw [ran] at failed
    cases failed
  · refine ⟨built, parts, accepted, parted, .inr held, (order ⟨1⟩ base ⟨2⟩ holder).mpr ?_⟩
    exact ⟨_, _, _, listed, List.mem_cons_self, List.mem_cons_self⟩

/-- The class of a type that is declared before its base stands before that of the base. -/
theorem build_not_definesBeforeUse : ∃ built generated parts, build forwardUnits = .ok built ∧
    (run built.model (backend defaultHeader) none).run.run () = (.ok generated, ()) ∧
    Parted built.model (backend defaultHeader) (steps built.model true none) parts ∧
    generated = parts.joined ∧ (built.model.record ⟨0⟩).base = some ⟨1⟩ ∧
    ¬ DefinesBeforeUse built.model parts := by
  have computed : ∃ built, build forwardUnits = .ok built ∧
      (∀ id ∈ visited built.model, (classOf built.model id).isSome) ∧
      ⟨0⟩ ∈ built.model.emittedRecords ∧ ⟨1⟩ ∈ built.model.emittedRecords ∧
      (built.model.record ⟨0⟩).base = some ⟨1⟩ ∧ ¬ [⟨1⟩, ⟨0⟩].Sublist (visited built.model) :=
    exists_built (by decide +kernel)
  obtain ⟨built, accepted, made, derived, base, inherits, later⟩ := computed
  obtain ⟨generated, ran⟩ := exists_run defaultHeader none made
  obtain ⟨parts, parted, whole⟩ := run_parts ran
  refine ⟨built, generated, parts, accepted, ran, parted, whole, inherits, fun all => later ?_⟩
  exact (classBefore_iff parted).mp (all ⟨0⟩ derived ⟨1⟩ base (.inl inherits))

end RecordSchema.Accessors
