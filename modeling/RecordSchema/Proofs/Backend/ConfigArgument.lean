import RecordSchema.Backend.Accessors
import RecordSchema.Proofs.Backend.Addressing
import RecordSchema.Proofs.Expr.References
import RecordSchema.Proofs.Expr.Requests

/-!
# Use of the config argument

A member function that depends on a config object is a template that takes one. The flag that says so
is raised by what an expression mentions, and attributes are looked up before methods; the text of
the expression looks methods up for calls. The two agree unless an attribute that needs no config
object hides a method that does. Constructors are no templates, whatever they mention.
-/

set_option autoImplicit false

namespace RecordSchema

namespace Accessors

open Cpp

/-- The spelling of operands in the class of a record type with another name for the config
argument. -/
def spellingWith (argument : String) (model : Model) (owner : RecordId) : Operand.Spelling where
  member name :=
    match model.findAttribute? owner name with
    | some id =>
      let attr := model.attr id
      if attr.stored then thisObject ++ attr.fieldName
      else
        thisObject ++ model.accessorName attr ++ "(" ++
          (if attr.configDependent then argument else "") ++ ")"
    | none => thisObject ++ name
  call name :=
    (thisObject ++ name, if callNeedsConfig model owner name then some argument else none)
  static record name := typeName model record ++ "::" ++ name
  config _ name := argument ++ "." ++ name

/-- Whether the text for the value of an attribute passes the config object on. -/
def valueUsesConfig (attr : Attribute) : Bool :=
  !attr.stored && attr.configDependent

/-- Whether the text for a request contains the config argument. -/
def answersWithConfig (model : Model) (owner : RecordId) : Request → Bool
  | .member name => (model.findAttribute? owner name).any fun id => valueUsesConfig (model.attr id)
  | .call name => callNeedsConfig model owner name
  | .static _ _ => false
  | .config _ _ => true

/-- Whether the text of an expression contains the config argument. -/
def usesConfig (model : Model) (owner : RecordId) (expr : Expr) : Bool :=
  expr.requests.any (answersWithConfig model owner)

/-- The expressions that are written out in the body of a method. -/
def bodyExprs (model : Model) (method : Method) : List Expr :=
  match method.body with
  | .attr id => if (model.attr id).stored then [] else (elementOffset (model.attr id)).toList
  | .expressions bodies => (pickBody? bodies).toList
  | .code bodies => (pickBody? bodies).toList
  | .bitfield _ => []
  | .external => []

/-- The attributes whose values are taken in the body of a method. -/
def bodyValues (model : Model) (method : Method) : List Attribute :=
  match method.body with
  | .bitfield id => [model.attr (model.bitfield id).attr]
  | _ => []

/-- Whether the body of a method contains the config argument. -/
def bodyUsesConfig (model : Model) (owner : RecordId) (method : Method) : Bool :=
  (bodyExprs model method).any (usesConfig model owner) ||
    (bodyValues model method).any valueUsesConfig

/-- The expressions that are written out in the definition of a constructor. -/
def constructorExprs (constructor : Constructor) : List Expr :=
  constructor.arguments.filterMap (fun argument => argument.destination.bind fun _ => argument.expression) ++
    constructor.initializers.map (·.expression)

/-- Whether a constructor is written with a body that is not empty. -/
def isDefined (model : Model) (constructor : Constructor) : Bool :=
  !constructor.auto && isDefinable model constructor

/-- No member of a class uses the config argument unless it is a template. -/
structure ConfigFree (model : Model) (id : RecordId) : Prop where
  methods : ∀ method ∈ (model.record id).methods, (model.method method).configDependent = false →
    bodyUsesConfig model id (model.method method) = false
  size : (model.record id).noSizeof = false → (model.record id).configDependent = false →
    usesConfig model id (model.record id).size = false
  constructors : ∀ constructor ∈ (model.record id).constructors, isDefined model constructor →
    ∀ expr ∈ constructorExprs constructor, usesConfig model id expr = false

/-- No call in an expression goes to a flagged method that shares its name with an attribute. -/
def CallsPlainly (model : Model) (owner : RecordId) (expr : Expr) : Prop :=
  ∀ name, .call name ∈ expr.requests → (model.findAttribute? owner name).isSome →
    callNeedsConfig model owner name = false

/-- An expression neither reads the config object nor a flagged attribute nor calls a flagged
method. -/
structure Independent (model : Model) (owner : RecordId) (expr : Expr) : Prop where
  config : expr.hasConfig = false
  reads : ∀ name, .member name ∈ expr.requests → ∀ id, model.findAttribute? owner name = some id →
    (model.attr id).configDependent = false
  calls : ∀ name, .call name ∈ expr.requests → callNeedsConfig model owner name = false

/-- What a class without misplaced config arguments comes down to. -/
structure Separated (model : Model) (id : RecordId) : Prop where
  methods : ∀ method ∈ (model.record id).methods, (model.method method).configDependent = false →
    ∀ expr ∈ bodyExprs model (model.method method), CallsPlainly model id expr
  size : (model.record id).noSizeof = false → (model.record id).configDependent = false →
    CallsPlainly model id (model.record id).size
  constructors : ∀ constructor ∈ (model.record id).constructors, isDefined model constructor →
    ∀ expr ∈ constructorExprs constructor, Independent model id expr

/-!
## The text does contain the argument
-/

section Texts

variable {model : Model} {owner : RecordId}

private theorem sameAt_spellingWith {request : Request}
    (plain : answersWithConfig model owner request = false) (argument : String) :
    (spellingWith argument model owner).SameAt (spelling model owner) request := by
  cases request with
  | member name =>
    change (spellingWith argument model owner).member name = (spelling model owner).member name
    simp only [spellingWith, spelling, attributeValue]
    cases found : model.findAttribute? owner name with
    | none => rfl
    | some id =>
      simp only [answersWithConfig, found, Option.any_some, valueUsesConfig, Bool.and_eq_false_iff,
        Bool.not_eq_false'] at plain
      rcases plain with stored | unflagged
      · simp only [stored, if_true]
      · simp only [unflagged, Bool.false_eq_true, if_false]
  | call name =>
    have unneeded : callNeedsConfig model owner name = false := plain
    simp [Operand.Spelling.SameAt, spellingWith, spelling, unneeded]
  | static => rfl
  | config => cases plain

/-- A text for a request that contains the config argument is not shorter than the argument. -/
theorem length_le_answerLength {request : Request}
    (answered : answersWithConfig model owner request = true) (argument : String) :
    argument.length ≤ (spellingWith argument model owner).answerLength request := by
  cases request with
  | member name =>
    obtain ⟨id, found, flagged⟩ := (Option.any_eq_true _ _).mp answered
    obtain ⟨unstored, flag⟩ := Bool.and_eq_true_iff.mp flagged
    have plain : (model.attr id).stored = false := by simpa using unstored
    simp only [Operand.Spelling.answerLength, spellingWith, found, plain, flag, Bool.false_eq_true,
      if_false, if_true, String.length_append]
    omega
  | call name =>
    have implicit : ((spellingWith argument model owner).call name).2 = some argument := if_pos answered
    rw [Operand.Spelling.answerLength, implicit]
    exact Nat.le_add_left _ _
  | static => cases answered
  | config =>
    simp only [Operand.Spelling.answerLength, spellingWith, String.length_append]
    omega

/-- An expression uses the config argument if and only if its text depends on what the argument is
called. -/
theorem usesConfig_iff {expr : Expr} : usesConfig model owner expr = true ↔
    ∃ argument, expr.render (spellingWith argument model owner) ≠ expr.render (spelling model owner) := by
  constructor
  · intro uses
    obtain ⟨request, asked, answered⟩ := List.any_eq_true.mp uses
    exact Expr.exists_render_ne asked (fun argument => spellingWith argument model owner)
      (length_le_answerLength answered) _
  · rintro ⟨argument, different⟩
    by_cases uses : usesConfig model owner expr = true
    · exact uses
    · refine absurd (Expr.render_congr fun request asked => ?_) different
      exact sameAt_spellingWith
        (Bool.eq_false_iff.mpr (List.any_eq_false.mp (Bool.eq_false_iff.mpr uses) request asked)) argument

end Texts

/-!
## What flags say of texts
-/

section Flags

open Layout

variable {model : Model} {owner : RecordId} {expr : Expr}

private theorem usesConfig_eq_false_iff : usesConfig model owner expr = false ↔
    ∀ request ∈ expr.requests, answersWithConfig model owner request = false := by
  simp [usesConfig]

private theorem callNeedsConfig_of_unnamed {name : String}
    (unnamed : model.findAttribute? owner name = none) :
    callNeedsConfig model owner name = memberDepends model owner name := by
  cases found : model.findMethod? owner name <;>
    simp only [memberDepends, unnamed, callNeedsConfig, found]

/-- What raises no flag is answered with the argument only where an attribute hides a method. -/
theorem answersWithConfig_iff {request : Request}
    (plain : operandDepends model owner request.operand = false) :
    answersWithConfig model owner request = true ↔ ∃ name, request = .call name ∧
      (model.findAttribute? owner name).isSome ∧ callNeedsConfig model owner name = true := by
  cases request with
  | member name =>
    have unflagged : memberDepends model owner name = false := plain
    cases found : model.findAttribute? owner name with
    | none => simp [answersWithConfig, found]
    | some id =>
      rw [memberDepends, found] at unflagged
      simp [answersWithConfig, found, valueUsesConfig, unflagged]
  | call name =>
    have unflagged : memberDepends model owner name = false := plain
    cases found : model.findAttribute? owner name with
    | none =>
      rw [← callNeedsConfig_of_unnamed found] at unflagged
      simp [answersWithConfig, found, unflagged]
    | some id => simp [answersWithConfig, found]
  | static => simp [answersWithConfig]
  | config => cases plain

private theorem usesConfig_of_not_depends (plain : exprDepends model owner expr = false) :
    usesConfig model owner expr = false ↔ CallsPlainly model owner expr := by
  rw [usesConfig_eq_false_iff]
  constructor
  · intro free name asked _
    exact free (.call name) asked
  · intro plainly request asked
    refine Bool.eq_false_iff.mpr fun answered => ?_
    have raises := exprDepends_eq_false_iff.mp plain _ (Expr.operand_of_mem_requests asked)
    obtain ⟨name, rfl, named, needed⟩ := (answersWithConfig_iff raises).mp answered
    rw [plainly name asked named] at needed
    cases needed

private theorem usesConfig_iff_independent (storedUnflagged : StoredUnflagged model) :
    usesConfig model owner expr = false ↔ Independent model owner expr := by
  rw [usesConfig_eq_false_iff]
  constructor
  · intro free
    constructor
    case config =>
      refine List.any_eq_false.mpr fun part mentioned reads => ?_
      cases part with
      | config record name => cases free _ (Expr.config_mem_requests mentioned)
      | member | static | text => cases reads
    case reads =>
      intro name asked id found
      have plain := free _ asked
      simp only [answersWithConfig, found, Option.any_some, valueUsesConfig, Bool.and_eq_false_iff,
        Bool.not_eq_false'] at plain
      exact plain.elim (storedUnflagged id) fun unflagged => unflagged
    case calls => exact fun name asked => free _ asked
  · intro independent request asked
    cases request with
    | member name =>
      cases found : model.findAttribute? owner name with
      | none => simp [answersWithConfig, found]
      | some id =>
        simp [answersWithConfig, found, valueUsesConfig, independent.reads name asked id found]
    | call name => exact independent.calls name asked
    | static => rfl
    | config record name =>
      have mentioned := List.any_eq_false.mp independent.config _ (Expr.operand_of_mem_requests asked)
      exact absurd rfl mentioned

/-! The expressions in the body of a method raise its flag if they raise any. -/

private theorem addStrides_operands {good : Operand → Prop} {elementSize offset result : Expr}
    {position : Nat} {dimensions : List Dimension}
    (computed : addStrides elementSize position offset dimensions = some result)
    (text : ∀ source, good (.text source)) (offsetGood : ∀ part ∈ offset.operands, good part)
    (sizeGood : ∀ part ∈ elementSize.operands, good part)
    (countsGood : ∀ count ∈ dimensions.filterMap Dimension.count?, ∀ part ∈ count.operands, good part) :
    ∀ part ∈ result.operands, good part := by
  induction dimensions generalizing position offset with
  | nil =>
    cases computed
    exact offsetGood
  | cons dimension rest ih =>
    rw [addStrides] at computed
    obtain ⟨step, strided, computed⟩ := Option.bind_eq_some_iff.mp computed
    obtain ⟨distance, multiplied, computed⟩ := Option.bind_eq_some_iff.mp computed
    obtain ⟨reached, added, computed⟩ := Option.bind_eq_some_iff.mp computed
    have countsRest : ∀ count ∈ rest.filterMap Dimension.count?, ∀ part ∈ count.operands, good part :=
      fun count member => countsGood count (filterMap_count_tail member)
    have stepGood : ∀ part ∈ step.operands, good part := by
      intro part mentioned
      rcases List.mem_append.mp (Expr.operands_foldlM_product strided mentioned) with size | counts
      · exact sizeGood part size
      · obtain ⟨count, member, held⟩ := List.mem_flatMap.mp counts
        exact countsRest count member part held
    refine ih computed ?_ countsRest
    intro part mentioned
    rcases List.mem_append.mp (Expr.operands_sum added mentioned) with before | factor
    · exact offsetGood part before
    · rcases List.mem_append.mp (Expr.operands_product multiplied factor) with index | stride
      · cases List.mem_singleton.mp index
        exact text _
      · exact stepGood part stride

private theorem mem_of_pickBody? {bodies : List (String × Expr)} {body : Expr}
    (picked : pickBody? bodies = some body) : body ∈ bodies.map (·.2) := by
  obtain ⟨language, _, found⟩ := List.exists_of_findSome?_eq_some picked
  exact List.mem_map.mpr ⟨_, mem_of_lookup found, rfl⟩

private theorem elementOffset_not_depends {attr : Attribute} (plain : attributeDepends model attr = false)
    {address : Expr} (computed : elementOffset attr = some address) :
    exprDepends model attr.owner address = false := by
  simp only [attributeDepends, Bool.or_eq_false_iff, List.any_eq_false, Bool.not_eq_true] at plain
  obtain ⟨⟨⟨counts, _⟩, offset⟩, size⟩ := plain
  refine exprDepends_eq_false_iff.mpr (addStrides_operands computed (fun _ => rfl)
    (exprDepends_eq_false_iff.mp offset) (exprDepends_eq_false_iff.mp size) ?_)
  exact fun count member => exprDepends_eq_false_iff.mp (counts count member)

variable {id : MethodId}

/-- A method without flag mentions nothing that would raise it. -/
theorem bodyExprs_not_depends (settled : Settled model) (reader : ∀ attr,
      (model.method id).body = .attr attr → (model.attr attr).owner = (model.method id).owner)
    (unflagged : (model.method id).configDependent = false) :
    ∀ expr ∈ bodyExprs model (model.method id),
      exprDepends model (model.method id).owner expr = false := by
  have plain : methodDepends model (model.method id) = false := by
    refine Bool.eq_false_iff.mpr fun depends => ?_
    rw [settled.method id depends] at unflagged
    cases unflagged
  intro expr written
  unfold bodyExprs at written
  unfold methodDepends at plain
  cases body : (model.method id).body with
  | attr attr =>
    rw [body] at written plain
    dsimp only at written plain
    split at written
    · cases written
    · have plainAttr : attributeDepends model (model.attr attr) = false := by
        refine Bool.eq_false_iff.mpr fun depends => ?_
        rw [settled.attr attr depends] at plain
        cases plain
      rw [← reader attr body]
      exact elementOffset_not_depends plainAttr (Option.mem_toList.mp written)
  | expressions bodies | code bodies =>
    rw [body] at written plain
    exact Bool.eq_false_iff.mpr (List.any_eq_false.mp plain expr
      (mem_of_pickBody? (Option.mem_toList.mp written)))
  | bitfield | external =>
    rw [body] at written
    cases written

/-- A method without flag takes no flagged values. -/
theorem bodyValues_unflagged (settled : Settled model)
    (unflagged : (model.method id).configDependent = false) :
    (bodyValues model (model.method id)).any valueUsesConfig = false := by
  unfold bodyValues
  split
  · rename_i bitfield body
    have plain : (model.attr (model.bitfield bitfield).attr).configDependent = false := by
      refine Bool.eq_false_iff.mpr fun flagged => ?_
      have depends : methodDepends model (model.method id) = true := by
        rw [methodDepends, body]
        exact flagged
      rw [settled.method id depends] at unflagged
      cases unflagged
    simp [valueUsesConfig, plain]
  · rfl

private theorem bodyUsesConfig_eq_false_iff (settled : Settled model) (reader : ∀ attr,
      (model.method id).body = .attr attr → (model.attr attr).owner = (model.method id).owner)
    (unflagged : (model.method id).configDependent = false) :
    bodyUsesConfig model (model.method id).owner (model.method id) = false ↔
      ∀ expr ∈ bodyExprs model (model.method id),
        CallsPlainly model (model.method id).owner expr := by
  have plain := bodyExprs_not_depends settled reader unflagged
  rw [bodyUsesConfig, bodyValues_unflagged settled unflagged, Bool.or_false, List.any_eq_false]
  constructor
  · intro free expr written
    exact (usesConfig_of_not_depends (plain expr written)).mp (Bool.eq_false_iff.mpr (free expr written))
  · intro plainly expr written
    exact Bool.eq_false_iff.mp ((usesConfig_of_not_depends (plain expr written)).mpr (plainly expr written))

private theorem configFree_iff {record : RecordId} (sound : model.Sound) (settled : Settled model)
    (storedUnflagged : StoredUnflagged model) :
    ConfigFree model record ↔ Separated model record := by
  have methods : ∀ method ∈ (model.record record).methods,
      (model.method method).configDependent = false →
      (bodyUsesConfig model record (model.method method) = false ↔
        ∀ expr ∈ bodyExprs model (model.method method), CallsPlainly model record expr) := by
    intro method listed unflagged
    have inside := sound.closed.recordMethods record method listed
    have owner : (model.method method).owner = record := (sound.methods.mem_iff inside).mp listed
    have same := bodyUsesConfig_eq_false_iff settled (sound.reader method inside) unflagged
    rwa [owner] at same
  have size : (model.record record).configDependent = false →
      (usesConfig model record (model.record record).size = false ↔
        CallsPlainly model record (model.record record).size) := by
    intro unflagged
    refine usesConfig_of_not_depends (Bool.eq_false_iff.mpr fun depends => ?_)
    rw [settled.record record depends] at unflagged
    cases unflagged
  constructor
  · intro free
    constructor
    case methods =>
      exact fun method listed unflagged =>
        (methods method listed unflagged).mp (free.methods method listed unflagged)
    case size => exact fun shown unflagged => (size unflagged).mp (free.size shown unflagged)
    case constructors =>
      exact fun constructor listed defined expr written =>
        (usesConfig_iff_independent storedUnflagged).mp
          (free.constructors constructor listed defined expr written)
  · intro separated
    constructor
    case methods =>
      exact fun method listed unflagged =>
        (methods method listed unflagged).mpr (separated.methods method listed unflagged)
    case size => exact fun shown unflagged => (size unflagged).mpr (separated.size shown unflagged)
    case constructors =>
      exact fun constructor listed defined expr written =>
        (usesConfig_iff_independent storedUnflagged).mpr
          (separated.constructors constructor listed defined expr written)

end Flags

/-- Where the classes of a built model use the config argument outside of templates: in calls of
methods that attributes hide, and in constructors that depend on the config object. An expression uses the
argument if its text depends on what the argument is called. -/
theorem build_configFree_iff {units : List SourceUnit} {built : Built}
    (accepted : build units = .ok built) (id : RecordId) :
    (ConfigFree built.model id ↔ Separated built.model id) ∧
      ∀ expr : Expr, usesConfig built.model id expr = true ↔ ∃ argument,
        expr.render (spellingWith argument built.model id) ≠ expr.render (spelling built.model id) := by
  obtain ⟨stages⟩ := build_stages accepted
  exact ⟨configFree_iff stages.sound stages.settled stages.storedUnflagged, fun _ => usesConfig_iff⟩

/-- Three types with the same config type. In the first an attribute hides a method that reads the
config object from another method, in the second a constructor reads it, and in the third only
templates do. -/
def configUnits : List SourceUnit :=
  let count : String := "\x7bxtc-config\x7d.n()"
  let config : Declaration.Record :=
    { name := "Config", attributes := [{ name := "n", typeName := some "uint32_t" }] }
  let hidden : Declaration.Record :=
    { name := "Hidden", configs := ["Config"]
      attributes := [{ name := "x", typeName := some "uint32_t", accessor := some "value" }]
      methods := [
        { name := "x", typeName := some "uint32_t", expressions := [("Any", count)] },
        { name := "y", typeName := some "uint32_t",
          expressions := [("Any", "\x7bself\x7d.x()")] }] }
  let constructed : Declaration.Record :=
    { name := "Constructed", configs := ["Config"]
      attributes := [{ name := "a", typeName := some "uint32_t" }]
      constructors := [{ initializers := [{ destination := "a", expression := count }] }] }
  let separated : Declaration.Record :=
    { name := "Separated", configs := ["Config"]
      attributes := [{ name := "a", typeName := some "uint32_t" },
        { name := "list", typeName := some "uint16_t", shape := [count] }]
      methods := [
        { name := "twice", typeName := some "uint32_t",
          expressions := [("Any", "\x7bself\x7d.a()*2")] }] }
  [{ document := { packages :=
      [.mk "Sample" none [] [] [] [] [config, hidden, constructed, separated]] } }]

theorem build_separated_sample : ∃ built, build configUnits = .ok built ∧
    (built.model.record ⟨3⟩).configDependent = true ∧ Separated built.model ⟨3⟩ := by
  have computed : ∃ built, build configUnits = .ok built ∧
      (built.model.record ⟨3⟩).configDependent = true ∧
      (∀ method ∈ (built.model.record ⟨3⟩).methods,
        (built.model.method method).configDependent = false →
        bodyUsesConfig built.model ⟨3⟩ (built.model.method method) = false) ∧
      (built.model.record ⟨3⟩).constructors.isEmpty :=
    exists_built (by decide +kernel)
  obtain ⟨built, accepted, flagged, methods, empty⟩ := computed
  refine ⟨built, accepted, flagged, (build_configFree_iff accepted ⟨3⟩).1.mp ?_⟩
  constructor
  case methods => exact methods
  case size =>
    intro _ unflagged
    rw [flagged] at unflagged
    cases unflagged
  case constructors =>
    rw [List.isEmpty_iff.mp empty]
    intro constructor listed
    cases listed

/-- Not all classes of built models are free of misplaced config arguments. -/
theorem build_not_configFree : ∃ built, build configUnits = .ok built ∧
    (⟨1⟩ ∈ built.model.emittedRecords ∧ ¬ ConfigFree built.model ⟨1⟩) ∧
    ⟨2⟩ ∈ built.model.emittedRecords ∧ ¬ ConfigFree built.model ⟨2⟩ := by
  have computed : ∃ built, build configUnits = .ok built ∧
      (⟨1⟩ ∈ built.model.emittedRecords ∧ ∃ method ∈ (built.model.record ⟨1⟩).methods,
        (built.model.method method).configDependent = false ∧
        bodyUsesConfig built.model ⟨1⟩ (built.model.method method) = true) ∧
      ⟨2⟩ ∈ built.model.emittedRecords ∧
        ∃ constructor ∈ (built.model.record ⟨2⟩).constructors,
          isDefined built.model constructor = true ∧
          ∃ expr ∈ constructorExprs constructor, usesConfig built.model ⟨2⟩ expr = true :=
    exists_built (by decide +kernel)
  obtain ⟨built, accepted, ⟨emitted, method, listed, unflagged, uses⟩, emittedToo, constructor,
    listedToo, defined, expr, written, usesToo⟩ := computed
  refine ⟨built, accepted, ⟨emitted, fun free => ?_⟩, emittedToo, fun free => ?_⟩
  · rw [free.methods method listed unflagged] at uses
    cases uses
  · rw [free.constructors constructor listedToo defined expr written] at usesToo
    cases usesToo

end Accessors

end RecordSchema
