import Mathlib.Logic.Equiv.Defs
import RecordSchema.Model
import RecordSchema.Proofs.Expr.Placeholders
import RecordSchema.Proofs.Model.Members

/-!
# Renaming identifiers

Identifiers depend on the order in which declarations are met. A renaming exchanges the identifiers of
one order for those of another. What is computed of expressions goes along with it, and no text that is
written shows it. The identifiers of attributes, bitfields and methods depend on their order too: the view
of a record type shows them without, in their order in the type, with the names of the accessors and of the
attributes that they refer to.
-/

set_option autoImplicit false

namespace RecordSchema

structure Renaming where
  package : Equiv.Perm PackageId
  record : Equiv.Perm RecordId
  enumeration : Equiv.Perm EnumId
  constant : Equiv.Perm ConstantId

/-!
## Identifiers and expressions
-/

section Identifiers

variable (ρ : Renaming)

def Member.rename : Member → Member
  | package id => package (ρ.package id)
  | record id => record (ρ.record id)
  | enumeration id => enumeration (ρ.enumeration id)
  | constant id => constant (ρ.constant id)

def Scope.rename : Scope → Scope
  | package id => package (ρ.package id)
  | record id => record (ρ.record id)

def TypeRef.rename : TypeRef → TypeRef
  | record id => record (ρ.record id)
  | enumeration id => enumeration (ρ.enumeration id)
  | builtin type => builtin type

def Operand.rename : Operand → Operand
  | member name => member name
  | static record name => static (ρ.record record) name
  | config record name => config (ρ.record record) name
  | text source => text source

def Expr.rename : Expr → Expr
  | const value => const value
  | operand part => operand (part.rename ρ)
  | concat parts => concat (parts.map (Operand.rename ρ))
  | add left right => add left.rename right.rename
  | mul left right => mul left.rename right.rename

def Dimension.rename : Dimension → Dimension
  | bounded count => bounded (count.rename ρ)
  | unbounded => unbounded

theorem Dimension.counts_rename (shape : List Dimension) :
    (shape.map (Dimension.rename ρ)).filterMap Dimension.count? =
      (shape.filterMap Dimension.count?).map (Expr.rename ρ) := by
  rw [List.filterMap_map, List.map_filterMap]
  congr 1
  funext dimension
  cases dimension <;> rfl

theorem Member.rename_injective : Function.Injective (Member.rename ρ) := by
  intro one other same
  cases one <;> cases other <;> simp_all [rename]

theorem Member.rename_surjective : Function.Surjective (Member.rename ρ) := by
  rintro (id | id | id | id)
  · exact ⟨package (ρ.package.symm id), by simp [rename]⟩
  · exact ⟨record (ρ.record.symm id), by simp [rename]⟩
  · exact ⟨enumeration (ρ.enumeration.symm id), by simp [rename]⟩
  · exact ⟨constant (ρ.constant.symm id), by simp [rename]⟩

theorem Scope.rename_injective : Function.Injective (Scope.rename ρ) := by
  intro one other same
  cases one <;> cases other <;> simp_all [rename]

namespace Expr

@[simp] theorem rename_const (value : Int) : (const value).rename ρ = const value := rfl

@[simp] theorem rename_default : (default : Expr).rename ρ = default := rfl

@[simp] theorem constant?_rename (expr : Expr) : (expr.rename ρ).constant? = expr.constant? := by
  cases expr <;> rfl

@[simp] theorem isConstant_rename (expr : Expr) : (expr.rename ρ).isConstant = expr.isConstant := by
  rw [isConstant, constant?_rename, isConstant]

private theorem rename_eq_const_iff {expr : Expr} {value : Int} :
    expr.rename ρ = const value ↔ expr = const value := by
  rw [← constant?_eq_some_iff, constant?_rename, constant?_eq_some_iff]

private theorem operands_rename (expr : Expr) :
    (expr.rename ρ).operands = expr.operands.map (Operand.rename ρ) := by
  induction expr with
  | const _ | operand _ | concat _ => rfl
  | add _ _ left right | mul _ _ left right =>
    rw [rename, operands, operands, List.map_append, left, right]

@[simp] theorem members_rename (expr : Expr) : (expr.rename ρ).members = expr.members := by
  rw [members, operands_rename, List.filterMap_map, members]
  congr 1
  funext part
  cases part <;> rfl

@[simp] theorem hasConfig_rename (expr : Expr) : (expr.rename ρ).hasConfig = expr.hasConfig := by
  rw [hasConfig, operands_rename, List.any_map, hasConfig]
  congr 1
  funext part
  cases part <;> rfl

@[simp] theorem source_rename (expr : Expr) : (expr.rename ρ).source = expr.source := by
  have parts : ∀ part : Operand,
      (part.rename ρ).render Operand.Spelling.source = part.render Operand.Spelling.source := by
    intro part
    cases part <;> rfl
  have simple : ∀ expr : Expr, (expr.rename ρ).isSimpleFactor = expr.isSimpleFactor := by
    intro expr
    cases expr with
    | operand part => cases part <;> rfl
    | const _ | concat _ | add _ _ | mul _ _ => rfl
  unfold source
  induction expr with
  | const _ => rfl
  | operand part => exact parts part
  | concat items =>
    refine String.toList_inj.mp ?_
    rw [rename, render, render, Parser.renderParts_source, Parser.renderParts_source,
      Parser.written, Parser.written, List.flatMap_map]
    simp only [parts]
  | add left right one other => rw [rename, render, render, one, other]
  | mul left right one other => rw [rename, render, render, one, other, simple, simple]

/-- What is no number stays none. -/
theorem rename_ne_const {expr : Expr} (other : ∀ value, expr = const value → False) (value : Int)
    (same : expr.rename ρ = const value) : False :=
  other value ((rename_eq_const_iff ρ).mp same)

theorem sum_rename (left right : Expr) :
    sum (left.rename ρ) (right.rename ρ) = (sum left right).map (rename ρ) := by
  fun_cases sum left right with
  | case1 left right =>
    rw [Option.map_map]
    rfl
  | case2 right other => exact sum.eq_2 _ (rename_ne_const ρ other)
  | case3 left other => exact sum.eq_3 _ (rename_ne_const ρ other)
  | case4 left right unlike noLeft noRight =>
    have iff : ∀ {expr : Expr} {value : Int}, expr.rename ρ = const value ↔ expr = const value :=
      rename_eq_const_iff ρ
    exact sum.eq_4 _ _ (mt iff.mp noLeft) (mt iff.mp noRight)
      fun _ _ one other => unlike _ _ (iff.mp one) (iff.mp other)

theorem product_rename (left right : Expr) :
    product (left.rename ρ) (right.rename ρ) = (product left right).map (rename ρ) := by
  fun_cases product left right with
  | case1 left right =>
    rw [Option.map_map]
    rfl
  | case2 right other => exact product.eq_2 _ (rename_ne_const ρ other)
  | case3 left other => exact product.eq_3 _ (rename_ne_const ρ other)
  | case4 right other => exact product.eq_4 _ (rename_ne_const ρ other)
  | case5 left other => exact product.eq_5 _ (rename_ne_const ρ other)
  | case6 left right unlike noLeft noRight noLeft' noRight' =>
    have iff : ∀ {expr : Expr} {value : Int}, expr.rename ρ = const value ↔ expr = const value :=
      rename_eq_const_iff ρ
    exact product.eq_6 _ _ (mt iff.mp noLeft) (mt iff.mp noLeft') (mt iff.mp noRight)
      (mt iff.mp noRight') fun _ _ one other => unlike _ _ (iff.mp one) (iff.mp other)

theorem productOf_rename (factors : List Expr) :
    productOf (factors.map (rename ρ)) = (productOf factors).map (rename ρ) := by
  have from_ : ∀ first : Expr, (factors.map (rename ρ)).foldlM product (first.rename ρ) =
      (factors.foldlM product first).map (rename ρ) := by
    induction factors with
    | nil => exact fun _ => rfl
    | cons factor rest ih =>
      intro first
      rw [List.map_cons, List.foldlM_cons, List.foldlM_cons, product_rename]
      cases product first factor with
      | none => rfl
      | some next => exact ih next
  exact from_ (const 1)

end Expr

end Identifiers

/-!
## What is seen of a record type
-/

/-- An attribute without what it is linked to. -/
def Attribute.bare (attr : Attribute) : Attribute :=
  { attr with owner := default, bitfields := [], accessor := none }

/-- A bitfield without what it is linked to. -/
def Bitfield.bare (bitfield : Bitfield) : Bitfield :=
  { bitfield with attr := default, accessor := none }

structure AttributeView where
  bare : Attribute
  accessor : Option String
  bitfields : List Bitfield

structure MethodView where
  name : String
  result : Option TypeRef
  arguments : List (Option TypeRef)
  texts : List Expr
  /-- The name of the attribute that the method reads, or of the one whose bits it reads. -/
  reads : Option String
  configDependent : Bool

structure ConstructorView where
  arguments : List TypeRef
  texts : List Expr

structure RecordView where
  base : Option RecordId
  configs : List RecordId
  identity : Option Identity
  pack : Option UInt32
  constructors : List ConstructorView
  attributes : List AttributeView
  methods : List MethodView
  size : Expr
  align : Nat
  configDependent : Bool

def Constructor.view (constructor : Constructor) : ConstructorView where
  arguments := constructor.arguments.map (·.type)
  texts := constructor.arguments.filterMap (·.expression) ++ constructor.initializers.map (·.expression)

/-- What is seen of a method that reads an attribute of a given name, if any. -/
def Method.view (method : Method) (reads : Option String) : MethodView where
  name := method.name
  result := method.result
  arguments := method.arguments.map (·.type)
  texts := method.body.texts
  reads := reads
  configDependent := method.configDependent

/-- What is seen of a record type with given members. -/
def Record.view (record : Record) (attributes : List AttributeView) (methods : List MethodView) :
    RecordView where
  base := record.base
  configs := record.configs
  identity := record.identity
  pack := record.pack
  constructors := record.constructors.map Constructor.view
  attributes := attributes
  methods := methods
  size := record.size
  align := record.align
  configDependent := record.configDependent

namespace Model

variable (model : Model)

/-- The attribute that a body reads, or whose bits it reads. -/
def readBy : MethodBody → Option AttributeId
  | .attr id => some id
  | .bitfield id => some (model.bitfield id).attr
  | _ => none

def attributeView (id : AttributeId) : AttributeView where
  bare := (model.attr id).bare
  accessor := (model.attr id).accessor.map fun method => (model.method method).name
  bitfields := (model.attr id).bitfields.map fun bitfield => (model.bitfield bitfield).bare

def methodView (id : MethodId) : MethodView :=
  (model.method id).view ((model.readBy (model.method id).body).map fun attr => (model.attr attr).name)

def recordView (id : RecordId) : RecordView :=
  (model.record id).view ((model.record id).attributes.map model.attributeView)
    ((model.record id).methods.map model.methodView)

end Model

/-!
## Views in another order
-/

section Rename

variable (ρ : Renaming)

/-- An attribute with other identifiers in what it says. -/
def Attribute.rename (attr : Attribute) : Attribute :=
  { attr with
    type := attr.type.rename ρ
    shape := attr.shape.map (Dimension.rename ρ)
    declaredOffset := attr.declaredOffset.map (Expr.rename ρ)
    offset := attr.offset.rename ρ
    elementSize := attr.elementSize.rename ρ }

def Bitfield.rename (bitfield : Bitfield) : Bitfield :=
  { bitfield with type := bitfield.type.rename ρ }

def AttributeView.rename (view : AttributeView) : AttributeView where
  bare := view.bare.rename ρ
  accessor := view.accessor
  bitfields := view.bitfields.map (Bitfield.rename ρ)

def MethodView.rename (view : MethodView) : MethodView :=
  { view with
    result := view.result.map (TypeRef.rename ρ)
    arguments := view.arguments.map (Option.map (TypeRef.rename ρ))
    texts := view.texts.map (Expr.rename ρ) }

def ConstructorView.rename (view : ConstructorView) : ConstructorView where
  arguments := view.arguments.map (TypeRef.rename ρ)
  texts := view.texts.map (Expr.rename ρ)

def RecordView.rename (view : RecordView) : RecordView :=
  { view with
    base := view.base.map ρ.record
    configs := view.configs.map ρ.record
    constructors := view.constructors.map (ConstructorView.rename ρ)
    attributes := view.attributes.map (AttributeView.rename ρ)
    methods := view.methods.map (MethodView.rename ρ)
    size := view.size.rename ρ }

end Rename

namespace Model

/-!
## Views of later models
-/

section Later

variable {before after : Model}

/-- What an attribute shows depends on itself, on its bitfields and on the name of its accessor. -/
theorem attributeView_congr {id : AttributeId} (attr : after.attr id = before.attr id)
    (accessor : ∀ method ∈ (before.attr id).accessor,
      (after.method method).name = (before.method method).name)
    (bitfields : ∀ bitfield ∈ (before.attr id).bitfields,
      (after.bitfield bitfield).bare = (before.bitfield bitfield).bare) :
    after.attributeView id = before.attributeView id := by
  rw [attributeView, attr, List.map_congr_left bitfields, attributeView]
  congr 1
  cases found : (before.attr id).accessor with
  | none => rfl
  | some method => exact congrArg some (accessor method found)

theorem methodView_congr {id : MethodId} (method : after.method id = before.method id)
    (reads : (after.readBy (before.method id).body).map (fun attr => (after.attr attr).name) =
      (before.readBy (before.method id).body).map fun attr => (before.attr attr).name) :
    after.methodView id = before.methodView id := by
  rw [methodView, method, reads, methodView]

theorem recordView_congr {id : RecordId} (record : after.record id = before.record id)
    (attributes : ∀ attr ∈ (before.record id).attributes,
      after.attributeView attr = before.attributeView attr)
    (methods : ∀ method ∈ (before.record id).methods,
      after.methodView method = before.methodView method) :
    after.recordView id = before.recordView id := by
  rw [recordView, record, List.map_congr_left attributes, List.map_congr_left methods, recordView]

end Later

/-- A change of what a record type says of itself. -/
theorem recordView_modifyRecord (model : Model) (id other : RecordId) (change : Record → Record) :
    (model.modifyRecord id change).recordView other =
      if id = other ∧ other.index < model.records.size then
        (change (model.record other)).view
          ((change (model.record other)).attributes.map model.attributeView)
          ((change (model.record other)).methods.map model.methodView)
      else model.recordView other := by
  rw [recordView, record_modifyRecord]
  split <;> rfl

end Model

end RecordSchema
