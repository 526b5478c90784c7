import RecordSchema.Proofs.Backend.Addressing
import RecordSchema.Proofs.Backend.Classes
import RecordSchema.Proofs.Layout.Requests
import RecordSchema.Proofs.Resolution.Accessors
import RecordSchema.Proofs.Text

/-!
# Calls for the sizes of elements

An element of a type whose size is no number is asked for it. The text of the call is settled when the
type is laid out, with nothing between its last parentheses, and it goes into whatever is computed from
it. What the class of the type declares is settled later.
-/

set_option autoImplicit false

namespace RecordSchema

/-!
## Parts of expressions
-/

namespace Expr

/-- One expression is a part of another. -/
inductive Within (part : Expr) : Expr → Prop where
  | whole : Within part part
  | addLeft {left right : Expr} : Within part left → Within part (add left right)
  | addRight {left right : Expr} : Within part right → Within part (add left right)
  | mulLeft {left right : Expr} : Within part left → Within part (mul left right)
  | mulRight {left right : Expr} : Within part right → Within part (mul left right)

section Parts

variable {part whole left right result : Expr}

theorem Within.trans {middle : Expr} (inner : Within part middle) (outer : Within middle whole) :
    Within part whole := by
  induction outer with
  | whole => exact inner
  | addLeft _ ih => exact .addLeft ih
  | addRight _ ih => exact .addRight ih
  | mulLeft _ ih => exact .mulLeft ih
  | mulRight _ ih => exact .mulRight ih

/-- A number has no part that is none. -/
theorem Within.isConstant (within : Within part whole) (symbolic : part.isConstant = false) :
    whole.isConstant = false := by
  cases within with
  | whole => exact symbolic
  | addLeft | addRight | mulLeft | mulRight => rfl

private theorem within_sum (computed : sum left right = some result) :
    (left.isConstant = false → Within left result) ∧
      (right.isConstant = false → Within right result) := by
  unfold sum at computed
  split at computed
  · exact ⟨nofun, nofun⟩
  · cases computed
    exact ⟨nofun, fun _ => .whole⟩
  · cases computed
    exact ⟨fun _ => .whole, nofun⟩
  · cases computed
    exact ⟨fun _ => .addLeft .whole, fun _ => .addRight .whole⟩

/-- A product other than zero has its factors as parts. -/
theorem within_product (computed : product left right = some result) :
    (left.isConstant = false → right ≠ const 0 → Within left result) ∧
      (right.isConstant = false → left ≠ const 0 → Within right result) := by
  unfold product at computed
  split at computed
  · exact ⟨nofun, nofun⟩
  · exact ⟨nofun, fun _ nonzero => absurd rfl nonzero⟩
  · exact ⟨fun _ nonzero => absurd rfl nonzero, nofun⟩
  · cases computed
    exact ⟨nofun, fun _ _ => .whole⟩
  · cases computed
    exact ⟨fun _ _ => .whole, nofun⟩
  · cases computed
    exact ⟨fun _ _ => .mulLeft .whole, fun _ _ => .mulRight .whole⟩

private theorem within_foldlM_product {factors : List Expr} {first : Expr}
    (computed : factors.foldlM product first = some result) (symbolic : first.isConstant = false)
    (nonzero : ∀ factor ∈ factors, factor ≠ const 0) : Within first result := by
  induction factors generalizing first with
  | nil =>
    cases computed
    exact .whole
  | cons factor rest ih =>
    obtain ⟨here, later⟩ := List.forall_mem_cons.mp nonzero
    rw [List.foldlM_cons] at computed
    obtain ⟨middle, multiplied, computed⟩ := Option.bind_eq_some_iff.mp computed
    have inner := (within_product multiplied).1 symbolic here
    exact inner.trans (ih computed (inner.isConstant symbolic) later)

private theorem occurs_parenthesizeUnless (simple : Bool) (text : String) :
    Text.Occurs text (parenthesizeUnless simple text) := by
  unfold parenthesizeUnless
  split
  · exact .refl text
  · exact ⟨_, _, rfl⟩

/-- The text of a part stands in the text of the whole. -/
theorem Within.occurs (within : Within part whole) (spelling : Operand.Spelling) :
    Text.Occurs (part.render spelling) (whole.render spelling) := by
  induction within with
  | whole => exact .refl _
  | addLeft _ ih => exact (((ih.append_left _).append_right _).append_right _).append_right _
  | addRight _ ih => exact (ih.append_left _).append_right _
  | mulLeft _ ih =>
    exact ((ih.trans (occurs_parenthesizeUnless _ _)).append_right _).append_right _
  | mulRight _ ih => exact (ih.trans (occurs_parenthesizeUnless _ _)).append_left _

end Parts

end Expr

/-!
## Places and sizes that count an element
-/

namespace Layout

open RecordSchema.Expr

/-- No attribute of a list says where it lies. -/
def Undeclared (model : Model) (ids : List AttributeId) : Prop :=
  ∀ id ∈ ids, (model.attr id).declaredOffset = none

/-- The elements of an attribute count for the size of a type: the attribute lies in the type or in a base,
and nothing behind it says where it lies itself. -/
inductive CountsFor (model : Model) (attr : AttributeId) : RecordId → Prop where
  | own {id : RecordId} {before rest : List AttributeId} :
      (model.record id).attributes = before ++ attr :: rest → isUnbounded (model.attr attr).shape = false →
      Undeclared model rest → CountsFor model attr id
  | derived {id base : RecordId} : (model.record id).base = some base →
      Undeclared model (model.record id).attributes → CountsFor model attr base → CountsFor model attr id

section Placement

variable {model : Model} {pack : Option UInt32} {cursor next final : Cursor} {id : AttributeId}

private theorem within_offsetAfter {part stop offset : Expr} {alignment : Nat} {attr : Attribute}
    (within : Within part stop) (symbolic : part.isConstant = false)
    (undeclared : attr.declaredOffset = none)
    (placed : offsetAfter pack alignment attr stop = some offset) : Within part offset := by
  unfold offsetAfter at placed
  rw [undeclared] at placed
  dsimp only at placed
  split at placed
  · exact absurd (within.isConstant symbolic) nofun
  · cases placed
    exact within

private theorem within_stopAfter_of_offset {part stop : Expr} {attr : Attribute}
    (within : Within part attr.offset) (symbolic : part.isConstant = false)
    (ended : stopAfter attr = some stop) : Within part stop := by
  unfold stopAfter at ended
  split at ended
  · cases ended
    exact within
  · obtain ⟨count, _, ended⟩ := Option.bind_eq_some_iff.mp ended
    obtain ⟨extent, _, ended⟩ := Option.bind_eq_some_iff.mp ended
    exact within.trans ((within_sum ended).1 (within.isConstant symbolic))

/-- The size of an element counts for the end of the last one. -/
theorem within_stopAfter_of_element {stop : Expr} {attr : Attribute}
    (symbolic : attr.elementSize.isConstant = false) (bounded : isUnbounded attr.shape = false)
    (numbered : attr.Numbered) (ended : stopAfter attr = some stop) :
    Within attr.elementSize stop := by
  unfold stopAfter at ended
  rw [if_neg (by simp [bounded])] at ended
  obtain ⟨count, multiplied, ended⟩ := Option.bind_eq_some_iff.mp ended
  obtain ⟨extent, extended, ended⟩ := Option.bind_eq_some_iff.mp ended
  obtain ⟨zero, -⟩ := requests_foldlM_product multiplied numbered.nonzero
  have nonzero : count ≠ .const 0 := fun same => absurd (zero.mp same) (by decide)
  have inner := (within_product extended).1 symbolic nonzero
  exact inner.trans ((within_sum ended).2 (inner.isConstant symbolic))

theorem PlacesAll.within {part : Expr} {ids : List AttributeId}
    (places : PlacesAll model pack cursor ids final) (undeclared : Undeclared model ids)
    (within : Within part cursor.stop) (symbolic : part.isConstant = false) :
    Within part final.stop := by
  induction places with
  | nil => exact within
  | cons first _ ih =>
    obtain ⟨here, later⟩ := List.forall_mem_cons.mp undeclared
    have offset := within_offsetAfter within symbolic here first.offset
    exact ih later (within_stopAfter_of_offset offset symbolic first.stop)

/-- The size of an element counts for the offsets of what lies behind it. -/
theorem LaidOut.within_offset {id : RecordId} (laidOut : LaidOut model id) (numbered : model.Numbered)
    {attr later : AttributeId} (symbolic : (model.attr attr).elementSize.isConstant = false)
    (bounded : isUnbounded (model.attr attr).shape = false) {before between rest : List AttributeId}
    (listed : (model.record id).attributes = before ++ attr :: (between ++ later :: rest))
    (undeclared : Undeclared model (between ++ [later])) :
    Within (model.attr attr).elementSize (model.attr later).offset := by
  obtain ⟨final, places, -⟩ := laidOut
  rw [listed] at places
  obtain ⟨_, next, _, one, tail⟩ := places.split
  obtain ⟨_, _, inner, other, _⟩ := tail.split
  obtain ⟨front, here⟩ := List.forall_mem_append.mp undeclared
  have stop := within_stopAfter_of_element symbolic bounded (numbered attr) one.stop
  exact within_offsetAfter (inner.within front stop symbolic) symbolic (by simpa using here) other.offset

/-- What counts for the size of a type is a part of it. -/
theorem CountsFor.within (numbered : model.Numbered)
    (laidOut : ∀ id : RecordId, id.index < model.records.size → LaidOut model id)
    {attr : AttributeId} (symbolic : (model.attr attr).elementSize.isConstant = false) {id : RecordId}
    (counts : CountsFor model attr id) : Within (model.attr attr).elementSize (model.record id).size := by
  induction counts with
  | @own id before rest listed bounded undeclared =>
    have member : attr ∈ (model.record id).attributes := by simp [listed]
    obtain ⟨final, places, size, -⟩ := laidOut id (Model.inside_of_mem Record.attributes rfl member)
    rw [listed] at places
    obtain ⟨_, next, _, one, tail⟩ := places.split
    rw [size]
    exact tail.within undeclared
      (within_stopAfter_of_element symbolic bounded (numbered attr) one.stop) symbolic
  | @derived id base extended undeclared _ ih =>
    have inside : id.index < model.records.size :=
      Model.inside_of_ne Record.base (by rw [extended]; exact nofun)
    obtain ⟨final, places, size, -⟩ := laidOut id inside
    rw [size]
    refine places.within undeclared ?_ symbolic
    rw [initialCursor, extended]
    exact ih

end Placement

end Layout

/-!
## Texts of the calls
-/

namespace Accessors

open RecordSchema.Expr Layout Cpp Text

/-- The text that takes the first element of an attribute through its accessor, in the class of a type. -/
def firstElement (model : Model) (owner : RecordId) (attr : Attribute) : String :=
  let name := model.accessorName attr
  let implicit := if callNeedsConfig model owner name then [configArgument] else []
  thisObject ++ name ++ "(" ++ ", ".intercalate (implicit ++ List.replicate attr.rank "0") ++ ")"

/-- The text that asks an object for its size. -/
def sizeCall (object : String) (arguments : List String) : String :=
  object ++ "._sizeof(" ++ ", ".intercalate arguments ++ ")"

/-- The function for the size of a type is emitted, and these are its arguments. -/
def SizeTakes (model : Model) (target : RecordId) (arguments : List String) : Prop :=
  ∃ signature body,
    sizeMember model target (model.record target) = [.method none signature (some body) false] ∧
      signature.name = "_sizeof" ∧ signature.allParameters.map Parameter.name = arguments

/-- In the class of a type, the name of an attribute's accessor stands for a method that reads the
attribute. -/
def FindsAccessor (model : Model) (owner : RecordId) (attr : AttributeId) : Prop :=
  ∃ method, model.findMethod? owner (model.accessorName (model.attr attr)) = some method ∧
    (model.method method).body = .attr attr

/-- In the class of a type, the size of an attribute's elements is a call that its target declares. -/
def SizeFits (model : Model) (owner : RecordId) (attr : AttributeId) (target : RecordId) : Prop :=
  FindsAccessor model owner attr ∧ ∃ arguments,
    (model.attr attr).elementSize.render (spelling model owner) =
        sizeCall (firstElement model owner (model.attr attr)) arguments ∧
      SizeTakes model target arguments

section Texts

variable {model : Model} {owner target : RecordId}

private theorem sizeTakes_iff {arguments : List String} :
    SizeTakes model target arguments ↔ (model.record target).noSizeof = false ∧
      arguments = if (model.record target).configDependent then [configArgument] else [] := by
  unfold SizeTakes sizeMember
  cases (model.record target).noSizeof with
  | true => simp
  | false =>
    constructor
    · intro ⟨signature, body, same, _, takes⟩
      cases same
      refine ⟨rfl, takes.symm.trans ?_⟩
      cases (model.record target).configDependent <;> rfl
    · intro ⟨_, same⟩
      refine ⟨_, _, rfl, rfl, same.symm ▸ ?_⟩
      cases (model.record target).configDependent <;> rfl

/-- The implicit argument of a call stands before the indices. -/
theorem renderParts_call (spelling : Operand.Spelling) (name : String) (rank : Nat) {behind : String}
    (closing : behind.toList.head? = some ')') :
    renderParts spelling none
        [.member name, .text ("(" ++ ", ".intercalate (List.replicate rank "0") ++ behind)] =
      (spelling.call name).1 ++ "(" ++
        ", ".intercalate ((spelling.call name).2.toList ++ List.replicate rank "0") ++ behind := by
  obtain ⟨rest, closed⟩ : ∃ rest, behind.toList = ')' :: rest := List.head?_eq_some_iff.mp closing
  have opening : ("(" ++ ", ".intercalate (List.replicate rank "0") ++ behind).toList.head? =
      some '(' := by
    simp only [String.toList_append]
    rfl
  simp only [renderParts, opening, if_true]
  cases (spelling.call name).2 with
  | none => simp only [renderParts, Operand.render, Option.toList_none, List.nil_append,
      String.append_assoc, String.append_empty]
  | some argument =>
    have inner : ("(" ++ ", ".intercalate (List.replicate rank "0") ++ behind).toList.drop 1 =
        (", ".intercalate (List.replicate rank "0") ++ behind).toList := by
      simp only [String.toList_append]
      rfl
    simp only [renderParts, inner, String.ofList_toList, Option.toList_some, List.singleton_append,
      String.append_empty]
    cases rank with
    | zero =>
      have none : argumentSeparator ("" ++ behind).toList = "" := by
        rw [String.empty_append, closed]
        rfl
      rw [List.replicate_zero, String.intercalate_nil, none, String.intercalate_singleton]
      simp only [String.append_assoc, String.empty_append]
    | succ rank =>
      have first : ", ".intercalate (List.replicate (rank + 1) "0") =
          "0" ++ ", ".intercalate ("" :: List.replicate rank "0") := by
        rw [List.replicate_succ, ← String.intercalate_cons_append, String.append_empty]
      have comma : argumentSeparator (", ".intercalate (List.replicate (rank + 1) "0") ++
          behind).toList = ", " := by
        rw [first, String.toList_append, String.toList_append]
        rfl
      rw [comma, List.replicate_succ, String.intercalate_cons_cons]
      simp only [String.append_assoc]

private theorem render_dynamicSize {attr : Attribute} {accessor : MethodId}
    (read : attr.accessor = some accessor)
    (owner : RecordId) : (dynamicSize model attr).render (spelling model owner) =
      sizeCall (firstElement model owner attr) [] := by
  have name : (attr.accessor.map fun method => (model.method method).name).getD "" =
      model.accessorName attr := by
    rw [Model.accessorName, read]
    rfl
  have ending : ")._sizeof()" = ")" ++ "._sizeof(" ++ ", ".intercalate [] ++ ")" := rfl
  rw [dynamicSize, name, render, renderParts_call _ _ _ rfl, sizeCall, firstElement, ending]
  simp only [spelling, String.append_assoc]
  cases callNeedsConfig model owner (model.accessorName attr) <;> rfl

/-- A call without arguments fits where no argument is needed. -/
theorem sizeFits_iff {attr : AttributeId}
    (text : (model.attr attr).elementSize.render (spelling model owner) =
      sizeCall (firstElement model owner (model.attr attr)) []) :
    SizeFits model owner attr target ↔ FindsAccessor model owner attr ∧
      (model.record target).noSizeof = false ∧ (model.record target).configDependent = false := by
  rw [SizeFits, and_congr_right_iff]
  intro _
  constructor
  · intro ⟨arguments, same, takes⟩
    obtain ⟨emitted, rfl⟩ := sizeTakes_iff.mp takes
    refine ⟨emitted, ?_⟩
    rw [text] at same
    cases depends : (model.record target).configDependent with
    | false => rfl
    | true =>
      have longer := congrArg String.length same
      simp only [depends, if_true, sizeCall, String.length_append, String.intercalate_nil,
        String.intercalate_singleton, String.length_empty] at longer
      have argument : configArgument.length = 3 := rfl
      omega
  · intro ⟨emitted, plain⟩
    refine ⟨[], text, sizeTakes_iff.mpr ⟨emitted, ?_⟩⟩
    rw [plain]
    rfl

/-- The steps between elements are made of whole elements, and they start at the offset. -/
theorem within_addStrides {part elementSize offset address : Expr} {position : Nat}
    {dimensions : List Dimension} (symbolic : part.isConstant = false)
    (computed : addStrides elementSize position offset dimensions = some address)
    (nonzero : ∀ count ∈ dimensions.filterMap Dimension.count?, count ≠ .const 0)
    (start : Within part offset ∨ Within part elementSize ∧ dimensions ≠ []) :
    Within part address := by
  induction dimensions generalizing position offset with
  | nil =>
    cases computed
    rcases start with within | ⟨_, some⟩
    · exact within
    · exact absurd rfl some
  | cons dimension rest ih =>
    rw [addStrides] at computed
    obtain ⟨step, strided, computed⟩ := Option.bind_eq_some_iff.mp computed
    obtain ⟨distance, multiplied, computed⟩ := Option.bind_eq_some_iff.mp computed
    obtain ⟨reached, added, computed⟩ := Option.bind_eq_some_iff.mp computed
    have others : ∀ count ∈ rest.filterMap Dimension.count?, count ≠ .const 0 :=
      fun count listed => nonzero count (filterMap_count_tail listed)
    refine ih computed others (.inl ?_)
    rcases start with within | ⟨within, _⟩
    · exact within.trans ((within_sum added).1 (within.isConstant symbolic))
    · have size := within.isConstant symbolic
      have inner := within_foldlM_product strided size others
      have outer := (within_product multiplied).2 (inner.isConstant size) (by simp)
      have counted := within.trans (inner.trans outer)
      exact counted.trans ((within_sum added).2 (counted.isConstant symbolic))

/-- Accessors compute with the sizes of elements and of what lies before. -/
theorem within_elementOffset {part address : Expr} {attr : Attribute} (symbolic : part.isConstant = false)
    (numbered : attr.Numbered) (computed : elementOffset attr = some address)
    (start : Within part attr.offset ∨ Within part attr.elementSize ∧ 0 < attr.rank) :
    Within part address := by
  apply within_addStrides symbolic computed numbered.nonzero
  exact start.imp_right (And.imp_right List.ne_nil_of_length_pos)

end Texts

/-- How the size of an attribute's elements is asked for, and where. -/
structure AsksSize (model : Model) (attr : AttributeId) (target : RecordId) : Prop where
  /-- The call has no arguments, in the class of whatever type. -/
  text : ∀ owner, (model.attr attr).elementSize.render (spelling model owner) =
    sizeCall (firstElement model owner (model.attr attr)) []
  /-- The call stands in every text that the size of an element goes into. -/
  copied : ∀ owner whole, Within (model.attr attr).elementSize whole →
    Occurs (sizeCall (firstElement model owner (model.attr attr)) []) (whole.render (spelling model owner))
  /-- The size of an element goes into the sizes of types. -/
  sizes : ∀ id, CountsFor model attr id → Within (model.attr attr).elementSize (model.record id).size
  /-- It goes into the offsets of what lies behind it. -/
  offsets : ∀ id later before between rest,
    (model.record id).attributes = before ++ attr :: (between ++ later :: rest) →
    isUnbounded (model.attr attr).shape = false → Undeclared model (between ++ [later]) →
    Within (model.attr attr).elementSize (model.attr later).offset
  /-- It goes into the addresses of elements of the attribute and of those behind it. -/
  addresses : ∀ id address, elementOffset (model.attr id) = some address →
    id = attr ∧ 0 < (model.attr attr).rank ∨
      Within (model.attr attr).elementSize (model.attr id).offset →
    Within (model.attr attr).elementSize address
  /-- In the class of the type that has the attribute, the call goes through its accessor. -/
  owner : FindsAccessor model (model.attr attr).owner attr
  /-- The call fits if and only if it goes through the accessor, the target declares its size and needs no
  config object for it. -/
  fits : ∀ owner, SizeFits model owner attr target ↔ FindsAccessor model owner attr ∧
    (model.record target).noSizeof = false ∧ (model.record target).configDependent = false

/-- The size of an element of variable size is asked for by a call without arguments, wherever it is
counted. The call fits exactly where the type of the elements declares its size and needs no config object. -/
theorem build_asksSize {units : List SourceUnit} {built : Built} (accepted : build units = .ok built)
    {attr : AttributeId} {target : RecordId} (type : (built.model.attr attr).type = .record target)
    (symbolic : (built.model.record target).size.isConstant = false) :
    AsksSize built.model attr target := by
  obtain ⟨stages⟩ := build_stages accepted
  have intact := stages.sound.intact fun _ inside => stages.basesEnd inside
  have laidOut : ∀ id : RecordId, id.index < built.model.records.size → LaidOut built.model id :=
    fun _ inside => stages.laidOut inside
  have inside : attr.index < built.model.attributes.size := by
    by_contra outside
    rw [built.model.attr_eq_default outside] at type
    cases type
  have listed : attr ∈ (built.model.record (built.model.attr attr).owner).attributes :=
    (intact.attributes.mem_iff inside).mpr rfl
  have known := Model.inside_of_mem Record.attributes rfl listed
  obtain ⟨accessor, member, read, body⟩ := intact.exists_accessor listed
  obtain ⟨_, _, place⟩ := (laidOut _ known).exists_places listed
  have size : (built.model.attr attr).elementSize = dynamicSize built.model (built.model.attr attr) := by
    rw [place.elementSize, elementLayout, type]
    simp [symbolic]
  have text (owner : RecordId) : (built.model.attr attr).elementSize.render (spelling built.model owner) =
      sizeCall (firstElement built.model owner (built.model.attr attr)) [] := by
    rw [size, render_dynamicSize read]
  have unsettled : (built.model.attr attr).elementSize.isConstant = false := by
    rw [size]
    rfl
  constructor
  case text => exact text
  case copied =>
    intro owner whole within
    exact text owner ▸ within.occurs (spelling built.model owner)
  case sizes => exact fun id counts => counts.within stages.words.1 laidOut unsettled
  case offsets =>
    intro id later before between rest split bounded undeclared
    have member : attr ∈ (built.model.record id).attributes := by simp [split]
    exact (laidOut id (Model.inside_of_mem Record.attributes rfl member)).within_offset stages.words.1
      unsettled bounded split undeclared
  case addresses =>
    intro id address computed start
    apply within_elementOffset unsettled (stages.words.1 id) computed
    rcases start with ⟨rfl, array⟩ | before
    · exact .inr ⟨.whole, array⟩
    · exact .inl before
  case owner =>
    refine ⟨accessor, ?_, body⟩
    rw [Model.accessorName, read]
    exact findMethod?_own intact stages.methodsApart member
  case fits => exact fun owner => sizeFits_iff (text owner)

/-- Types whose elements vary in size: with a fixed number of bytes, by an attribute of their own, and by a
config object. A fourth one, with elements of each of the last two, is extended by a fifth. -/
def variableUnits : List SourceUnit :=
  let bytes (count : String) : Declaration.Attribute :=
    { name := "bytes", typeName := some "uint8_t", shape := [count] }
  let config : Declaration.Record :=
    { name := "Config", attributes := [{ name := "n", typeName := some "uint32_t" }] }
  let counted : Declaration.Record :=
    { name := "Counted"
      attributes := [{ name := "n", typeName := some "uint32_t" }, bytes "\x7bself\x7d.n()"] }
  let configured : Declaration.Record :=
    { name := "Configured", configs := ["Config"], attributes := [bytes "\x7bxtc-config\x7d.n()"] }
  let silent : Declaration.Record :=
    { name := "Silent", tags := ["no_sizeof"]
      attributes := [{ name := "n", typeName := some "uint32_t" }, bytes "\x7bself\x7d.n()"] }
  let parts : Declaration.Record :=
    { name := "Parts", configs := ["Config"]
      attributes := [{ name := "fitting", typeName := some "Counted", shape := ["2"] },
        { name := "needing", typeName := some "Configured" },
        { name := "missing", typeName := some "Silent" }] }
  let extended : Declaration.Record := { name := "Extended", base := some "Parts", configs := ["Config"] }
  let types := [config, counted, configured, silent, parts, extended]
  [{ document := { packages := [.mk "Sample" none [] [] [] [] types] } }]

theorem build_asksSize_sample : ∃ built, build variableUnits = .ok built ∧
    SizeFits built.model ⟨4⟩ ⟨6⟩ ⟨1⟩ ∧ ¬ SizeFits built.model ⟨4⟩ ⟨7⟩ ⟨2⟩ ∧
    Occurs (sizeCall (firstElement built.model ⟨5⟩ (built.model.attr ⟨7⟩)) [])
      ((built.model.record ⟨5⟩).size.render (spelling built.model ⟨5⟩)) := by
  have computed : ∃ built, build variableUnits = .ok built ∧
      (built.model.attr ⟨6⟩).type = .record ⟨1⟩ ∧ (built.model.attr ⟨7⟩).type = .record ⟨2⟩ ∧
      (built.model.attr ⟨6⟩).owner = ⟨4⟩ ∧
      (built.model.record ⟨1⟩).size.isConstant = false ∧ (built.model.record ⟨2⟩).size.isConstant = false ∧
      (built.model.record ⟨1⟩).noSizeof = false ∧ (built.model.record ⟨1⟩).configDependent = false ∧
      (built.model.record ⟨2⟩).configDependent = true ∧
      (built.model.record ⟨4⟩).attributes = [⟨6⟩, ⟨7⟩, ⟨8⟩] ∧
      (built.model.record ⟨5⟩).attributes = [] ∧ (built.model.record ⟨5⟩).base = some ⟨4⟩ ∧
      isUnbounded (built.model.attr ⟨7⟩).shape = false ∧
      (built.model.attr ⟨8⟩).declaredOffset = none := exists_built (by decide +kernel)
  obtain ⟨built, accepted, fitting, needing, owner, variableOne, variableTwo, emitted, plain, depends, own,
    empty, extended, bounded, undeclared⟩ := computed
  have one := build_asksSize accepted fitting variableOne
  have other := build_asksSize accepted needing variableTwo
  have counts : CountsFor built.model ⟨7⟩ ⟨5⟩ := by
    refine .derived extended (by simp [empty, Undeclared]) (@CountsFor.own _ _ _ [⟨6⟩] _ own bounded ?_)
    simpa [Undeclared] using undeclared
  refine ⟨built, accepted, (one.fits _).mpr ⟨owner ▸ one.owner, emitted, plain⟩, ?_,
    other.copied _ _ (other.sizes _ counts)⟩
  intro fits
  have needless := ((other.fits _).mp fits).2.2
  rw [depends] at needless
  cases needless

/-- Two calls that do not fit: the one leaves out the config object that the size of its target needs, the
other asks for a size that its target does not declare. -/
theorem build_not_sizeFits : ∃ built, build variableUnits = .ok built ∧
    ⟨4⟩ ∈ built.model.emittedRecords ∧
    (∃ target, (built.model.attr ⟨7⟩).type = .record target ∧
      (built.model.record target).size.isConstant = false ∧
      SizeTakes built.model target [configArgument] ∧
      (built.model.attr ⟨7⟩).elementSize.render (spelling built.model ⟨4⟩) =
        "this->needing(cfg)._sizeof()" ∧
      ¬ SizeFits built.model ⟨4⟩ ⟨7⟩ target) ∧
    ∃ target, (built.model.attr ⟨8⟩).type = .record target ∧
      (built.model.record target).size.isConstant = false ∧
      (∀ arguments, ¬ SizeTakes built.model target arguments) ∧
      (built.model.attr ⟨8⟩).elementSize.render (spelling built.model ⟨4⟩) = "this->missing(cfg)._sizeof()" ∧
      ¬ SizeFits built.model ⟨4⟩ ⟨8⟩ target := by
  have computed : ∃ built, build variableUnits = .ok built ∧ ⟨4⟩ ∈ built.model.emittedRecords ∧
      ((built.model.attr ⟨7⟩).type = .record ⟨2⟩ ∧ (built.model.record ⟨2⟩).size.isConstant = false ∧
        (built.model.record ⟨2⟩).noSizeof = false ∧ (built.model.record ⟨2⟩).configDependent = true ∧
        (built.model.attr ⟨7⟩).elementSize.render (spelling built.model ⟨4⟩) =
          "this->needing(cfg)._sizeof()" ∧
        firstElement built.model ⟨4⟩ (built.model.attr ⟨7⟩) = "this->needing(cfg)") ∧
      (built.model.attr ⟨8⟩).type = .record ⟨3⟩ ∧ (built.model.record ⟨3⟩).size.isConstant = false ∧
        (built.model.record ⟨3⟩).noSizeof = true ∧
        (built.model.attr ⟨8⟩).elementSize.render (spelling built.model ⟨4⟩) =
          "this->missing(cfg)._sizeof()" ∧
        firstElement built.model ⟨4⟩ (built.model.attr ⟨8⟩) = "this->missing(cfg)" :=
    exists_built (by decide +kernel)
  obtain ⟨built, accepted, emitted, ⟨needing, variableOne, declared, depends, textOne, objectOne⟩, missing,
    variableTwo, silent, textTwo, objectTwo⟩ := computed
  refine ⟨built, accepted, emitted, ⟨⟨2⟩, needing, variableOne, ?_, textOne, ?_⟩, ⟨3⟩, missing, variableTwo,
    ?_, textTwo, ?_⟩
  · rw [sizeTakes_iff, depends]
    exact ⟨declared, rfl⟩
  · intro fits
    have plain := ((sizeFits_iff (by rw [textOne, objectOne]; rfl)).mp fits).2.2
    rw [depends] at plain
    cases plain
  · intro arguments takes
    have declares := (sizeTakes_iff.mp takes).1
    rw [silent] at declares
    cases declares
  · intro fits
    have declares := ((sizeFits_iff (by rw [textTwo, objectTwo]; rfl)).mp fits).2.1
    rw [silent] at declares
    cases declares

end Accessors

end RecordSchema
