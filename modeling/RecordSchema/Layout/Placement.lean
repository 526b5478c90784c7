import RecordSchema.Layout.Order
import RecordSchema.SchemaError

/-!
# Placement of attributes

Offsets and element sizes of the attributes of a record type, and the size and alignment of the
type. An attribute starts where the one before it ends, unless its declaration says where; a packed
type aligns offsets that are numbers.
-/

set_option autoImplicit false

namespace RecordSchema.Layout

/-- The least multiple of a positive alignment that is not below an offset, for offsets from zero
up; below zero the division is toward zero. Nothing comes of a sum that is no word. -/
def alignUp (offset : Int) (alignment : Nat) : Option Int := do
  let reached ← Word.add offset alignment
  some ((reached - 1).tdiv alignment * alignment)

/-- A call of an accessor for the first element, and of its size. -/
def dynamicSize (model : Model) (attr : Attribute) : Expr :=
  let accessor := (attr.accessor.map fun method => (model.method method).name).getD ""
  let zeros := ", ".intercalate (List.replicate attr.rank "0")
  .concat [.member accessor, .text ("(" ++ zeros ++ ")._sizeof()")]

/-- Size and alignment of one element. An element whose size is no number is asked for it. -/
def elementLayout (model : Model) (attr : Attribute) : Expr × Nat :=
  match attr.type with
  | .builtin type => (.const type.size, type.size)
  | .enumeration id =>
    let base := (model.enumeration id).base
    (.const base.size, base.size)
  | .record id =>
    let target := model.record id
    if target.size.isConstant then (target.size, target.align)
    else (dynamicSize model attr, target.align)

/-- The layout of a type so far. -/
structure Cursor where
  /-- Where the next attribute starts. -/
  stop : Expr
  align : Nat
  /-- The name of an attribute without bound, after which nothing may come. -/
  openEnded : Option String := none

/-- Where a type without attributes of its own ends. -/
def initialCursor (model : Model) (record : Record) : Cursor :=
  match record.base with
  | some base => ⟨(model.record base).size, (model.record base).align, none⟩
  | none => ⟨.const 0, 1, none⟩

/-- The alignment that counts for an element of a type: none matters unless the type is packed. -/
def effectiveAlign (pack : Option UInt32) (alignment : Nat) : Nat :=
  match pack with
  | some limit => max (min limit.toNat alignment) 1
  | none => 1

def offsetAfter (pack : Option UInt32) (alignment : Nat) (attr : Attribute) (stop : Expr) :
    Option Expr :=
  match attr.declaredOffset with
  | some offset => some offset
  | none =>
    match stop, pack with
    | .const value, some _ => (alignUp value alignment).map .const
    | _, _ => some stop

def isUnbounded (shape : List Dimension) : Bool :=
  shape.any fun dimension => dimension.count?.isNone

/-- Where an attribute that has its offset and element size ends: its elements lie one behind the
other. One without bound counts as empty. -/
def stopAfter (attr : Attribute) : Option Expr :=
  if isUnbounded attr.shape then some attr.offset
  else do
    let count ← Expr.productOf (attr.shape.filterMap Dimension.count?)
    let extent ← Expr.product attr.elementSize count
    Expr.sum attr.offset extent

def placeAttribute (pack : Option UInt32) (path : String) (state : Model × Cursor)
    (id : AttributeId) : Except Fault (Model × Cursor) := do
  let (model, cursor) := state
  let attr := model.attr id
  let (elementSize, elementAlign) := elementLayout model attr
  if let some previous := cursor.openEnded then
    refuse (.invalidShape (path ++ "." ++ attr.name) (.afterUnbounded previous))
  let alignment := effectiveAlign pack elementAlign
  let offset ← orOverflow (offsetAfter pack alignment attr cursor.stop)
  let stop ← orOverflow (stopAfter { attr with offset, elementSize })
  .ok (model.modifyAttribute id fun current => { current with offset, elementSize },
    { stop
      align := if pack.isSome then max cursor.align alignment else cursor.align
      openEnded := if isUnbounded attr.shape then some attr.name else none })

/-- Lays one type out. -/
def placeRecord (model : Model) (id : RecordId) : Except Fault Model := do
  let record := model.record id
  let (placed, cursor) ← record.attributes.foldlM
    (placeAttribute record.pack (model.recordPath id)) (model, initialCursor model record)
  .ok (placed.modifyRecord id fun current =>
    { current with size := cursor.stop, align := cursor.align })

def orderOrRefuse (model : Model) : Except Fault (List RecordId) :=
  match order model with
  | .ok ordered => .ok ordered
  | .error cycle =>
    let paths := cycle.map model.recordPath
    refuse (.layoutCycle (paths.head?.getD "") paths)

end RecordSchema.Layout
