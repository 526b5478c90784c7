import RecordSchema.Proofs.Model.Paths
import RecordSchema.Proofs.Resolution.Names

/-!
# What units say, item by item

A list of units opens packages and declares record types, constants and enumerations in them. Which
model the pass over names leaves depends on these items alone, and on their order only as far as
identifiers go: a draft represents its items, and the pass goes through to its end if and only if the
items fit together.
-/

set_option autoImplicit false

namespace RecordSchema

open Model Outcome

/-- A declaration that is not of a package. A record type comes with the mark of its unit. -/
inductive Declared where
  | record (included : Bool) (declaration : Declaration.Record)
  | constant (declaration : Declaration.Constant)
  | enumeration (declaration : Declaration.Enumeration)

def Declared.name : Declared → String
  | record _ declaration => declaration.name
  | constant declaration => declaration.name
  | enumeration declaration => declaration.name.getD ""

/-- What a unit says at one of its places. -/
inductive Item where
  | package (path : List String) (included : Bool)
  | declared (site : Site) (declaration : Declared)
  /-- A package whose name has no parts. -/
  | unnamed

namespace Item

/-- Where a declaration stands, and its name. -/
def key? : Item → Option (Site × String)
  | declared site declaration => some (site, declaration.name)
  | _ => none

def isDeclared : Item → Bool
  | declared _ _ => true
  | _ => false

/-- Whether an item has a name that is not blank. -/
def isNamed : Item → Bool
  | package _ _ => true
  | declared _ declaration => !Text.allBlank declaration.name
  | unnamed => false

/-- The items of a dotted name below a path. -/
def opening (included : Bool) : List String → List String → List Item
  | _, [] => []
  | outer, name :: rest =>
    package (outer ++ [name]) included :: opening included (outer ++ [name]) rest

def ofConstant (site : Site) (declaration : Declaration.Constant) : Item :=
  declared site (.constant declaration)

def ofEnumeration (site : Site) (declaration : Declaration.Enumeration) : Item :=
  declared site (.enumeration declaration)

def ofRecord (included : Bool) (path : List String) (declaration : Declaration.Record) : List Item :=
  declared (.package path) (.record included declaration) ::
    (declaration.constants.map (ofConstant (.record path declaration.name)) ++
      declaration.enumerations.map (ofEnumeration (.record path declaration.name)))

mutual

/-- The items of a package declaration below a path. -/
def ofPackage (included : Bool) (outer : List String) : Declaration.Package → List Item
  | .mk name _ _ constants enumerations packages records =>
    if (Draft.segments name).isEmpty then [unnamed]
    else
      let path := outer ++ Draft.segments name
      opening included outer (Draft.segments name) ++ (constants.map (ofConstant (.package path)) ++
        (enumerations.map (ofEnumeration (.package path)) ++
          (ofPackages included path packages ++ records.flatMap (ofRecord included path))))

def ofPackages (included : Bool) (outer : List String) : List Declaration.Package → List Item
  | [] => []
  | declaration :: rest => ofPackage included outer declaration ++ ofPackages included outer rest

end

def ofUnit (source : SourceUnit) : List Item :=
  ofPackages source.included [] source.document.packages

def ofUnits (units : List SourceUnit) : List Item :=
  units.flatMap ofUnit

end Item

/-- Items that can stand together: everything has a name, and nothing has the name of something else
at its site. A package may be opened again. -/
structure Fits (items : List Item) : Prop where
  named : ∀ item ∈ items, item.isNamed
  distinct : (items.filterMap Item.key?).Nodup
  apart : ∀ outer name included, .package (outer ++ [name]) included ∈ items →
    (.package outer, name) ∉ items.filterMap Item.key?

namespace Fits

variable {items more : List Item}

theorem nil : Fits [] where
  named := by simp
  distinct := by simp
  apart := by simp

theorem of_append (fits : Fits (items ++ more)) : Fits items where
  named item member := fits.named item (List.mem_append_left _ member)
  distinct := by
    have distinct := fits.distinct
    rw [List.filterMap_append, List.nodup_append] at distinct
    exact distinct.1
  apart outer name included opened taken := by
    refine fits.apart outer name included (List.mem_append_left _ opened) ?_
    rw [List.filterMap_append]
    exact List.mem_append_left _ taken

/-- A declaration comes to the items. -/
theorem declare {site : Site} {declaration : Declared} :
    Fits (items ++ [.declared site declaration]) ↔
      Fits items ∧ Text.allBlank declaration.name = false ∧
        (site, declaration.name) ∉ items.filterMap Item.key? ∧
        ∀ outer included, site = .package outer →
          .package (outer ++ [declaration.name]) included ∉ items := by
  constructor
  · intro fits
    have distinct := fits.distinct
    rw [List.filterMap_append, List.nodup_append] at distinct
    refine ⟨fits.of_append, ?_, ?_, ?_⟩
    · simpa [Item.isNamed] using fits.named (.declared site declaration) (by simp)
    · intro taken
      exact distinct.2.2 _ taken (site, declaration.name) (by simp [Item.key?]) rfl
    · rintro outer included rfl opened
      exact fits.apart outer declaration.name included (List.mem_append_left _ opened)
        (by simp [Item.key?])
  · rintro ⟨fits, named, free, unopened⟩
    constructor
    case named =>
      intro item member
      rcases List.mem_append.mp member with old | new
      · exact fits.named item old
      · cases List.mem_singleton.mp new
        simp [Item.isNamed, named]
    case distinct =>
      rw [List.filterMap_append, List.nodup_append]
      refine ⟨fits.distinct, by simp [Item.key?], fun key old other new same => ?_⟩
      cases same
      have last : key = (site, declaration.name) := by simpa [Item.key?] using new
      exact free (last ▸ old)
    case apart =>
      intro outer name included opened taken
      have held : Item.package (outer ++ [name]) included ∈ items := by simpa using opened
      rw [List.filterMap_append] at taken
      rcases List.mem_append.mp taken with old | new
      · exact fits.apart outer name included held old
      · have last : (Site.package outer, name) = (site, declaration.name) := by
          simpa [Item.key?] using new
        obtain ⟨rfl, rfl⟩ := Prod.mk.inj last
        exact unopened outer included rfl held

/-- A package is opened beside the items. -/
theorem opened {outer : List String} {name : String} {included : Bool} :
    Fits (items ++ [.package (outer ++ [name]) included]) ↔
      Fits items ∧ (.package outer, name) ∉ items.filterMap Item.key? := by
  have keys : (items ++ [Item.package (outer ++ [name]) included]).filterMap Item.key? =
      items.filterMap Item.key? := by
    simp [Item.key?]
  constructor
  · intro fits
    refine ⟨fits.of_append, fun taken => ?_⟩
    exact fits.apart outer name included (by simp) (keys ▸ taken)
  · rintro ⟨fits, free⟩
    constructor
    case named =>
      intro item member
      rcases List.mem_append.mp member with old | new
      · exact fits.named item old
      · cases List.mem_singleton.mp new
        rfl
    case distinct =>
      rw [keys]
      exact fits.distinct
    case apart =>
      intro other last mark present taken
      rw [keys] at taken
      rcases List.mem_append.mp present with old | new
      · exact fits.apart other last mark old taken
      · have same : other ++ [last] = outer ++ [name] ∧ mark = included := by
          simpa using new
        obtain ⟨rfl, rfl⟩ := List.append_inj' same.1 rfl |>.imp id (fun equal => (List.cons.inj equal).1)
        exact free taken

end Fits

end RecordSchema
