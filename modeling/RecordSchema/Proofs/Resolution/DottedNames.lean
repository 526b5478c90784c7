import Mathlib.Logic.Relation
import RecordSchema.Proofs.Resolution.Items
import RecordSchema.Proofs.Resolution.Refusals
import RecordSchema.Proofs.Text

/-!
# Dotted names of packages

A dotted name is short for packages one inside the other, of which only the innermost says anything.
Both forms open the same packages in the same order, so nothing that is built tells one from the other.
No package has a name with a dot, so a dotted path leads to one package at most.
-/

set_option autoImplicit false

namespace RecordSchema

/-!
## Parts of names
-/

namespace Draft

private theorem mem_segments {name segment : String} (listed : segment ∈ segments name) :
    ∃ piece ∈ Text.splitOnChar '.' name.toList,
      Text.trimBlanks piece ≠ [] ∧ segment = String.ofList (Text.trimBlanks piece) := by
  obtain ⟨part, among, kept⟩ := List.mem_filterMap.mp listed
  obtain ⟨piece, split, rfl⟩ := List.mem_map.mp among
  split at kept
  · cases kept
  · rename_i present
    cases kept
    exact ⟨piece, split, by simpa using present, rfl⟩

private theorem not_mem_of_mem_segments {name segment : String} (listed : segment ∈ segments name) :
    '.' ∉ segment.toList := by
  obtain ⟨piece, split, _, rfl⟩ := mem_segments listed
  rw [String.toList_ofList]
  exact fun dot => Text.not_mem_of_mem_splitOnChar split (Text.mem_of_mem_trimBlanks dot)

private theorem segments_of_mem {name segment : String} (listed : segment ∈ segments name) :
    segments segment = [segment] := by
  have whole := Text.splitOnChar_eq_singleton (not_mem_of_mem_segments listed)
  obtain ⟨piece, _, present, rfl⟩ := mem_segments listed
  have trimmed := (Text.trimBlanks_trimmed piece).trimBlanks
  rw [String.toList_ofList] at whole
  simp [segments, whole, trimmed, present]

private theorem openSegments_append (included : Bool) (names more : List String) (model : Model)
    (parent : Option PackageId) :
    openSegments included model parent (names ++ more) =
      openSegments included model parent names >>= fun opened =>
        openSegments included opened.1 opened.2 more := by
  induction names generalizing model parent with
  | nil => rfl
  | cons name rest ih =>
    rw [List.cons_append, openSegments, openSegments]
    cases openPackage model parent name included with
    | error error => rfl
    | ok opened => exact ih opened.1 (some opened.2)

end Draft

/-!
## Dotted paths
-/

/-- No name on the way to a package has a dot in it. -/
def Item.Undotted : Item → Prop
  | package path _ => ∀ name ∈ path, '.' ∉ name.toList
  | _ => True

namespace Item

private theorem opening_undotted {included : Bool} {outer names : List String}
    (around : ∀ name ∈ outer, '.' ∉ name.toList) (inside : ∀ name ∈ names, '.' ∉ name.toList) :
    ∀ item ∈ opening included outer names, item.Undotted := by
  induction names generalizing outer with
  | nil => simp [opening]
  | cons name rest ih =>
    obtain ⟨here, later⟩ := List.forall_mem_cons.mp inside
    have extended : ∀ other ∈ outer ++ [name], '.' ∉ other.toList :=
      List.forall_mem_append.mpr ⟨around, List.forall_mem_singleton.mpr here⟩
    rw [opening]
    exact List.forall_mem_cons.mpr ⟨extended, ih extended later⟩

mutual

private theorem ofPackage_undotted {included : Bool} {outer : List String}
    (around : ∀ name ∈ outer, '.' ∉ name.toList) :
    (declaration : Declaration.Package) →
      ∀ item ∈ ofPackage included outer declaration, item.Undotted
  | .mk name _ _ constants enumerations packages records => by
    have inside : ∀ segment ∈ Draft.segments name, '.' ∉ segment.toList :=
      fun _ => Draft.not_mem_of_mem_segments
    rw [ofPackage]
    split
    · exact List.forall_mem_singleton.mpr trivial
    · simp only [List.forall_mem_append, List.forall_mem_map, List.forall_mem_flatMap, ofRecord,
        List.forall_mem_cons]
      exact ⟨opening_undotted around inside, fun _ _ => trivial, fun _ _ => trivial,
        ofPackages_undotted (List.forall_mem_append.mpr ⟨around, inside⟩) packages,
        fun _ _ => ⟨trivial, fun _ _ => trivial, fun _ _ => trivial⟩⟩

private theorem ofPackages_undotted {included : Bool} {outer : List String}
    (around : ∀ name ∈ outer, '.' ∉ name.toList) :
    (declarations : List Declaration.Package) →
      ∀ item ∈ ofPackages included outer declarations, item.Undotted
  | [] => by simp [ofPackages]
  | declaration :: rest => by
    rw [ofPackages, List.forall_mem_append]
    exact ⟨ofPackage_undotted around declaration, ofPackages_undotted around rest⟩

end

theorem ofUnits_undotted (units : List SourceUnit) : ∀ item ∈ ofUnits units, item.Undotted := by
  rw [ofUnits, List.forall_mem_flatMap]
  exact fun source _ => ofPackages_undotted (by simp) source.document.packages

end Item

/-- Names without dots are told from the path that they make up. -/
theorem dotted_injective {path other : List String} (nonempty : path ≠ []) (nonempty' : other ≠ [])
    (undotted : ∀ name ∈ path, '.' ∉ name.toList) (undotted' : ∀ name ∈ other, '.' ∉ name.toList)
    (same : ".".intercalate path = ".".intercalate other) : path = other := by
  refine List.map_injective_iff.mpr (fun _ _ => String.toList_inj.mp) ?_
  have dot : ".".toList = ['.'] := rfl
  rw [← Text.splitOn_intercalate dot nonempty undotted,
    ← Text.splitOn_intercalate dot nonempty' undotted', same]

/-!
## Packages inside packages
-/

namespace Declaration.Package

/-- A package inside others that say nothing, the first name outermost. -/
def within : List String → Package → Package
  | [], inner => inner
  | name :: rest, inner => .mk name none [] [] [] [within rest inner] []

/-- One dotted name, at any depth, is written out as packages one inside the other; what its package
says stands in the innermost. -/
inductive WritesOut : Package → Package → Prop where
  | here {name last : String} {outer : List String} {comment : Option String} {tags : List String}
      {constants : List Constant} {enumerations : List Enumeration} {packages : List Package}
      {records : List Record} :
      Draft.segments name = outer ++ [last] →
      WritesOut (.mk name comment tags constants enumerations packages records)
        (within outer (.mk last comment tags constants enumerations packages records))
  | inside {name : String} {comment : Option String} {tags : List String}
      {constants : List Constant} {enumerations : List Enumeration} {before after : List Package}
      {package other : Package} {records : List Record} :
      WritesOut package other →
      WritesOut (.mk name comment tags constants enumerations (before ++ package :: after) records)
        (.mk name comment tags constants enumerations (before ++ other :: after) records)

end Declaration.Package

/-- One dotted name of a list of units is written out. -/
inductive WritesOut : List SourceUnit → List SourceUnit → Prop where
  | mk {front back : List SourceUnit} {imports : List Declaration.Import} {included : Bool}
      {before after : List Declaration.Package} {package other : Declaration.Package} :
      package.WritesOut other →
      WritesOut (front ++ ⟨⟨imports, before ++ package :: after⟩, included⟩ :: back)
        (front ++ ⟨⟨imports, before ++ other :: after⟩, included⟩ :: back)

namespace Draft

open Declaration.Package (within)

private theorem annotatePackage_nothing (package : Package) :
    annotatePackage none [] package = package := by
  rw [annotatePackage, Option.none_or]
  rfl

private theorem modifyPackage_nothing (model : Model) (id : PackageId) :
    model.modifyPackage id (annotatePackage none []) = model := by
  have same : model.packages.modify id.index (annotatePackage none []) = model.packages := by
    refine Array.ext (Array.size_modify ..) fun index _ inside => ?_
    rw [Array.getElem_modify]
    split
    · exact annotatePackage_nothing _
    · rfl
  rw [Model.modifyPackage, same]

variable {included : Bool}

private theorem addPackageDeclarations_singleton (parent : Option PackageId) (draft : Draft)
    (declaration : Declaration.Package) :
    addPackageDeclarations included parent draft [declaration] =
      addPackageDeclaration included parent draft declaration := by
  simp only [addPackageDeclarations]
  cases addPackageDeclaration included parent draft declaration <;> rfl

private theorem addPackageDeclaration_around {name : String} (plain : segments name = [name])
    (parent : Option PackageId) (draft : Draft) (inner : Declaration.Package) :
    addPackageDeclaration included parent draft (.mk name none [] [] [] [inner] []) =
      openPackage draft.model parent name included >>= fun opened =>
        addPackageDeclaration included (some opened.2) { draft with model := opened.1 } inner := by
  rw [addPackageDeclaration, plain, openSegments]
  cases openPackage draft.model parent name included with
  | error error => rfl
  | ok opened =>
    simp only [openSegments, bind, Except.bind, List.isEmpty_cons, Bool.false_eq_true, ↓reduceIte,
      modifyPackage_nothing, List.foldlM_nil, pure, Except.pure, addPackageDeclarations_singleton]
    split <;> rename_i same <;> exact same.symm

private theorem addPackageDeclaration_within {names : List String}
    (plain : ∀ name ∈ names, segments name = [name]) (parent : Option PackageId) (draft : Draft)
    (inner : Declaration.Package) :
    addPackageDeclaration included parent draft (within names inner) =
      openSegments included draft.model parent names >>= fun opened =>
        addPackageDeclaration included opened.2 { draft with model := opened.1 } inner := by
  induction names generalizing parent draft with
  | nil => rfl
  | cons name rest ih =>
    obtain ⟨here, later⟩ := List.forall_mem_cons.mp plain
    rw [within, addPackageDeclaration_around here, openSegments]
    cases openPackage draft.model parent name included with
    | error error => rfl
    | ok opened => exact ih later (some opened.2) { draft with model := opened.1 }

private theorem addPackageDeclaration_dotted {name last : String} {outer : List String}
    (dotted : segments name = outer ++ [last]) (parent : Option PackageId) (draft : Draft)
    (comment : Option String) (tags : List String) (constants : List Declaration.Constant)
    (enumerations : List Declaration.Enumeration) (packages : List Declaration.Package)
    (records : List Declaration.Record) :
    addPackageDeclaration included parent draft
        (.mk name comment tags constants enumerations packages records) =
      openSegments included draft.model parent outer >>= fun opened =>
        addPackageDeclaration included opened.2 { draft with model := opened.1 }
          (.mk last comment tags constants enumerations packages records) := by
  have listed : last ∈ segments name := by simp [dotted]
  have plain := segments_of_mem listed
  have present : (outer ++ [last]).isEmpty = false := by simp
  simp only [addPackageDeclaration, dotted, plain, present, openSegments_append, bind_assoc,
    List.isEmpty_cons]

private theorem addPackageDeclarations_congr {package other : Declaration.Package}
    (same : ∀ parent draft, addPackageDeclaration included parent draft other =
      addPackageDeclaration included parent draft package)
    (before after : List Declaration.Package) (parent : Option PackageId) (draft : Draft) :
    addPackageDeclarations included parent draft (before ++ other :: after) =
      addPackageDeclarations included parent draft (before ++ package :: after) := by
  induction before generalizing draft with
  | nil =>
    rw [List.nil_append, List.nil_append, addPackageDeclarations, addPackageDeclarations, same]
  | cons first rest ih =>
    simp only [List.cons_append, addPackageDeclarations, ih]

private theorem addPackageDeclaration_writesOut {package other : Declaration.Package}
    (written : package.WritesOut other) (included : Bool) (parent : Option PackageId)
    (draft : Draft) :
    addPackageDeclaration included parent draft other =
      addPackageDeclaration included parent draft package := by
  induction written generalizing parent draft with
  | @here name last outer comment tags constants enumerations packages records dotted =>
    have plain : ∀ name ∈ outer, segments name = [name] := fun name listed =>
      segments_of_mem (dotted ▸ List.mem_append_left _ listed)
    rw [addPackageDeclaration_within plain, addPackageDeclaration_dotted dotted]
  | inside _ ih => simp only [addPackageDeclaration, addPackageDeclarations_congr ih]

private theorem ofUnits_writesOut {units others : List SourceUnit} (written : WritesOut units others) :
    ofUnits others = ofUnits units := by
  obtain ⟨written⟩ := written
  have same := fun included =>
    addPackageDeclarations_congr (addPackageDeclaration_writesOut written included)
  simp only [ofUnits, List.foldlM_append, List.foldlM_cons, addUnit, same]

end Draft

/-- Dotted names are only shorthand: however many of them are written out, at whatever depth, the
outcome of building is the same, be it a model or a fault. -/
theorem build_writesOut {units others : List SourceUnit}
    (written : Relation.ReflTransGen WritesOut units others) : build others = build units := by
  have same : Draft.ofUnits others = Draft.ofUnits units := by
    induction written with
    | refl => rfl
    | tail _ step ih => rw [Draft.ofUnits_writesOut step, ih]
  rw [build, build, same]

/-- An included unit and one that opens its packages again, with what the two say and what there is in
the outer package besides. -/
def reopenedUnits (opens deep : List Declaration.Package) (beside : List Declaration.Record) :
    List SourceUnit :=
  [{ included := true, document := { packages := opens } },
    { document := { packages := [.mk "Sample" none [] [] [] deep beside] } }]

/-- A dotted name at the top and one inside a package. -/
def dottedUnits : List Declaration.Record → List SourceUnit :=
  reopenedUnits [.mk "Sample. Parts" (some "parts") ["external"] [] [] [] [{ name := "Far" }]]
    [.mk "Parts..Deep" none [] [] [] [] [{ name := "Near", base := some "Far" }]]

/-- The same packages one inside the other. -/
def writtenOutUnits : List Declaration.Record → List SourceUnit :=
  reopenedUnits
    [.mk "Sample" none [] [] []
      [.mk "Parts" (some "parts") ["external"] [] [] [] [{ name := "Far" }]] []]
    [.mk "Parts" none [] [] []
      [.mk "Deep" none [] [] [] [] [{ name := "Near", base := some "Far" }]] []]

private theorem dottedUnits_writesOut (beside : List Declaration.Record) :
    Relation.ReflTransGen WritesOut (dottedUnits beside) (writtenOutUnits beside) := by
  have parts : Draft.segments "Sample. Parts" = ["Sample"] ++ ["Parts"] := by decide +kernel
  have deep : Draft.segments "Parts..Deep" = ["Parts"] ++ ["Deep"] := by decide +kernel
  exact .head (@WritesOut.mk [] _ [] true [] [] _ _ (.here parts))
    (.single (@WritesOut.mk [_] [] [] false [] [] _ _
      (@Declaration.Package.WritesOut.inside _ _ _ _ _ [] [] _ _ _ (.here deep))))

theorem build_writesOut_sample :
    (Relation.ReflTransGen WritesOut (dottedUnits []) (writtenOutUnits []) ∧
      (build (dottedUnits [])).toOption.map (fun built => built.model.census.packages) = some 3 ∧
      build (writtenOutUnits []) = build (dottedUnits [])) ∧
    build (dottedUnits [{ name := "Parts" }]) =
        .error (.schema (.duplicateName "Sample" "Parts")) ∧
      build (writtenOutUnits [{ name := "Parts" }]) = build (dottedUnits [{ name := "Parts" }]) :=
  ⟨⟨dottedUnits_writesOut [], by decide +kernel, build_writesOut (dottedUnits_writesOut [])⟩,
    build_fails (by decide +kernel), build_writesOut (dottedUnits_writesOut [{ name := "Parts" }])⟩

end RecordSchema
