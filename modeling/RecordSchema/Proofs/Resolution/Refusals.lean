import RecordSchema.Proofs.Build

/-!
# Faults of single declarations

Most faults lie with one declaration. A shared identity, bases in a cycle and layouts in a cycle lie with
several record types together, and each of the three is found by one check of the build alone: no other
operation refuses anything for it.
-/

set_option autoImplicit false

namespace RecordSchema

namespace Outcome

variable {ε α β : Type}

/-- A computation fails in no other way than of a kind. -/
def FailsOnly (kind : ε → Prop) (outcome : Except ε α) : Prop :=
  ∀ error, outcome = .error error → kind error

namespace FailsOnly

variable {kind : ε → Prop}

theorem ok (value : α) : FailsOnly kind (.ok value : Except ε α) :=
  fun _ failed => nomatch failed

theorem error {error : ε} (holds : kind error) : FailsOnly kind (.error error : Except ε α) := by
  rintro _ ⟨⟩
  exact holds

theorem bind {computation : Except ε α} {next : α → Except ε β} (first : FailsOnly kind computation)
    (later : ∀ value, FailsOnly kind (next value)) : FailsOnly kind (computation >>= next) := by
  intro error failed
  rcases bind_error failed with here | ⟨value, -, there⟩
  · exact first error here
  · exact later value error there

theorem map {computation : Except ε α} (first : FailsOnly kind computation) (change : α → β) :
    FailsOnly kind (computation.map change) := by
  cases computation with
  | error error => exact .error (first error rfl)
  | ok value => exact .ok _

theorem foldlM {items : List α} {step : β → α → Except ε β}
    (each : ∀ state item, FailsOnly kind (step state item)) (start : β) :
    FailsOnly kind (items.foldlM step start) := by
  intro error failed
  obtain ⟨_, item, _, state, -, -, fails⟩ := foldlM_error failed
  exact each state item error fails

theorem forM {items : List α} {check : α → Except ε Unit}
    (each : ∀ item, FailsOnly kind (check item)) : FailsOnly kind (items.forM check) := by
  intro error failed
  rcases forM_cases items check with ⟨passed, -⟩ | ⟨item, -, other, fails, same⟩
  · rw [passed] at failed
    cases failed
  · rw [same] at failed
    cases failed
    exact each item error fails

theorem mapM {items : List α} {read : α → Except ε β} (each : ∀ item, FailsOnly kind (read item)) :
    FailsOnly kind (items.mapM read) := by
  induction items with
  | nil => exact .ok _
  | cons first rest ih =>
    rw [List.mapM_cons]
    exact .bind (each first) fun _ => .bind ih fun _ => .ok _

private theorem option_mapM {item : Option α} {read : α → Except ε β}
    (each : ∀ value, FailsOnly kind (read value)) : FailsOnly kind (item.mapM read) := by
  cases item with
  | none => exact .ok _
  | some value => exact .map (each value) some

end FailsOnly

end Outcome

open Outcome

/-- Whether several record types together are at fault. -/
def SchemaError.isCollective : SchemaError → Bool
  | duplicateIdentity .. | inheritanceCycle .. | layoutCycle .. => true
  | _ => false

/-- Whether a fault lies with one declaration. -/
def SchemaError.Single (error : SchemaError) : Prop :=
  error.isCollective = false

/-- A number out of range lies with one declaration too. -/
def Fault.Single : Fault → Prop
  | schema error => error.Single
  | overflow => True

private theorem failsOnly_orRefuse {α : Type} {outcome : Except SchemaError α}
    (single : FailsOnly SchemaError.Single outcome) : FailsOnly Fault.Single (orRefuse outcome) := by
  cases outcome with
  | error error => exact .error (single error rfl)
  | ok value => exact .ok _

private theorem failsOnly_orOverflow {α : Type} (outcome : Option α) :
    FailsOnly Fault.Single (orOverflow outcome) := by
  cases outcome with
  | none => exact .error trivial
  | some value => exact .ok _

/-!
## Expressions and names
-/

namespace Expr.Parser

private theorem memberName_single (context : Context) (source : String) (placeholder : Placeholder)
    (input : List Char) :
    FailsOnly SchemaError.Single (memberName context source placeholder input) := by
  unfold memberName
  split
  · split
    · exact .error rfl
    · exact .ok _
  · exact .error rfl

private theorem operand_single (context : Context) (source : String) (placeholder : Placeholder)
    (member : String) : FailsOnly SchemaError.Single (operand context source placeholder member) := by
  unfold operand
  split
  · exact .ok _
  · split
    · exact .ok _
    · exact .error rfl
  · split
    · exact .ok _
    · exact .error rfl

private theorem operands_single (context : Context) (source : String) (reversed input : List Char) :
    FailsOnly SchemaError.Single (operands context source reversed input) := by
  fun_induction operands context source reversed input with
  | case1 => exact .ok _
  | case2 _ _ _ ih => exact ih
  | case3 _ _ placeholder tail _ read => exact .error (memberName_single _ _ _ _ _ read)
  | case4 _ _ _ _ _ _ _ _ ih => exact .bind (operand_single _ _ _ _) fun _ => .bind ih fun _ => .ok _
  | case5 _ _ _ _ ih => exact ih

end Expr.Parser

private theorem Expr.parse_single (context : Expr.Context) (raw : String) :
    FailsOnly SchemaError.Single (Expr.parse context raw) := by
  unfold Expr.parse
  dsimp only
  split
  · exact .error rfl
  · split
    · exact .ok _
    · exact .map (Parser.operands_single _ _ _ _) _

private theorem Model.lookupType_single (model : Model) (owner : RecordId) (path name : String) :
    FailsOnly SchemaError.Single (model.lookupType owner path name) := by
  unfold Model.lookupType
  split
  · exact .ok _
  · exact .error rfl

namespace Draft

private theorem insertMember_single (model : Model) (package : PackageId) (name : String)
    (member : Member) :
    FailsOnly SchemaError.Single (insertMember model package name member) := by
  unfold insertMember
  split
  · exact .error rfl
  · exact .ok _

private theorem checkFree_single (model : Model) (record : RecordId) (name : String) :
    FailsOnly SchemaError.Single (checkFree model record name) := by
  unfold checkFree
  dsimp only
  split
  · exact .error rfl
  · exact .ok _

private theorem openPackage_single (model : Model) (parent : Option PackageId) (name : String)
    (included : Bool) : FailsOnly SchemaError.Single (openPackage model parent name included) := by
  refine .bind ?_ fun found => ?_
  · unfold packageNamed
    split
    · exact .ok _
    · split
      · exact .ok _
      · exact .ok _
      · exact .error rfl
  · split
    · split <;> exact .ok _
    · exact .ok _

private theorem openSegments_single (included : Bool) (names : List String) (model : Model)
    (parent : Option PackageId) :
    FailsOnly SchemaError.Single (openSegments included model parent names) := by
  induction names generalizing model parent with
  | nil => exact .ok _
  | cons name rest ih => exact .bind (openPackage_single _ _ _ _) fun _ => ih _ _

private theorem addConstant_single (scope : Scope) (path : String) (draft : Draft)
    (declaration : Declaration.Constant) :
    FailsOnly SchemaError.Single (addConstant scope path draft declaration) := by
  simp only [addConstant]
  split
  · exact .error rfl
  · cases scope with
    | package => exact .bind (insertMember_single _ _ _ _) fun _ => .ok _
    | record => exact .bind (checkFree_single _ _ _) fun _ => .ok _

private theorem addEnumeration_single (scope : Scope) (path : String) (draft : Draft)
    (declaration : Declaration.Enumeration) :
    FailsOnly SchemaError.Single (addEnumeration scope path draft declaration) := by
  simp only [addEnumeration]
  split
  · exact .error rfl
  · cases scope with
    | package => exact .bind (insertMember_single _ _ _ _) fun _ => .ok _
    | record => exact .bind (checkFree_single _ _ _) fun _ => .ok _

private theorem addRecord_single (package : PackageId) (included : Bool) (draft : Draft)
    (declaration : Declaration.Record) :
    FailsOnly SchemaError.Single (addRecord package included draft declaration) := by
  refine .bind ?_ fun _ => .bind (.foldlM (addConstant_single _ _) _) fun _ =>
    .bind (.foldlM (addEnumeration_single _ _) _) fun _ => .ok _
  simp only [nameRecord]
  split
  · exact .error rfl
  · exact .bind (insertMember_single _ _ _ _) fun _ => .ok _

mutual

private theorem addPackageDeclaration_single (included : Bool) (parent : Option PackageId) (draft : Draft)
    (declaration : Declaration.Package) :
    FailsOnly SchemaError.Single (addPackageDeclaration included parent draft declaration) := by
  cases declaration with
  | mk name comment tags constants enumerations packages records =>
    rw [addPackageDeclaration]
    refine .bind (openSegments_single _ _ _ _) fun opened => ?_
    split
    · exact .error rfl
    · split
      · exact .error rfl
      · exact .bind (.foldlM (addConstant_single _ _) _) fun _ =>
          .bind (.foldlM (addEnumeration_single _ _) _) fun _ =>
            .bind (addPackageDeclarations_single included _ _ packages) fun _ =>
              .foldlM (addRecord_single _ _) _

private theorem addPackageDeclarations_single (included : Bool) (parent : Option PackageId) (draft : Draft)
    (declarations : List Declaration.Package) :
    FailsOnly SchemaError.Single (addPackageDeclarations included parent draft declarations) := by
  cases declarations with
  | nil =>
    rw [addPackageDeclarations]
    exact .ok _
  | cons declaration rest =>
    rw [addPackageDeclarations]
    exact .bind (addPackageDeclaration_single included parent draft declaration) fun _ =>
      addPackageDeclarations_single included parent _ rest

end

private theorem ofUnits_single (units : List SourceUnit) :
    FailsOnly SchemaError.Single (ofUnits units) := by
  refine .foldlM (fun draft source => ?_) _
  refine .bind (addPackageDeclarations_single _ _ _ _) fun _ => ?_
  split <;> exact .ok _

end Draft

/-!
## Resolution
-/

namespace Resolution

private theorem resolveHeader_single (model : Model) (pending : Pending RecordId Declaration.Record) :
    FailsOnly SchemaError.Single (resolveHeader model pending) := by
  refine .bind ?_ fun _ => .bind (.foldlM (fun configs name => ?_) _) fun _ =>
    .bind ?_ fun _ => .ok _
  · unfold baseOf
    split
    · exact .ok _
    · split
      · exact .ok _
      · exact .error rfl
  · unfold addConfig
    split
    · exact .error rfl
    · exact .ok _
  · unfold identityOf
    split
    · exact .ok _
    · exact .error rfl
    · exact .ok _

private theorem resolveConstant_single (model : Model) (pending : Pending ConstantId Declaration.Constant) :
    FailsOnly SchemaError.Single (resolveConstant model pending) := by
  simp only [resolveConstant]
  split
  · refine .bind (Expr.parse_single _ _) fun value => ?_
    split
    · exact .error rfl
    · exact .ok _
  · exact .error rfl

private theorem resolveEnumeration_single (model : Model)
    (pending : Pending EnumId Declaration.Enumeration) :
    FailsOnly SchemaError.Single (resolveEnumeration model pending) := by
  refine .bind ?_ fun _ => .bind (.foldlM (fun before declaration => ?_) _) fun _ => .ok _
  · unfold enumerationBase
    split
    · exact .ok _
    · split
      · split
        · exact .ok _
        · exact .error rfl
      · exact .error rfl
  · simp only [addEnumerator]
    split
    · exact .error rfl
    · split
      · exact .error rfl
      · exact .bind (.option_mapM fun _ => Expr.parse_single _ _) fun _ => .ok _

private theorem accessOf_single (path : String) (keyword : Option String) :
    FailsOnly SchemaError.Single (accessOf path keyword) := by
  unfold accessOf
  split
  · exact .ok _
  · split
    · exact .ok _
    · exact .error rfl

private theorem addMethod_single (model : Model) (path : String) (method : Method) :
    FailsOnly SchemaError.Single (addMethod model path method) := by
  unfold addMethod
  dsimp only
  split
  · exact .error rfl
  · exact .ok _

private theorem resolveShape_single (context : Expr.Context) (position : Nat) (raws : List String) :
    FailsOnly SchemaError.Single (resolveShape context position raws) := by
  induction raws generalizing position with
  | nil => exact .ok _
  | cons raw rest ih =>
    refine .bind ?_ fun _ => .bind (ih _) fun _ => .ok _
    unfold resolveDimension
    dsimp only
    split
    · split
      · exact .ok _
      · exact .error rfl
    · split
      · exact .error rfl
      · refine .bind (Expr.parse_single _ _) fun count => ?_
        split
        · split
          · exact .error rfl
          · exact .ok _
        · exact .ok _

private theorem placeBits_single (path : String) (storage : Builtin) (placed : List PlacedBits)
    (declaration : Declaration.Bitfield) :
    FailsOnly SchemaError.Single (placeBits path storage placed declaration) := by
  simp only [placeBits]
  split
  · split
    · exact .error rfl
    · split
      · exact .error rfl
      · split
        · exact .error rfl
        · exact .ok _
  · exact .error rfl

private theorem insertBitfield_single (model : Model) (owner : RecordId) (access : Access)
    (path name : String) (bitfield : Bitfield) :
    FailsOnly SchemaError.Single (insertBitfield model owner access path name bitfield) :=
  .bind (addMethod_single _ _ _) fun _ => .ok _

private theorem addBitfields_single (model : Model) (owner : RecordId) (id : AttributeId)
    (path typeName : String) (declarations : List Declaration.Bitfield) :
    FailsOnly SchemaError.Single (addBitfields model owner id path typeName declarations) := by
  unfold addBitfields
  split
  · exact .ok _
  · split
    · exact .error rfl
    · refine .map (.foldlM (fun state declaration => ?_) _) _
      refine .bind (placeBits_single _ _ _ _) fun _ => ?_
      dsimp only
      split
      · exact .bind (Model.lookupType_single _ _ _ _) fun _ =>
          .bind (insertBitfield_single _ _ _ _ _ _) fun _ => .ok _
      · exact .bind (.ok _) fun _ => .bind (insertBitfield_single _ _ _ _ _ _) fun _ => .ok _

private theorem addAttribute_single (owner : RecordId) (path : String) (model : Model)
    (declaration : Declaration.Attribute) :
    FailsOnly SchemaError.Single (addAttribute owner path model declaration) := by
  simp only [addAttribute]
  split
  · exact .error rfl
  · split
    · exact .error rfl
    · refine .bind ?_ fun _ => .bind ?_ fun _ =>
        addBitfields_single _ _ _ _ _ _
      · simp only [readAttribute]
        split
        · exact .bind (Model.lookupType_single _ _ _ _) fun _ =>
            .bind (resolveShape_single _ _ _) fun _ =>
              .bind (.option_mapM fun _ => Expr.parse_single _ _) fun _ =>
                .bind (accessOf_single _ _) fun _ => .ok _
        · exact .error rfl
      · exact .bind (addMethod_single _ _ _) fun _ => .ok _

private theorem bodyOf_single (context : Expr.Context) (declaration : Declaration.Method) :
    FailsOnly SchemaError.Single (bodyOf context declaration) := by
  have bodies : ∀ texts, FailsOnly SchemaError.Single (parseBodies context texts) := fun _ =>
    .mapM fun _ => .map (Expr.parse_single _ _) _
  unfold bodyOf
  split
  · exact .ok _
  · exact .map (bodies _) _
  · exact .map (bodies _) _
  · exact .error rfl

private theorem addDeclaredMethod_single (owner : RecordId) (path : String) (model : Model)
    (declaration : Declaration.Method) :
    FailsOnly SchemaError.Single (addDeclaredMethod owner path model declaration) := by
  simp only [addDeclaredMethod]
  split
  · exact .error rfl
  · refine .bind ?_ fun _ => .bind (.mapM fun argument => ?_) fun _ =>
      .bind (bodyOf_single _ _) fun _ => .bind (accessOf_single _ _) fun _ =>
        .bind (addMethod_single _ _ _) fun _ => .ok _
    · unfold resultOf
      split
      · exact .ok _
      · split
        · exact .ok _
        · exact .map (Model.lookupType_single _ _ _ _) _
    · exact .bind (.option_mapM fun _ => Model.lookupType_single _ _ _ _) fun _ => .ok _

private theorem destinationOf_single (model : Model) (owner : RecordId) (path name : String) :
    FailsOnly SchemaError.Single (destinationOf model owner path name) := by
  unfold destinationOf
  split
  · exact .ok _
  · exact .error rfl

private theorem resolveConstructor_single (model : Model) (owner : RecordId) (path : String)
    (declaration : Declaration.Constructor) :
    FailsOnly SchemaError.Single (resolveConstructor model owner path declaration) := by
  refine .bind (.mapM fun argument => ?_) fun _ => .bind (.mapM fun initializer => ?_) fun _ => .ok _
  · refine .bind (.option_mapM fun _ => destinationOf_single _ _ _ _) fun _ => ?_
    have complete : FailsOnly SchemaError.Single
        (argument.expression.mapM (Expr.parse (exprContext model owner path))) :=
      .option_mapM fun _ => Expr.parse_single _ _
    dsimp only
    split
    · exact .bind (Model.lookupType_single _ _ _ _) fun _ => .bind complete fun _ => .ok _
    · exact .bind (.ok _) fun _ => .bind complete fun _ => .ok _
    · exact .error rfl
  · exact .bind (destinationOf_single _ _ _ _) fun _ =>
      .bind (Expr.parse_single _ _) fun _ => .ok _

private theorem resolveConstructorsFrom_single (model : Model) (owner : RecordId) (path : String)
    (position : Nat) (declarations : List Declaration.Constructor) :
    FailsOnly SchemaError.Single
      (resolveConstructorsFrom model owner path position declarations) := by
  induction declarations generalizing position with
  | nil => exact .ok _
  | cons declaration rest ih =>
    exact .bind (resolveConstructor_single _ _ _ _) fun _ => .bind (ih _) fun _ => .ok _

private theorem checkMembers_single (model : Model) :
    FailsOnly SchemaError.Single (checkMembers model) := by
  refine .forM fun id => .forM fun text => .forM fun name => ?_
  split
  · exact .ok _
  · exact .error rfl

private theorem resolveSchemas_single (model : Model) (pending : Pending RecordId Declaration.Record) :
    FailsOnly SchemaError.Single (resolveSchemas model pending) := by
  refine .bind (.foldlM (fun before declaration => ?_) _) fun _ => .ok _
  refine .bind (.bind (.foldlM (fun datasets dataset => ?_) _) fun _ => ?_) fun _ => ?_
  · simp only [addDataset]
    split
    · exact .error rfl
    · refine .bind (.mapM fun entry => ?_) fun _ => .ok _
      simp only [resolveEntry]
      split
      · exact .error rfl
      · exact .ok _
  · split <;> exact .ok _
  · split
    · exact .error rfl
    · exact .ok _

theorem checkInheritance_fails (model : Model) :
    FailsOnly (fun error => ∃ path chain, error = .inheritanceCycle path chain)
      (checkInheritance model) := by
  refine .forM fun id => ?_
  split
  · exact .ok _
  · exact .error ⟨_, _, rfl⟩

/-- Identities and inheritance are checked once all headers are there; the rest lies with single
declarations. -/
theorem resolveDeclarations_collective {draft : Draft} {error : SchemaError}
    (failed : resolveDeclarations draft = .error error) (collective : error.isCollective = true) :
    ∃ headed, draft.records.toList.foldlM resolveHeader draft.model = .ok headed ∧
      (checkIdentities headed = .error error ∨ checkInheritance headed = .error error) := by
  simp only [resolveDeclarations] at failed
  have impossible : ∀ {α : Type} {outcome : Except SchemaError α},
      FailsOnly SchemaError.Single outcome → outcome ≠ .error error := fun single here => by
    have other := single error here
    rw [SchemaError.Single, collective] at other
    cases other
  rcases bind_error failed with here | ⟨headed, headers, failed⟩
  · exact absurd here (impossible (.foldlM resolveHeader_single _))
  refine ⟨headed, headers, ?_⟩
  rcases bind_error failed with here | ⟨_, -, failed⟩
  · exact .inl here
  rcases bind_error failed with here | ⟨_, -, failed⟩
  · exact .inr here
  refine absurd failed (impossible ?_)
  refine .bind (.foldlM resolveConstant_single _) fun _ =>
    .bind (.foldlM resolveEnumeration_single _) fun _ =>
      .bind (.foldlM (fun _ _ => .foldlM (addAttribute_single _ _) _) _) fun _ =>
        .bind (.foldlM (fun _ _ => .foldlM (addDeclaredMethod_single _ _) _) _) fun _ =>
          .bind (.foldlM (fun _ _ => ?_) _) fun _ => .bind (checkMembers_single _) fun _ => .ok _
  exact .bind (resolveConstructorsFrom_single _ _ _ _ _) fun _ => .ok _

end Resolution

/-!
## Layout
-/

namespace Layout

theorem orderOrRefuse_fails (model : Model) :
    FailsOnly (fun fault => ∃ path cycle, fault = .schema (.layoutCycle path cycle))
      (orderOrRefuse model) := by
  unfold orderOrRefuse
  split
  · exact .ok _
  · exact .error ⟨_, _, rfl⟩

private theorem placeAttribute_single (pack : Option UInt32) (path : String) (state : Model × Cursor)
    (id : AttributeId) : FailsOnly Fault.Single (placeAttribute pack path state id) := by
  obtain ⟨model, cursor⟩ := state
  simp only [placeAttribute]
  split
  · exact .error rfl
  · exact .bind (failsOnly_orOverflow _) fun _ =>
      .bind (failsOnly_orOverflow _) fun _ => .ok _

private theorem placeRecord_single (model : Model) (id : RecordId) :
    FailsOnly Fault.Single (placeRecord model id) :=
  .bind (.foldlM (placeAttribute_single _ _) _) fun _ => .ok _

private theorem checkConfigs_single (model : Model) :
    FailsOnly SchemaError.Single (checkConfigs model) := by
  refine .forM fun id => ?_
  dsimp only
  split
  · exact .ok _
  · split
    · exact .ok _
    · exact .error rfl

end Layout

/-- Where the faults come from that lie with several record types: the two checks on headers, and the
order of layout. -/
theorem build_collective {units : List SourceUnit} {error : SchemaError}
    (failed : build units = .error (.schema error)) (collective : error.isCollective = true) :
    ∃ draft, Draft.ofUnits units = .ok draft ∧
      ((∃ headed, draft.records.toList.foldlM Resolution.resolveHeader draft.model = .ok headed ∧
          (Resolution.checkIdentities headed = .error error ∨
            Resolution.checkInheritance headed = .error error)) ∨
        ∃ resolved, Resolution.resolveDeclarations draft = .ok resolved ∧
          Layout.orderOrRefuse resolved.model = .error (.schema error)) := by
  have impossible : ∀ {α : Type} {outcome : Except Fault α},
      FailsOnly Fault.Single outcome → outcome ≠ .error (.schema error) := fun single here => by
    have other : error.isCollective = false := single _ here
    rw [collective] at other
    cases other
  simp only [build] at failed
  rcases bind_error failed with here | ⟨draft, named, failed⟩
  · exact absurd here (impossible (failsOnly_orRefuse (Draft.ofUnits_single units)))
  refine ⟨draft, orRefuse_ok named, ?_⟩
  rcases bind_error failed with here | ⟨resolved, resolution, failed⟩
  · refine .inl (Resolution.resolveDeclarations_collective ?_ collective)
    unfold orRefuse at here
    split at here
    · cases here
    · rename_i found
      cases here
      exact found
  refine .inr ⟨resolved, orRefuse_ok resolution, ?_⟩
  rcases bind_error failed with here | ⟨_, -, failed⟩
  · simp only [Resolution.layOut] at here
    rcases bind_error here with ordering | ⟨_, -, later⟩
    · exact ordering
    · refine absurd later (impossible ?_)
      exact .bind (.foldlM Layout.placeRecord_single _) fun _ =>
        .bind (failsOnly_orRefuse (Layout.checkConfigs_single _)) fun _ => failsOnly_orOverflow _
  · refine absurd failed (impossible ?_)
    exact .bind (failsOnly_orRefuse (.foldlM Resolution.resolveSchemas_single _)) fun _ => .ok _

/-- The fault of concrete units can be computed. -/
theorem build_fails {units : List SourceUnit} {fault : Fault}
    (computed : (match build units with
      | .error found => decide (found = fault)
      | .ok _ => false) = true) : build units = .error fault := by
  cases outcome : build units with
  | error found =>
    rw [outcome] at computed
    rw [of_decide_eq_true computed]
  | ok built =>
    rw [outcome] at computed
    cases computed

end RecordSchema
