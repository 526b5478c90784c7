import RecordSchema.Backend.Accessors
import RecordSchema.Proofs.Traversal.Visits

/-!
# Qualified names

A declaration is emitted under its own name, in the namespaces that are open at that point. Wherever
else the generated code refers to it, it does so by a name that is put together from the model, without
a traversal. Both are the same name.
-/

set_option autoImplicit false

namespace RecordSchema

open Model

namespace Cpp

/-- The name under which a declaration is emitted. -/
def declaredName (model : Model) : Member → String
  | .package id => packageNamespace model id
  | .record id => className model id
  | .enumeration id => (model.enumeration id).name
  | .constant id => (model.constant id).name

/-- The name by which a declaration is known in the rest of the code. -/
def qualifiedName (model : Model) : Member → String
  | .package id => namespaceOf model id
  | .record id => typeName model id
  | .enumeration id => enumName model id
  | .constant id => scopeName model (model.constant id).scope ++ "::" ++ (model.constant id).name

private theorem namespacePath_ne_nil (model : Model) (id : PackageId) : namespacePath model id ≠ [] := by
  rw [namespacePath, packageChain, enclosing]
  split
  · simp
  · split <;> simp

/-- What a package declares is known by the path to the package and its own name. -/
theorem qualifiedName_eq {model : Model} {member : Member} {package : PackageId}
    (home : model.home member = some (.package package)) (value : ∀ id, member ≠ .package id) :
    qualifiedName model member =
      "::".intercalate (namespacePath model package ++ [declaredName model member]) := by
  rw [String.intercalate_append_of_ne_nil (namespacePath_ne_nil model package)
    (List.cons_ne_nil _ _), String.intercalate_singleton]
  cases member with
  | package id => exact absurd rfl (value id)
  | record id =>
    cases home
    rfl
  | enumeration id =>
    have scope : (model.enumeration id).scope = .package package := Option.some.inj home
    rw [qualifiedName, enumName, scope]
    rfl
  | constant id =>
    have scope : (model.constant id).scope = .package package := Option.some.inj home
    rw [qualifiedName, scope]
    rfl

/-- A namespace around all code comes before the path, unless it has no name. -/
theorem inNamespace_intercalate (outer : Option String) {path : List String} (present : path ≠ []) :
    inNamespace outer ("::".intercalate path) =
      "::".intercalate ((outer.filter (!·.isEmpty)).toList ++ path) := by
  cases outer with
  | none => rfl
  | some outer =>
    by_cases empty : outer.isEmpty
    · simp [inNamespace, Option.filter, empty]
    · simp [inNamespace, Option.filter, empty, String.intercalate_cons_of_ne_nil present]

end Cpp

namespace Traversal

/-- A run comes to a step with some output if the steps before it can all be taken. -/
def ComesTo {σ : Type} (model : Model) (backend : Backend σ) (outer : Option String) (start : σ)
    (step : Step) (output : Output) : Prop :=
  ∃ front back state, steps model backend.brackets outer = front ++ step :: back ∧
    (front.foldlM (Traversal.step model backend) {}).run.run start = (.ok output, state)

/-- When a backend that opens namespaces is called for a declaration, those that are open lead to the
package of the declaration, so the qualified name of the declaration is the one it is emitted under. -/
theorem build_qualified {units : List SourceUnit} {built : Built} (accepted : build units = .ok built)
    {σ : Type} {backend : Backend σ} (brackets : backend.brackets = true) {outer : Option String}
    {start : σ} {step : Step} {output : Output}
    (comes : ComesTo built.model backend outer start step output) {member : Member}
    (declared : step.declared? = some member) :
    ∃ package, built.model.home member = some (.package package) ∧
      output.scopes.reverse = outer.toList ++ Cpp.namespacePath built.model package ∧
      Cpp.namespaceOf built.model package =
        "::".intercalate (Cpp.namespacePath built.model package) ∧
      Cpp.qualifiedName built.model member =
        "::".intercalate (Cpp.namespacePath built.model package ++
          [Cpp.declaredName built.model member]) ∧
      Cpp.inNamespace outer (Cpp.qualifiedName built.model member) =
        "::".intercalate ((outer.filter (!·.isEmpty)).toList ++
          (Cpp.namespacePath built.model package ++ [Cpp.declaredName built.model member])) ∧
      ∀ id text, member = .record id → Accessors.classOf built.model id = some text →
        text.name = Cpp.declaredName built.model member := by
  obtain ⟨stages⟩ := build_stages accepted
  obtain ⟨front, back, state, split, ran⟩ := comes
  rw [brackets] at split
  obtain ⟨package, home, reached⟩ :=
    steps_visitsAtHome stages.sound.toWellScoped outer front step back split member declared
  have scopes : output.scopes = (Cpp.namespacePath built.model package).reverse ++ outer.toList :=
    Option.some.inj ((foldlM_step_ok ran).1.symm.trans reached)
  have value : ∀ id, member ≠ .package id := by
    rintro id rfl
    cases step <;> cases declared
  have qualified := Cpp.qualifiedName_eq home value
  refine ⟨package, home, ?_, rfl, qualified, ?_, ?_⟩
  · have alone : outer.toList.reverse = outer.toList := by cases outer <;> rfl
    rw [scopes, List.reverse_append, List.reverse_reverse, alone]
  · rw [qualified, Cpp.inNamespace_intercalate outer (by simp)]
  · rintro id text rfl made
    simp only [Accessors.classOf, Option.bind_eq_bind, Option.bind_eq_some_iff] at made
    obtain ⟨_, _, _, _, _, _, made⟩ := made
    cases made
    rfl

/-- A package under another name in C++, and one within it that a second unit opens again. -/
def renamedUnits : List SourceUnit :=
  [{ document := { packages :=
      [.mk "Detector" none ["cpp_name(Det)"] [] []
        [.mk "Raw" none [] [] [] [] [{ name := "Pixel" }]] []] } },
    { document := { packages :=
      [.mk "Detector.Raw" none [] [{ name := "Depth", value := some "4" }] []
        [] [{ name := "Frame", tags := ["cpp_name(FrameV1)"] }]] } }]

theorem build_qualified_sample : ∃ built output, build renamedUnits = .ok built ∧
    visitCount.brackets = true ∧
    ComesTo built.model visitCount (some "Pds") 0 (.record ⟨1⟩) output ∧
    Step.declared? (.record ⟨1⟩) = some (.record ⟨1⟩) ∧
    output.scopes = ["Raw", "Det", "Pds"] ∧
    Cpp.typeName built.model ⟨1⟩ = "Det::Raw::FrameV1" ∧
    Cpp.inNamespace (some "Pds") (Cpp.typeName built.model ⟨1⟩) = "Pds::Det::Raw::FrameV1" := by
  have computed : ∃ built, build renamedUnits = .ok built ∧
      steps built.model true (some "Pds") =
        ([.prologue, .openNamespace "Pds", .openNamespace "Det", .enter ⟨0⟩, .openNamespace "Raw",
          .enter ⟨1⟩, .constant ⟨0⟩, .record ⟨0⟩] : List Step) ++ .record ⟨1⟩ ::
        ([.leave ⟨1⟩, .closeNamespace, .leave ⟨0⟩, .closeNamespace, .finish, .closeNamespace,
          .epilogue] : List Step) ∧
      (built.model.record ⟨1⟩).package = ⟨1⟩ ∧ Cpp.className built.model ⟨1⟩ = "FrameV1" ∧
      Cpp.namespacePath built.model ⟨1⟩ = ["Det", "Raw"] :=
    exists_built (by decide +kernel)
  obtain ⟨built, accepted, split, place, name, path⟩ := computed
  have comes : ∃ output, ComesTo built.model visitCount (some "Pds") 0 (.record ⟨1⟩) output :=
    ⟨_, _, _, _, split, rfl⟩
  obtain ⟨output, comes⟩ := comes
  obtain ⟨package, home, scopes, _, qualified, outside, _⟩ := build_qualified accepted rfl comes rfl
  obtain rfl : ⟨1⟩ = package := place.symm.trans (Scope.package.inj (Option.some.inj home))
  rw [path] at scopes qualified outside
  rw [Cpp.declaredName, name] at qualified outside
  refine ⟨built, output, accepted, rfl, comes, rfl, ?_, qualified, outside⟩
  rw [← List.reverse_reverse output.scopes, scopes]
  rfl

end Traversal

end RecordSchema
