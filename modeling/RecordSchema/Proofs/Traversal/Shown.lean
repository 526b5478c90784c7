import RecordSchema.Proofs.Traversal.Calls

/-!
# Which declarations a backend is shown

Record types have marks of their own, so those that a backend visits come from primary units. The
constants and enumerations of a package have none: a backend visits them together with their package,
that is, if primary units open all packages around them and none of these is external. Which unit has
declared them makes no difference.
-/

set_option autoImplicit false

namespace RecordSchema

open Model

namespace Traversal

/-!
## Calls before a failure
-/

section Calls

variable {σ : Type} {model : Model} {backend : Backend σ}

/-- The calls of a computation are the expected ones up to where it fails, if it does. -/
def Follows (watched : Emission (σ × List Call) Output) (expected : List Step) : Prop :=
  ∀ (state : σ) (before : List Call), ∃ result last made,
    watched.run.run (state, before) = (result, last, before ++ made) ∧
      made.map (·.1) <+: expected.filter Step.isCall ∧
      ∀ after, result = .ok after → made.map (·.1) = expected.filter Step.isCall

private theorem follows_quiet {watched : Emission (σ × List Call) Output}
    {result : Except GenerationFault Output} (ran : ∀ state, watched.run.run state = (result, state))
    {expected : List Step} (quiet : expected.filter Step.isCall = []) :
    Follows watched expected := by
  intro state before
  refine ⟨result, state, [], ?_, List.nil_prefix, fun _ _ => ?_⟩
  · rw [ran, List.append_nil]
  · rw [quiet, List.map_nil]

private theorem follows_bind {first : Emission (σ × List Call) Output}
    {next : Output → Emission (σ × List Call) Output} {expected further : List Step}
    (one : Follows first expected) (other : ∀ output, Follows (next output) further) :
    Follows (first >>= next) (expected ++ further) := by
  intro state before
  obtain ⟨result, last, made, ran, begins, complete⟩ := one state before
  rw [List.filter_append]
  cases result with
  | error fault =>
    refine ⟨.error fault, last, made, ?_, begins.trans (List.prefix_append ..), ?_⟩
    · rw [run_bind, ran]
    · intro after impossible
      cases impossible
  | ok output =>
    obtain ⟨result, final, more, ranNext, later, ends⟩ := other output last (before ++ made)
    refine ⟨result, final, made ++ more, ?_, ?_, fun after same => ?_⟩
    · rw [run_bind, ran, ← List.append_assoc]
      exact ranNext
    · rw [List.map_append, complete output rfl]
      exact (List.prefix_append_right_inj _).mpr later
    · rw [List.map_append, complete output rfl, ends after same]

private theorem follows_add (output : Output) (hook : Emission σ Generated) {step : Step}
    (isCall : step.isCall) : Follows (output.add (hook.watched step)) [step] := by
  intro state before
  have seen : (hook.watched step).run.run (state, before) =
      ((hook.run.run state).1, (hook.run.run state).2,
        before ++ [(step, (hook.run.run state).1.isOk)]) := rfl
  have expected : [step].filter Step.isCall = [step] := by simp [isCall]
  rw [expected]
  rcases ran : hook.run.run state with ⟨fault | text, last⟩ <;> rw [ran] at seen
  · refine ⟨.error fault, last, [(step, false)], ?_, List.prefix_refl _, fun _ _ => rfl⟩
    rw [Output.add, run_bind, seen]
    rfl
  · refine ⟨.ok { output with generated := output.generated ++ text }, last, [(step, true)], ?_,
      List.prefix_refl _, fun _ _ => rfl⟩
    rw [Output.add, run_bind, seen]
    rfl

private theorem follows_step (output : Output) (step : Step) :
    Follows (Traversal.step model backend.watched output step) [step] := by
  cases step with
  | openNamespace name => exact follows_quiet (fun _ => rfl) rfl
  | closeNamespace =>
    obtain ⟨generated, scopes⟩ := output
    cases scopes with
    | nil | cons name rest => exact follows_quiet (fun _ => rfl) rfl
  | prologue | finish | epilogue => exact follows_add output _ rfl
  | enter id | constant id | enumeration id | record id | reference id | leave id =>
    exact follows_add output _ rfl

private theorem follows_steps (steps : List Step) (output : Output) :
    Follows (steps.foldlM (step model backend.watched) output) steps := by
  induction steps generalizing output with
  | nil => exact follows_quiet (fun _ => rfl) rfl
  | cons first rest ih =>
    rw [List.foldlM_cons]
    exact follows_bind (follows_step output first) ih

/-- Whether or not all calls succeed, no call is out of turn. -/
theorem calls_in_turn (model : Model) (backend : Backend σ) (outer : Option String) (start : σ) :
    (calls model backend outer start).map (·.1) <+:
      (steps model backend.brackets outer).filter Step.isCall := by
  have follows : Follows ((steps model backend.brackets outer).foldlM (step model backend.watched) {})
      (steps model backend.brackets outer) := follows_steps _ _
  obtain ⟨result, last, made, ran, begins, _⟩ := follows start []
  have brackets : backend.watched.brackets = backend.brackets := rfl
  have same : calls model backend outer start = made := by
    rw [List.nil_append] at ran
    rw [calls, run_eq, run_bind, brackets, ran]
    cases result <;> rfl
  rw [same]
  exact begins

end Calls

/-!
## Steps for constants and enumerations
-/

def valueStep? : Member → Option Step
  | .constant id => some (.constant id)
  | .enumeration id => some (.enumeration id)
  | _ => none

/-- A traversal goes into a package, and does not change over to references there. -/
def Enters (model : Model) (package : PackageId) : Prop :=
  ((model.package package).included || (model.package package).external) = false

private theorem mem_of_calls {σ : Type} {model : Model} {backend : Backend σ} {outer : Option String}
    {start : σ} {step : Step} (called : step ∈ (calls model backend outer start).map (·.1)) :
    step ∈ steps model backend.brackets outer :=
  List.mem_of_mem_filter ((calls_in_turn model backend outer start).subset called)

section Values

variable {model : Model} {member : Member} {step : Step}

private theorem mem_bracket (different : step ≠ .closeNamespace ∧ ∀ name, step ≠ .openNamespace name)
    {name : Option String} {inner : List Step} : step ∈ bracket name inner ↔ step ∈ inner := by
  cases name with
  | none => rfl
  | some name => simp [bracket, different.1, different.2 name]

variable (valued : valueStep? member = some step)

include valued

private theorem step_ne : (step ≠ .closeNamespace ∧ ∀ name, step ≠ .openNamespace name) ∧
    (∀ id, step ≠ .record id ∧ step ≠ .reference id) ∧
    (∀ package, step ≠ .enter package ∧ step ≠ .leave package) ∧
    step ≠ .prologue ∧ step ≠ .finish ∧ step ≠ .epilogue := by
  cases member <;> cases valued <;> simp

private theorem mem_values {members : List Member} :
    (step ∈ members.filterMap constantStep? ∨ step ∈ members.filterMap enumerationStep?) ↔
      member ∈ members := by
  simp only [List.mem_filterMap]
  cases member with
  | package _ | record _ => cases valued
  | constant id | enumeration id =>
    cases valued
    constructor
    · rintro (⟨other, held, same⟩ | ⟨other, held, same⟩) <;> cases other <;> cases same
      all_goals exact held
    · intro held
      simp only [constantStep?, enumerationStep?]
      first
        | exact .inl ⟨_, held, rfl⟩
        | exact .inr ⟨_, held, rfl⟩

/-- Where a step of a package comes from: it stands in the package, or in one nested in it. An included or
external package only leads to references. -/
theorem mem_packageSteps_succ {brackets : Bool} {fuel : Nat} {package : PackageId} :
    step ∈ packageSteps model brackets (fuel + 1) package ↔
      Enters model package ∧
        (member ∈ model.contents (some (.package package)) ∨
          ∃ nested, .package nested ∈ model.contents (some (.package package)) ∧
            step ∈ packageSteps model brackets fuel nested) := by
  obtain ⟨scope, record, own, _⟩ := step_ne valued
  rw [packageSteps_succ]
  split
  · rename_i changes
    have none : step ∉ referenceSteps model (fuel + 1) package := by
      intro reference
      obtain ⟨id, rfl⟩ := mem_referenceSteps reference
      exact (record id).2 rfl
    simp [Enters, none, changes]
  · rename_i enters
    have onward : step ∈ through (packageSteps model brackets fuel)
        (fun record => [recordStep model record]) (model.contents (some (.package package))) ↔
          ∃ nested, .package nested ∈ model.contents (some (.package package)) ∧
            step ∈ packageSteps model brackets fuel nested := by
      rw [through, List.mem_flatMap]
      constructor
      · rintro ⟨other, listed, found⟩
        cases other with
        | package nested => exact ⟨nested, listed, found⟩
        | record id =>
          have same := List.mem_singleton.mp found
          rw [recordStep] at same
          split at same
          · exact absurd same (record id).1
          · exact absurd same (record id).2
        | enumeration _ | constant _ => cases found
      · rintro ⟨nested, listed, found⟩
        exact ⟨.package nested, listed, found⟩
    rw [mem_bracket scope, List.mem_append, List.mem_append, onward, List.cons_append, List.mem_cons,
      List.mem_append, mem_values valued]
    simp [Enters, enters, (own package).1, (own package).2]

/-- In a package, after those around it have been entered, there are steps only for what has been
entered all the way. -/
theorem of_mem_packageSteps (wellScoped : model.WellScoped) {brackets : Bool} {fuel : Nat}
    {package : PackageId} (inside : package.index < model.packages.size)
    (around : ∀ outer ∈ model.enclosing package, outer ≠ package → Enters model outer)
    (visited : step ∈ packageSteps model brackets fuel package) :
    member.reference.InRange model.census ∧
      ∃ home, model.home member = some (.package home) ∧
        ∀ outer ∈ model.enclosing home, Enters model outer := by
  induction fuel generalizing package with
  | zero => cases visited
  | succ fuel ih =>
    obtain ⟨enters, found⟩ := (mem_packageSteps_succ valued).mp visited
    have all : ∀ outer ∈ model.enclosing package, Enters model outer := by
      intro outer among
      by_cases same : outer = package
      · exact same ▸ enters
      · exact around outer among same
    rcases found with here | ⟨nested, listed, visited⟩
    · obtain ⟨inRange, home⟩ := home_of_contents wellScoped here
      exact ⟨inRange, package, home, all⟩
    · obtain ⟨present, home⟩ := home_of_contents wellScoped listed
      obtain ⟨parent, parentOf, same⟩ := Option.map_eq_some_iff.mp home
      cases same
      have before := wellScoped.parentBefore nested present package parentOf
      refine ih present (fun outer among different => all outer ?_) visited
      rw [enclosing, parentOf] at among
      simpa [before, different] using among

/-- What is entered all the way has its step in each package on the way. -/
theorem mem_packageSteps (wellScoped : model.WellScoped) {home : PackageId}
    (inRange : member.reference.InRange model.census)
    (inside : home.index < model.packages.size) (at_home : model.home member = some (.package home))
    (enters : ∀ outer ∈ model.enclosing home, Enters model outer) (brackets : Bool) {fuel : Nat}
    {package : PackageId} (on : package ∈ model.enclosing home)
    (enough : model.packages.size ≤ package.index + fuel) :
    step ∈ packageSteps model brackets fuel package := by
  have bound : package.index < model.packages.size := Nat.lt_of_le_of_lt (enclosing_le on) inside
  induction fuel generalizing package with
  | zero => omega
  | succ fuel ih =>
    refine (mem_packageSteps_succ valued).mpr ⟨enters package on, ?_⟩
    obtain ⟨toward, among, same, _⟩ := exists_toward wellScoped inside at_home
      (List.mem_cons_of_mem _ (List.mem_map_of_mem on))
    rcases List.mem_cons.mp among with rfl | outer
    · exact .inl ((wellScoped.named.mem_iff inRange).mpr same)
    · obtain ⟨nested, within, rfl⟩ := List.mem_map.mp outer
      have present : (Member.package nested).reference.InRange model.census :=
        Nat.lt_of_le_of_lt (enclosing_le within) inside
      have listed := (wellScoped.named.mem_iff present).mpr same
      exact .inr ⟨nested, listed, ih within (fuel_nested wellScoped listed enough).2 present⟩

/-- A traversal visits the constants and enumerations of the packages that it goes into. -/
theorem mem_steps (wellScoped : model.WellScoped) (brackets : Bool) (outer : Option String) :
    step ∈ steps model brackets outer ↔ member.reference.InRange model.census ∧
      ∃ home, model.home member = some (.package home) ∧
        ∀ around ∈ model.enclosing home, Enters model around := by
  obtain ⟨scope, _, _, prologue, finish, epilogue⟩ := step_ne valued
  have roots : step ∈ steps model brackets outer ↔ ∃ root, .package root ∈ model.contents none ∧
      step ∈ packageSteps model brackets model.packages.size root := by
    simp only [steps, List.cons_append, List.mem_cons, List.mem_append, mem_bracket scope,
      List.mem_flatMap, List.not_mem_nil, prologue, finish, epilogue, false_or, or_false]
    constructor
    · rintro ⟨entry, listed, visited⟩
      exact ⟨entry.2, List.mem_map_of_mem listed, visited⟩
    · rintro ⟨root, listed, visited⟩
      obtain ⟨entry, held, same⟩ := List.mem_map.mp listed
      cases same
      exact ⟨entry, held, visited⟩
  rw [roots]
  constructor
  · rintro ⟨root, listed, visited⟩
    obtain ⟨present, outermost⟩ := home_of_contents wellScoped listed
    rw [home, Option.map_eq_none_iff] at outermost
    refine of_mem_packageSteps valued wellScoped present (fun around among different => ?_) visited
    rw [enclosing, outermost] at among
    exact absurd (List.mem_singleton.mp among) different
  · rintro ⟨inRange, home, at_home, enters⟩
    have inside : home.index < model.packages.size :=
      wellScoped.closed.home inRange (.package home) at_home
    obtain ⟨toward, among, same, _⟩ := exists_toward wellScoped inside at_home List.mem_cons_self
    rcases List.mem_cons.mp among with rfl | outer
    · rw [at_home] at same
      cases same
    · obtain ⟨root, within, rfl⟩ := List.mem_map.mp outer
      have present : (Member.package root).reference.InRange model.census :=
        Nat.lt_of_le_of_lt (enclosing_le within) inside
      exact ⟨root, (wellScoped.named.mem_iff present).mpr same,
        mem_packageSteps valued wellScoped inRange inside at_home enters brackets within
          (Nat.le_add_left ..)⟩

end Values

end Traversal

/-!
## What has declared a member
-/

/-- Whether a declaration is of the kind of a member. -/
def Declared.isOf : Declared → Member → Bool
  | .record _ _, .record _ => true
  | .constant _, .constant _ => true
  | .enumeration _, .enumeration _ => true
  | _, _ => false

def Declared.isValue : Declared → Bool
  | .record _ _ => false
  | .constant _ | .enumeration _ => true

private theorem Declared.isValue_eq {declaration : Declared} {member : Member}
    (isOf : declaration.isOf member) :
    declaration.isValue = (Traversal.valueStep? member).isSome := by
  cases declaration <;> cases member <;> first | rfl | cases isOf

/-- A unit declares a member of a package: something of its kind has its name there. -/
def SourceUnit.Brings (source : SourceUnit) (model : Model) (member : Member) : Prop :=
  ∃ package declaration, model.home member = some (.package package) ∧
    .declared (.package (model.packageNames package)) declaration ∈ Item.ofUnit source ∧
      declaration.isOf member ∧ declaration.name = model.memberName member

/-- Primary units open a package and all packages around it, and none of these is external. -/
def Model.Shown (units : List SourceUnit) (model : Model) (package : PackageId) : Prop :=
  ∀ outer ∈ model.enclosing package, (model.package outer).external = false ∧
    ∃ source ∈ units, source.included = false ∧ source.Opens (model.packageNames outer)

namespace Draft

variable {draft : Draft} {items : List Item}

private theorem isOf_of_waiting {member : Member} {declaration : Declared}
    (waits : (member, declaration) ∈ draft.waiting) : declaration.isOf member := by
  rcases mem_waiting.mp waits with ⟨_, _, rfl, rfl⟩ | ⟨_, _, rfl, rfl⟩ | ⟨_, _, rfl, rfl⟩ <;> rfl

private theorem Represents.exists_declaration (represents : draft.Represents items) {member : Member}
    (inRange : member.reference.InRange draft.model.census) (other : ∀ id, member ≠ .package id)
    {package : PackageId} (home : draft.model.home member = some (.package package)) :
    ∃ declaration, .declared (.package (draft.model.packageNames package)) declaration ∈ items ∧
      declaration.isOf member ∧ declaration.name = draft.model.memberName member := by
  rcases represents.waits inRange with ⟨id, same⟩ | ⟨declaration, waits⟩
  · exact absurd same (other id)
  · have site : draft.model.site (draft.model.home member) =
        .package (draft.model.packageNames package) := by rw [home, Model.site]
    exact ⟨declaration, represents.declared_iff.mpr ⟨member, waits, site⟩, isOf_of_waiting waits,
      (represents.names _ waits).symm⟩

private theorem Represents.exists_member (represents : draft.Represents items) {path : List String}
    {declaration : Declared} (held : .declared (.package path) declaration ∈ items) :
    ∃ member package, member.reference.InRange draft.model.census ∧ declaration.isOf member ∧
      draft.model.home member = some (.package package) ∧ draft.model.packageNames package = path ∧
        draft.model.memberName member = declaration.name := by
  obtain ⟨member, waits, site⟩ := represents.declared_iff.mp held
  have isOf := isOf_of_waiting waits
  have inRange := represents.consistent.waiting_inRange waits
  have named := represents.names _ waits
  cases home : draft.model.home member with
  | none =>
    cases member with
    | package _ => cases declaration <;> cases isOf
    | record _ | enumeration _ | constant _ => cases home
  | some scope =>
    cases scope with
    | package package =>
      rw [home] at site
      exact ⟨member, package, inRange, isOf, home, Site.package.inj site, named⟩
    | record record =>
      rw [home] at site
      cases site

end Draft

namespace Stages

variable {units : List SourceUnit} {built : Built} (stages : Stages units built)

include stages

private theorem exists_brings {member : Member} (inRange : member.reference.InRange built.model.census)
    (other : ∀ id, member ≠ .package id) {package : PackageId}
    (home : built.model.home member = some (.package package)) :
    ∃ source ∈ units, source.Brings built.model member := by
  have kept := stages.retained
  rw [kept.home] at home
  obtain ⟨declaration, held, isOf, name⟩ :=
    stages.represents.exists_declaration ((kept.inRange member).mp inRange) other home
  obtain ⟨source, among, stated⟩ := List.mem_flatMap.mp held
  refine ⟨source, among, package, declaration, (kept.home member).trans home, ?_, isOf, ?_⟩
  · rw [kept.packageNames]
    exact stated
  · rw [kept.memberName]
    exact name

private theorem exists_member {source : SourceUnit} (among : source ∈ units) {package : PackageId}
    (inside : package.index < built.model.packages.size) {declaration : Declared}
    (stated : .declared (.package (built.model.packageNames package)) declaration ∈
      Item.ofUnit source) :
    ∃ member, member.reference.InRange built.model.census ∧
      built.model.home member = some (.package package) ∧ declaration.isOf member ∧
        source.Brings built.model member := by
  have kept := stages.retained
  have represents := stages.represents
  obtain ⟨member, other, inRange, isOf, home, same, name⟩ :=
    represents.exists_member (List.mem_flatMap.mpr ⟨source, among, stated⟩)
  rw [kept.packageNames] at same
  rw [kept.packages] at inside
  have here : other = package := represents.wellNamed.packageNames_injective
    (represents.wellNamed.closed.home inRange (.package other) home) inside same
  rw [← kept.home, here] at home
  rw [← kept.memberName] at name
  exact ⟨member, (kept.inRange member).mpr inRange, home, isOf,
    package, declaration, home, stated, isOf, name.symm⟩

/-- A member has the key under which it is declared, and no two units share a key. -/
theorem brings_unique {member : Member} {one other : SourceUnit} (oneAmong : one ∈ units)
    (otherAmong : other ∈ units) (brings : one.Brings built.model member)
    (otherBrings : other.Brings built.model member) : one = other := by
  obtain ⟨package, declaration, home, stated, _, name⟩ := brings
  obtain ⟨_, declaration', home', stated', _, name'⟩ := otherBrings
  cases home.symm.trans home'
  by_contra different
  have distinct := stages.represents.fits.distinct
  rw [Item.ofUnits, List.filterMap_flatMap, List.nodup_flatMap] at distinct
  have symm : Std.Symm (Function.onFun List.Disjoint fun source =>
      (Item.ofUnit source).filterMap Item.key?) := ⟨fun _ _ apart _ one other => apart other one⟩
  have apart := distinct.2.forall oneAmong otherAmong different
  have key : ∀ {source : SourceUnit} {declaration : Declared},
      .declared (.package (built.model.packageNames package)) declaration ∈ Item.ofUnit source →
        declaration.name = built.model.memberName member →
          (.package (built.model.packageNames package), built.model.memberName member) ∈
            (Item.ofUnit source).filterMap Item.key? := by
    intro source declaration stated name
    exact List.mem_filterMap.mpr ⟨_, stated, by rw [Item.key?, name]⟩
  exact apart (key stated name) (key stated' name')

private theorem enters_iff {package : PackageId} (inside : package.index < built.model.packages.size) :
    (∀ outer ∈ built.model.enclosing package, Traversal.Enters built.model outer) ↔
      built.model.Shown units package := by
  have inclusion := stages.inclusion
  refine forall₂_congr fun outer around => ?_
  have bound : outer.index < built.model.packages.size :=
    stages.sound.closed.enclosing inside outer around
  rw [Traversal.Enters, Bool.or_eq_false_iff, and_comm, inclusion.package outer bound]

private theorem of_mem_steps_record {id : RecordId} {brackets : Bool} {outer : Option String}
    (visited : .record id ∈ Traversal.steps built.model brackets outer) :
    id.index < built.model.records.size ∧
      built.model.Shown units (built.model.record id).package ∧
        ∃ source ∈ units, source.included = false ∧ source.Brings built.model (.record id) := by
  have wellScoped : built.model.WellScoped := stages.sound.toWellScoped
  have inclusion := stages.inclusion
  have primary : ∀ id : RecordId, id.index < built.model.records.size →
      (built.model.record id).included = false →
        ∀ package ∈ built.model.enclosing (built.model.record id).package,
          (built.model.package package).included = false :=
    fun _ inside => inclusion.enclosing wellScoped.closed inside
  have counted := (Traversal.count_steps wellScoped primary brackets outer id).1
  by_cases emitted : id.index < built.model.records.size ∧ built.model.isEmitted id
  · obtain ⟨inside, emitted⟩ := emitted
    have marks := emitted
    simp only [isEmitted, Bool.and_eq_true, Bool.not_eq_true'] at marks
    obtain ⟨source, among, mark, declaration, name, stated⟩ :=
      (inclusion.record id inside).mp marks.1.1
    refine ⟨inside, (stages.enters_iff (wellScoped.closed.record inside).package).mp ?_,
      source, among, mark, _, _, rfl, stated, rfl, name⟩
    intro around within
    exact Traversal.not_cut (primary id inside) emitted
      (List.mem_cons_of_mem _ (List.mem_map_of_mem within))
  · rw [if_neg emitted] at counted
    exact absurd visited (List.count_eq_zero.mp counted)

open Traversal in
/-- A traversal visits the constants and enumerations of the packages that are shown. -/
theorem mem_steps_iff {member : Member} {step : Step} (valued : valueStep? member = some step)
    (brackets : Bool) (outer : Option String) :
    step ∈ steps built.model brackets outer ↔ member.reference.InRange built.model.census ∧
      ∃ package, built.model.home member = some (.package package) ∧
        built.model.Shown units package := by
  have wellScoped : built.model.WellScoped := stages.sound.toWellScoped
  rw [mem_steps valued wellScoped]
  refine and_congr_right fun inRange => exists_congr fun package => and_congr_right fun home => ?_
  exact stages.enters_iff (wellScoped.closed.home inRange (.package package) home)

end Stages

namespace Traversal

/-- The step with which a backend visits a member that is no package. -/
def visitStep? : Member → Option Step
  | .record id => some (.record id)
  | other => valueStep? other

private theorem visitStep?_eq_some_iff {member : Member} {step : Step} :
    visitStep? member = some step ↔
      valueStep? member = some step ∨ ∃ id, member = .record id ∧ step = .record id := by
  cases member <;> simp [visitStep?, valueStep?, eq_comm]

private theorem valueStep?_isCall {member : Member} {step : Step} (valued : valueStep? member = some step) :
    step.isCall := by
  cases member <;> cases valued <;> rfl

def Visited {σ : Type} (model : Model) (backend : Backend σ) (outer : Option String) (start : σ)
    (member : Member) : Prop :=
  ∃ step, visitStep? member = some step ∧ step ∈ (calls model backend outer start).map (·.1)

end Traversal

namespace Stages

open Traversal

variable {units : List SourceUnit} {built : Built} (stages : Stages units built) {σ : Type}
  {backend : Backend σ} {outer : Option String} {start : σ} {member : Member}

include stages

private theorem of_visited (visited : Visited built.model backend outer start member) :
    member.reference.InRange built.model.census ∧
      ∃ package, built.model.home member = some (.package package) ∧
        built.model.Shown units package ∧ ∃ source ∈ units, source.Brings built.model member ∧
          ∀ id, member = .record id → source.included = false := by
  obtain ⟨step, visits, called⟩ := visited
  have taken := mem_of_calls called
  rcases visitStep?_eq_some_iff.mp visits with valued | ⟨id, rfl, rfl⟩
  · obtain ⟨inRange, package, home, shown⟩ := (stages.mem_steps_iff valued _ _).mp taken
    have other : ∀ id, member ≠ .package id := by
      rintro id rfl
      cases valued
    obtain ⟨source, among, brings⟩ := stages.exists_brings inRange other home
    refine ⟨inRange, package, home, shown, source, among, brings, ?_⟩
    rintro id rfl
    cases valued
  · obtain ⟨inside, shown, source, among, mark, brings⟩ := stages.of_mem_steps_record taken
    exact ⟨inside, _, rfl, shown, source, among, brings, fun _ _ => mark⟩

section Success

variable (succeed : ∀ call ∈ calls built.model backend outer start, call.2 = true)

include succeed

private theorem visited_iff_shown {package : PackageId} (isValue : (valueStep? member).isSome)
    (inRange : member.reference.InRange built.model.census)
    (home : built.model.home member = some (.package package)) :
    Visited built.model backend outer start member ↔ built.model.Shown units package := by
  constructor
  · intro visited
    obtain ⟨_, other, same, shown, _⟩ := stages.of_visited visited
    cases home.symm.trans same
    exact shown
  · intro shown
    obtain ⟨step, valued⟩ := Option.isSome_iff_exists.mp isValue
    obtain ⟨_, _, _, _, complete⟩ := run_watched built.model backend outer start
    obtain ⟨_, made⟩ := complete succeed
    have taken := (stages.mem_steps_iff valued backend.brackets outer).mpr
      ⟨inRange, package, home, shown⟩
    refine ⟨step, visitStep?_eq_some_iff.mpr (.inl valued), ?_⟩
    rw [made, List.map_map]
    exact List.mem_map.mpr ⟨step, List.mem_filter.mpr ⟨taken, valueStep?_isCall valued⟩, rfl⟩

/-- Nothing of what an included unit declares is visited if and only if it declares no constant or
enumeration in a package that is shown. -/
theorem visits_primary_iff :
    (∀ member, Visited built.model backend outer start member →
        ∃ source ∈ units, source.included = false ∧ source.Brings built.model member) ↔
      ∀ source ∈ units, source.included = true → ∀ package declaration,
        package.index < built.model.packages.size → built.model.Shown units package →
          .declared (.package (built.model.packageNames package)) declaration ∈
            Item.ofUnit source → ¬ declaration.isValue := by
  constructor
  · intro primary source among included package declaration inside shown stated isValue
    obtain ⟨member, inRange, home, isOf, brings⟩ := stages.exists_member among inside stated
    rw [Declared.isValue_eq isOf] at isValue
    obtain ⟨source', among', mark, brings'⟩ :=
      primary member ((stages.visited_iff_shown succeed isValue inRange home).mpr shown)
    cases stages.brings_unique among among' brings brings'
    rw [included] at mark
    cases mark
  · intro none member visited
    obtain ⟨inRange, package, home, shown, source, among, brings, ofRecord⟩ :=
      stages.of_visited visited
    refine ⟨source, among, ?_, brings⟩
    by_contra mark
    obtain ⟨other, declaration, home', stated, isOf, _⟩ := brings
    cases home.symm.trans home'
    have inside := stages.sound.closed.home inRange (.package package) home
    have noValue := none source among (by simpa using mark) package declaration inside shown stated
    rw [Declared.isValue_eq isOf] at noValue
    cases member with
    | record id => exact mark (ofRecord id rfl)
    | enumeration _ | constant _ => exact noValue rfl
    | package _ => cases declaration <;> cases isOf

end Success

end Stages

namespace Traversal

/-- A backend visits only what some unit has declared, in packages that are shown; a record type only
if a primary unit has declared it. If it succeeds in all that it is asked to do, it visits all
constants and enumerations of the packages that are shown. So it visits declarations of primary units
alone if and only if no included unit declares a constant or enumeration in such a package. -/
theorem build_visits {units : List SourceUnit} {built : Built} (accepted : build units = .ok built)
    {σ : Type} (backend : Backend σ) (outer : Option String) (start : σ) :
    (∀ member, Visited built.model backend outer start member →
        member.reference.InRange built.model.census ∧
          ∃ package, built.model.home member = some (.package package) ∧
            built.model.Shown units package ∧
              ∃ source ∈ units, source.Brings built.model member ∧
                ∀ id, member = .record id → source.included = false) ∧
      ((∀ call ∈ calls built.model backend outer start, call.2 = true) →
        (∀ member package, (valueStep? member).isSome →
            member.reference.InRange built.model.census →
              built.model.home member = some (.package package) →
                (Visited built.model backend outer start member ↔
                  built.model.Shown units package)) ∧
          ((∀ member, Visited built.model backend outer start member →
              ∃ source ∈ units, source.included = false ∧ source.Brings built.model member) ↔
            ∀ source ∈ units, source.included = true → ∀ package declaration,
              package.index < built.model.packages.size → built.model.Shown units package →
                .declared (.package (built.model.packageNames package)) declaration ∈
                  Item.ofUnit source → ¬ declaration.isValue)) := by
  obtain ⟨stages⟩ := build_stages accepted
  refine ⟨fun member visited => stages.of_visited visited, fun succeed => ⟨?_, ?_⟩⟩
  · intro member package isValue inRange home
    exact stages.visited_iff_shown succeed isValue inRange home
  · exact stages.visits_primary_iff succeed

/-- A package is opened by a unit that is only read for its declarations and by a primary unit. -/
def sharingUnits : List SourceUnit :=
  [{ document :=
      { packages :=
          [.mk "Shared" none [] [{ name := "limit", value := some "16" }]
            [{ name := some "Mode", constants := [{ name := "Fast", value := some "1" }] }] []
            [{ name := "Base" }]] },
     included := true },
    { document := { packages := [.mk "Shared" none [] [] [] [] [{ name := "Part" }]] } }]

theorem build_visits_sample : ∃ built, build sharingUnits = .ok built ∧
    (∀ call ∈ calls built.model visitCount none 0, call.2 = true) ∧
    Visited built.model visitCount none 0 (.constant ⟨0⟩) ∧
    built.model.Shown sharingUnits ⟨0⟩ ∧
    ∃ source ∈ sharingUnits, source.included = false ∧ source.Brings built.model (.record ⟨1⟩) := by
  have computed : ∃ built, build sharingUnits = .ok built ∧
      (∀ call ∈ calls built.model visitCount none 0, call.2 = true) ∧
      0 < built.model.constants.size ∧
      built.model.home (.constant ⟨0⟩) = some (.package ⟨0⟩) ∧
      .constant ⟨0⟩ ∈ (calls built.model visitCount none 0).map (·.1) ∧
      .record ⟨1⟩ ∈ (calls built.model visitCount none 0).map (·.1) :=
    exists_built (by decide +kernel)
  obtain ⟨built, accepted, succeed, inside, home, constant, record⟩ := computed
  obtain ⟨only, complete⟩ := build_visits accepted visitCount none 0
  obtain ⟨all, _⟩ := complete succeed
  have visited : Visited built.model visitCount none 0 (.constant ⟨0⟩) := ⟨_, rfl, constant⟩
  obtain ⟨_, _, _, _, source, among, brings, primary⟩ := only (.record ⟨1⟩) ⟨_, rfl, record⟩
  exact ⟨built, accepted, succeed, visited, (all (.constant ⟨0⟩) ⟨0⟩ rfl inside home).mp visited,
    source, among, primary ⟨1⟩ rfl, brings⟩

/-- A constant and an enumeration that no primary unit declares are visited. -/
theorem build_not_primary : ∃ built, build sharingUnits = .ok built ∧
    (¬ ∀ id, Visited built.model visitCount none 0 (.constant id) →
      ∃ source ∈ sharingUnits, source.included = false ∧
        source.Brings built.model (.constant id)) ∧
    ¬ ∀ id, Visited built.model visitCount none 0 (.enumeration id) →
      ∃ source ∈ sharingUnits, source.included = false ∧
        source.Brings built.model (.enumeration id) := by
  have computed : ∃ built, build sharingUnits = .ok built ∧
      (built.model.home (.constant ⟨0⟩) = some (.package ⟨0⟩) ∧
        built.model.memberName (.constant ⟨0⟩) = "limit") ∧
      (built.model.home (.enumeration ⟨0⟩) = some (.package ⟨0⟩) ∧
        built.model.memberName (.enumeration ⟨0⟩) = "Mode") ∧
      built.model.packageNames ⟨0⟩ = ["Shared"] ∧
      .constant ⟨0⟩ ∈ (calls built.model visitCount none 0).map (·.1) ∧
      .enumeration ⟨0⟩ ∈ (calls built.model visitCount none 0).map (·.1) :=
    exists_built (by decide +kernel)
  obtain ⟨built, accepted, constant, enumeration, path, limit, mode⟩ := computed
  have absent : ∀ {member name}, built.model.home member = some (.package ⟨0⟩) ∧
      built.model.memberName member = name →
      (∀ source ∈ sharingUnits, source.included = false →
        (Site.package ["Shared"], name) ∉ (Item.ofUnit source).filterMap Item.key?) →
        ¬ ∃ source ∈ sharingUnits, source.included = false ∧ source.Brings built.model member := by
    rintro member name ⟨home, same⟩ free ⟨source, among, mark, package, declaration, at_home, stated, _,
      named⟩
    cases home.symm.trans at_home
    refine free source among mark (List.mem_filterMap.mpr ⟨_, stated, ?_⟩)
    rw [Item.key?, path, named, same]
  refine ⟨built, accepted, fun all => ?_, fun all => ?_⟩
  · exact absent constant (by decide +kernel) (all ⟨0⟩ ⟨_, rfl, limit⟩)
  · exact absent enumeration (by decide +kernel) (all ⟨0⟩ ⟨_, rfl, mode⟩)

end Traversal

end RecordSchema
