import RecordSchema.Proofs.Traversal.Shown
import RecordSchema.Proofs.Traversal.Visits

/-!
# The word of a traversal

A run is a word of calls and of namespaces that are opened and closed. The word of a package is made of
the words of its members, and whatever a package holds stands between the two calls for the package
itself. So the words are well nested, and a run that fails does so because a hook fails.
-/

set_option autoImplicit false

namespace RecordSchema

open Model

/-- The hook that a step calls. -/
def Backend.hook {σ : Type} (backend : Backend σ) (model : Model) : Step → Emission σ Generated
  | .prologue => backend.prologue model
  | .enter id => backend.enterPackage model id
  | .constant id => backend.visitConstant model id
  | .enumeration id => backend.visitEnumeration model id
  | .record id => backend.visitRecord model id
  | .reference id => backend.referenceRecord model id
  | .leave id => backend.leavePackage model id
  | .finish => backend.finish model
  | .epilogue => backend.epilogue model
  | .openNamespace _ | .closeNamespace => pure {}

/-- The declaration that a step is for. -/
def Step.subject? : Step → Option Member
  | enter id | leave id => some (.package id)
  | constant id => some (.constant id)
  | enumeration id => some (.enumeration id)
  | record id | reference id => some (.record id)
  | _ => none

namespace Traversal

/-!
## Words
-/

/-- What happens in a run: a hook is called, or a namespace is opened or closed. -/
inductive Event where
  | called (step : Step)
  | opened (name : String)
  | closed (name : String)
deriving DecidableEq

def within (name : Option String) (word : List Event) : List Event :=
  match name with
  | some name => .opened name :: word ++ [.closed name]
  | none => word

/-- Calls for a package and namespaces come in pairs, one within the other. -/
inductive WellNested : List Event → Prop where
  | nil : WellNested []
  | append {word later : List Event} : WellNested word → WellNested later → WellNested (word ++ later)
  | called {step : Step} : (∀ id, step ≠ .enter id ∧ step ≠ .leave id) → WellNested [.called step]
  | package (id : PackageId) {word : List Event} : WellNested word →
      WellNested (.called (.enter id) :: word ++ [.called (.leave id)])
  | bracketed (name : String) {word : List Event} : WellNested word →
      WellNested (.opened name :: word ++ [.closed name])

theorem WellNested.within {word : List Event} (nested : WellNested word) (name : Option String) :
    WellNested (within name word) := by
  cases name with
  | none => exact nested
  | some name => exact .bracketed name nested

/-- What steps come to, if each namespace that they open is also closed. -/
inductive Spells : List Step → List Event → Prop where
  | nil : Spells [] []
  | call {step : Step} : step.isCall → Spells [step] [.called step]
  | append {first second : List Step} {word later : List Event} :
      Spells first word → Spells second later → Spells (first ++ second) (word ++ later)
  | bracketed {name : String} {steps : List Step} {word : List Event} : Spells steps word →
      Spells (.openNamespace name :: steps ++ [.closeNamespace])
        (.opened name :: word ++ [.closed name])

theorem Spells.within {steps : List Step} {word : List Event} (spells : Spells steps word)
    (name : Option String) : Spells (bracket name steps) (within name word) := by
  cases name with
  | none => exact spells
  | some name => exact .bracketed spells

theorem Spells.calls {steps : List Step} (isCall : ∀ step ∈ steps, step.isCall) :
    Spells steps (steps.map .called) := by
  induction steps with
  | nil => exact .nil
  | cons step rest ih =>
    obtain ⟨here, others⟩ := List.forall_mem_cons.mp isCall
    exact .append (.call here) (ih others)

/-- The texts of a word, one after the other: each call adds what its hook gives, in the state that the
calls before it leave, and each namespace adds its line to both texts. -/
inductive Wrote {σ : Type} (model : Model) (backend : Backend σ) :
    σ → List Event → Generated → σ → Prop where
  | nil (state : σ) : Wrote model backend state [] {} state
  | called {state later last : σ} {step : Step} {text more : Generated} {word : List Event} :
      (backend.hook model step).run.run state = (.ok text, later) →
      Wrote model backend later word more last →
      Wrote model backend state (.called step :: word) (text ++ more) last
  | opened {state last : σ} {name : String} {more : Generated} {word : List Event} :
      Wrote model backend state word more last →
      Wrote model backend state (.opened name :: word)
        (⟨"namespace " ++ name ++ " \x7b\n", "namespace " ++ name ++ " \x7b\n"⟩ ++ more) last
  | closed {state last : σ} {name : String} {more : Generated} {word : List Event} :
      Wrote model backend state word more last →
      Wrote model backend state (.closed name :: word)
        (⟨"\x7d // namespace " ++ name ++ "\n", "\x7d // namespace " ++ name ++ "\n"⟩ ++ more) last

section Runs

variable {σ : Type} {model : Model} {backend : Backend σ}

theorem Wrote.append {start between last : σ} {word later : List Event} {text more : Generated}
    (first : Wrote model backend start word text between)
    (second : Wrote model backend between later more last) :
    Wrote model backend start (word ++ later) (text ++ more) last := by
  induction first with
  | nil => exact (Generated.empty_append more).symm ▸ second
  | called ran _ ih =>
    rw [Generated.append_assoc]
    exact .called ran (ih second)
  | opened _ ih =>
    rw [Generated.append_assoc]
    exact .opened (ih second)
  | closed _ ih =>
    rw [Generated.append_assoc]
    exact .closed (ih second)

theorem step_call (output : Output) {step : Step} (isCall : step.isCall) :
    Traversal.step model backend output step = output.add (backend.hook model step) := by
  cases step <;> first | rfl | cases isCall

private theorem run_bind_error {α β : Type} {first : Emission σ α} {next : α → Emission σ β}
    {fault : GenerationFault} {state last : σ}
    (ran : (first >>= next).run.run state = (.error fault, last)) :
    first.run.run state = (.error fault, last) ∨
      ∃ value between, first.run.run state = (.ok value, between) ∧
        (next value).run.run between = (.error fault, last) := by
  rw [run_bind] at ran
  split at ran
  · rename_i value between taken
    exact .inr ⟨value, between, taken, ran⟩
  · rename_i taken
    cases ran
    exact .inl taken

theorem Spells.taken {steps : List Step} {word : List Event} (spells : Spells steps word)
    {output after : Output} {state last : σ}
    (taken : (steps.foldlM (step model backend) output).run.run state = (.ok after, last)) :
    ∃ text, Wrote model backend state word text last ∧
      after = ⟨output.generated ++ text, output.scopes⟩ := by
  induction spells generalizing output after state last with
  | nil =>
    cases taken
    exact ⟨{}, .nil _, by rw [Generated.append_empty]⟩
  | call isCall =>
    rw [List.foldlM_cons, step_call output isCall] at taken
    obtain ⟨_, between, added, taken⟩ := run_bind_ok taken
    cases taken
    obtain ⟨text, ran, same⟩ := add_ok added
    have whole := Wrote.called ran (.nil last)
    rw [Generated.append_empty] at whole
    exact ⟨text, whole, same⟩
  | append _ _ ih ihLater =>
    rw [List.foldlM_append] at taken
    obtain ⟨middle, between, first, second⟩ := run_bind_ok taken
    obtain ⟨text, wrote, rfl⟩ := ih first
    obtain ⟨more, wroteLater, rfl⟩ := ihLater second
    exact ⟨text ++ more, wrote.append wroteLater, by rw [Generated.append_assoc]⟩
  | @bracketed name steps word _ ih =>
    rw [List.cons_append, List.foldlM_cons] at taken
    obtain ⟨_, _, opens, taken⟩ := run_bind_ok taken
    cases opens
    rw [List.foldlM_append] at taken
    obtain ⟨_, between, inner, closes⟩ := run_bind_ok taken
    obtain ⟨text, wrote, rfl⟩ := ih inner
    cases closes
    have closing : Wrote model backend last [.closed name] (closing name ++ {}) last :=
      .closed (.nil last)
    refine ⟨_, .opened (wrote.append closing), ?_⟩
    rw [Output.openNamespace, Generated.append_empty, Generated.append_assoc, Generated.append_assoc]
    rfl

/-- No namespace is closed that is not open, so only hooks can fail. -/
theorem Spells.failed {steps : List Step} {word : List Event} (spells : Spells steps word)
    {output : Output} {fault : GenerationFault} {state last : σ}
    (failed : (steps.foldlM (step model backend) output).run.run state = (.error fault, last)) :
    ∃ step ∈ steps, step.isCall ∧
      ∃ before, (backend.hook model step).run.run before = (.error fault, last) := by
  induction spells generalizing output state with
  | nil => cases failed
  | @call step isCall =>
    rw [List.foldlM_cons, step_call output isCall] at failed
    rcases run_bind_error failed with added | ⟨_, _, _, impossible⟩
    · rcases run_bind_error added with failed | ⟨_, _, _, impossible⟩
      · exact ⟨step, List.mem_singleton_self _, isCall, state, failed⟩
      · cases impossible
    · cases impossible
  | append _ _ ih ihLater =>
    rw [List.foldlM_append] at failed
    rcases run_bind_error failed with first | ⟨_, between, _, second⟩
    · obtain ⟨step, member, found⟩ := ih first
      exact ⟨step, List.mem_append_left _ member, found⟩
    · obtain ⟨step, member, found⟩ := ihLater second
      exact ⟨step, List.mem_append_right _ member, found⟩
  | bracketed inner ih =>
    rw [List.cons_append, List.foldlM_cons] at failed
    rcases run_bind_error failed with impossible | ⟨_, _, opens, failed⟩
    · cases impossible
    cases opens
    rw [List.foldlM_append] at failed
    rcases run_bind_error failed with failed | ⟨_, between, taken, closes⟩
    · obtain ⟨step, member, found⟩ := ih failed
      exact ⟨step, List.mem_cons_of_mem _ (List.mem_append_left _ member), found⟩
    · obtain ⟨_, _, rfl⟩ := inner.taken taken
      cases closes

end Runs

/-!
## The word of a package
-/

/-- What comes in a package before its nested packages and record types. -/
def entry (model : Model) (brackets : Bool) (id : PackageId) : List Event :=
  let members := model.contents (some (.package id))
  (if brackets then [.opened (Cpp.packageNamespace model id)] else []) ++
    (Step.enter id :: members.filterMap constantStep? ++ members.filterMap enumerationStep?).map
      .called

/-- What comes after them. -/
def exit (model : Model) (brackets : Bool) (id : PackageId) : List Event :=
  .called (.leave id) ::
    if brackets then [.closed (Cpp.packageNamespace model id)] else []

/-- The words of members in the order of their declaration. Where the members of a package are `shown`,
a package that is neither included nor external is entered, and has its word for itself; of any other
the record types are referred to. -/
inductive Meets (model : Model) (brackets : Bool) : Bool → List Member → List Event → Prop where
  | nil {shown : Bool} : Meets model brackets shown [] []
  | value {shown : Bool} {member : Member} {members : List Member} {word : List Event} :
      (valueStep? member).isSome → Meets model brackets shown members word →
      Meets model brackets shown (member :: members) word
  | record (id : RecordId) {members : List Member} {word : List Event} :
      Meets model brackets true members word →
      Meets model brackets true (.record id :: members) (.called (recordStep model id) :: word)
  | reference (id : RecordId) {members : List Member} {word : List Event} :
      Meets model brackets false members word →
      Meets model brackets false (.record id :: members) (.called (.reference id) :: word)
  | entered {package : PackageId} {members : List Member} {inner word : List Event} :
      Enters model package →
      Meets model brackets true (model.contents (some (.package package))) inner →
      Meets model brackets true members word →
      Meets model brackets true (.package package :: members)
        (entry model brackets package ++ inner ++ exit model brackets package ++ word)
  | passed {shown : Bool} {package : PackageId} {members : List Member}
      {inner word : List Event} :
      (shown = true → ¬ Enters model package) →
      Meets model brackets false (model.contents (some (.package package))) inner →
      Meets model brackets shown members word →
      Meets model brackets shown (.package package :: members) (inner ++ word)

section Grammar

variable {model : Model} {brackets : Bool}

private theorem package_word (id : PackageId) (inner : List Event) :
    entry model brackets id ++ inner ++ exit model brackets id =
      within (if brackets then some (Cpp.packageNamespace model id) else none)
        (.called (.enter id) ::
          (((model.contents (some (.package id))).filterMap constantStep? ++
            (model.contents (some (.package id))).filterMap enumerationStep?).map .called ++ inner) ++
          [.called (.leave id)]) := by
  cases brackets <;> simp [entry, exit, within]

theorem Meets.cons {shown : Bool} {member : Member} {members : List Member}
    {word later : List Event} (first : Meets model brackets shown [member] word)
    (rest : Meets model brackets shown members later) :
    Meets model brackets shown (member :: members) (word ++ later) := by
  have empty : ∀ {shown word}, Meets model brackets shown [] word → word = [] := by
    intro shown word none
    cases none
    rfl
  cases first with
  | value valued none =>
    cases empty none
    exact .value valued rest
  | record id none =>
    cases empty none
    exact .record id rest
  | reference id none =>
    cases empty none
    exact .reference id rest
  | entered enters inner none =>
    cases empty none
    rw [List.append_nil]
    exact .entered enters inner rest
  | passed passes inner none =>
    cases empty none
    rw [List.append_nil]
    exact .passed passes inner rest

private theorem through_meets {shown : Bool} {package : PackageId → List Step}
    {record : RecordId → List Step} {members : List Member}
    (each : ∀ member ∈ members, ∃ word, Spells (onward package record member) word ∧
      Meets model brackets shown [member] word) :
    ∃ word, Spells (through package record members) word ∧
      Meets model brackets shown members word := by
  induction members with
  | nil => exact ⟨[], .nil, .nil⟩
  | cons member rest ih =>
    obtain ⟨here, others⟩ := List.forall_mem_cons.mp each
    obtain ⟨word, spells, meets⟩ := here
    obtain ⟨later, spellsLater, meetsLater⟩ := ih others
    exact ⟨word ++ later, .append spells spellsLater, meets.cons meetsLater⟩

private theorem value_meets {shown : Bool} {package : PackageId → List Step}
    {record : RecordId → List Step} {member : Member} (valued : (valueStep? member).isSome) :
    ∃ word, Spells (onward package record member) word ∧
      Meets model brackets shown [member] word := by
  refine ⟨[], ?_, .value valued .nil⟩
  cases member with
  | package _ | record _ => cases valued
  | enumeration _ | constant _ => exact .nil

private theorem referenceSteps_meets (wellScoped : model.WellScoped) {package : PackageId} {shown : Bool}
    (passes : shown = true → ¬ Enters model package) {fuel : Nat}
    (inside : package.index < model.packages.size)
    (enough : model.packages.size ≤ package.index + fuel) :
    ∃ word, Spells (referenceSteps model fuel package) word ∧
      Meets model brackets shown [.package package] word := by
  induction fuel generalizing package shown with
  | zero => omega
  | succ fuel ih =>
    have members : ∀ member ∈ model.contents (some (.package package)), ∃ word,
        Spells (onward (referenceSteps model fuel) (fun id => [.reference id]) member) word ∧
          Meets model brackets false [member] word := by
      intro member listed
      cases member with
      | package nested =>
        obtain ⟨present, later⟩ := fuel_nested wellScoped listed enough
        exact ih nofun present later
      | record id => exact ⟨_, .call rfl, .reference id .nil⟩
      | enumeration _ | constant _ => exact value_meets rfl
    obtain ⟨inner, spells, meets⟩ := through_meets members
    rw [referenceSteps_succ]
    refine ⟨inner, spells, ?_⟩
    have whole : Meets model brackets shown [.package package] (inner ++ []) :=
      .passed passes meets .nil
    rwa [List.append_nil] at whole

private theorem recordStep_isCall (id : RecordId) : (recordStep model id).isCall := by
  rw [recordStep]
  split <;> rfl

private theorem packageSteps_meets (wellScoped : model.WellScoped) {package : PackageId} {fuel : Nat}
    (inside : package.index < model.packages.size)
    (enough : model.packages.size ≤ package.index + fuel) :
    ∃ word, Spells (packageSteps model brackets fuel package) word ∧
      Meets model brackets true [.package package] word := by
  induction fuel generalizing package with
  | zero => omega
  | succ fuel ih =>
    rw [packageSteps_succ]
    split
    · rename_i stops
      refine referenceSteps_meets wellScoped (fun _ enters => ?_) inside enough
      rw [Enters, stops] at enters
      cases enters
    · rename_i enters
      have members : ∀ member ∈ model.contents (some (.package package)), ∃ word,
          Spells (onward (packageSteps model brackets fuel)
            (fun record => [recordStep model record]) member) word ∧
            Meets model brackets true [member] word := by
        intro member listed
        cases member with
        | package nested =>
          obtain ⟨present, later⟩ := fuel_nested wellScoped listed enough
          exact ih present later
        | record id => exact ⟨_, .call (recordStep_isCall id), .record id .nil⟩
        | enumeration _ | constant _ => exact value_meets rfl
      obtain ⟨inner, spells, meets⟩ := through_meets members
      have declared : Spells (.enter package ::
          (model.contents (some (.package package))).filterMap constantStep? ++
            (model.contents (some (.package package))).filterMap enumerationStep?) _ :=
        .calls fun _ member => (declared_isCall member).1
      have leave : Spells [.leave package] [.called (.leave package)] := .call rfl
      have whole := ((declared.append spells).append leave).within
        (if brackets then some (Cpp.packageNamespace model package) else none)
      have entered := Meets.entered (by simpa [Enters] using enters) meets .nil
      rw [List.append_nil, package_word] at entered
      exact ⟨_, whole, by simpa using entered⟩

theorem steps_meets (wellScoped : model.WellScoped) (brackets : Bool) (outer : Option String) :
    ∃ packages, Meets model brackets true (model.contents none) packages ∧
      Spells (steps model brackets outer)
        (.called .prologue :: within outer (packages ++ [.called .finish]) ++
          [.called .epilogue]) := by
  have members : ∀ member ∈ model.contents none, ∃ word,
      Spells (onward (packageSteps model brackets model.packages.size)
        (fun record => [recordStep model record]) member) word ∧
        Meets model brackets true [member] word := by
    intro member listed
    obtain ⟨root, _, rfl⟩ := List.mem_map.mp listed
    exact packageSteps_meets wellScoped (wellScoped.closed.contents none _ listed)
      (Nat.le_add_left ..)
  obtain ⟨packages, spells, meets⟩ := through_meets members
  rw [through, contents, List.flatMap_map] at spells
  refine ⟨packages, meets, ?_⟩
  exact (Spells.append (.call rfl) ((spells.append (.call rfl)).within outer)).append (.call rfl)

private theorem values_quiet {members : List Member} {step : Step}
    (member : step ∈ members.filterMap constantStep? ++ members.filterMap enumerationStep?) :
    ∃ other ∈ members, step.subject? = some other ∧ ∀ id, step ≠ .enter id ∧ step ≠ .leave id := by
  rcases List.mem_append.mp member with constant | enumeration
  · obtain ⟨other, listed, found⟩ := List.mem_filterMap.mp constant
    cases other <;> cases found
    exact ⟨_, listed, rfl, by simp⟩
  · obtain ⟨other, listed, found⟩ := List.mem_filterMap.mp enumeration
    cases other <;> cases found
    exact ⟨_, listed, rfl, by simp⟩

theorem WellNested.calls {steps : List Step}
    (quiet : ∀ step ∈ steps, ∀ id, step ≠ .enter id ∧ step ≠ .leave id) :
    WellNested (steps.map .called) := by
  induction steps with
  | nil => exact .nil
  | cons step rest ih =>
    obtain ⟨here, others⟩ := List.forall_mem_cons.mp quiet
    exact .append (.called here) (ih others)

private theorem Meets.wellNested {shown : Bool} {members : List Member} {word : List Event}
    (meets : Meets model brackets shown members word) : WellNested word := by
  induction meets with
  | nil => exact .nil
  | value _ _ ih => exact ih
  | record id _ ih =>
    refine .append (.called ?_) ih
    intro package
    rw [recordStep]
    split <;> simp
  | reference id _ ih => exact .append (.called (by simp)) ih
  | @entered package _ _ _ _ _ _ ihInner ih =>
    rw [package_word]
    have values : WellNested (((model.contents (some (.package package))).filterMap constantStep? ++
        (model.contents (some (.package package))).filterMap enumerationStep?).map .called) := by
      refine .calls fun step member => ?_
      obtain ⟨_, _, _, quiet⟩ := values_quiet member
      exact quiet
    exact .append (.within (.package package (values.append ihInner)) _) ih
  | passed _ _ _ ihInner ih => exact .append ihInner ih

end Grammar

end Traversal

/-!
## What stands in a package
-/

namespace Model

/-- A declaration stands in a package, or in one nested in it. -/
def StandsIn (model : Model) (package : PackageId) (member : Member) : Prop :=
  ∃ home, model.home member = some (.package home) ∧ package ∈ model.enclosing home

/-- A declaration has nothing to do with a package: it is neither in it nor around it. -/
def Apart (model : Model) (package : PackageId) (member : Member) : Prop :=
  ¬ model.StandsIn package member ∧ ∀ outer ∈ model.enclosing package, member ≠ .package outer

section Places

variable {model : Model} (wellScoped : model.WellScoped)

include wellScoped

private theorem mem_enclosing {package nested : PackageId} (inside : nested.index < model.packages.size) :
    package ∈ model.enclosing nested ↔
      package = nested ∨ model.StandsIn package (.package nested) := by
  cases found : (model.package nested).parent with
  | none =>
    have outermost : ¬ model.StandsIn package (.package nested) := by
      rintro ⟨home, same, _⟩
      rw [Model.home, found] at same
      cases same
    rw [enclosing, found]
    simp [outermost]
  | some parent =>
    have before := wellScoped.parentBefore nested inside parent found
    rw [enclosing, found]
    simp [before, StandsIn, Model.home, found]

/-- No package stands in itself. -/
theorem not_standsIn_self {package : PackageId} (inside : package.index < model.packages.size) :
    ¬ model.StandsIn package (.package package) := by
  rintro ⟨home, same, around⟩
  obtain ⟨parent, found, equal⟩ := Option.map_eq_some_iff.mp same
  cases equal
  have before := wellScoped.parentBefore package inside home found
  exact Nat.lt_irrefl _ (Nat.lt_of_lt_of_le before (enclosing_le around))

theorem StandsIn.further {package nested : PackageId} {member : Member}
    (within : nested = package ∨ model.StandsIn package (.package nested))
    (inside : nested.index < model.packages.size)
    (listed : member ∈ model.contents (some (.package nested))) :
    model.StandsIn package member :=
  ⟨nested, (home_of_contents wellScoped listed).2,
    (mem_enclosing wellScoped inside).mpr (within.imp_left Eq.symm)⟩

theorem Apart.further {package nested : PackageId} {member : Member}
    (apart : model.Apart package (.package nested)) (inside : nested.index < model.packages.size)
    (listed : member ∈ model.contents (some (.package nested))) : model.Apart package member := by
  obtain ⟨inRange, home⟩ := home_of_contents wellScoped listed
  refine ⟨?_, ?_⟩
  · rintro ⟨other, same, around⟩
    rw [home] at same
    cases same
    rcases (mem_enclosing wellScoped inside).mp around with rfl | within
    · exact apart.2 package (model.self_mem_enclosing package) rfl
    · exact apart.1 within
  · rintro outer around rfl
    obtain ⟨parent, found, same⟩ := Option.map_eq_some_iff.mp home
    cases same
    exact apart.2 nested (enclosing_parent wellScoped around inRange found) rfl

/-- What stands beside a package, or beside one around it, does not stand in it. -/
theorem not_standsIn_beside {package toward : PackageId}
    (inside : package.index < model.packages.size) (on : toward ∈ model.enclosing package)
    {member : Member} (beside : model.home member = model.home (.package toward)) :
    ¬ model.StandsIn package member := by
  rintro ⟨home, same, around⟩
  obtain ⟨parent, found, equal⟩ := Option.map_eq_some_iff.mp (beside ▸ same)
  cases equal
  have before := wellScoped.parentBefore toward (Nat.lt_of_le_of_lt (enclosing_le on) inside) home found
  have bound := Nat.le_trans (enclosing_le on) (enclosing_le around)
  omega

/-- The packages around a package stand in different places. -/
theorem enclosing_unique {package first second : PackageId}
    (inside : package.index < model.packages.size) (one : first ∈ model.enclosing package)
    (other : second ∈ model.enclosing package)
    (same : model.home (.package first) = model.home (.package second)) : first = second := by
  fun_induction model.enclosing package with
  | case1 id root | case3 id parent found after =>
    rw [List.mem_singleton.mp one, List.mem_singleton.mp other]
  | case2 id parent found before ih =>
    have present := wellScoped.closed.parent id parent found
    have further : ∀ {outer}, outer ∈ model.enclosing parent →
        model.home (.package outer) ≠ model.home (.package id) := by
      intro outer around beside
      have within : model.StandsIn parent (.package id) :=
        ⟨parent, by rw [Model.home, found]; rfl, model.self_mem_enclosing parent⟩
      exact not_standsIn_beside wellScoped present around beside.symm within
    rcases List.mem_cons.mp one with here | above <;>
      rcases List.mem_cons.mp other with also | beyond
    · rw [here, also]
    · exact absurd (here ▸ same.symm) (further beyond)
    · exact absurd (also ▸ same) (further above)
    · exact ih present above beyond

/-- Of what stands beside a package, or beside one around it, only that one has to do with it. -/
theorem apart_beside {package toward : PackageId} (inside : package.index < model.packages.size)
    (on : toward ∈ model.enclosing package) {member : Member}
    (beside : model.home member = model.home (.package toward))
    (different : member ≠ .package toward) : model.Apart package member := by
  refine ⟨not_standsIn_beside wellScoped inside on beside, ?_⟩
  rintro nested around rfl
  exact different (congrArg Member.package (enclosing_unique wellScoped inside around on beside))

/-- From a package around another, something leads on to it. -/
theorem exists_nested {package outer : PackageId} (inside : package.index < model.packages.size)
    (on : outer ∈ model.enclosing package) (different : outer ≠ package) :
    ∃ nested ∈ model.enclosing package, .package nested ∈ model.contents (some (.package outer)) := by
  fun_induction model.enclosing package with
  | case1 id root | case3 id parent found after =>
    exact absurd (List.mem_singleton.mp on) different
  | case2 id parent found before ih =>
    have present := wellScoped.closed.parent id parent found
    rcases List.mem_cons.mp on with rfl | further
    · exact absurd rfl different
    · by_cases here : outer = parent
      · have home : model.home (.package id) = some (.package outer) := by
          rw [here, Model.home, found]
          rfl
        have inRange : (Member.package id).reference.InRange model.census := inside
        exact ⟨id, List.mem_cons_self, (wellScoped.named.mem_iff inRange).mpr home⟩
      · obtain ⟨nested, around, listed⟩ := ih present further here
        exact ⟨nested, List.mem_cons_of_mem _ around, listed⟩

theorem exists_root {package : PackageId} (inside : package.index < model.packages.size) :
    ∃ outer ∈ model.enclosing package, .package outer ∈ model.contents none := by
  fun_induction model.enclosing package with
  | case1 id root =>
    have inRange : (Member.package id).reference.InRange model.census := inside
    have home : model.home (.package id) = none := by
      rw [Model.home, root]
      rfl
    exact ⟨id, List.mem_singleton_self id, (wellScoped.named.mem_iff inRange).mpr home⟩
  | case2 id parent found before ih =>
    obtain ⟨outer, on, listed⟩ := ih (wellScoped.closed.parent id parent found)
    exact ⟨outer, List.mem_cons_of_mem _ on, listed⟩
  | case3 id parent found after =>
    exact absurd (wellScoped.parentBefore id inside parent found) after

end Places

end Model

namespace Traversal

/-- A traversal goes into all packages around a package, and into the package. -/
def Reached (model : Model) (id : PackageId) : Prop :=
  id.index < model.packages.size ∧ ∀ outer ∈ model.enclosing id, Enters model outer

instance (model : Model) (id : PackageId) : Decidable (Enters model id) :=
  inferInstanceAs (Decidable (_ = false))

instance (model : Model) (id : PackageId) : Decidable (Reached model id) :=
  inferInstanceAs (Decidable (_ ∧ _))

section Places

variable {model : Model} {brackets shown : Bool} {members : List Member} {word : List Event}

private theorem subject_package {id : PackageId} {step : Step}
    (subject : step.subject? = some (.package id)) : step = .enter id ∨ step = .leave id := by
  cases step <;> cases subject
  · exact .inl rfl
  · exact .inr rfl

private theorem mem_entry {id : PackageId} {step : Step} (called : .called step ∈ entry model brackets id) :
    step = .enter id ∨ ∃ member ∈ model.contents (some (.package id)),
      step.subject? = some member ∧ ∀ id, step ≠ .enter id ∧ step ≠ .leave id := by
  have declared : .called step ∈ (Step.enter id ::
      (model.contents (some (.package id))).filterMap constantStep? ++
        (model.contents (some (.package id))).filterMap enumerationStep?).map Event.called := by
    rcases List.mem_append.mp called with opens | declared
    · cases brackets <;> simp at opens
    · exact declared
  obtain ⟨other, member, same⟩ := List.mem_map.mp declared
  cases same
  rcases List.mem_cons.mp member with enters | value
  · exact .inl enters
  · exact .inr (values_quiet value)

private theorem mem_exit {id : PackageId} {step : Step} (called : .called step ∈ exit model brackets id) :
    step = .leave id := by
  rcases List.mem_cons.mp called with same | closes
  · exact Event.called.inj same
  · cases brackets <;> simp at closes

/-- What holds of all members, and of what stands in a package together with the package, holds of all
that is called for. -/
theorem Meets.subjects {good : Member → Prop} (meets : Meets model brackets shown members word)
    (all : ∀ member ∈ members, good member)
    (further : ∀ package, good (.package package) →
      ∀ member ∈ model.contents (some (.package package)), good member)
    {step : Step} (called : .called step ∈ word) : ∃ member ∈ step.subject?, good member := by
  induction meets with
  | nil => cases called
  | value _ _ ih => exact ih (List.forall_mem_cons.mp all).2 called
  | record id _ ih =>
    obtain ⟨here, others⟩ := List.forall_mem_cons.mp all
    rcases List.mem_cons.mp called with same | later
    · cases same
      refine ⟨_, ?_, here⟩
      rw [recordStep]
      split <;> rfl
    · exact ih others later
  | reference id _ ih =>
    obtain ⟨here, others⟩ := List.forall_mem_cons.mp all
    rcases List.mem_cons.mp called with same | later
    · cases same
      exact ⟨_, rfl, here⟩
    · exact ih others later
  | @entered package _ _ _ _ _ _ ihInner ih =>
    obtain ⟨here, others⟩ := List.forall_mem_cons.mp all
    rcases List.mem_append.mp called with inPackage | later
    · rcases List.mem_append.mp inPackage with before | leave
      · rcases List.mem_append.mp before with enter | inner
        · rcases mem_entry enter with rfl | ⟨member, listed, subject, _⟩
          · exact ⟨_, rfl, here⟩
          · exact ⟨member, subject, further package here member listed⟩
        · exact ihInner (further package here) inner
      · cases mem_exit leave
        exact ⟨_, rfl, here⟩
    · exact ih others later
  | @passed _ package _ _ _ _ _ _ ihInner ih =>
    obtain ⟨here, others⟩ := List.forall_mem_cons.mp all
    rcases List.mem_append.mp called with inner | later
    · exact ihInner (further package here) inner
    · exact ih others later

private theorem Meets.reference_of_hidden (meets : Meets model brackets shown members word)
    (hidden : shown = false) {step : Step} (called : .called step ∈ word) :
    ∃ id, step = .reference id := by
  induction meets with
  | nil => cases called
  | value _ _ ih => exact ih hidden called
  | record | entered => cases hidden
  | reference id _ ih =>
    rcases List.mem_cons.mp called with same | later
    · exact ⟨id, Event.called.inj same⟩
    · exact ih hidden later
  | passed _ _ _ ihInner ih =>
    rcases List.mem_append.mp called with inner | later
    · exact ihInner rfl inner
    · exact ih hidden later

/-- Only packages that are reached are called for. -/
theorem Meets.reached (wellScoped : model.WellScoped)
    (meets : Meets model brackets shown members word)
    (around : shown = true → ∀ nested, .package nested ∈ members →
      nested.index < model.packages.size ∧
        ∀ outer, model.StandsIn outer (.package nested) → Enters model outer)
    {id : PackageId} {step : Step} (called : .called step ∈ word)
    (subject : step.subject? = some (.package id)) : Reached model id := by
  induction meets with
  | nil => cases called
  | value _ _ ih =>
    exact ih (fun isShown nested listed => around isShown nested (List.mem_cons_of_mem _ listed))
      called
  | record other _ ih =>
    rcases List.mem_cons.mp called with same | later
    · cases same
      rw [recordStep] at subject
      split at subject <;> cases subject
    · exact ih (fun isShown nested listed =>
        around isShown nested (List.mem_cons_of_mem _ listed)) later
  | reference other _ ih =>
    rcases List.mem_cons.mp called with same | later
    · cases same
      cases subject
    · exact ih (fun hidden => absurd hidden Bool.false_ne_true) later
  | @entered package _ _ _ enters _ _ ihInner ih =>
    obtain ⟨inside, above⟩ := around rfl package List.mem_cons_self
    have here : Reached model package := by
      refine ⟨inside, fun outer on => ?_⟩
      rcases (mem_enclosing wellScoped inside).mp on with rfl | within
      · exact enters
      · exact above outer within
    rcases List.mem_append.mp called with inPackage | later
    · rcases List.mem_append.mp inPackage with before | leave
      · rcases List.mem_append.mp before with enter | inner
        · rcases mem_entry enter with rfl | ⟨_, _, _, quiet⟩
          · cases subject
            exact here
          · rcases subject_package subject with same | same
            · exact absurd same (quiet id).1
            · exact absurd same (quiet id).2
        · refine ihInner (fun _ nested listed => ?_) inner
          obtain ⟨present, home⟩ := home_of_contents wellScoped listed
          refine ⟨present, ?_⟩
          rintro outer ⟨parent, same, on⟩
          cases home.symm.trans same
          exact here.2 outer on
      · cases mem_exit leave
        cases subject
        exact here
    · exact ih (fun isShown nested listed =>
        around isShown nested (List.mem_cons_of_mem _ listed)) later
  | passed _ inner _ _ ih =>
    rcases List.mem_append.mp called with referred | later
    · obtain ⟨other, rfl⟩ := inner.reference_of_hidden rfl referred
      cases subject
    · exact ih (fun isShown nested listed =>
        around isShown nested (List.mem_cons_of_mem _ listed)) later

/-- The calls of a word are for nothing in a package, and not for the package. -/
def Clear (model : Model) (package : PackageId) (word : List Event) : Prop :=
  ∀ step, .called step ∈ word → ∀ member ∈ step.subject?,
    ¬ model.StandsIn package member ∧ member ≠ .package package

private theorem clear_append {package : PackageId} {later : List Event} :
    Clear model package (word ++ later) ↔ Clear model package word ∧ Clear model package later := by
  constructor
  · exact fun clear => ⟨fun step called => clear step (List.mem_append_left _ called),
      fun step called => clear step (List.mem_append_right _ called)⟩
  · rintro ⟨first, second⟩ step called
    exact (List.mem_append.mp called).elim (first step) (second step)

theorem Apart.clear {package : PackageId} {member : Member} (apart : model.Apart package member) :
    ¬ model.StandsIn package member ∧ member ≠ .package package :=
  ⟨apart.1, apart.2 package (model.self_mem_enclosing package)⟩

private theorem clear_around (brackets : Bool) {package outer : PackageId}
    (clear : ¬ model.StandsIn package (.package outer) ∧ Member.package outer ≠ .package package)
    (outside : ∀ member ∈ model.contents (some (.package outer)), ¬ model.StandsIn package member) :
    Clear model package (entry model brackets outer) ∧
      Clear model package (exit model brackets outer) := by
  constructor
  · intro step called member subject
    rcases mem_entry called with rfl | ⟨other, value, found, quiet⟩
    · cases subject
      exact clear
    · cases Option.mem_unique found subject
      refine ⟨outside _ value, ?_⟩
      rintro rfl
      rcases subject_package subject with same | same
      · exact (quiet package).1 same
      · exact (quiet package).2 same
  · intro step called member subject
    cases mem_exit called
    cases subject
    exact clear

/-- What stands apart from a package has nothing to say of it. -/
theorem Meets.clear (wellScoped : model.WellScoped) {package : PackageId}
    (meets : Meets model brackets shown members word)
    (apart : ∀ member ∈ members,
      member.reference.InRange model.census ∧ model.Apart package member) :
    Clear model package word := by
  intro step called member subject
  obtain ⟨other, found, _, good⟩ := meets.subjects apart (fun nested here member listed =>
    ⟨(home_of_contents wellScoped listed).1, here.2.further wellScoped here.1 listed⟩) called
  cases Option.mem_unique found subject
  exact Apart.clear good

theorem Meets.standsIn (wellScoped : model.WellScoped) {package : PackageId}
    (inside : package.index < model.packages.size)
    (meets : Meets model brackets shown (model.contents (some (.package package))) word)
    {step : Step} (called : .called step ∈ word) :
    ∃ member ∈ step.subject?, model.StandsIn package member := by
  have within : ∀ member ∈ model.contents (some (.package package)),
      member.reference.InRange model.census ∧ model.StandsIn package member :=
    fun member listed => ⟨(home_of_contents wellScoped listed).1,
      StandsIn.further wellScoped (.inl rfl) inside listed⟩
  obtain ⟨member, subject, _, stands⟩ := meets.subjects within (fun nested here member listed =>
    ⟨(home_of_contents wellScoped listed).1,
      StandsIn.further wellScoped (.inr here.2) here.1 listed⟩) called
  exact ⟨member, subject, stands⟩

/-- The word of a member before the one that leads to a package has nothing to say of the package. -/
theorem Meets.clear_first (wellScoped : model.WellScoped) {package toward : PackageId}
    (inside : package.index < model.packages.size) (on : toward ∈ model.enclosing package)
    {member : Member} (meets : Meets model brackets shown [member] word) {place : Option Scope}
    (beside : ∀ other ∈ member :: members,
      other.reference.InRange model.census ∧ model.home other = place)
    (distinct : (member :: members).Nodup) (later : .package toward ∈ members) :
    Clear model package word := by
  obtain ⟨⟨inRange, home⟩, others⟩ := List.forall_mem_cons.mp beside
  refine meets.clear wellScoped fun other listed => ?_
  cases List.mem_singleton.mp listed
  refine ⟨inRange, apart_beside wellScoped inside on (home.trans (others _ later).2.symm) ?_⟩
  rintro rfl
  exact (List.nodup_cons.mp distinct).1 later

/-- The calls for a package that is reached stand apart from all others, and what it holds is between
them. -/
theorem Meets.segment (wellScoped : model.WellScoped) {package : PackageId}
    (reached : Reached model package) (meets : Meets model brackets shown members word)
    (isShown : shown = true) {place : Option Scope}
    (beside : ∀ member ∈ members,
      member.reference.InRange model.census ∧ model.home member = place)
    (distinct : members.Nodup)
    (toward : ∃ nested ∈ model.enclosing package, .package nested ∈ members) :
    ∃ front inner back, Clear model package front ∧ Clear model package back ∧
      Meets model brackets true (model.contents (some (.package package))) inner ∧
      word = front ++ (entry model brackets package ++ inner ++ exit model brackets package) ++
        back := by
  obtain ⟨inside, enters⟩ := reached
  induction meets generalizing place with
  | nil => simp at toward
  | value valued _ ih =>
    obtain ⟨nested, on, listed⟩ := toward
    rcases List.mem_cons.mp listed with rfl | later
    · cases valued
    · exact ih isShown (List.forall_mem_cons.mp beside).2 (List.nodup_cons.mp distinct).2
        ⟨nested, on, later⟩
  | reference => cases isShown
  | record id _ ih =>
    obtain ⟨nested, on, listed⟩ := toward
    rcases List.mem_cons.mp listed with impossible | later
    · cases impossible
    obtain ⟨front, inner, back, clear, clearBack, meets, rfl⟩ :=
      ih rfl (List.forall_mem_cons.mp beside).2 (List.nodup_cons.mp distinct).2 ⟨nested, on, later⟩
    have single : Meets model brackets true [.record id] [.called (recordStep model id)] :=
      .record id .nil
    have first := single.clear_first wellScoped inside on beside distinct later
    exact ⟨[.called (recordStep model id)] ++ front, inner, back, clear_append.mpr ⟨first, clear⟩,
      clearBack, meets, by simp⟩
  | @entered outer rest _ later entersOuter inMeets restMeets ihInner ih =>
    obtain ⟨here, others⟩ := List.forall_mem_cons.mp beside
    by_cases on : outer ∈ model.enclosing package
    · have clearLater : Clear model package later := by
        refine restMeets.clear wellScoped fun member listed => ?_
        obtain ⟨inRange, home⟩ := others member listed
        refine ⟨inRange, apart_beside wellScoped inside on (home.trans here.2.symm) ?_⟩
        rintro rfl
        exact (List.nodup_cons.mp distinct).1 listed
      by_cases same : outer = package
      · cases same
        exact ⟨[], _, later, by simp [Clear], clearLater, inMeets, by simp⟩
      · have contents : ∀ member ∈ model.contents (some (.package outer)),
            member.reference.InRange model.census ∧
              model.home member = some (.package outer) :=
          fun member listed => home_of_contents wellScoped listed
        obtain ⟨nested, around, listed⟩ := exists_nested wellScoped inside on same
        obtain ⟨front, inner, back, clear, clearBack, meets, rfl⟩ :=
          ihInner rfl contents (wellScoped.named.nodup fun member held => (contents member held).1)
            ⟨nested, around, listed⟩
        have clearOuter : ¬ model.StandsIn package (.package outer) ∧
            Member.package outer ≠ .package package :=
          ⟨not_standsIn_beside wellScoped inside on rfl, by simpa using same⟩
        obtain ⟨clearEntry, clearExit⟩ := clear_around brackets clearOuter fun member held =>
          not_standsIn_beside wellScoped inside around
            ((contents member held).2.trans (contents _ listed).2.symm)
        exact ⟨entry model brackets outer ++ front, inner,
          back ++ (exit model brackets outer ++ later), clear_append.mpr ⟨clearEntry, clear⟩,
          clear_append.mpr ⟨clearBack, clear_append.mpr ⟨clearExit, clearLater⟩⟩, meets, by simp⟩
    · obtain ⟨nested, around, listed⟩ := toward
      rcases List.mem_cons.mp listed with same | later
      · cases same
        exact absurd around on
      obtain ⟨front, inner, back, clear, clearBack, meets, rfl⟩ :=
        ih rfl others (List.nodup_cons.mp distinct).2 ⟨nested, around, later⟩
      have first := (Meets.entered entersOuter inMeets .nil).clear_first wellScoped inside around
        beside distinct later
      exact ⟨_ ++ front, inner, back, clear_append.mpr ⟨first, clear⟩, clearBack, meets, by simp⟩
  | @passed _ outer _ _ later passes inMeets restMeets _ ih =>
    obtain ⟨nested, around, listed⟩ := toward
    rcases List.mem_cons.mp listed with same | later
    · cases same
      exact absurd (enters _ around) (passes isShown)
    obtain ⟨front, inner, back, clear, clearBack, meets, rfl⟩ :=
      ih isShown (List.forall_mem_cons.mp beside).2 (List.nodup_cons.mp distinct).2
        ⟨nested, around, later⟩
    have first := (Meets.passed passes inMeets .nil).clear_first wellScoped inside around beside
      distinct later
    exact ⟨_ ++ front, inner, back, clear_append.mpr ⟨first, clear⟩, clearBack, meets, by simp⟩

private theorem Meets.reached_of_roots (wellScoped : model.WellScoped)
    (meets : Meets model brackets true (model.contents none) word) {id : PackageId} {step : Step}
    (called : .called step ∈ word) (subject : step.subject? = some (.package id)) :
    Reached model id := by
  refine meets.reached wellScoped (fun _ nested listed => ?_) called subject
  obtain ⟨inRange, home⟩ := home_of_contents wellScoped listed
  refine ⟨inRange, ?_⟩
  rintro outer ⟨parent, same, _⟩
  rw [home] at same
  cases same

end Places

/-!
## Runs
-/

/-- The word of a traversal: it goes through the packages between its ends, and the calls for a package
that is reached, one at its entry and one at its exit, hold between them all calls for what stands in
the package. -/
structure Nested (model : Model) (brackets : Bool) (outer : Option String) (word : List Event) :
    Prop where
  wellNested : WellNested word
  ends : ∃ packages, Meets model brackets true (model.contents none) packages ∧
    word = .called .prologue :: within outer (packages ++ [.called .finish]) ++ [.called .epilogue]
  segment : ∀ id, Reached model id → ∃ front inner back,
    word = front ++ (entry model brackets id ++ inner ++ exit model brackets id) ++ back ∧
      Meets model brackets true (model.contents (some (.package id))) inner ∧ WellNested inner ∧
      (∀ step, .called step ∈ inner → ∃ member ∈ step.subject?, model.StandsIn id member) ∧
      Clear model id (front ++ back)
  once : ∀ id, Reached model id →
    word.count (.called (.enter id)) = 1 ∧ word.count (.called (.leave id)) = 1
  reached : ∀ id, .called (.enter id) ∈ word ∨ .called (.leave id) ∈ word → Reached model id

private theorem count_around (model : Model) (brackets : Bool) (id : PackageId) :
    (entry model brackets id).count (.called (.enter id)) = 1 ∧
      (entry model brackets id).count (.called (.leave id)) = 0 ∧
      (exit model brackets id).count (.called (.enter id)) = 0 ∧
      (exit model brackets id).count (.called (.leave id)) = 1 := by
  have values : ∀ step, step = .enter id ∨ step = .leave id →
      (((model.contents (some (.package id))).filterMap constantStep? ++
        (model.contents (some (.package id))).filterMap enumerationStep?).map Event.called).count
          (.called step) = 0 := by
    intro step either
    refine List.count_eq_zero.mpr fun called => ?_
    obtain ⟨other, member, same⟩ := List.mem_map.mp called
    cases same
    obtain ⟨_, _, _, quiet⟩ := values_quiet member
    exact either.elim (quiet id).1 (quiet id).2
  have entered := values (.enter id) (.inl rfl)
  have left := values (.leave id) (.inr rfl)
  rw [List.map_append, List.count_append] at entered left
  cases brackets <;> simp_all [entry, exit]

section Word

variable {model : Model} {brackets : Bool}

theorem Clear.count {id : PackageId} {word : List Event} (clear : Clear model id word) :
    word.count (.called (.enter id)) = 0 ∧ word.count (.called (.leave id)) = 0 :=
  ⟨List.count_eq_zero.mpr fun called => (clear _ called _ rfl).2 rfl,
    List.count_eq_zero.mpr fun called => (clear _ called _ rfl).2 rfl⟩

/-- A package has one call at its entry and one at its exit where all else is clear of it. -/
theorem count_segment (wellScoped : model.WellScoped) {id : PackageId}
    (inside : id.index < model.packages.size) {front inner back : List Event}
    (stands : ∀ step, .called step ∈ inner → ∃ member ∈ step.subject?, model.StandsIn id member)
    (others : Clear model id (front ++ back)) :
    let word := front ++ (entry model brackets id ++ inner ++ exit model brackets id) ++ back
    word.count (.called (.enter id)) = 1 ∧ word.count (.called (.leave id)) = 1 := by
  have own : ∀ step, step.subject? = some (.package id) → .called step ∉ inner := by
    intro step subject called
    obtain ⟨member, found, within⟩ := stands step called
    cases Option.mem_unique found subject
    exact not_standsIn_self wellScoped inside within
  obtain ⟨clearFront, clearBack⟩ := clear_append.mp others
  obtain ⟨enter, noLeave, noEnter, leave⟩ := count_around model brackets id
  simp [clearFront.count, clearBack.count, enter, leave, noEnter, noLeave,
    List.count_eq_zero.mpr (own (.enter id) rfl), List.count_eq_zero.mpr (own (.leave id) rfl)]

private theorem ends_split (outer : Option String) (packages : List Event) :
    ∃ before after : List Event,
      (∀ step, Event.called step ∈ before ++ after → step.subject? = none) ∧
        Event.called .prologue :: within outer (packages ++ [Event.called .finish]) ++
            [Event.called .epilogue] =
          before ++ packages ++ after := by
  cases outer with
  | none => exact ⟨[.called .prologue], [.called .finish, .called .epilogue],
      by simp [Step.subject?], by simp [within]⟩
  | some name => exact ⟨[.called .prologue, .opened name],
      [.called .finish, .closed name, .called .epilogue], by simp [Step.subject?], by simp [within]⟩

theorem Meets.nested (wellScoped : model.WellScoped) {packages : List Event}
    (meets : Meets model brackets true (model.contents none) packages) (outer : Option String) :
    Nested model brackets outer
      (.called .prologue :: within outer (packages ++ [.called .finish]) ++
        [.called .epilogue]) := by
  obtain ⟨before, after, silent, split⟩ := ends_split outer packages
  have contents : ∀ member ∈ model.contents none,
      member.reference.InRange model.census ∧ model.home member = none :=
    fun member listed => home_of_contents wellScoped listed
  have segment : ∀ id, Reached model id → ∃ front inner back,
      before ++ packages ++ after =
        front ++ (entry model brackets id ++ inner ++ exit model brackets id) ++ back ∧
      Meets model brackets true (model.contents (some (.package id))) inner ∧ WellNested inner ∧
      (∀ step, .called step ∈ inner → ∃ member ∈ step.subject?, model.StandsIn id member) ∧
      Clear model id (front ++ back) := by
    intro id reached
    obtain ⟨toward, on, listed⟩ := exists_root wellScoped reached.1
    obtain ⟨front, inner, back, clear, clearBack, inMeets, rfl⟩ :=
      meets.segment wellScoped reached rfl contents
        (wellScoped.named.nodup fun member held => (contents member held).1) ⟨toward, on, listed⟩
    have ends : Clear model id (before ++ after) := by
      intro step called member subject
      rw [silent step called] at subject
      cases subject
    have clearEnds := clear_append.mp ends
    exact ⟨before ++ front, inner, back ++ after, by simp, inMeets, inMeets.wellNested,
      fun step called => inMeets.standsIn wellScoped reached.1 called,
      clear_append.mpr ⟨clear_append.mpr ⟨clearEnds.1, clear⟩,
        clear_append.mpr ⟨clearBack, clearEnds.2⟩⟩⟩
  have single : ∀ {step : Step}, (∀ id, step ≠ .enter id ∧ step ≠ .leave id) →
      WellNested [.called step] := .called
  refine ⟨((single (by simp)).append ((meets.wellNested.append (single (by simp))).within
    outer)).append (single (by simp)), ⟨packages, meets, rfl⟩, split ▸ segment,
    fun id reached => ?_, fun id called => ?_⟩
  · obtain ⟨front, inner, back, whole, _, _, stands, others⟩ := segment id reached
    rw [split, whole]
    exact count_segment wellScoped reached.1 stands others
  · have inPackages : ∀ {step : Step}, step.subject? = some (.package id) →
        .called step ∈ before ++ packages ++ after → .called step ∈ packages := by
      intro step subject called
      have either : .called step ∈ packages ∨ .called step ∈ before ++ after := by
        simp only [List.mem_append] at called ⊢
        tauto
      refine either.resolve_right fun ends => ?_
      rw [silent step ends] at subject
      cases subject
    rw [split] at called
    rcases called with enter | leave
    · exact meets.reached_of_roots wellScoped (inPackages rfl enter) rfl
    · exact meets.reached_of_roots wellScoped (inPackages rfl leave) rfl

end Word

def Event.call? : Event → Option Step
  | called step => some step
  | opened _ | closed _ => none

private theorem Spells.filter_isCall {steps : List Step} {word : List Event} (spells : Spells steps word) :
    steps.filter Step.isCall = word.filterMap Event.call? := by
  induction spells with
  | nil => rfl
  | call isCall => simp [isCall, Event.call?]
  | append _ _ ih ihLater => rw [List.filter_append, List.filterMap_append, ih, ihLater]
  | bracketed _ ih => simp [Step.isCall, Event.call?, ih, List.filterMap_cons]

/-- A run in which all calls succeed writes the texts of a word that is well nested, with the calls for
each package that is reached around all that stands in it. A run that fails does so with the fault of a
hook, so no namespace is closed that is not open and none is left open. -/
theorem build_nested {units : List SourceUnit} {built : Built} (success : build units = .ok built)
    {σ : Type} (backend : Backend σ) (outer : Option String) (start : σ) :
    (∀ fault last, (run built.model backend outer).run.run start = (.error fault, last) →
      ∃ step ∈ steps built.model backend.brackets outer, step.isCall ∧
        ∃ before, (backend.hook built.model step).run.run before = (.error fault, last)) ∧
      ((∀ call ∈ calls built.model backend outer start, call.2 = true) →
        ∃ word generated last, Nested built.model backend.brackets outer word ∧
          (run built.model backend outer).run.run start = (.ok generated, last) ∧
          Wrote built.model backend start word generated last ∧
          (calls built.model backend outer start).map (·.1) = word.filterMap Event.call?) := by
  obtain ⟨stages⟩ := build_stages success
  have wellScoped : built.model.WellScoped := stages.sound.toWellScoped
  obtain ⟨packages, meets, spells⟩ := steps_meets wellScoped backend.brackets outer
  constructor
  · intro fault last failed
    rw [run_eq] at failed
    rcases run_bind_error failed with failed | ⟨_, _, _, ended⟩
    · exact spells.failed failed
    · cases ended
  · intro succeed
    obtain ⟨_, last, ran, _, complete⟩ := run_watched built.model backend outer start
    obtain ⟨⟨generated, rfl⟩, made⟩ := complete succeed
    obtain ⟨output, between, taken, ended⟩ := run_bind_ok (run_eq built.model backend outer ▸ ran)
    obtain ⟨text, wrote, rfl⟩ := spells.taken taken
    cases ended
    refine ⟨_, _, last, meets.nested wellScoped outer, ran, ?_, ?_⟩
    · exact (Generated.empty_append text).symm ▸ wrote
    · rw [made, List.map_map, ← spells.filter_isCall]
      exact List.map_id _

/-- Of the packages of these units two are entered and left once, and the external one is not. -/
theorem build_nested_sample : ∃ built, build reopeningUnits = .ok built ∧
    (built.model.packages.toList.map (·.name)) = ["Detector", "Raw", "Clock"] ∧
    ∃ word generated last, WellNested word ∧
      (run built.model visitCount (some "Pds")).run.run 0 = (.ok generated, last) ∧
      Wrote built.model visitCount 0 word generated last ∧
      word.count (.called (.enter ⟨0⟩)) = 1 ∧ word.count (.called (.leave ⟨0⟩)) = 1 ∧
      word.count (.called (.enter ⟨1⟩)) = 1 ∧ word.count (.called (.leave ⟨1⟩)) = 1 ∧
      .called (.enter ⟨2⟩) ∉ word := by
  have computed : ∃ built, build reopeningUnits = .ok built ∧
      (∀ call ∈ calls built.model visitCount (some "Pds") 0, call.2 = true) ∧
      (built.model.packages.toList.map (·.name)) = ["Detector", "Raw", "Clock"] ∧
      Reached built.model ⟨0⟩ ∧ Reached built.model ⟨1⟩ ∧ ¬ Reached built.model ⟨2⟩ :=
    exists_built (by decide +kernel)
  obtain ⟨built, accepted, succeed, names, detector, raw, clock⟩ := computed
  obtain ⟨_, complete⟩ := build_nested accepted visitCount (some "Pds") 0
  obtain ⟨word, generated, last, nested, ran, wrote, _⟩ := complete succeed
  obtain ⟨enter, leave⟩ := nested.once _ detector
  obtain ⟨enterRaw, leaveRaw⟩ := nested.once _ raw
  exact ⟨built, accepted, names, word, generated, last, nested.wellNested, ran, wrote, enter, leave,
    enterRaw, leaveRaw, fun called => clock (nested.reached _ (.inl called))⟩

end Traversal

end RecordSchema
