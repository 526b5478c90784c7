import RecordSchema.Proofs.Layout.Sweeps

/-!
# Where dependence on a config object comes from

An attribute, a method or a type uses the members that its expressions name, the type that it embeds and
the attribute that it gives access to. It depends on a config object if and only if this leads, in some
number of steps, to an expression that reads one.
-/

set_option autoImplicit false

namespace RecordSchema

open Model

namespace Layout

/-- What a name stands for within a type. Attributes go before methods. -/
def bearerNamed? (model : Model) (owner : RecordId) (name : String) : Option Bearer :=
  match model.findAttribute? owner name with
  | some attr => some (.attr attr)
  | none => (model.findMethod? owner name).map .method

/-- One step towards a reason. -/
inductive Uses (model : Model) : Bearer → Bearer → Prop where
  | member {bearer target : Bearer} {text : Expr} {name : String} (listed : text ∈ bearer.texts model)
      (named : name ∈ text.members)
      (found : bearerNamed? model (bearer.owner model) name = some target) : Uses model bearer target
  | element {attr : AttributeId} {record : RecordId}
      (type : (model.attr attr).type = .record record) : Uses model (.attr attr) (.record record)
  | access {method : MethodId} {attr : AttributeId}
      (read : model.readBy (model.method method).body = some attr) : Uses model (.method method) (.attr attr)

def ReadsConfig (model : Model) (bearer : Bearer) : Prop :=
  ∃ text ∈ bearer.texts model, text.hasConfig = true

/-- A chain of steps leads to an expression that reads a config object. -/
def LeadsToConfig (model : Model) (bearer : Bearer) : Prop :=
  ∃ last, Relation.ReflTransGen (Uses model) bearer last ∧ ReadsConfig model last

section Reasons

variable {model : Model}

private theorem memberDepends_iff {owner : RecordId} {name : String} :
    memberDepends model owner name = true ↔
      ∃ target, bearerNamed? model owner name = some target ∧ target.flag model = true := by
  unfold memberDepends bearerNamed?
  cases model.findAttribute? owner name with
  | some attr => simp [Bearer.flag]
  | none =>
    cases model.findMethod? owner name with
    | some method => simp [Bearer.flag]
    | none => simp

private theorem exprDepends_iff {owner : RecordId} {expr : Expr} :
    exprDepends model owner expr = true ↔ expr.hasConfig = true ∨
      ∃ name ∈ expr.members, ∃ target, bearerNamed? model owner name = some target ∧
        target.flag model = true := by
  rw [exprDepends, Bool.or_eq_true, List.any_eq_true]
  simp only [memberDepends_iff]

/-- The expressions of a bearer depend on a config object just if one of them reads one or names a member
whose flag is up. -/
theorem any_exprDepends_iff {bearer : Bearer} :
    (bearer.texts model).any (exprDepends model (bearer.owner model)) = true ↔
      ReadsConfig model bearer ∨ ∃ text ∈ bearer.texts model, ∃ name ∈ text.members, ∃ target,
        bearerNamed? model (bearer.owner model) name = some target ∧ target.flag model = true := by
  simp only [List.any_eq_true, exprDepends_iff, ReadsConfig]
  constructor
  · intro ⟨text, listed, reason⟩
    rcases reason with reads | named
    · exact .inl ⟨text, listed, reads⟩
    · exact .inr ⟨text, listed, named⟩
  · intro reason
    rcases reason with ⟨text, listed, reads⟩ | ⟨text, listed, named⟩
    · exact ⟨text, listed, .inl reads⟩
    · exact ⟨text, listed, .inr named⟩

private theorem depends_eq (bearer : Bearer) :
    bearer.depends model =
      ((bearer.texts model).any (exprDepends model (bearer.owner model)) ||
        match bearer with
        | .attr id => embedsDependent model (model.attr id)
        | .method id =>
          (model.readBy (model.method id).body).any fun attr => (model.attr attr).configDependent
        | .record _ => false) := by
  cases bearer with
  | attr id =>
    simp only [Bearer.depends, attributeDepends, Bearer.texts, Bearer.owner, List.any_append,
      List.any_cons, List.any_nil, Bool.or_false, Bool.or_assoc]
    ac_rfl
  | method id =>
    rw [Bearer.depends, methodDepends_eq]
    cases body : (model.method id).body <;>
      simp [readBy, Bearer.texts, Bearer.owner, MethodBody.texts, body]
  | record id => simp [Bearer.depends, Bearer.texts, Bearer.owner]

/-- A flag is to be raised if an expression of its bearer reads a config object, or if the flag is up of
something that the bearer uses. -/
theorem depends_iff (bearer : Bearer) :
    bearer.depends model = true ↔
      ReadsConfig model bearer ∨ ∃ target, Uses model bearer target ∧ target.flag model = true := by
  rw [depends_eq, Bool.or_eq_true, any_exprDepends_iff]
  constructor
  · intro reason
    rcases reason with (reads | ⟨text, listed, name, named, target, found, up⟩) | other
    · exact .inl reads
    · exact .inr ⟨target, .member listed named found, up⟩
    · apply Or.inr
      cases bearer with
      | attr id =>
        simp only [embedsDependent] at other
        cases type : (model.attr id).type with
        | record target =>
          rw [type] at other
          exact ⟨.record target, .element type, other⟩
        | enumeration _ | builtin _ => simp [type] at other
      | method id =>
        obtain ⟨attr, read, up⟩ := (Option.any_eq_true _ _).mp other
        exact ⟨.attr attr, .access read, up⟩
      | record id => cases other
  · intro reason
    rcases reason with reads | ⟨target, uses, up⟩
    · exact .inl (.inl reads)
    · cases uses with
      | member listed named found => exact .inl (.inr ⟨_, listed, _, named, target, found, up⟩)
      | element type => exact .inr (by simpa [embedsDependent, type, Bearer.flag] using up)
      | access read => exact .inr (by simpa [read, Bearer.flag] using up)

end Reasons

/-!
## Chains
-/

section Chains

variable {model before after : Model}

section Later

variable (agree : Agree .later before after)

include agree

private theorem owner_agree (bearer : Bearer) : bearer.owner after = bearer.owner before := by
  cases bearer with
  | attr id => exact agree.attrField Attribute.owner (fun _ => rfl) id
  | method id => exact agree.methodField Method.owner (fun _ => rfl) id
  | record id => rfl

private theorem texts_agree (bearer : Bearer) : bearer.texts after = bearer.texts before := by
  cases bearer with
  | attr id =>
    simp only [Bearer.texts, agree.attrField Attribute.shape fun _ => rfl,
      agree.attrField Attribute.offset fun _ => rfl,
      agree.attrField Attribute.elementSize fun _ => rfl]
  | method id => simp only [Bearer.texts, agree.methodField Method.body fun _ => rfl]
  | record id => simp only [Bearer.texts, agree.recordField Record.size fun _ => rfl]

private theorem links_agree : Agree .derived before after :=
  agree.coarsen (fun _ => rfl) (fun _ => rfl) fun _ => rfl

private theorem bearerNamed?_agree (owner : RecordId) (name : String) :
    bearerNamed? after owner name = bearerNamed? before owner name := by
  have links := links_agree agree
  simp only [bearerNamed?, links.findAttribute?, links.findMethod?]

private theorem readsConfig_agree (bearer : Bearer) :
    ReadsConfig after bearer ↔ ReadsConfig before bearer := by
  rw [ReadsConfig, ReadsConfig, texts_agree agree]

private theorem uses_agree {bearer target : Bearer} (uses : Uses before bearer target) :
    Uses after bearer target := by
  cases uses with
  | member listed named found =>
    refine .member ?_ named ?_
    · rw [texts_agree agree]
      exact listed
    · rw [bearerNamed?_agree agree, owner_agree agree]
      exact found
  | element type =>
    apply Uses.element
    rw [agree.attrField Attribute.type fun _ => rfl]
    exact type
  | access read =>
    apply Uses.access
    rw [agree.methodField Method.body fun _ => rfl, (links_agree agree).readBy]
    exact read

end Later

private theorem leadsToConfig_agree (agree : Agree .later before after) (bearer : Bearer) :
    LeadsToConfig after bearer ↔ LeadsToConfig before bearer := by
  constructor
  · intro ⟨last, chain, reads⟩
    have earlier := Relation.ReflTransGen.mono (fun _ _ => uses_agree agree.symm) _ _ chain
    exact ⟨last, earlier, (readsConfig_agree agree last).mp reads⟩
  · intro ⟨last, chain, reads⟩
    have later := Relation.ReflTransGen.mono (fun _ _ => uses_agree agree) _ _ chain
    exact ⟨last, later, (readsConfig_agree agree last).mpr reads⟩

/-- Where no flag is left to raise, all are up from which a chain leads on. -/
theorem LeadsToConfig.flag (settled : Settled model) {bearer : Bearer}
    (leads : LeadsToConfig model bearer) : bearer.flag model = true := by
  obtain ⟨last, chain, reads⟩ := leads
  induction chain using Relation.ReflTransGen.head_induction_on with
  | refl => exact settled_iff.mp settled last ((depends_iff last).mpr (.inl reads))
  | head uses _ up =>
    exact settled_iff.mp settled _ ((depends_iff _).mpr (.inr ⟨_, uses, up⟩))

/-- No flag is raised but where a chain leads on. -/
theorem leadsToConfig_of_raises (unflagged : Unflagged model)
    (chain : Relation.ReflTransGen Raises model after) (bearer : Bearer)
    (up : bearer.flag after = true) : LeadsToConfig model bearer := by
  induction chain generalizing bearer with
  | refl =>
    cases bearer with
    | attr id => rw [Bearer.flag, unflagged.attr] at up; cases up
    | method id => rw [Bearer.flag, unflagged.method] at up; cases up
    | record id => rw [Bearer.flag, unflagged.record] at up; cases up
  | tail earlier step ih =>
    have agree := ofFlags_later (agree_of_raises earlier).1
    cases step with
    | intro raised _ needed =>
      rw [Bearer.flag_raise (Bearer.inside_of_depends needed), Bool.or_eq_true,
        decide_eq_true_eq] at up
      rcases up with rfl | up
      · rcases (depends_iff bearer).mp needed with reads | ⟨target, uses, flagged⟩
        · exact ⟨bearer, .refl, (readsConfig_agree agree bearer).mp reads⟩
        · obtain ⟨last, further, reads⟩ := ih target flagged
          exact ⟨last, .head (uses_agree agree.symm uses) further, reads⟩
      · exact ih bearer up

private theorem raises_withDependence (unflagged : Unflagged model) :
    Relation.ReflTransGen Raises model (withDependence model) := by
  obtain ⟨_, _, after, sweeps⟩ := exists_sweepsTo (arenaOrder model) model
  have same := sweeps.eq unflagged (visitsAll_arenaOrder model)
  exact same ▸ sweeps.chain.1

end Chains

/-!
## The flags of a model that is built
-/

/-- The flags of one model are what the rules ask for in another, and no more: each is up if and only if
there is a reason, and it is up wherever the flags raise no others. -/
structure LeastFlags (model flagged : Model) : Prop where
  agree : Agree .flags model flagged
  reason : ∀ bearer : Bearer, bearer.flag flagged = true ↔ bearer.depends flagged = true
  least : ∀ other, Agree .flags model other → Settled other →
    ∀ bearer : Bearer, bearer.flag flagged = true → bearer.flag other = true

private theorem flag_withDependence_iff {model : Model} (unflagged : Unflagged model) (bearer : Bearer) :
    bearer.flag (withDependence model) = true ↔ LeadsToConfig model bearer := by
  have agree := ofFlags_later (agree_withDependence model)
  constructor
  · exact leadsToConfig_of_raises unflagged (raises_withDependence unflagged) bearer
  · intro leads
    exact ((leadsToConfig_agree agree bearer).mpr leads).flag (withDependence_settled model)

private theorem leastFlags_withDependence {model : Model} (unflagged : Unflagged model) :
    LeastFlags model (withDependence model) where
  agree := agree_withDependence model
  reason bearer := by
    have agree := ofFlags_later (agree_withDependence model)
    constructor
    · intro up
      rcases (flag_withDependence_iff unflagged bearer).mp up with ⟨last, chain, reads⟩
      rw [depends_iff]
      rcases Relation.ReflTransGen.cases_head chain with rfl | ⟨target, uses, further⟩
      · exact .inl ((readsConfig_agree agree bearer).mpr reads)
      · refine .inr ⟨target, uses_agree agree uses, ?_⟩
        exact (flag_withDependence_iff unflagged target).mpr ⟨last, further, reads⟩
    · exact settled_iff.mp (withDependence_settled model) bearer
  least other agree settled bearer :=
    (below_iff.mp (below_withDependence unflagged (ofFlags_later agree) settled)).2 bearer

/-- Once the types of some units are laid out, sweeps over attributes, methods and types end, in whatever
order they go, and all end with the same flags. These are the least that the rules allow, and those are
up from which a chain leads to an expression that reads a config object. The model that is built has
them. -/
theorem build_dependence (units : List SourceUnit) :
    (∀ placed, Placed units placed →
      (∀ order, VisitsAll placed order →
        (∃ rounds ≤ flagLimit placed + 1, SweepsTo order rounds placed (withDependence placed)) ∧
          ∀ rounds after, SweepsTo order rounds placed after → after = withDependence placed) ∧
        LeastFlags placed (withDependence placed) ∧
        ∀ bearer : Bearer, bearer.flag (withDependence placed) = true ↔ LeadsToConfig placed bearer) ∧
      ∀ built, build units = .ok built →
        ∀ bearer : Bearer, bearer.flag built.model = true ↔ LeadsToConfig built.model bearer := by
  constructor
  · intro placed reached
    have unflagged := reached.unflagged
    refine ⟨fun order all => ?_, leastFlags_withDependence unflagged, flag_withDependence_iff unflagged⟩
    constructor
    · obtain ⟨rounds, bound, after, sweeps⟩ := exists_sweepsTo order placed
      refine ⟨rounds, ?_, sweeps.eq unflagged all ▸ sweeps⟩
      have few : downCount placed ≤ flagLimit placed :=
        length_arenaOrder placed ▸ List.countP_le_length
      omega
    · intro rounds after sweeps
      exact sweeps.eq unflagged all
  · intro built accepted bearer
    obtain ⟨stages⟩ := build_stages accepted
    have flags := stages.agree_flagged
    have same : bearer.flag built.model = bearer.flag (withDependence stages.placed) := by
      cases bearer with
      | attr id => exact flags.attrField Attribute.configDependent (fun _ => rfl) id
      | method id => exact flags.methodField Method.configDependent (fun _ => rfl) id
      | record id => exact flags.recordField Record.configDependent (fun _ => rfl) id
    rw [same, flag_withDependence_iff stages.unflagged]
    exact (leadsToConfig_agree stages.agree_later bearer).symm

/-- Last comes first in this order. -/
theorem build_dependence_sample :
    ∃ placed, Placed extendingUnits placed ∧ VisitsAll placed (arenaOrder placed).reverse ∧
      (∃ rounds ≤ flagLimit placed + 1,
        SweepsTo (arenaOrder placed).reverse rounds placed (withDependence placed)) ∧
      LeadsToConfig placed (.method ⟨2⟩) ∧
      ∃ built, build extendingUnits = .ok built ∧ LeadsToConfig built.model (.record ⟨2⟩) := by
  have computed : ((Draft.ofUnits extendingUnits).toOption.any fun draft =>
      (Resolution.resolveDeclarations draft).toOption.any fun resolved =>
        (order resolved.model).toOption.any fun ordered =>
          (ordered.foldlM placeRecord resolved.model).toOption.any fun placed =>
            (Bearer.method ⟨2⟩).flag (withDependence placed)) = true := by
    decide +kernel
  simp only [Option.any_eq_true, Outcome.toOption_eq_some] at computed
  obtain ⟨draft, named, resolved, resolution, ordered, sorted, placed, placement, up⟩ := computed
  have reached : Placed extendingUnits placed :=
    ⟨draft, resolved, ordered, named, resolution, sorted, placement⟩
  obtain ⟨sweeps, _, chains⟩ := (build_dependence extendingUnits).1 placed reached
  have all : VisitsAll placed (arenaOrder placed).reverse := by
    intro bearer inside
    exact List.mem_reverse.mpr (visitsAll_arenaOrder placed bearer inside)
  have computedBuild : ∃ built, build extendingUnits = .ok built ∧
      (Bearer.record ⟨2⟩).flag built.model = true := exists_built (by decide +kernel)
  obtain ⟨built, accepted, flagged⟩ := computedBuild
  refine ⟨placed, reached, all, (sweeps _ all).1, (chains _).mp up, built, accepted, ?_⟩
  exact ((build_dependence extendingUnits).2 built accepted _).mp flagged

end Layout

end RecordSchema
