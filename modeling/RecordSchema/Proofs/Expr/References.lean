import RecordSchema.Expr.Parser
import RecordSchema.Proofs.Model.References
import RecordSchema.Proofs.Outcome

/-!
# What an expression refers to

An expression that has been read names no record type but the two of its context: the type that
declares it and the type of the config object. Sums and products name what their parts name.
-/

set_option autoImplicit false

namespace RecordSchema.Expr

open Outcome

/-- The types that an expression may refer to where it stands. -/
def Context.references (context : Context) : List Reference :=
  context.owner.toList.map .record ++ context.config.toList.map .record

namespace Parser

private theorem operand_references {context : Context} {source member : String} {placeholder : Placeholder}
    {part : Operand} (accepted : operand context source placeholder member = .ok part) :
    ∀ reference ∈ part.references, reference ∈ context.references := by
  cases placeholder with
  | self =>
    cases accepted
    intro reference mentioned
    cases mentioned
  | type =>
    simp only [operand] at accepted
    split at accepted
    · rename_i owner known
      cases accepted
      simp [Operand.references, Context.references, known]
    · cases accepted
  | config =>
    simp only [operand] at accepted
    split at accepted
    · rename_i config known
      cases accepted
      simp [Operand.references, Context.references, known]
    · cases accepted

private theorem operand_isConfig {context : Context} {source member : String} {placeholder : Placeholder}
    {part : Operand} (accepted : operand context source placeholder member = .ok part)
    (reads : part.isConfig = true) : context.config.isSome := by
  cases placeholder with
  | self =>
    cases accepted
    cases reads
  | type =>
    simp only [operand] at accepted
    split at accepted
    · cases accepted
      cases reads
    · cases accepted
  | config =>
    simp only [operand] at accepted
    split at accepted
    · rename_i config known
      rw [known]
      rfl
    · cases accepted

/-- Each operand was read from a placeholder or is text. -/
theorem operands_forall {property : Operand → Prop} {context : Context} {source : String}
    (text : ∀ text, property (.text text))
    (placeholders : ∀ placeholder member part,
      operand context source placeholder member = .ok part → property part)
    {reversed input : List Char} {parts : List Operand}
    (accepted : operands context source reversed input = .ok parts) :
    ∀ part ∈ parts, property part := by
  have pending : ∀ reversed : List Char, ∀ part ∈ pendingText reversed, property part := by
    intro reversed part listed
    unfold pendingText at listed
    split at listed
    · cases listed
    · rw [List.mem_singleton.mp listed]
      exact text _
  fun_induction operands context source reversed input generalizing parts with
  | case1 reversed =>
    cases accepted
    exact pending reversed
  | case2 reversed rest noPlaceholder ih => exact ih accepted
  | case3 => cases accepted
  | case4 reversed rest placeholder tail member more read split ih =>
    obtain ⟨found, one, accepted⟩ := bind_ok accepted
    obtain ⟨others, later, accepted⟩ := bind_ok accepted
    cases accepted
    intro part listed
    rcases List.mem_append.mp listed with before | listed
    · exact pending reversed part before
    · rcases List.mem_cons.mp listed with rfl | after
      · exact placeholders _ _ _ one
      · exact ih later part after
  | case5 reversed character rest noBrace ih => exact ih accepted

theorem ofOperands_operands (parts : List Operand) : (ofOperands parts).operands = parts := by
  unfold ofOperands
  split <;> rfl

end Parser

theorem parse_references {context : Context} {raw : String} {expr : Expr}
    (accepted : parse context raw = .ok expr) :
    ∀ reference ∈ expr.references, reference ∈ context.references := by
  unfold parse at accepted
  dsimp only at accepted
  split at accepted
  · cases accepted
  · split at accepted
    · cases accepted
      intro reference mentioned
      cases mentioned
    · obtain ⟨parts, read, rfl⟩ := map_ok accepted
      rw [references, Parser.ofOperands_operands]
      have each : ∀ part ∈ parts, ∀ reference ∈ part.references, reference ∈ context.references :=
        Parser.operands_forall (fun _ _ mentioned => nomatch mentioned)
          (fun _ _ _ one => Parser.operand_references one) read
      intro reference mentioned
      obtain ⟨part, listed, mentioned⟩ := List.mem_flatMap.mp mentioned
      exact each part listed reference mentioned

/-- An expression that reads a config object stands where there is one. -/
theorem parse_hasConfig {context : Context} {raw : String} {expr : Expr}
    (accepted : parse context raw = .ok expr) (reads : expr.hasConfig = true) :
    context.config.isSome := by
  unfold parse at accepted
  dsimp only at accepted
  split at accepted
  · cases accepted
  · split at accepted
    · cases accepted
      cases reads
    · obtain ⟨parts, read, rfl⟩ := map_ok accepted
      rw [hasConfig, Parser.ofOperands_operands] at reads
      obtain ⟨part, listed, isConfig⟩ := List.any_eq_true.mp reads
      have each : ∀ part ∈ parts, part.isConfig = true → context.config.isSome :=
        Parser.operands_forall (fun _ impossible => nomatch impossible)
          (fun _ _ _ one => Parser.operand_isConfig one) read
      exact each part listed isConfig

theorem parse_inRange {context : Context} {raw : String} {expr : Expr} {census : Census}
    (accepted : parse context raw = .ok expr) (inRange : InRange census context.references) :
    InRange census expr.references :=
  fun reference mentioned => inRange reference (parse_references accepted reference mentioned)

theorem mem_members {expr : Expr} {name : String} :
    name ∈ expr.members ↔ .member name ∈ expr.operands := by
  rw [members, List.mem_filterMap]
  constructor
  · rintro ⟨part, mentioned, found⟩
    cases part <;> cases found
    exact mentioned
  · exact fun mentioned => ⟨_, mentioned, rfl⟩

/-!
## Sums and products
-/

section Arithmetic

variable {census : Census} {left right result : Expr}

theorem operands_sum (computed : sum left right = some result) :
    result.operands ⊆ left.operands ++ right.operands := by
  unfold sum at computed
  split at computed
  · obtain ⟨value, _, rfl⟩ := Option.map_eq_some_iff.mp computed
    exact List.nil_subset _
  · cases computed
    exact List.subset_append_right ..
  · cases computed
    exact List.subset_append_left ..
  · cases computed
    exact List.Subset.refl _

theorem operands_product (computed : product left right = some result) :
    result.operands ⊆ left.operands ++ right.operands := by
  unfold product at computed
  split at computed
  · obtain ⟨value, _, rfl⟩ := Option.map_eq_some_iff.mp computed
    exact List.nil_subset _
  · cases computed
    exact List.nil_subset _
  · cases computed
    exact List.nil_subset _
  · cases computed
    exact List.subset_append_right ..
  · cases computed
    exact List.subset_append_left ..
  · cases computed
    exact List.Subset.refl _

theorem operands_foldlM_product {factors : List Expr} {first : Expr}
    (computed : factors.foldlM product first = some result) :
    result.operands ⊆ first.operands ++ factors.flatMap operands :=
  Outcome.foldlM_preserves_option computed
    (fun expr : Expr => expr.operands ⊆ first.operands ++ factors.flatMap operands)
    (List.subset_append_left ..) fun factor member _ _ before taken =>
      List.Subset.trans (operands_product taken) (List.append_subset.mpr ⟨before, fun _ mentioned =>
        List.mem_append_right _ (List.mem_flatMap.mpr ⟨factor, member, mentioned⟩)⟩)

/-- What has no operands but those of some parts refers to what they refer to. -/
theorem inRange_of_operands {parts : List Operand} (within : result.operands ⊆ parts)
    (inRange : InRange census (parts.flatMap Operand.references)) :
    InRange census result.references := by
  rw [references, inRange_flatMap]
  exact fun part mentioned => inRange_flatMap.mp inRange part (within mentioned)

theorem sum_inRange (computed : sum left right = some result) (first : InRange census left.references)
    (second : InRange census right.references) : InRange census result.references := by
  refine inRange_of_operands (operands_sum computed) ?_
  rw [List.flatMap_append]
  exact inRange_append.mpr ⟨first, second⟩

theorem product_inRange (computed : product left right = some result)
    (first : InRange census left.references) (second : InRange census right.references) :
    InRange census result.references := by
  refine inRange_of_operands (operands_product computed) ?_
  rw [List.flatMap_append]
  exact inRange_append.mpr ⟨first, second⟩

theorem productOf_inRange {factors : List Expr} (computed : productOf factors = some result)
    (inRange : ∀ factor ∈ factors, InRange census factor.references) :
    InRange census result.references := by
  refine inRange_of_operands (operands_foldlM_product computed) ?_
  intro reference mentioned
  simp only [operands, List.nil_append, List.mem_flatMap] at mentioned
  obtain ⟨part, ⟨factor, member, held⟩, referred⟩ := mentioned
  exact inRange factor member reference (List.mem_flatMap.mpr ⟨part, held, referred⟩)

end Arithmetic

end RecordSchema.Expr
