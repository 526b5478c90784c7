import RecordSchema.Expr.Rendering

/-!
# What the text of an expression asks for

Rendering asks a spelling for the texts of operands. A member is asked for as a value or, before an
opening parenthesis, as a callee. Spellings that answer alike give the same text, and every answer is in
the text.
-/

set_option autoImplicit false

namespace RecordSchema

/-- What a spelling may be asked for. -/
inductive Request where
  | member (name : String)
  | call (name : String)
  | static (record : RecordId) (name : String)
  | config (record : RecordId) (name : String)
deriving DecidableEq

/-- What an operand that is not called is asked for; text is written as it is. -/
def Operand.requests : Operand → List Request
  | member name => [.member name]
  | static record name => [.static record name]
  | config record name => [.config record name]
  | text _ => []

/-- What rendering operands in a row asks for. -/
def Expr.requestsOf : List Operand → List Request
  | [] => []
  | .member name :: .text next :: rest =>
    (if next.toList.head? = some '(' then .call name else .member name) ::
      requestsOf (.text next :: rest)
  | part :: rest => part.requests ++ requestsOf rest

/-- What rendering an expression asks for. -/
def Expr.requests : Expr → List Request
  | const _ => []
  | operand part => part.requests
  | concat parts => requestsOf parts
  | add left right => left.requests ++ right.requests
  | mul left right => left.requests ++ right.requests

/-- Whether two spellings answer a request alike. -/
def Operand.Spelling.SameAt (first second : Operand.Spelling) : Request → Prop
  | .member name => first.member name = second.member name
  | .call name => first.call name = second.call name
  | .static record name => first.static record name = second.static record name
  | .config record name => first.config record name = second.config record name

/-- How much text answers a request. -/
def Operand.Spelling.answerLength (spelling : Operand.Spelling) : Request → Nat
  | .member name => (spelling.member name).length
  | .call name => (spelling.call name).1.length + (spelling.call name).2.elim 0 String.length
  | .static record name => (spelling.static record name).length
  | .config record name => (spelling.config record name).length

/-- The operand that a request is about. -/
def Request.operand : Request → Operand
  | member name => .member name
  | call name => .member name
  | static record name => .static record name
  | config record name => .config record name

theorem Operand.operand_of_mem_requests {part : Operand} {request : Request}
    (asked : request ∈ part.requests) : request.operand = part := by
  cases part with
  | text => cases asked
  | member | static | config =>
    cases List.mem_singleton.mp asked
    rfl

namespace Expr

private theorem operand_of_mem_requestsOf {parts : List Operand} {request : Request}
    (asked : request ∈ requestsOf parts) : request.operand ∈ parts := by
  fun_induction requestsOf parts with
  | case1 => cases asked
  | case2 name next rest ih =>
    rcases List.mem_cons.mp asked with rfl | later
    · split <;> exact List.mem_cons_self
    · exact List.mem_cons_of_mem _ (ih later)
  | case3 part rest _ ih =>
    rcases List.mem_append.mp asked with first | later
    · rw [Operand.operand_of_mem_requests first]
      exact List.mem_cons_self
    · exact List.mem_cons_of_mem _ (ih later)

/-- Only operands of an expression are asked for. -/
theorem operand_of_mem_requests {expr : Expr} {request : Request} (asked : request ∈ expr.requests) :
    request.operand ∈ expr.operands := by
  induction expr with
  | const => cases asked
  | operand part => exact List.mem_singleton.mpr (Operand.operand_of_mem_requests asked)
  | concat parts => exact operand_of_mem_requestsOf asked
  | add left right first second | mul left right first second =>
    rcases List.mem_append.mp asked with before | after
    · exact List.mem_append_left _ (first before)
    · exact List.mem_append_right _ (second after)

private theorem config_mem_requestsOf {parts : List Operand} {record : RecordId} {name : String}
    (mentioned : .config record name ∈ parts) : .config record name ∈ requestsOf parts := by
  fun_induction requestsOf parts with
  | case1 => cases mentioned
  | case2 callee next rest ih =>
    exact List.mem_cons_of_mem _ (ih (by simpa using mentioned))
  | case3 part rest _ ih =>
    rcases List.mem_cons.mp mentioned with rfl | later
    · exact List.mem_append_left _ List.mem_cons_self
    · exact List.mem_append_right _ (ih later)

/-- Members of the config object are always asked for. -/
theorem config_mem_requests {expr : Expr} {record : RecordId} {name : String}
    (mentioned : .config record name ∈ expr.operands) : .config record name ∈ expr.requests := by
  induction expr with
  | const => cases mentioned
  | operand part =>
    cases List.mem_singleton.mp mentioned
    exact List.mem_cons_self
  | concat parts => exact config_mem_requestsOf mentioned
  | add left right first second | mul left right first second =>
    rcases List.mem_append.mp mentioned with before | after
    · exact List.mem_append_left _ (first before)
    · exact List.mem_append_right _ (second after)

/-!
## Sums and products
-/

section Arithmetic

variable {left right result : Expr}

theorem requests_sum (computed : sum left right = some result) :
    result.requests = left.requests ++ right.requests := by
  unfold sum at computed
  split at computed
  · obtain ⟨value, _, rfl⟩ := Option.map_eq_some_iff.mp computed
    rfl
  · cases computed
    rfl
  · cases computed
    exact (List.append_nil _).symm
  · cases computed
    rfl

private theorem product_eq_zero_iff (computed : product left right = some result) :
    result = const 0 ↔ left = const 0 ∨ right = const 0 := by
  unfold product at computed
  split at computed
  · obtain ⟨value, multiplied, rfl⟩ := Option.map_eq_some_iff.mp computed
    obtain ⟨_, rfl⟩ := Word.mul_eq_some_iff.mp multiplied
    simp only [const.injEq, Int.mul_eq_zero]
  all_goals
    cases computed
    simp_all

/-- A product asks for what its factors ask for, unless it is zero. -/
theorem requests_product (computed : product left right = some result) :
    result.requests =
      if left = const 0 ∨ right = const 0 then [] else left.requests ++ right.requests := by
  unfold product at computed
  split at computed
  · obtain ⟨value, _, rfl⟩ := Option.map_eq_some_iff.mp computed
    exact (ite_self _).symm
  all_goals
    cases computed
    simp_all [requests]

theorem requests_foldlM_product {factors : List Expr} {first : Expr}
    (computed : factors.foldlM product first = some result)
    (nonzero : ∀ factor ∈ factors, factor ≠ const 0) :
    (result = const 0 ↔ first = const 0) ∧ result.requests =
      if first = const 0 then [] else first.requests ++ factors.flatMap requests := by
  induction factors generalizing first with
  | nil =>
    cases computed
    refine ⟨Iff.rfl, ?_⟩
    split
    · rename_i zero
      rw [zero]
      rfl
    · exact (List.append_nil _).symm
  | cons factor rest ih =>
    obtain ⟨here, later⟩ := List.forall_mem_cons.mp nonzero
    rw [List.foldlM_cons] at computed
    obtain ⟨middle, multiplied, computed⟩ := Option.bind_eq_some_iff.mp computed
    obtain ⟨zero, asked⟩ := ih computed later
    have same : middle = const 0 ↔ first = const 0 := by
      rw [product_eq_zero_iff multiplied, or_iff_left here]
    refine ⟨zero.trans same, ?_⟩
    rw [asked, requests_product multiplied]
    simp only [same, here, or_false, List.flatMap_cons]
    split
    · rfl
    · rw [List.append_assoc]

end Arithmetic

/-!
## Spellings that answer alike
-/

section Congruence

variable {first second : Operand.Spelling}

private theorem render_operand_congr {part : Operand}
    (same : ∀ request ∈ part.requests, first.SameAt second request) :
    part.render first = part.render second := by
  cases part with
  | text => rfl
  | member | static | config => exact same _ List.mem_cons_self

private theorem renderParts_congr {parts : List Operand} {pending : Option String}
    (same : ∀ request ∈ requestsOf parts, first.SameAt second request) :
    renderParts first pending parts = renderParts second pending parts := by
  fun_induction renderParts first pending parts with
  | case1 => rfl
  | case2 argument source rest arguments ih => rw [renderParts, ih same]
  | case3 pending name next rest opening ih =>
    rw [requestsOf, if_pos opening] at same
    obtain ⟨callee, later⟩ := List.forall_mem_cons.mp same
    have called : first.call name = second.call name := callee
    rw [renderParts, if_pos opening, ih later, called]
  | case4 pending name next rest opening ih =>
    rw [requestsOf, if_neg opening] at same
    obtain ⟨value, later⟩ := List.forall_mem_cons.mp same
    have read : first.member name = second.member name := value
    rw [renderParts, if_neg opening, ih later, read]
  | case5 pending part rest noText noCall ih =>
    rw [requestsOf] at same
    · obtain ⟨here, later⟩ := List.forall_mem_append.mp same
      rw [renderParts, ih later, render_operand_congr here]
      · exact noCall
      · exact noText
    · exact noCall

/-- Nothing but the answers to its requests counts for the text of an expression. -/
theorem render_congr {expr : Expr}
    (same : ∀ request ∈ expr.requests, first.SameAt second request) :
    expr.render first = expr.render second := by
  induction expr with
  | const => rfl
  | operand part => exact render_operand_congr same
  | concat parts => exact renderParts_congr same
  | add left right sum others =>
    obtain ⟨before, after⟩ := List.forall_mem_append.mp same
    rw [render, sum before, others after, render]
  | mul left right product others =>
    obtain ⟨before, after⟩ := List.forall_mem_append.mp same
    rw [render, product before, others after, render]

end Congruence

/-!
## Texts that show an answer
-/

section Answers

variable {spelling : Operand.Spelling} {request : Request}

private theorem answerLength_le_operand {part : Operand} (asked : request ∈ part.requests) :
    spelling.answerLength request ≤ (part.render spelling).length := by
  cases part with
  | text => cases asked
  | member | static | config =>
    cases List.mem_singleton.mp asked
    exact Nat.le_refl _

private theorem answerLength_le_renderParts {parts : List Operand} {pending : Option String}
    (asked : request ∈ requestsOf parts) :
    spelling.answerLength request ≤ (renderParts spelling pending parts).length := by
  fun_induction renderParts spelling pending parts with
  | case1 => cases asked
  | case2 implicit source rest arguments ih =>
    have later := ih asked
    rw [String.length_append]
    omega
  | case3 pending name next rest opening ih =>
    rw [requestsOf, if_pos opening] at asked
    rw [String.length_append]
    rcases List.mem_cons.mp asked with rfl | later
    · rw [Operand.Spelling.answerLength]
      cases (spelling.call name).2 with
      | none => simp
      | some argument =>
        simp only [renderParts, Option.elim_some, String.length_append]
        omega
    · have bound := ih later
      omega
  | case4 pending name next rest opening ih =>
    rw [requestsOf, if_neg opening] at asked
    rw [String.length_append]
    rcases List.mem_cons.mp asked with rfl | later
    · exact Nat.le_add_right _ _
    · have bound := ih later
      omega
  | case5 pending part rest noText noCall ih =>
    rw [requestsOf] at asked
    · rw [String.length_append]
      rcases List.mem_append.mp asked with here | later
      · have bound : spelling.answerLength request ≤ (part.render spelling).length :=
          answerLength_le_operand here
        omega
      · have bound := ih later
        omega
    · exact noCall

private theorem length_le_parenthesizeUnless (simple : Bool) (text : String) :
    text.length ≤ (parenthesizeUnless simple text).length := by
  unfold parenthesizeUnless
  split
  · exact Nat.le_refl _
  · simp only [String.length_append]
    omega

/-- The text of an expression is not shorter than the answer to any request for it. -/
theorem answerLength_le_render {expr : Expr} (asked : request ∈ expr.requests) :
    spelling.answerLength request ≤ (expr.render spelling).length := by
  induction expr with
  | const => cases asked
  | operand part => exact answerLength_le_operand asked
  | concat parts => exact answerLength_le_renderParts asked
  | add left right first second =>
    simp only [render, String.length_append]
    rcases List.mem_append.mp asked with before | after
    · have bound := first before
      omega
    · have bound := second after
      omega
  | mul left right first second =>
    have leftWhole := length_le_parenthesizeUnless left.isSimpleFactor (left.render spelling)
    have rightWhole := length_le_parenthesizeUnless right.isSimpleFactor (right.render spelling)
    simp only [render, String.length_append]
    rcases List.mem_append.mp asked with before | after
    · have bound := first before
      omega
    · have bound := second after
      omega

/-- Where the answer to a request holds a word, the text of the expression depends on the word: one that
is too long for a text gives another. -/
theorem exists_render_ne {expr : Expr} (asked : request ∈ expr.requests)
    (spellings : String → Operand.Spelling)
    (held : ∀ word, word.length ≤ (spellings word).answerLength request) (text : String) :
    ∃ word, expr.render (spellings word) ≠ text := by
  let long := String.ofList (List.replicate (text.length + 1) 'x')
  refine ⟨long, fun same => ?_⟩
  have bound := Nat.le_trans (held long) (answerLength_le_render asked)
  rw [same] at bound
  simp only [long, String.length_ofList, List.length_replicate] at bound
  omega

end Answers

end Expr

end RecordSchema
