import RecordSchema.Proofs.Expr.Placeholders
import RecordSchema.Proofs.Expr.References
import RecordSchema.Proofs.Text

/-!
# Expressions are read back from their source text

The source text of an expression that is built from texts by sums and products is accepted where
those texts are, and what is read from it has the same text, the same members in the same order and
the same need of a config object. Parentheses and operators separate placeholders, so none is split
and none arises where two texts meet.
-/

set_option autoImplicit false

namespace RecordSchema.Expr

open Outcome

/-- Expressions that are built by sums and products of what is read in a context. -/
inductive Composed (context : Context) : Expr → Prop where
  | parse {raw : String} {expr : Expr} : parse context raw = .ok expr → Composed context expr
  | sum {left right result : Expr} : Composed context left → Composed context right →
      sum left right = some result → Composed context result
  | product {left right result : Expr} : Composed context left → Composed context right →
      product left right = some result → Composed context result
  | productOf {factors : List Expr} {result : Expr} :
      (∀ factor ∈ factors, Composed context factor) →
      productOf factors = some result → Composed context result

/-- What makes a text that refers to the placeholders among some operands readable. -/
structure Writes (context : Context) (text : List Char) (parts : List Operand) : Prop where
  refers : Parser.Refers context text (parts.filter Operand.isPlaceholder)
  trimmed : Text.Trimmed text
  nonempty : text ≠ []

/-- The source text of an expression can be read in a context. -/
structure Readable (context : Context) (expr : Expr) : Prop where
  writes : Writes context expr.source.toList expr.operands
  numeral : Numeral.word? expr.source.toList = expr.constant?

/-!
## Texts
-/

section Texts

variable {context : Context} {text left right : List Char} {parts first second : List Operand}

theorem separates {character : Char} (operator : character ∈ ['(', ')', '+', '*']) :
    Parser.Separates character ∧ Text.isBlank character = false := by
  obtain ⟨name, token, visible⟩ : Text.isWordChar character = false ∧
      (∀ placeholder ∈ [Placeholder.self, .type, .config],
        character ∉ placeholder.token.toList) ∧ Text.isBlank character = false := by
    simp only [List.mem_cons, List.not_mem_nil, or_false] at operator
    rcases operator with rfl | rfl | rfl | rfl <;> decide
  refine ⟨⟨fun placeholder => token placeholder ?_, name⟩, visible⟩
  cases placeholder <;> simp

theorem Writes.join (one : Writes context left first) (other : Writes context right second)
    {operator : Char} (listed : operator ∈ ['(', ')', '+', '*']) :
    Writes context (left ++ operator :: right) (first ++ second) where
  refers := by
    rw [List.filter_append]
    exact one.refers.append other.refers (separates listed).1
  trimmed := one.trimmed.append other.trimmed (separates listed).2
  nonempty := by simp

private theorem Writes.parenthesize (writes : Writes context text parts) :
    Writes context ('(' :: (text ++ [')'])) parts where
  refers := by
    have closed := writes.refers.append .nil (separates (by simp : ')' ∈ _)).1
    rw [List.append_nil] at closed
    exact Parser.Refers.nil.append closed (separates (by simp : '(' ∈ _)).1
  trimmed := by
    have closed := writes.trimmed.append .nil (separates (by simp : ')' ∈ _)).2
    exact Text.Trimmed.nil.append closed (separates (by simp : '(' ∈ _)).2
  nonempty := by simp

/-- A text with an operator that is no sign in it is no numeral. -/
theorem word?_eq_none {operator : Char} (listed : operator ∈ ['(', '*']) (inside : operator ∈ text) :
    Numeral.word? text = none := by
  cases read : Numeral.word? text with
  | none => rfl
  | some value =>
    have never : ¬ (operator.isDigit = true ∨ operator = '-' ∨ operator = '+') := by
      simp only [List.mem_cons, List.not_mem_nil, or_false] at listed
      rcases listed with rfl | rfl <;> decide
    exact absurd ((Numeral.word?_some read).2 operator inside) never

end Texts

/-!
## Expressions
-/

section Expressions

variable {context : Context} {left right result : Expr}

theorem Readable.const {value : Int} (fits : Word.Fits value) : Readable context (const value) := by
  have numeral := Numeral.word?_toString fits
  have letters := (Numeral.word?_some numeral).2
  have visible : ∀ character ∈ (toString value).toList,
      Text.isBlank character = false ∧ character ≠ '\x7b' := by
    intro character member
    rcases letters character member with digit | rfl | rfl
    · have bounds : 48 ≤ character.toNat ∧ character.toNat ≤ 57 := Char.isDigit_iff_toNat.mp digit
      refine ⟨?_, ?_⟩
      · simp [Text.isBlank]
        omega
      · rintro rfl
        exact absurd digit (by decide)
    · decide
    · decide
  refine ⟨⟨.of_plain fun character member => (visible character member).2, ?_, ?_⟩, numeral⟩
  · exact ⟨fun character found => (visible character (List.mem_of_head? found)).1,
      fun character found => (visible character (List.mem_of_getLast? found)).1⟩
  · intro empty
    have none := numeral
    change (toString value).toList = [] at empty
    rw [empty] at none
    cases none

private theorem trim_toList (raw : String) : (Text.trim raw).toList = Text.trimBlanks raw.toList :=
  String.toList_ofList

private theorem trim_of_trimmed {text : String} (trimmed : Text.Trimmed text.toList) :
    Text.trim text = text := by
  rw [Text.trim, trimmed.trimBlanks, String.ofList_toList]

/-- What is read from a text is a word, or operands that are written as the text. -/
theorem parse_cases {raw : String} {expr : Expr} (accepted : parse context raw = .ok expr) :
    (∃ value, expr = .const value ∧ Word.Fits value) ∨
    (Text.trim raw ≠ "" ∧ Numeral.word? (Text.trim raw).toList = none ∧
      expr.source = Text.trim raw ∧
      ∃ parts, Parser.operands context (Text.trim raw) [] (Text.trim raw).toList = .ok parts ∧
        expr = Parser.ofOperands parts) := by
  unfold parse at accepted
  dsimp only at accepted
  split at accepted
  · cases accepted
  · rename_i nonempty
    split at accepted
    · rename_i value read
      cases accepted
      exact .inl ⟨value, rfl, (Numeral.word?_some read).1⟩
    · rename_i noNumeral
      obtain ⟨parts, read, rfl⟩ := map_ok accepted
      refine .inr ⟨by simpa using nonempty, noNumeral, ?_, parts, read, rfl⟩
      rw [← String.toList_inj, Parser.source_ofOperands, Parser.operands_written read,
        List.reverse_nil, List.nil_append]

theorem ofOperands_constant? (parts : List Operand) : (Parser.ofOperands parts).constant? = none := by
  unfold Parser.ofOperands
  split <;> rfl

theorem Readable.parse {raw : String} {expr : Expr} (accepted : parse context raw = .ok expr) :
    Readable context expr := by
  rcases parse_cases accepted with ⟨value, rfl, fits⟩ | ⟨nonempty, noNumeral, text, parts, read, rfl⟩
  · exact .const fits
  · refine ⟨⟨?_, ?_, ?_⟩, ?_⟩
    · rw [text, Parser.ofOperands_operands]
      exact Parser.operands_refers read
    · rw [text, trim_toList]
      exact Text.trimBlanks_trimmed _
    · rw [text]
      simpa using nonempty
    · rw [text, noNumeral, ofOperands_constant?]

/-- The text of a factor, between parentheses if it needs them. -/
theorem Readable.factor {expr : Expr} (readable : Readable context expr) (simple : Bool) :
    Writes context (parenthesizeUnless simple expr.source).toList expr.operands := by
  cases simple with
  | true => exact readable.writes
  | false =>
    have text : (parenthesizeUnless false expr.source).toList = '(' :: (expr.source.toList ++ [')']) := by
      simp [parenthesizeUnless]
    rw [text]
    exact readable.writes.parenthesize

theorem Readable.add (one : Readable context left) (other : Readable context right) :
    Readable context (.add left right) := by
  have text : (Expr.add left right).source.toList =
      '(' :: ((left.source.toList ++ '+' :: right.source.toList) ++ [')']) := by
    simp [source, render]
  constructor
  case writes =>
    rw [text]
    exact (one.writes.join other.writes (by simp)).parenthesize
  case numeral =>
    rw [text]
    exact word?_eq_none (by simp : '(' ∈ _) (by simp)

theorem Readable.mul (one : Readable context left) (other : Readable context right) :
    Readable context (.mul left right) := by
  have text : (Expr.mul left right).source.toList =
      (parenthesizeUnless left.isSimpleFactor left.source).toList ++
        '*' :: (parenthesizeUnless right.isSimpleFactor right.source).toList := by
    simp [source, render]
  constructor
  case writes =>
    rw [text]
    exact (one.factor _).join (other.factor _) (by simp)
  case numeral =>
    rw [text]
    exact word?_eq_none (by simp : '*' ∈ _) (by simp)

theorem Readable.sum (one : Readable context left) (other : Readable context right)
    (computed : Expr.sum left right = some result) : Readable context result := by
  unfold Expr.sum at computed
  split at computed
  · obtain ⟨value, added, rfl⟩ := Option.map_eq_some_iff.mp computed
    obtain ⟨fits, rfl⟩ := Word.add_eq_some_iff.mp added
    exact .const fits
  · cases computed
    exact other
  · cases computed
    exact one
  · cases computed
    exact one.add other

theorem Readable.product (one : Readable context left) (other : Readable context right)
    (computed : Expr.product left right = some result) : Readable context result := by
  unfold Expr.product at computed
  split at computed
  · obtain ⟨value, multiplied, rfl⟩ := Option.map_eq_some_iff.mp computed
    obtain ⟨fits, rfl⟩ := Word.mul_eq_some_iff.mp multiplied
    exact .const fits
  · cases computed
    exact one
  · cases computed
    exact other
  · cases computed
    exact other
  · cases computed
    exact one
  · cases computed
    exact one.mul other

private theorem Composed.readable {expr : Expr} (composed : Composed context expr) :
    Readable context expr := by
  induction composed with
  | parse accepted => exact .parse accepted
  | sum _ _ computed one other => exact one.sum other computed
  | product _ _ computed one other => exact one.product other computed
  | productOf _ computed factors =>
    exact Outcome.foldlM_preserves_option computed (Readable context) (.const (by decide))
      fun factor member _ _ before multiplied => before.product (factors factor member) multiplied

end Expressions

/-!
## Reading the source text
-/

section RoundTrip

variable {context : Context} {expr : Expr}

private theorem members_eq (expr : Expr) :
    expr.members = (expr.operands.filter Operand.isPlaceholder).filterMap Operand.member? := by
  rw [members, List.filterMap_filter]
  refine List.filterMap_congr fun part _ => ?_
  cases part <;> rfl

private theorem hasConfig_eq (expr : Expr) :
    expr.hasConfig = (expr.operands.filter Operand.isPlaceholder).any Operand.isConfig := by
  rw [hasConfig, List.any_filter]
  congr 1
  funext part
  cases part <;> rfl

private theorem Readable.parse_eq (readable : Readable context expr) :
    Expr.parse context expr.source =
      match expr.constant? with
      | some value => .ok (.const value)
      | none =>
        (Parser.operands context expr.source [] expr.source.toList).map Parser.ofOperands := by
  have nonempty : ¬ expr.source.isEmpty = true := by simpa using readable.writes.nonempty
  have numeral := readable.numeral
  cases known : expr.constant? with
  | none =>
    rw [known] at numeral
    simp [Expr.parse, trim_of_trimmed readable.writes.trimmed, nonempty, numeral]
  | some value =>
    rw [known] at numeral
    simp [Expr.parse, trim_of_trimmed readable.writes.trimmed, nonempty, numeral]

private theorem Readable.parse_source (readable : Readable context expr) :
    ∃ again, Expr.parse context expr.source = .ok again ∧ again.source = expr.source ∧
      again.members = expr.members ∧ again.hasConfig = expr.hasConfig := by
  rw [readable.parse_eq]
  cases known : expr.constant? with
  | some value =>
    obtain rfl := constant?_eq_some_iff.mp known
    exact ⟨_, rfl, rfl, rfl, rfl⟩
  | none =>
    obtain ⟨parts, read, same⟩ := readable.writes.refers.operands expr.source []
    rw [read]
    refine ⟨_, rfl, ?_, ?_, ?_⟩
    · rw [← String.toList_inj, Parser.source_ofOperands, Parser.operands_written read,
        List.reverse_nil, List.nil_append]
    · rw [members_eq, members_eq expr, Parser.ofOperands_operands, same]
    · rw [hasConfig_eq, hasConfig_eq expr, Parser.ofOperands_operands, same]

private theorem parse_source_eq {raw : String} (accepted : Expr.parse context raw = .ok expr) :
    Expr.parse context expr.source = .ok expr ∧
      (expr.constant? = none → expr.source = Text.trim raw) := by
  rw [(Readable.parse accepted).parse_eq]
  rcases parse_cases accepted with ⟨value, rfl, _⟩ | ⟨_, _, text, parts, read, rfl⟩
  · exact ⟨rfl, fun none => by cases none⟩
  · rw [ofOperands_constant?, text, read]
    exact ⟨rfl, fun _ => rfl⟩

/-- The source text of an expression that is built from texts read in a context is read in that
context, and the result has the same source text, names the same members in the same order and needs
a config object if the expression does. An expression that was read itself is read back unchanged,
from the very text it was read from unless that is a numeral. -/
theorem source_roundTrip (composed : Composed context expr) :
    (∃ again, Expr.parse context expr.source = .ok again ∧ again.source = expr.source ∧
      again.members = expr.members ∧ again.hasConfig = expr.hasConfig) ∧
    ∀ raw, Expr.parse context raw = .ok expr →
      Expr.parse context expr.source = .ok expr ∧
        (expr.constant? = none → expr.source = Text.trim raw) :=
  ⟨composed.readable.parse_source, fun _ => parse_source_eq⟩

theorem source_roundTrip_sample :
    let context : Context := ⟨some ⟨0⟩, some ⟨1⟩, "Sample.List.bytes"⟩
    ∃ expr, Composed context expr ∧
      expr.source = "(\x7bself\x7d.count+x\x7by)*\x7bxtc-config\x7d.n" ∧
      (∃ again, Expr.parse context expr.source = .ok again ∧ again.source = expr.source ∧
        again.members = expr.members ∧ again.hasConfig = expr.hasConfig) ∧
      Expr.parse context "\x7bself\x7d.count" = .ok (.operand (.member "count")) := by
  intro context
  have count : Expr.parse context " \x7bself\x7d.count" = .ok (.operand (.member "count")) := by
    decide +kernel
  have text : Expr.parse context "x\x7by" = .ok (.operand (.text "x\x7by")) := by decide +kernel
  have number : Expr.parse context "\x7bxtc-config\x7d.n" = .ok (.operand (.config ⟨1⟩ "n")) := by
    decide +kernel
  have composed : Composed context
      (.mul (.add (.operand (.member "count")) (.operand (.text "x\x7by")))
        (.operand (.config ⟨1⟩ "n"))) :=
    .product (.sum (.parse count) (.parse text) rfl) (.parse number) rfl
  exact ⟨_, composed, by decide +kernel, (source_roundTrip composed).1,
    ((source_roundTrip (.parse count)).2 _ count).1⟩

end RoundTrip

end RecordSchema.Expr
