import Mathlib.Data.BitVec
import RecordSchema.Cpp.Operands
import RecordSchema.Proofs.Build
import RecordSchema.Proofs.Expr.Grammar

/-!
# Precedences in rendered expressions

The text of a tree against the value of the tree, with each leaf read on its own. Sums stand in parentheses,
and factors do unless they bind tightly. The terms of a sum are written as they are, so a leaf that is a term
has to bind as tightly as a sum does.
-/

set_option autoImplicit false

namespace RecordSchema.Cpp

open RecordSchema.Expr

section Texts

variable {α : Type} [CommRing α] {meaning : Meaning α} {spelling : Operand.Spelling}

/-- A text is an expression of some level with some value. -/
def Evaluates (meaning : Meaning α) (level : Nat) (text : String) (value : α) : Prop :=
  ∃ tokens, tokenize text = some tokens ∧ Reads meaning level tokens value

/-- The text of an operand that is one token. -/
def IsAtomic (text : String) : Prop :=
  tokenize text = some [.atom text]

instance (text : String) : Decidable (IsAtomic text) :=
  inferInstanceAs (Decidable (_ = _))

/-- The operands of a tree that are spelled have atomic texts. -/
def AtomicOperands (spelling : Operand.Spelling) (tree : Expr) : Prop :=
  ∀ part ∈ tree.operands, (∃ source, part = .text source) ∨ IsAtomic (part.render spelling)

def IsLeaf : Expr → Bool
  | .operand _ => true
  | .concat _ => true
  | _ => false

/-- The value of a tree whose leaves are read on their own. -/
inductive Computes (meaning : Meaning α) (spelling : Operand.Spelling) : Expr → α → Prop where
  | const (value : Int) : Computes meaning spelling (.const value) value
  | leaf {leaf : Expr} {x : α} : IsLeaf leaf = true →
      Evaluates meaning Level.expression (leaf.render spelling) x → Computes meaning spelling leaf x
  | add {left right : Expr} {x y : α} : Computes meaning spelling left x →
      Computes meaning spelling right y → Computes meaning spelling (.add left right) (x + y)
  | mul {left right : Expr} {x y : α} : Computes meaning spelling left x →
      Computes meaning spelling right y → Computes meaning spelling (.mul left right) (x * y)

/-- A tree that sums and products make of numbers and leaves, and the value that they stand for. -/
inductive Made (meaning : Meaning α) (spelling : Operand.Spelling) : Expr → α → Prop where
  | const (value : Int) : Made meaning spelling (.const value) value
  | leaf {leaf : Expr} {x : α} : IsLeaf leaf = true →
      Evaluates meaning Level.expression (leaf.render spelling) x → Made meaning spelling leaf x
  | sum {left right result : Expr} {x y : α} : Made meaning spelling left x →
      Made meaning spelling right y → Expr.sum left right = some result →
      Made meaning spelling result (x + y)
  | product {left right result : Expr} {x y : α} : Made meaning spelling left x →
      Made meaning spelling right y → Expr.product left right = some result →
      Made meaning spelling result (x * y)

/-- A leaf may stand in a sum as it is: it binds as tightly as a sum. -/
def IsTerm (meaning : Meaning α) (spelling : Operand.Spelling) (tree : Expr) : Prop :=
  IsLeaf tree = true → ∃ x, Evaluates meaning Level.sum (tree.render spelling) x

def SumsOfTerms (meaning : Meaning α) (spelling : Operand.Spelling) : Expr → Prop
  | .add left right => (IsTerm meaning spelling left ∧ SumsOfTerms meaning spelling left) ∧
      IsTerm meaning spelling right ∧ SumsOfTerms meaning spelling right
  | .mul left right => SumsOfTerms meaning spelling left ∧ SumsOfTerms meaning spelling right
  | _ => True

private theorem isTerm_of_not_leaf {tree : Expr} (inner : IsLeaf tree = false) :
    IsTerm meaning spelling tree :=
  fun leaf => absurd (inner.symm.trans leaf) Bool.false_ne_true

/-!
## Texts put together
-/

variable {left right text : String} {x y : α} {level : Nat}

theorem Evaluates.unique (one : Evaluates meaning level text x) (other : Evaluates meaning level text y) :
    x = y := by
  obtain ⟨tokens, read, reads⟩ := one
  obtain ⟨tokens', read', reads'⟩ := other
  obtain rfl := Option.some.inj (read.symm.trans read')
  exact reads.unique reads'

theorem Evaluates.lower {lower : Nat} (evaluates : Evaluates meaning level text x)
    (below : lower ≤ level) : Evaluates meaning lower text x := by
  obtain ⟨tokens, read, reads⟩ := evaluates
  exact ⟨tokens, read, reads.lower below⟩

private theorem IsAtomic.evaluates (atomic : IsAtomic text) :
    Evaluates meaning Level.operand text (meaning.atom text) :=
  ⟨_, atomic, .atom⟩

/-- An atomic text has the value of the atom. -/
theorem IsAtomic.at_operand (atomic : IsAtomic text) (evaluates : Evaluates meaning level text x) :
    Evaluates meaning Level.operand text x := by
  obtain ⟨tokens, read, reads⟩ := evaluates
  obtain rfl := Option.some.inj (read.symm.trans atomic)
  rw [reads.unique (reads_atom text reads.level_le)]
  exact atomic.evaluates

theorem Evaluates.enclosed (evaluates : Evaluates meaning Level.expression text x) :
    Evaluates meaning Level.operand ("(" ++ text ++ ")") x := by
  obtain ⟨tokens, read, reads⟩ := evaluates
  exact ⟨_, tokenize_enclosed read, .group reads⟩

theorem Evaluates.plus (one : Evaluates meaning Level.sum left x)
    (other : Evaluates meaning Level.sum right y) :
    Evaluates meaning Level.sum (left ++ "+" ++ right) (x + y) := by
  obtain ⟨tokens, read, reads⟩ := one
  obtain ⟨tokens', read', reads'⟩ := other
  exact ⟨_, tokenize_plus read read', reads.plus reads' rfl⟩

theorem Evaluates.times (one : Evaluates meaning Level.product left x)
    (other : Evaluates meaning Level.product right y) :
    Evaluates meaning Level.product (left ++ "*" ++ right) (x * y) := by
  obtain ⟨tokens, read, reads⟩ := one
  obtain ⟨tokens', read', reads'⟩ := other
  exact ⟨_, tokenize_times read read', reads.times reads' rfl⟩

private theorem evaluates_number (number : Int) :
    Evaluates meaning Level.operand (toString number) (number : α) := by
  have digits : Reads meaning Level.operand [.atom (toString number.natAbs)] (number.natAbs : α) := by
    rw [← meaning.numeral]
    exact .atom
  refine ⟨_, tokenize_toString number, ?_⟩
  by_cases below : number < 0
  · have value : (number : α) = -(number.natAbs : α) := by
      have absolute := Int.ofNat_natAbs_of_nonpos (Int.le_of_lt below)
      rw [← Int.cast_natCast, absolute, Int.cast_neg, neg_neg]
    rw [if_pos below, value]
    exact .negative digits
  · have value : (number : α) = (number.natAbs : α) := by
      have absolute := Int.natAbs_of_nonneg (Int.not_lt.mp below)
      rw [← Int.cast_natCast, absolute]
    rw [if_neg below, value]
    exact digits

private theorem computes_const {value : Int} (computes : Computes meaning spelling (.const value) x) :
    x = value := by
  cases computes with
  | const => rfl
  | leaf leaf _ => cases leaf

/-- Sums that are computed at once have the value of the sum. -/
theorem Computes.sum {left right result : Expr} (one : Computes meaning spelling left x)
    (other : Computes meaning spelling right y) (computed : Expr.sum left right = some result) :
    Computes meaning spelling result (x + y) := by
  unfold Expr.sum at computed
  split at computed
  · obtain ⟨value, added, rfl⟩ := Option.map_eq_some_iff.mp computed
    obtain ⟨-, rfl⟩ := Word.add_eq_some_iff.mp added
    rw [computes_const one, computes_const other, ← Int.cast_add]
    exact .const _
  · cases computed
    rw [computes_const one, Int.cast_zero, zero_add]
    exact other
  · cases computed
    rw [computes_const other, Int.cast_zero, add_zero]
    exact one
  · cases computed
    exact .add one other

theorem Computes.product {left right result : Expr} (one : Computes meaning spelling left x)
    (other : Computes meaning spelling right y) (computed : Expr.product left right = some result) :
    Computes meaning spelling result (x * y) := by
  unfold Expr.product at computed
  split at computed
  · obtain ⟨value, multiplied, rfl⟩ := Option.map_eq_some_iff.mp computed
    obtain ⟨-, rfl⟩ := Word.mul_eq_some_iff.mp multiplied
    rw [computes_const one, computes_const other, ← Int.cast_mul]
    exact .const _
  · cases computed
    have zero : ((0 : Int) : α) * y = (0 : Int) := by rw [Int.cast_zero, zero_mul]
    rw [computes_const one, zero]
    exact .const 0
  · cases computed
    have zero : x * ((0 : Int) : α) = (0 : Int) := by rw [Int.cast_zero, mul_zero]
    rw [computes_const other, zero]
    exact .const 0
  · cases computed
    rw [computes_const one, Int.cast_one, one_mul]
    exact other
  · cases computed
    rw [computes_const other, Int.cast_one, mul_one]
    exact one
  · cases computed
    exact .mul one other

private theorem Made.computes {tree : Expr} (made : Made meaning spelling tree x) :
    Computes meaning spelling tree x := by
  induction made with
  | const value => exact .const value
  | leaf leaf evaluates => exact .leaf leaf evaluates
  | sum _ _ computed one other => exact one.sum other computed
  | product _ _ computed one other => exact one.product other computed

private theorem Made.foldlM_product {factors : List Expr} {values : List α}
    (made : List.Forall₂ (Made meaning spelling) factors values) {first result : Expr}
    (start : Made meaning spelling first x) (computed : factors.foldlM Expr.product first = some result) :
    Made meaning spelling result (x * values.prod) := by
  induction made generalizing first x with
  | nil =>
    cases computed
    simpa using start
  | cons here _ ih =>
    rw [List.foldlM_cons] at computed
    obtain ⟨middle, multiplied, computed⟩ := Option.bind_eq_some_iff.mp computed
    rw [List.prod_cons, ← mul_assoc]
    exact ih (start.product here multiplied) computed

/-- A product of any number of factors is made of them. -/
theorem Made.productOf {factors : List Expr} {values : List α}
    (made : List.Forall₂ (Made meaning spelling) factors values) {result : Expr}
    (computed : Expr.productOf factors = some result) : Made meaning spelling result values.prod := by
  have whole := Made.foldlM_product made (.const 1) computed
  rwa [Int.cast_one, one_mul] at whole

/-- Where an attribute ends is made of its offset, its element size and its counts. -/
theorem Made.stopAfter {attr : Attribute} {counts : List α} {stop : Expr}
    (offset : Made meaning spelling attr.offset x) (elementSize : Made meaning spelling attr.elementSize y)
    (counted : List.Forall₂ (Made meaning spelling) (attr.shape.filterMap Dimension.count?) counts)
    (bounded : Layout.isUnbounded attr.shape = false) (computed : Layout.stopAfter attr = some stop) :
    Made meaning spelling stop (x + y * counts.prod) := by
  rw [Layout.stopAfter, if_neg (Bool.eq_false_iff.mp bounded)] at computed
  obtain ⟨count, product, computed⟩ := Option.bind_eq_some_iff.mp computed
  obtain ⟨extent, multiplied, added⟩ := Option.bind_eq_some_iff.mp computed
  exact offset.sum (elementSize.product (Made.productOf counted product) multiplied) added

/-!
## Trees
-/

/-- How tightly the text of a tree binds. -/
def ownLevel : Expr → Nat
  | .const _ => Level.operand
  | .add _ _ => Level.operand
  | .mul _ _ => Level.product
  | _ => Level.expression

private theorem Evaluates.ne_empty (evaluates : Evaluates meaning level text x) : text.toList ≠ [] := by
  obtain ⟨tokens, read, reads⟩ := evaluates
  intro empty
  obtain rfl : text = "" := String.toList_injective empty
  cases read
  exact reads.ne_nil rfl

/-- A factor as it stands beside a multiplication sign. -/
theorem evaluates_factor {tree : Expr} (evaluates : Evaluates meaning (ownLevel tree) (tree.render spelling) x)
    (atomic : AtomicOperands spelling tree) :
    Evaluates meaning Level.product
      (parenthesizeUnless tree.isSimpleFactor (tree.render spelling)) x := by
  cases tree with
  | const | add => exact evaluates.lower Level.product_le_operand
  | mul => exact evaluates
  | concat parts => exact evaluates.enclosed.lower Level.product_le_operand
  | operand part =>
    cases part with
    | text source =>
      unfold parenthesizeUnless
      split
      · rename_i word
        have atom : IsAtomic source := tokenize_word evaluates.ne_empty (List.all_eq_true.mp word)
        exact (atom.at_operand evaluates).lower Level.product_le_operand
      · exact evaluates.enclosed.lower Level.product_le_operand
    | member | static | config =>
      rcases atomic _ List.mem_cons_self with ⟨_, same⟩ | atom
      · cases same
      · exact (atom.at_operand evaluates).lower Level.product_le_operand

/-- A tree as it stands in a sum. -/
theorem evaluates_term {tree : Expr} (evaluates : Evaluates meaning (ownLevel tree) (tree.render spelling) x)
    (term : IsTerm meaning spelling tree) : Evaluates meaning Level.sum (tree.render spelling) x := by
  cases tree with
  | const | add => exact evaluates.lower (Nat.le_trans Level.sum_le_product Level.product_le_operand)
  | mul => exact evaluates.lower Level.sum_le_product
  | operand | concat =>
    obtain ⟨value, reads⟩ := term rfl
    rw [evaluates.unique (reads.lower (Nat.zero_le _))]
    exact reads

/-- If the terms of sums may stand as they are, the text of a tree has the value of the tree. -/
theorem Computes.evaluates {tree : Expr} (computes : Computes meaning spelling tree x)
    (atomic : AtomicOperands spelling tree) (terms : SumsOfTerms meaning spelling tree) :
    Evaluates meaning (ownLevel tree) (tree.render spelling) x := by
  induction computes with
  | const value => exact evaluates_number value
  | @leaf tree _ leaf evaluates =>
    cases tree with
    | operand | concat => exact evaluates
    | const | add | mul => cases leaf
  | add _ _ leftIH rightIH =>
    obtain ⟨before, after⟩ := List.forall_mem_append.mp atomic
    obtain ⟨⟨leftTerm, leftSums⟩, rightTerm, rightSums⟩ := terms
    have sum := (evaluates_term (leftIH before leftSums) leftTerm).plus
      (evaluates_term (rightIH after rightSums) rightTerm)
    have whole := (sum.lower (Nat.zero_le _)).enclosed
    rw [render, ownLevel]
    simpa only [String.append_assoc] using whole
  | mul _ _ leftIH rightIH =>
    obtain ⟨before, after⟩ := List.forall_mem_append.mp atomic
    exact (evaluates_factor (leftIH before terms.1) before).times
      (evaluates_factor (rightIH after terms.2) after)

/-- Two expressions with a plus sign between them are a sum only if they may both stand in one. -/
theorem evaluates_plus_iff (one : Evaluates meaning Level.expression left x)
    (other : Evaluates meaning Level.expression right y) :
    (∃ z, Evaluates meaning Level.sum (left ++ "+" ++ right) z) ↔
      (∃ z, Evaluates meaning Level.sum left z) ∧ ∃ z, Evaluates meaning Level.sum right z := by
  obtain ⟨tokens, read, reads⟩ := one
  obtain ⟨tokens', read', reads'⟩ := other
  simp only [Evaluates, tokenize_plus read read', read, read', Option.some.injEq, exists_eq_left']
  exact reads.plus_iff reads'

end Texts

/-- The text of a tree that sums and products make of leaves has the value that they stand for, in any
commutative ring, if the leaves among the terms of its sums may stand in a sum. Elsewhere the plus sign is not
what is applied last. -/
theorem render_evaluates {α : Type} [CommRing α] (meaning : Meaning α) (spelling : Operand.Spelling) :
    (∀ tree value, Made meaning spelling tree value → AtomicOperands spelling tree →
      SumsOfTerms meaning spelling tree → ∀ other,
        Evaluates meaning Level.expression (tree.render spelling) other ↔ other = value) ∧
      ∀ (left right : Expr) (x y : α), Evaluates meaning Level.expression (left.render spelling) x →
        Evaluates meaning Level.expression (right.render spelling) y →
          ((∃ z, Evaluates meaning Level.sum (left.render spelling ++ "+" ++ right.render spelling) z) ↔
            (∃ z, Evaluates meaning Level.sum (left.render spelling) z) ∧
              ∃ z, Evaluates meaning Level.sum (right.render spelling) z) := by
  constructor
  · intro tree value made atomic terms other
    have evaluates := (made.computes.evaluates atomic terms).lower (Nat.zero_le _)
    constructor
    · exact fun different => different.unique evaluates
    · rintro rfl
      exact evaluates
  · intro left right x y one other
    exact evaluates_plus_iff one other

/-- Words of 64 bits, with given values for the operands that are no numerals. -/
def wordMeaning (values : String → BitVec 64) : Meaning (BitVec 64) where
  atom text := ((Numeral.decimal? text.toList).map fun number => (number : BitVec 64)).getD (values text)
  shift x y := x <<< y
  conjunction x y := x &&& y
  disjunction x y := x ||| y
  choice x y z := if x = 0 then z else y
  numeral number := by
    have digits : (toString number).toList = Nat.toDigits 10 number := Nat.toList_repr
    rw [digits, Numeral.decimal?_toDigits]
    rfl

/-- A type whose sizes are counted by sums and products, and one with a count that is masked. -/
def countedTypes : List SourceUnit :=
  let bytes (name type count : String) : Declaration.Attribute :=
    { name, typeName := some type, shape := [count] }
  let number : Declaration.Attribute := { name := "n", typeName := some "uint32_t" }
  let plain : Declaration.Record :=
    { name := "Plain"
      attributes := [number, bytes "data" "uint8_t" "\x7bself\x7d.n * 2 - 1",
        bytes "rows" "uint16_t" "\x7bself\x7d.n | 8"] }
  let masked : Declaration.Record :=
    { name := "Masked", attributes := [number, bytes "data" "uint8_t" "\x7bself\x7d.n & 3"] }
  [{ document := { packages := [.mk "Sample" none [] [] [] [] [plain, masked]] } }]

theorem render_evaluates_sample : ∃ built, build countedTypes = .ok built ∧
    (built.model.record ⟨0⟩).size.render (spelling built.model ⟨0⟩) =
      "((4+this->_n * 2 - 1)+2*(this->_n | 8))" ∧
    ∀ number value, Evaluates (wordMeaning fun _ => number) Level.expression
      "((4+this->_n * 2 - 1)+2*(this->_n | 8))" value ↔
        value = 4 + (number * 2 - 1) + 2 * (number ||| 8) := by
  let scaled : Expr := .concat [.member "n", .text " * 2 - 1"]
  let filled : Expr := .concat [.member "n", .text " | 8"]
  have computed : ∃ built, build countedTypes = .ok built ∧
      (built.model.attr ⟨1⟩).offset = .const 4 ∧ (built.model.attr ⟨1⟩).elementSize = .const 1 ∧
      (built.model.attr ⟨2⟩).elementSize = .const 2 ∧
      (built.model.attr ⟨1⟩).shape = [.bounded scaled] ∧ (built.model.attr ⟨2⟩).shape = [.bounded filled] ∧
      Layout.stopAfter (built.model.attr ⟨1⟩) = some (built.model.attr ⟨2⟩).offset ∧
      Layout.stopAfter (built.model.attr ⟨2⟩) = some (built.model.record ⟨0⟩).size ∧
      (built.model.record ⟨0⟩).size = .add (.add (.const 4) scaled) (.mul (.const 2) filled) ∧
      (spelling built.model ⟨0⟩).member "n" = "this->_n" ∧
      scaled.render (spelling built.model ⟨0⟩) = "this->_n * 2 - 1" ∧
      filled.render (spelling built.model ⟨0⟩) = "this->_n | 8" ∧
      (built.model.record ⟨0⟩).size.render (spelling built.model ⟨0⟩) =
        "((4+this->_n * 2 - 1)+2*(this->_n | 8))" := exists_built (by decide +kernel)
  obtain ⟨built, accepted, offset, bytes, pairs, rows, columns, middle, last, size, atom, scaledText,
    filledText, text⟩ := computed
  refine ⟨built, accepted, text, ?_⟩
  intro number value
  let meaning := wordMeaning fun _ => number
  have twice : Reads meaning Level.product [.atom "this->_n", .operator .times, .atom "2"] (number * 2) :=
    @Reads.binary _ _ meaning .times [_] _ _ _ (reads_atom _ (by decide)) .atom
  have difference : Evaluates meaning Level.sum "this->_n * 2 - 1" (number * 2 - 1) :=
    ⟨[.atom "this->_n", .operator .times, .atom "2", .operator .minus, .atom "1"], by decide,
      @Reads.binary _ _ meaning .minus [_, _, _] _ _ _ (twice.lower (by decide)) (reads_atom _ (by decide))⟩
  have union : Evaluates meaning Level.expression "this->_n | 8" (number ||| 8) :=
    ⟨[.atom "this->_n", .operator .disjunction, .atom "8"], by decide,
      .lower (@Reads.binary _ _ meaning .disjunction [_] _ _ _ (reads_atom _ (by decide))
        (reads_atom _ (by decide))) (by decide)⟩
  have before : Made meaning (spelling built.model ⟨0⟩) (built.model.attr ⟨2⟩).offset
      ((4 : Int) + (1 : Int) * [number * 2 - 1].prod) := by
    refine Made.stopAfter (offset ▸ .const 4) (bytes ▸ .const 1) ?_ (by rw [rows]; rfl) middle
    rw [rows]
    exact .cons (.leaf rfl (scaledText ▸ difference.lower (by decide))) .nil
  have made : Made meaning (spelling built.model ⟨0⟩) (built.model.record ⟨0⟩).size
      ((4 : Int) + (1 : Int) * [number * 2 - 1].prod + (2 : Int) * [number ||| 8].prod) := by
    refine Made.stopAfter before (pairs ▸ .const 2) ?_ (by rw [columns]; rfl) last
    rw [columns]
    exact .cons (.leaf rfl (filledText ▸ union)) .nil
  have atomic : AtomicOperands (spelling built.model ⟨0⟩) (built.model.record ⟨0⟩).size := by
    have operand : IsAtomic "this->_n" := by decide
    rw [size]
    simp [AtomicOperands, operands, scaled, filled, Operand.render, atom, operand]
  have terms : SumsOfTerms meaning (spelling built.model ⟨0⟩) (built.model.record ⟨0⟩).size := by
    rw [size]
    have term : IsTerm meaning (spelling built.model ⟨0⟩) scaled := fun _ => ⟨_, scaledText ▸ difference⟩
    exact ⟨⟨isTerm_of_not_leaf rfl, ⟨isTerm_of_not_leaf rfl, trivial⟩, term, trivial⟩,
      isTerm_of_not_leaf rfl, trivial, trivial⟩
  have evaluates := (render_evaluates meaning (spelling built.model ⟨0⟩)).1 _ _ made atomic terms value
  rw [text] at evaluates
  rw [evaluates]
  simp

/-- A count that is masked binds less tightly than the sum it stands in, which is masked as a whole. -/
theorem render_not_evaluates : ∃ built, build countedTypes = .ok built ∧
    ∃ (meaning : Meaning (BitVec 64)) (value : BitVec 64),
      Made meaning (spelling built.model ⟨1⟩) (built.model.record ⟨1⟩).size value ∧
      AtomicOperands (spelling built.model ⟨1⟩) (built.model.record ⟨1⟩).size ∧
      ¬ Evaluates meaning Level.expression
        ((built.model.record ⟨1⟩).size.render (spelling built.model ⟨1⟩)) value := by
  let masked : Expr := .concat [.member "n", .text " & 3"]
  have computed : ∃ built, build countedTypes = .ok built ∧
      (built.model.record ⟨1⟩).size = .add (.const 4) masked ∧
      (spelling built.model ⟨1⟩).member "n" = "this->_n" ∧
      masked.render (spelling built.model ⟨1⟩) = "this->_n & 3" ∧
      (built.model.record ⟨1⟩).size.render (spelling built.model ⟨1⟩) = "(4+this->_n & 3)" :=
    exists_built (by decide +kernel)
  obtain ⟨built, accepted, size, atom, maskedText, text⟩ := computed
  let meaning := wordMeaning fun _ => 1
  have count : Evaluates meaning Level.expression "this->_n & 3" (1 &&& 3) :=
    ⟨[.atom "this->_n", .operator .conjunction, .atom "3"], by decide,
      .lower (@Reads.binary _ _ meaning .conjunction [_] _ _ _ (reads_atom _ (by decide))
        (reads_atom _ (by decide))) (by decide)⟩
  have sum : Reads meaning Level.sum [.atom "4", .operator .plus, .atom "this->_n"] (4 + 1) :=
    @Reads.binary _ _ meaning .plus [_] _ _ _ (reads_atom _ (by decide)) (reads_atom _ (by decide))
  have inner : Evaluates meaning Level.expression "4+this->_n & 3" ((4 + 1) &&& 3) :=
    ⟨[.atom "4", .operator .plus, .atom "this->_n", .operator .conjunction, .atom "3"], by decide,
      .lower (@Reads.binary _ _ meaning .conjunction [_, _, _] _ _ _ (sum.lower (by decide))
        (reads_atom _ (by decide))) (by decide)⟩
  have whole : Evaluates meaning Level.expression "(4+this->_n & 3)" ((4 + 1) &&& 3) :=
    inner.enclosed.lower (Nat.zero_le _)
  refine ⟨built, accepted, meaning, ((4 : Int) : BitVec 64) + (1 &&& 3), ?_, ?_, ?_⟩
  · rw [size]
    exact .sum (.const 4) (.leaf rfl (maskedText ▸ count)) rfl
  · have operand : IsAtomic "this->_n" := by decide
    rw [size]
    simp [AtomicOperands, operands, masked, Operand.render, atom, operand]
  · rw [text]
    intro evaluates
    exact absurd (evaluates.unique whole) (by decide)

end RecordSchema.Cpp
