import Mathlib.Algebra.BigOperators.Group.List.Basic
import Mathlib.Algebra.Ring.Int.Defs
import Mathlib.Tactic.Ring
import RecordSchema.Proofs.Expr.Tokens

/-!
# Values of C expressions

The grammar of expressions with the precedences of C, each reading with its value. Numbers are added and
multiplied in a commutative ring, so words that wrap around are covered as well as integers; what the other
operators and the operands mean is left open. No list of tokens has two values.
-/

set_option autoImplicit false

namespace RecordSchema.Cpp

/-- What operands and operators mean. Numerals mean their numbers. -/
structure Meaning (α : Type) [CommRing α] where
  atom : String → α
  shift : α → α → α
  conjunction : α → α → α
  disjunction : α → α → α
  choice : α → α → α → α
  numeral : ∀ number : Nat, atom (toString number) = number

def Meaning.apply {α : Type} [CommRing α] (meaning : Meaning α) : Operator → α → α → α
  | .times => (· * ·)
  | .plus => (· + ·)
  | .minus => (· - ·)
  | .shift => meaning.shift
  | .conjunction => meaning.conjunction
  | .disjunction => meaning.disjunction

/-!
The levels of the grammar. What stands on a higher level binds more tightly.
-/

namespace Level

/-- Any expression. -/
def expression : Nat := 0

/-- An expression without a choice. -/
def condition : Nat := 1

def sum : Nat := 4

def product : Nat := 5

/-- An operand, with minus signs before it. -/
def operand : Nat := 6

theorem sum_le_product : sum ≤ product := by decide

theorem product_le_operand : product ≤ operand := by decide

end Level

def Operator.level : Operator → Nat
  | times => Level.product
  | plus => Level.sum
  | minus => Level.sum
  | shift => 3
  | conjunction => 2
  | disjunction => 1

/-- The tokens are an expression of some level with some value. Operators group from the left, choices from
the right. -/
inductive Reads {α : Type} [CommRing α] (meaning : Meaning α) : Nat → List Token → α → Prop where
  | atom {text : String} : Reads meaning Level.operand [.atom text] (meaning.atom text)
  | group {tokens : List Token} {x : α} : Reads meaning Level.expression tokens x →
      Reads meaning Level.operand (.opening :: (tokens ++ [.closing])) x
  | negative {tokens : List Token} {x : α} : Reads meaning Level.operand tokens x →
      Reads meaning Level.operand (.negative :: tokens) (-x)
  | higher {level : Nat} {tokens : List Token} {x : α} : level < Level.operand →
      Reads meaning (level + 1) tokens x → Reads meaning level tokens x
  | binary {operator : Operator} {left right : List Token} {x y : α} :
      Reads meaning operator.level left x → Reads meaning (operator.level + 1) right y →
      Reads meaning operator.level (left ++ .operator operator :: right) (meaning.apply operator x y)
  | choice {condition one other : List Token} {x y z : α} : Reads meaning Level.condition condition x →
      Reads meaning Level.expression one y → Reads meaning Level.expression other z →
      Reads meaning Level.expression (condition ++ .ask :: (one ++ .otherwise :: other))
        (meaning.choice x y z)

/-!
## Tokens on the outside
-/

/-- Parentheses open and close, and so do the signs of a choice. -/
def Token.weight : Token → Int
  | opening => 1
  | ask => 1
  | closing => -1
  | otherwise => -1
  | _ => 0

def depth (tokens : List Token) : Int :=
  (tokens.map Token.weight).sum

/-- The level of an expression with a token on the outside. -/
def Token.level? : Token → Option Nat
  | operator sign => some sign.level
  | ask => some Level.expression
  | _ => none

/-- Nothing is closed that has not been opened, and everything that has been opened is closed. -/
structure Balanced (tokens : List Token) : Prop where
  closed : depth tokens = 0
  front : ∀ before after, tokens = before ++ after → 0 ≤ depth before

/-- Nothing on the outside of some tokens binds less tightly than their level says. -/
def Exposes (level : Nat) (tokens : List Token) : Prop :=
  ∀ before token after, tokens = before ++ token :: after → depth before = 0 →
    ∀ bound ∈ token.level?, level ≤ bound

@[simp]
theorem depth_nil : depth [] = 0 := rfl

@[simp]
theorem depth_cons (token : Token) (tokens : List Token) :
    depth (token :: tokens) = token.weight + depth tokens := by
  simp [depth]

@[simp]
theorem depth_append (front back : List Token) : depth (front ++ back) = depth front + depth back := by
  simp [depth]

/-- Where two elements of a list stand to each other. -/
theorem append_cons_cases {α : Type} {left right before after : List α} {one other : α}
    (same : left ++ one :: right = before ++ other :: after) :
    (∃ middle, left = before ++ other :: middle ∧ after = middle ++ one :: right) ∨
      (left = before ∧ one = other ∧ right = after) ∨
      ∃ middle, before = left ++ one :: middle ∧ right = middle ++ other :: after := by
  rcases List.append_eq_append_iff.mp same with ⟨middle, front, back⟩ | ⟨middle, front, back⟩ <;>
    cases middle with
    | nil => simp_all
    | cons first rest =>
      rw [List.cons_append, List.cons.injEq] at back
      obtain ⟨rfl, rfl⟩ := back
      simp [front]

namespace Balanced

variable {front back tokens : List Token} {token : Token}

theorem append (one : Balanced front) (other : Balanced back) : Balanced (front ++ back) where
  closed := by rw [depth_append, one.closed, other.closed, Int.add_zero]
  front before after same := by
    rcases List.append_eq_append_iff.mp same with ⟨middle, rfl, inner⟩ | ⟨middle, inner, -⟩
    · rw [depth_append, one.closed, Int.zero_add]
      exact other.front middle after inner
    · exact one.front before middle inner

theorem singleton (plain : token.weight = 0) : Balanced [token] where
  closed := by simp [plain]
  front before after same := by
    cases before with
    | nil => simp
    | cons first rest =>
      obtain ⟨rfl, rest_eq⟩ := List.cons.inj same
      obtain ⟨rfl, -⟩ := List.append_eq_nil_iff.mp rest_eq.symm
      simp [plain]

/-- Tokens between one that opens and one that closes. -/
theorem enclosed (balanced : Balanced tokens) {opens closes : Token} (up : opens.weight = 1)
    (down : closes.weight = -1) : Balanced (opens :: (tokens ++ [closes])) where
  closed := by simp [balanced.closed, up, down]
  front before after same := by
    cases before with
    | nil => simp
    | cons first rest =>
      obtain ⟨rfl, inner⟩ := List.cons.inj same
      rw [depth_cons, up]
      rcases List.append_eq_append_iff.mp inner with ⟨middle, rfl, tail⟩ | ⟨middle, whole, -⟩
      · cases middle with
        | nil => simp [balanced.closed]
        | cons last none =>
          obtain ⟨rfl, rest_eq⟩ := List.cons.inj tail
          obtain ⟨rfl, -⟩ := List.append_eq_nil_iff.mp rest_eq.symm
          simp [balanced.closed, down]
      · have inside := balanced.front rest middle whole
        omega

/-- What lies between two places outside is balanced itself. -/
theorem depth_between (whole : Balanced (front ++ token :: back)) (start : Balanced front)
    (plain : token.weight = 0) : depth back = 0 := by
  have closed := whole.closed
  rw [depth_append, depth_cons, start.closed, plain] at closed
  omega

private theorem not_closes (whole : Balanced (front ++ token :: back)) (start : Balanced front) :
    token.weight ≠ -1 := by
  intro down
  have reached := whole.front (front ++ [token]) back (by simp)
  rw [depth_append, depth_cons, start.closed, down] at reached
  simp at reached

end Balanced

private theorem Operator.level_bounds (sign : Operator) : 0 < sign.level ∧ sign.level < Level.operand := by
  cases sign <;> decide

section Readings

variable {α : Type} [CommRing α] {meaning : Meaning α} {level : Nat} {tokens : List Token} {x y : α}

theorem Reads.balanced (reads : Reads meaning level tokens x) : Balanced tokens := by
  induction reads with
  | atom => exact .singleton rfl
  | group _ ih => exact ih.enclosed rfl rfl
  | negative _ ih => exact (Balanced.singleton rfl).append ih
  | higher _ _ ih => exact ih
  | binary _ _ left right =>
    exact left.append ((Balanced.singleton rfl).append right)
  | @choice condition one other _ _ _ _ _ _ asked first second =>
    have inner : Balanced (.ask :: (one ++ [.otherwise])) := first.enclosed rfl rfl
    have whole := asked.append (inner.append second)
    simpa using whole

private theorem Reads.exposes (reads : Reads meaning level tokens x) : Exposes level tokens := by
  induction reads with
  | atom =>
    intro before token after same _ bound shown
    cases before with
    | nil =>
      cases same
      cases shown
    | cons first rest => simp at same
  | group inside _ =>
    intro before token after same closed bound shown
    cases before with
    | nil =>
      cases same
      cases shown
    | cons first rest =>
      obtain ⟨rfl, inner⟩ := List.cons.inj same
      rcases append_cons_cases inner with ⟨middle, whole, -⟩ | ⟨-, rfl, -⟩ | ⟨middle, -, none⟩
      · have within := inside.balanced.front rest _ whole
        simp only [depth_cons, Token.weight] at closed
        omega
      · cases shown
      · simp at none
  | negative _ ih =>
    intro before token after same closed bound shown
    cases before with
    | nil =>
      cases same
      cases shown
    | cons first rest =>
      obtain ⟨rfl, inner⟩ := List.cons.inj same
      refine ih rest token after inner ?_ bound shown
      simpa [Token.weight] using closed
  | higher _ _ ih =>
    intro before token after same closed bound shown
    exact Nat.le_of_succ_le (ih before token after same closed bound shown)
  | @binary operator left right x y leftReads _ leftExposes rightExposes =>
    intro before token after same closed bound shown
    rcases append_cons_cases same with ⟨middle, inner, -⟩ | ⟨-, rfl, -⟩ | ⟨middle, rfl, inner⟩
    · exact leftExposes before token middle inner closed bound shown
    · cases shown
      exact Nat.le_refl _
    · have balanced := leftReads.balanced.closed
      refine Nat.le_of_succ_le (rightExposes middle token after inner ?_ bound shown)
      simpa [balanced, Token.weight] using closed
  | choice =>
    intro before token after same _ bound shown
    exact Nat.zero_le _

theorem Reads.ne_nil (reads : Reads meaning level tokens x) : tokens ≠ [] := by
  induction reads with
  | higher _ _ ih => exact ih
  | atom | group | negative | binary | choice => simp

/-- The ways in which an operand is read. -/
theorem Reads.operand_cases (reads : Reads meaning level tokens x) (operand : level = Level.operand) :
    (∃ text, tokens = [.atom text] ∧ x = meaning.atom text) ∨
      (∃ inner, tokens = .opening :: (inner ++ [.closing]) ∧ Reads meaning Level.expression inner x) ∨
      ∃ inner y, tokens = .negative :: inner ∧ x = -y ∧ Reads meaning Level.operand inner y := by
  cases reads with
  | atom => exact .inl ⟨_, rfl, rfl⟩
  | group inner => exact .inr (.inl ⟨_, rfl, inner⟩)
  | negative inner => exact .inr (.inr ⟨_, _, rfl, rfl, inner⟩)
  | higher below _ => exact absurd operand (Nat.ne_of_lt below)
  | @binary sign => exact absurd operand (Nat.ne_of_lt sign.level_bounds.2)
  | choice => cases operand

/-- The ways in which an expression of a lower level is read. -/
theorem Reads.lower_cases (reads : Reads meaning level tokens x) (below : level < Level.operand) :
    Reads meaning (level + 1) tokens x ∨
      (∃ sign left right y z, level = Operator.level sign ∧
        tokens = left ++ .operator sign :: right ∧ x = meaning.apply sign y z ∧
        Reads meaning sign.level left y ∧ Reads meaning (sign.level + 1) right z) ∨
      ∃ condition one other a b c, level = Level.expression ∧
        tokens = condition ++ .ask :: (one ++ .otherwise :: other) ∧ x = meaning.choice a b c ∧
        Reads meaning Level.condition condition a ∧ Reads meaning Level.expression one b ∧
        Reads meaning Level.expression other c := by
  cases reads with
  | atom | group | negative => exact absurd below (Nat.lt_irrefl _)
  | higher _ inner => exact .inl inner
  | binary left right => exact .inr (.inl ⟨_, _, _, _, _, rfl, rfl, rfl, left, right⟩)
  | choice condition one other =>
    exact .inr (.inr ⟨_, _, _, _, _, _, rfl, rfl, rfl, condition, one, other⟩)

/-- Of operators of one level on the outside, the last one is applied last. -/
theorem operator_unique {left right left' right' : List Token} {one other : Operator} {x' y' : α}
    (leftReads : Reads meaning one.level left x) (rightReads : Reads meaning (one.level + 1) right y)
    (leftReads' : Reads meaning other.level left' x')
    (rightReads' : Reads meaning (other.level + 1) right' y') (level : one.level = other.level)
    (same : left ++ .operator one :: right = left' ++ .operator other :: right') :
    left = left' ∧ one = other ∧ right = right' := by
  rcases append_cons_cases same with ⟨middle, rfl, tail⟩ | ⟨rfl, found, rfl⟩ | ⟨middle, rfl, tail⟩
  · have closed := leftReads.balanced.depth_between leftReads'.balanced rfl
    have bound := rightReads'.exposes middle _ right tail closed one.level rfl
    omega
  · exact ⟨rfl, Token.operator.inj found, rfl⟩
  · have closed := leftReads'.balanced.depth_between leftReads.balanced rfl
    have bound := rightReads.exposes middle _ right' tail closed other.level rfl
    omega

/-- The first choice on the outside has the rest of an expression as its parts. -/
theorem choice_unique {condition first second condition' first' second' : List Token} {x' y' : α}
    (asked : Reads meaning Level.condition condition x) (one : Reads meaning Level.expression first y)
    (asked' : Reads meaning Level.condition condition' x')
    (one' : Reads meaning Level.expression first' y')
    (same : condition ++ .ask :: (first ++ .otherwise :: second) =
      condition' ++ .ask :: (first' ++ .otherwise :: second')) :
    condition = condition' ∧ first = first' ∧ second = second' := by
  rcases append_cons_cases same with ⟨middle, inner, -⟩ | ⟨rfl, -, tail⟩ | ⟨middle, inner, -⟩
  · have bound := asked.exposes condition' _ middle inner asked'.balanced.closed Level.expression rfl
    cases bound
  · rcases append_cons_cases tail with ⟨middle, rfl, -⟩ | ⟨rfl, -, rfl⟩ | ⟨middle, rfl, -⟩
    · exact absurd rfl (one.balanced.not_closes one'.balanced)
    · exact ⟨rfl, rfl, rfl⟩
    · exact absurd rfl (one'.balanced.not_closes one.balanced)
  · have bound := asked'.exposes condition _ middle inner asked.balanced.closed Level.expression rfl
    cases bound

/-- The tokens of an expression have one value. -/
theorem Reads.unique (one : Reads meaning level tokens x) (other : Reads meaning level tokens y) :
    x = y := by
  induction one generalizing y with
  | atom =>
    rcases other.operand_cases rfl with ⟨text, same, rfl⟩ | ⟨inner, same, _⟩ | ⟨inner, _, same, _, _⟩
    · cases same
      rfl
    · cases same
    · cases same
  | group _ ih =>
    rcases other.operand_cases rfl with ⟨text, same, _⟩ | ⟨inner, same, reads⟩ | ⟨inner, _, same, _, _⟩
    · cases same
    · obtain rfl := List.append_cancel_right (List.cons.inj same).2
      exact ih reads
    · cases same
  | negative _ ih =>
    rcases other.operand_cases rfl with ⟨text, same, _⟩ | ⟨inner, same, _⟩ | ⟨inner, z, same, rfl, reads⟩
    · cases same
    · cases same
    · cases same
      rw [ih reads]
  | higher below inner ih =>
    rcases other.lower_cases below with reads | ⟨sign, left, right, _, _, level, rfl, _, leftReads, _⟩ |
        ⟨condition, _, _, _, _, _, level, rfl, _, asked, _, _⟩
    · exact ih reads
    · have bound := inner.exposes left _ right rfl leftReads.balanced.closed sign.level rfl
      omega
    · have bound := inner.exposes condition _ _ rfl asked.balanced.closed Level.expression rfl
      cases bound
  | @binary sign left right _ _ leftReads rightReads leftIH rightIH =>
    rcases other.lower_cases sign.level_bounds.2 with reads |
        ⟨sign', left', right', _, _, level, same, rfl, leftReads', rightReads'⟩ |
        ⟨_, _, _, _, _, _, level, _, _, _, _, _⟩
    · have bound := reads.exposes left _ right rfl leftReads.balanced.closed sign.level rfl
      omega
    · obtain ⟨rfl, rfl, rfl⟩ :=
        operator_unique leftReads rightReads leftReads' rightReads' level same
      rw [leftIH leftReads', rightIH rightReads']
    · exact absurd level (Nat.ne_of_gt sign.level_bounds.1)
  | @choice condition _ _ _ _ _ asked first _ askedIH firstIH secondIH =>
    rcases other.lower_cases (by decide) with reads | ⟨sign, _, _, _, _, level, _, _, _, _⟩ |
        ⟨_, _, _, _, _, _, _, same, rfl, asked', first', second'⟩
    · have bound := reads.exposes condition _ _ rfl asked.balanced.closed Level.expression rfl
      cases bound
    · exact absurd level.symm (Nat.ne_of_gt sign.level_bounds.1)
    · obtain ⟨rfl, rfl, rfl⟩ := choice_unique asked first asked' first' same
      rw [askedIH asked', firstIH first', secondIH second']

/-!
## Operators that may be regrouped
-/

theorem Reads.level_le (reads : Reads meaning level tokens x) : level ≤ Level.operand := by
  induction reads with
  | atom | group | negative => exact Nat.le_refl _
  | higher below _ _ => exact Nat.le_of_lt below
  | @binary sign => exact Nat.le_of_lt sign.level_bounds.2
  | choice => exact Nat.zero_le _

/-- What binds tightly may stand where less is asked for. -/
theorem Reads.lower {lower : Nat} (reads : Reads meaning level tokens x) (below : lower ≤ level) :
    Reads meaning lower tokens x := by
  have bound := reads.level_le
  induction level, below using Nat.le_induction with
  | base => exact reads
  | succ level _ ih =>
    exact ih (.higher (Nat.lt_of_succ_le bound) reads) (Nat.le_of_succ_le bound)

theorem reads_atom (text : String) (low : level ≤ Level.operand) :
    Reads meaning level [.atom text] (meaning.atom text) :=
  Reads.atom.lower low

/-- A product times a product is read as a product, though its factors are taken one after the other. -/
theorem Reads.times {left : List Token} (leftReads : Reads meaning Level.product left x)
    (reads : Reads meaning level tokens y) (product : level = Level.product) :
    Reads meaning Level.product (left ++ .operator .times :: tokens) (x * y) := by
  induction reads with
  | atom | group | negative | choice => cases product
  | higher _ inner _ =>
    subst product
    exact @Reads.binary _ _ meaning .times _ _ _ _ leftReads inner
  | @binary sign front back _ _ _ backReads frontIH _ =>
    cases sign with
    | times =>
      rw [← List.cons_append, ← List.append_assoc, Meaning.apply, ← mul_assoc]
      exact Reads.binary (frontIH rfl) backReads
    | plus | minus | shift | conjunction | disjunction => cases product

/-- A sum and a sum are read as a sum, though its terms are taken one after the other. -/
theorem Reads.plus {left : List Token} (leftReads : Reads meaning Level.sum left x)
    (reads : Reads meaning level tokens y) (sum : level = Level.sum) :
    Reads meaning Level.sum (left ++ .operator .plus :: tokens) (x + y) := by
  induction reads with
  | atom | group | negative | choice => cases sum
  | higher _ inner _ =>
    subst sum
    exact @Reads.binary _ _ meaning .plus _ _ _ _ leftReads inner
  | @binary sign front back _ _ _ backReads frontIH _ =>
    cases sign with
    | plus =>
      rw [← List.cons_append, ← List.append_assoc, Meaning.apply, ← add_assoc]
      exact Reads.binary (frontIH rfl) backReads
    | minus =>
      rw [← List.cons_append, ← List.append_assoc, Meaning.apply, ← add_sub_assoc]
      exact Reads.binary (frontIH rfl) backReads
    | times | shift | conjunction | disjunction => cases sum

/-- An expression with nothing on the outside that binds less tightly is one of the higher level. -/
theorem Reads.raise {higher : Nat} (reads : Reads meaning level tokens x) (exposes : Exposes higher tokens)
    (bound : higher ≤ Level.operand) (above : level ≤ higher) : Reads meaning higher tokens x := by
  induction above using Nat.decreasingInduction with
  | self => exact reads
  | of_succ level below ih =>
    rcases reads.lower_cases (Nat.lt_of_lt_of_le below bound) with inner |
        ⟨sign, left, right, _, _, same, rfl, _, leftReads, _⟩ |
        ⟨condition, _, _, _, _, _, _, rfl, _, asked, _, _⟩
    · exact ih inner
    · have least := exposes left _ right rfl leftReads.balanced.closed sign.level rfl
      omega
    · have least := exposes condition _ _ rfl asked.balanced.closed Level.expression rfl
      exact absurd below (Nat.not_lt.mpr (Nat.le_trans least (Nat.zero_le _)))

/-- Two expressions with a plus sign between them are a sum only if they may both stand in a sum. -/
theorem Reads.plus_iff {left right : List Token} (one : Reads meaning Level.expression left x)
    (other : Reads meaning Level.expression right y) :
    (∃ z, Reads meaning Level.sum (left ++ .operator .plus :: right) z) ↔
      (∃ z, Reads meaning Level.sum left z) ∧ ∃ z, Reads meaning Level.sum right z := by
  constructor
  · intro ⟨z, whole⟩
    have bound : Level.sum ≤ Level.operand := by decide
    refine ⟨⟨x, one.raise ?_ bound (Nat.zero_le _)⟩, y, other.raise ?_ bound (Nat.zero_le _)⟩
    · intro before token after same closed
      exact whole.exposes before token (after ++ .operator .plus :: right) (by simp [same]) closed
    · intro before token after same closed
      apply whole.exposes (left ++ .operator .plus :: before) token after (by simp [same])
      rw [depth_append, depth_cons, one.balanced.closed, closed]
      rfl
  · intro ⟨⟨_, leftReads⟩, _, rightReads⟩
    exact ⟨_, leftReads.plus rightReads rfl⟩

end Readings

end RecordSchema.Cpp
