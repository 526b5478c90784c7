import Mathlib.Algebra.BigOperators.Group.List.Basic
import Mathlib.Algebra.Order.Ring.Int
import RecordSchema.Proofs.Expr.RoundTrip

/-!
# Sums and products that are no words

Only numbers are computed with, so nothing comes of a sum or a product exactly where two numbers meet and
the result is no word. In a product of several factors these are the leading ones: behind a factor that is
no number the product is none either, or it is zero.
-/

set_option autoImplicit false

namespace RecordSchema

namespace Word

theorem fits_zero : Fits 0 := by decide

theorem check_eq_none_iff {value : Int} : check value = none ↔ ¬ Fits value := by
  unfold check
  split <;> simp_all

theorem add_eq_none_iff {left right : Int} : add left right = none ↔ ¬ Fits (left + right) :=
  check_eq_none_iff

private theorem mul_eq_none_iff {left right : Int} : mul left right = none ↔ ¬ Fits (left * right) :=
  check_eq_none_iff

end Word

namespace Expr

variable {left right result : Expr}

/-- If an expression is a number, it is a word. -/
def IsWord (expr : Expr) : Prop :=
  ∀ value, expr = const value → Word.Fits value

theorem isWord_const {value : Int} : (const value).IsWord ↔ Word.Fits value :=
  ⟨fun word => word value rfl, fun fits other same => by cases same; exact fits⟩

theorem isWord_parse {context : Context} {raw : String} {expr : Expr}
    (accepted : parse context raw = .ok expr) : expr.IsWord := by
  rintro value rfl
  rcases parse_cases accepted with ⟨_, same, fits⟩ | ⟨_, _, _, parts, _, same⟩
  · cases same
    exact fits
  · have none := ofOperands_constant? parts
    rw [← same] at none
    cases none

theorem isWord_sum (computed : sum left right = some result) (first : left.IsWord)
    (second : right.IsWord) : result.IsWord := by
  unfold sum at computed
  split at computed
  · obtain ⟨value, added, rfl⟩ := Option.map_eq_some_iff.mp computed
    obtain ⟨fits, rfl⟩ := Word.add_eq_some_iff.mp added
    exact isWord_const.mpr fits
  · cases computed
    exact second
  · cases computed
    exact first
  · cases computed
    exact fun _ impossible => nomatch impossible

theorem isWord_product (computed : product left right = some result) (first : left.IsWord)
    (second : right.IsWord) : result.IsWord := by
  unfold product at computed
  split at computed
  · obtain ⟨value, multiplied, rfl⟩ := Option.map_eq_some_iff.mp computed
    obtain ⟨fits, rfl⟩ := Word.mul_eq_some_iff.mp multiplied
    exact isWord_const.mpr fits
  · cases computed
    exact isWord_const.mpr Word.fits_zero
  · cases computed
    exact isWord_const.mpr Word.fits_zero
  · cases computed
    exact second
  · cases computed
    exact first
  · cases computed
    exact fun _ impossible => nomatch impossible

private theorem isWord_foldlM_product {factors : List Expr} {first : Expr}
    (computed : factors.foldlM product first = some result) (start : first.IsWord)
    (words : ∀ factor ∈ factors, factor.IsWord) : result.IsWord :=
  Outcome.foldlM_preserves_option computed IsWord start
    fun factor listed _ _ word taken => isWord_product taken word (words factor listed)

theorem isWord_productOf {factors : List Expr} (computed : productOf factors = some result)
    (words : ∀ factor ∈ factors, factor.IsWord) : result.IsWord :=
  isWord_foldlM_product computed (isWord_const.mpr (by decide)) words

/-!
## Where nothing comes of it
-/

theorem sum_eq_none_iff : sum left right = none ↔
    ∃ one other, left = const one ∧ right = const other ∧ ¬ Word.Fits (one + other) := by
  unfold sum
  split
  · simp [Word.add_eq_none_iff]
  all_goals simp_all

theorem product_eq_none_iff : product left right = none ↔
    ∃ one other, left = const one ∧ right = const other ∧ ¬ Word.Fits (one * other) := by
  unfold product
  split
  · simp [Word.mul_eq_none_iff]
  all_goals simp_all

/-- A product is a number other than zero only if both factors are numbers. -/
theorem const_of_product {value : Int} (computed : product left right = some (const value))
    (nonzero : value ≠ 0) :
    ∃ one other, left = const one ∧ right = const other ∧ value = one * other := by
  unfold product at computed
  split at computed
  · rename_i one other
    obtain ⟨_, multiplied, same⟩ := Option.map_eq_some_iff.mp computed
    cases same
    exact ⟨one, other, rfl, rfl, (Word.mul_eq_some_iff.mp multiplied).2.symm⟩
  all_goals simp_all

private theorem consts_of_foldlM_product {factors : List Expr} {first : Expr} {value : Int}
    (computed : factors.foldlM product first = some (const value)) (nonzero : value ≠ 0) :
    ∃ (start : Int) (values : List Int), first = const start ∧ factors = values.map const ∧
      value = start * values.prod := by
  induction factors generalizing first with
  | nil =>
    cases computed
    exact ⟨value, [], rfl, rfl, (Int.mul_one value).symm⟩
  | cons factor rest ih =>
    rw [List.foldlM_cons] at computed
    obtain ⟨middle, multiplied, computed⟩ := Option.bind_eq_some_iff.mp computed
    obtain ⟨start, values, rfl, rfl, rfl⟩ := ih computed
    have factors : start ≠ 0 := fun zero => nonzero (by rw [zero, Int.zero_mul])
    obtain ⟨one, other, rfl, rfl, rfl⟩ := const_of_product multiplied factors
    exact ⟨one, other :: values, rfl, rfl, by rw [List.prod_cons, Int.mul_assoc]⟩

theorem consts_of_productOf {factors : List Expr} {value : Int}
    (computed : productOf factors = some (const value)) (nonzero : value ≠ 0) :
    ∃ values : List Int, factors = values.map const ∧ value = values.prod := by
  obtain ⟨_, values, start, same, rfl⟩ := consts_of_foldlM_product computed nonzero
  cases start
  exact ⟨values, same, Int.one_mul _⟩

/-- A product of numbers is computed as far as it stays within words. -/
theorem foldlM_product_consts {values : List Int} {start : Int} {result : Expr}
    (word : Word.Fits start)
    (computed : (values.map const).foldlM product (const start) = some result) :
    result = const (start * values.prod) ∧ Word.Fits (start * values.prod) := by
  induction values generalizing start with
  | nil =>
    cases computed
    rw [List.prod_nil, Int.mul_one]
    exact ⟨rfl, word⟩
  | cons value rest ih =>
    rw [List.map_cons, List.foldlM_cons] at computed
    obtain ⟨middle, multiplied, computed⟩ := Option.bind_eq_some_iff.mp computed
    obtain ⟨_, checked, rfl⟩ := Option.map_eq_some_iff.mp multiplied
    obtain ⟨fits, rfl⟩ := Word.mul_eq_some_iff.mp checked
    rw [List.prod_cons, ← Int.mul_assoc]
    exact ih fits computed

/-- Once a factor is zero or no number, so is every further product. -/
theorem product_of_factor (left right : Expr) (factor : (∀ value, left = const value → value = 0) ∨
      ∀ value, right = const value → value = 0) :
    ∃ result, product left right = some result ∧ ∀ value, result = const value → value = 0 := by
  cases computed : product left right with
  | none =>
    obtain ⟨one, other, rfl, rfl, exceeds⟩ := product_eq_none_iff.mp computed
    refine absurd ?_ exceeds
    rcases factor with zero | zero
    · rw [zero one rfl, Int.zero_mul]
      exact Word.fits_zero
    · rw [zero other rfl, Int.mul_zero]
      exact Word.fits_zero
  | some result =>
    refine ⟨result, rfl, ?_⟩
    rintro value rfl
    by_contra nonzero
    obtain ⟨one, other, rfl, rfl, same⟩ := const_of_product computed nonzero
    rcases factor with zero | zero
    · exact nonzero (by rw [same, zero one rfl, Int.zero_mul])
    · exact nonzero (by rw [same, zero other rfl, Int.mul_zero])

theorem foldlM_product_of_factor (factors : List Expr) {first : Expr}
    (factor : ∀ value, first = const value → value = 0) :
    ∃ result, factors.foldlM product first = some result := by
  induction factors generalizing first with
  | nil => exact ⟨first, rfl⟩
  | cons next rest ih =>
    obtain ⟨middle, multiplied, zero⟩ := product_of_factor first next (.inl factor)
    obtain ⟨result, computed⟩ := ih zero
    exact ⟨result, by rw [List.foldlM_cons, multiplied]; exact computed⟩

theorem foldlM_product_eq_none_iff {factors : List Expr} {start : Int} (word : Word.Fits start) :
    factors.foldlM product (const start) = none ↔
      ∃ (values : List Int) (rest : List Expr), factors = values.map const ++ rest ∧
        ¬ Word.Fits (start * values.prod) := by
  constructor
  · intro failed
    induction factors generalizing start with
    | nil => cases failed
    | cons factor rest ih =>
      rw [List.foldlM_cons] at failed
      cases constant : factor.constant? with
      | none =>
        have symbolic : ∀ value, factor = const value → value = 0 := by
          rintro value rfl
          cases constant
        obtain ⟨middle, multiplied, zero⟩ := product_of_factor (const start) factor (.inr symbolic)
        obtain ⟨result, computed⟩ := foldlM_product_of_factor rest zero
        rw [multiplied, Option.bind_eq_bind, Option.bind_some, computed] at failed
        cases failed
      | some value =>
        obtain rfl := constant?_eq_some_iff.mp constant
        by_cases fits : Word.Fits (start * value)
        · rw [product, Word.mul_eq_some_iff.mpr ⟨fits, rfl⟩] at failed
          obtain ⟨values, others, rfl, exceeds⟩ := ih fits failed
          refine ⟨value :: values, others, rfl, ?_⟩
          rwa [List.prod_cons, ← Int.mul_assoc]
        · exact ⟨[value], rest, rfl, by rwa [List.prod_singleton]⟩
  · rintro ⟨values, rest, rfl, exceeds⟩
    rw [List.foldlM_append]
    cases computed : (values.map const).foldlM product (const start) with
    | none => rfl
    | some result => exact absurd (foldlM_product_consts word computed).2 exceeds

/-- Nothing comes of a product of several factors exactly where leading ones are numbers whose product is
no word. -/
theorem productOf_eq_none_iff {factors : List Expr} : productOf factors = none ↔
    ∃ (values : List Int) (rest : List Expr), factors = values.map const ++ rest ∧
      ¬ Word.Fits values.prod := by
  have leading := @foldlM_product_eq_none_iff factors 1 (by decide)
  simp only [Int.one_mul] at leading
  exact leading

theorem productOf_consts {values : List Int} {result : Expr}
    (computed : productOf (values.map const) = some result) :
    result = const values.prod ∧ Word.Fits values.prod := by
  simpa only [Int.one_mul] using foldlM_product_consts (by decide) computed

end Expr

end RecordSchema
