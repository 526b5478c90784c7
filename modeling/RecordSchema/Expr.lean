import RecordSchema.Id
import RecordSchema.Text.Numeral

/-!
# Symbolic expressions

Sizes, offsets, dimensions and bodies are expressions over members of a record instance, static
members of a record type and members of a config object. What is not such a member is kept as text
and passed through. Sums and products of numbers are computed at once, in checked 64-bit arithmetic.
-/

set_option autoImplicit false

namespace RecordSchema

/-- An indivisible part of an expression. -/
inductive Operand where
  /-- A member of the instance at hand. -/
  | member (name : String)
  | static (record : RecordId) (name : String)
  /-- A member of the config object. -/
  | config (record : RecordId) (name : String)
  /-- Text without meaning here. -/
  | text (source : String)
deriving DecidableEq, Inhabited

inductive Expr where
  | const (value : Int)
  | operand (part : Operand)
  /-- Operands written one after another. -/
  | concat (parts : List Operand)
  | add (left right : Expr)
  | mul (left right : Expr)
deriving DecidableEq

instance : Inhabited Expr := ⟨.const 0⟩

namespace Operand

def member? : Operand → Option String
  | member name => some name
  | _ => none

def isConfig : Operand → Bool
  | config _ _ => true
  | _ => false

end Operand

namespace Expr

def constant? : Expr → Option Int
  | const value => some value
  | _ => none

theorem constant?_eq_some_iff {expr : Expr} {value : Int} :
    expr.constant? = some value ↔ expr = const value := by
  cases expr <;> simp [constant?]

def isConstant (expr : Expr) : Bool :=
  expr.constant?.isSome

/-- Sum of two expressions. Numbers are added, and zero is neutral; nothing comes of a sum of
numbers that is no word. -/
def sum : Expr → Expr → Option Expr
  | const left, const right => (Word.add left right).map const
  | const 0, other => some other
  | other, const 0 => some other
  | left, right => some (add left right)

/-- Product of two expressions. Numbers are multiplied, zero absorbs and one is neutral; nothing
comes of a product of numbers that is no word. -/
def product : Expr → Expr → Option Expr
  | const left, const right => (Word.mul left right).map const
  | const 0, _ => some (const 0)
  | _, const 0 => some (const 0)
  | const 1, other => some other
  | other, const 1 => some other
  | left, right => some (mul left right)

def productOf (factors : List Expr) : Option Expr :=
  factors.foldlM product (const 1)

def operands : Expr → List Operand
  | const _ => []
  | operand part => [part]
  | concat parts => parts
  | add left right => left.operands ++ right.operands
  | mul left right => left.operands ++ right.operands

def hasConfig (expr : Expr) : Bool :=
  expr.operands.any Operand.isConfig

/-- The instance members of an expression from left to right. -/
def members (expr : Expr) : List String :=
  expr.operands.filterMap Operand.member?

end Expr

end RecordSchema
