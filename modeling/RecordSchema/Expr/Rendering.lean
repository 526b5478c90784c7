import RecordSchema.Expr
import RecordSchema.Text.Blank

/-!
# Rendering expressions

An expression is written with a spelling of its operands. Sums are parenthesized, factors are when
they need it, and a member that is called may be given an implicit first argument.
-/

set_option autoImplicit false

namespace RecordSchema

structure Operand.Spelling where
  /-- A member read as a value. -/
  member : String → String
  /-- A member before an opening parenthesis: the text of the callee, and its implicit first
  argument if it has one. -/
  call : String → String × Option String
  static : RecordId → String → String
  config : RecordId → String → String

/-- The text of one operand that is not called. -/
def Operand.render (spelling : Operand.Spelling) : Operand → String
  | .member name => spelling.member name
  | .static record name => spelling.static record name
  | .config record name => spelling.config record name
  | .text source => source

namespace Expr

/-- What separates an implicit argument from the arguments that follow it: nothing, if none do. -/
def argumentSeparator (arguments : List Char) : String :=
  match Text.dropBlanks arguments with
  | ')' :: _ => ""
  | _ => ", "

/-- The text of operands in a row. The first parameter is the implicit argument that the operand
before has asked for; it goes behind the opening parenthesis. -/
def renderParts (spelling : Operand.Spelling) : Option String → List Operand → String
  | _, [] => ""
  | some argument, .text source :: rest =>
    let arguments := source.toList.drop 1
    "(" ++ argument ++ argumentSeparator arguments ++ String.ofList arguments ++
      renderParts spelling none rest
  | _, .member name :: .text next :: rest =>
    if next.toList.head? = some '(' then
      (spelling.call name).1 ++ renderParts spelling (spelling.call name).2 (.text next :: rest)
    else spelling.member name ++ renderParts spelling none (.text next :: rest)
  | _, part :: rest => part.render spelling ++ renderParts spelling none rest

/-- Whether an expression may stand beside a multiplication sign as it is. -/
def isSimpleFactor : Expr → Bool
  | operand (.text source) => source.toList.all Text.isWordChar
  | concat _ => false
  | _ => true

/-- Text between parentheses unless it may stand alone. -/
def parenthesizeUnless (simple : Bool) (text : String) : String :=
  if simple then text else "(" ++ text ++ ")"

def render (spelling : Operand.Spelling) : Expr → String
  | const value => toString value
  | operand part => part.render spelling
  | concat parts => renderParts spelling none parts
  | add left right => "(" ++ left.render spelling ++ "+" ++ right.render spelling ++ ")"
  | mul left right =>
    parenthesizeUnless left.isSimpleFactor (left.render spelling) ++ "*" ++
      parenthesizeUnless right.isSimpleFactor (right.render spelling)

end Expr

/-- What a placeholder stands for in the source text of an expression. -/
inductive Placeholder where
  | self
  | type
  | config
deriving DecidableEq

/-- The written form of a placeholder. -/
def Placeholder.token : Placeholder → String
  | self => "\x7bself\x7d"
  | type => "\x7btype\x7d"
  | config => "\x7bxtc-config\x7d"

def Operand.Spelling.source : Operand.Spelling where
  member name := Placeholder.self.token ++ "." ++ name
  call name := (Placeholder.self.token ++ "." ++ name, none)
  static _ name := Placeholder.type.token ++ "." ++ name
  config _ name := Placeholder.config.token ++ "." ++ name

def Expr.source (expr : Expr) : String :=
  expr.render Operand.Spelling.source

end RecordSchema
