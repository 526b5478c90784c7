import RecordSchema.Expr.Rendering
import RecordSchema.SchemaError

/-!
# Reading expressions

The source text of an expression is a decimal numeral, or a text in which placeholders with member
names stand. A brace that begins no placeholder is text.
-/

set_option autoImplicit false

namespace RecordSchema

/-- Where an expression is declared: the record type that `{type}` means, the config object's type,
and the path shown in messages. -/
structure Expr.Context where
  owner : Option RecordId
  config : Option RecordId
  path : String


namespace Expr.Parser

/-- The rest of the input after an expected beginning. -/
def after? : List Char → List Char → Option (List Char)
  | [], input => some input
  | _ :: _, [] => none
  | expected :: more, character :: rest => if character = expected then after? more rest else none

def placeholder? (input : List Char) : Option (Placeholder × List Char) :=
  [Placeholder.self, .type, .config].findSome? fun placeholder =>
    (after? placeholder.token.toList input).map (placeholder, ·)

def name (input : List Char) : List Char :=
  input.takeWhile Text.isWordChar

def afterName (input : List Char) : List Char :=
  input.dropWhile Text.isWordChar

def operand (context : Context) (source : String) (placeholder : Placeholder) (member : String) :
    Except SchemaError Operand :=
  match placeholder with
  | .self => .ok (.member member)
  | .type =>
    match context.owner with
    | some record => .ok (.static record member)
    | none => .error (.invalidExpression context.path (.outsideType source))
  | .config =>
    match context.config with
    | some record => .ok (.config record member)
    | none => .error (.missingConfig context.path source)

def memberName (context : Context) (source : String) (placeholder : Placeholder) :
    List Char → Except SchemaError (List Char × List Char)
  | '.' :: rest =>
    match name rest with
    | [] => .error (.invalidExpression context.path (.withoutName placeholder.token source))
    | found => .ok (found, afterName rest)
  | _ => .error (.invalidExpression context.path (.withoutDot placeholder.token source))

/-- The text operand for pending characters; none if there are none. -/
def pendingText (reversed : List Char) : List Operand :=
  if reversed.isEmpty then [] else [.text (String.ofList reversed.reverse)]

theorem after?_length {expected input rest : List Char} (found : after? expected input = some rest) :
    rest.length ≤ input.length := by
  fun_induction after? expected input with
  | case1 input => simp_all
  | case2 => simp at found
  | case3 character more next ih => have := ih found; simp; omega
  | case4 => simp at found

theorem placeholder?_length {input rest : List Char} {placeholder : Placeholder}
    (found : placeholder? input = some (placeholder, rest)) : rest.length ≤ input.length := by
  obtain ⟨candidate, _, match_⟩ := List.exists_of_findSome?_eq_some found
  obtain ⟨tail, same, pair⟩ := Option.map_eq_some_iff.1 match_
  cases pair
  exact after?_length same

theorem dropWhile_length_le (test : Char → Bool) (input : List Char) :
    (input.dropWhile test).length ≤ input.length :=
  (List.dropWhile_suffix test).length_le

theorem memberName_length {context : Context} {source : String} {placeholder : Placeholder}
    {input found rest : List Char}
    (read : memberName context source placeholder input = .ok (found, rest)) :
    rest.length < input.length := by
  unfold memberName at read
  split at read
  · split at read
    · cases read
    · cases read
      exact Nat.lt_succ_of_le (dropWhile_length_le _ _)
  · cases read

def operands (context : Context) (source : String) (reversed input : List Char) :
    Except SchemaError (List Operand) :=
  match input with
  | [] => .ok (pendingText reversed)
  | character :: rest =>
    if character = '{' then
      match _split : placeholder? (character :: rest) with
      | none => operands context source (character :: reversed) rest
      | some (placeholder, tail) =>
        match _read : memberName context source placeholder tail with
        | .error error => .error error
        | .ok (member, more) => do
          let found ← operand context source placeholder (String.ofList member)
          let others ← operands context source [] more
          .ok (pendingText reversed ++ found :: others)
    else operands context source (character :: reversed) rest
termination_by input.length
decreasing_by
  · simp
  · have first := placeholder?_length _split
    have second := memberName_length _read
    omega
  · simp

/-- A single operand stands for itself; several are a concatenation. -/
def ofOperands : List Operand → Expr
  | [part] => .operand part
  | parts => .concat parts

end Expr.Parser

/-- Reads the source text of an expression. -/
def Expr.parse (context : Expr.Context) (raw : String) : Except SchemaError Expr :=
  let source := Text.trim raw
  if source.isEmpty then .error (.invalidExpression context.path .empty)
  else
    match Numeral.word? source.toList with
    | some value => .ok (.const value)
    | none => (Parser.operands context source [] source.toList).map Parser.ofOperands

end RecordSchema
