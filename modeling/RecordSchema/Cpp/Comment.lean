import RecordSchema.Text.Blank

/-!
# Documentation comments

The comment block that stands before a generated declaration.
-/

set_option autoImplicit false

namespace RecordSchema.Cpp

/-- A comment as a block before a declaration: on one line if it has one, otherwise with a line of
its own for each. A blank comment is left out. -/
def docComment (indent : String) (comment : Option String) : String :=
  match (comment.map Text.trim).map Text.lines with
  | none => ""
  | some [] => ""
  | some [line] => indent ++ "/** " ++ line ++ " */\n"
  | some lines =>
    indent ++ "/**\n" ++
      String.join (lines.map fun line => indent ++ " * " ++ Text.trimEnd line ++ "\n") ++
      indent ++ " */\n"

/-- A comment behind a declaration. -/
def trailingComment (separator : String) (comment : Option String) : String :=
  match comment with
  | none => ""
  | some text => separator ++ "/**< " ++ Text.trim text ++ " */"

end RecordSchema.Cpp
