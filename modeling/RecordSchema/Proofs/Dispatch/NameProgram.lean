import RecordSchema.Proofs.Dispatch.Statements
import RecordSchema.Proofs.Model.Linkage

/-!
# Dispatchers by name as programs

The text of a dispatcher by name is read as code: a function that computes a hash byte by byte, and a switch
over the hash of a name that runs the statements for a type, at once or after a comparison of names. The text
is the code if the names in it are read as they are written, and then it does what the case distinction says.
-/

set_option autoImplicit false

namespace RecordSchema.Dispatch

open Cpp Dispatcher Text

/-!
## Hashes
-/

inductive HashOperation where
  | times
  | plus
  | minus
  | shift
  | xor

namespace HashOperation

def sign : HashOperation → String
  | times => "*"
  | plus => "+"
  | minus => "-"
  | shift => "<<"
  | xor => "^"

/-- How tight an operation binds. -/
def level : HashOperation → Nat
  | times => 4
  | plus => 3
  | minus => 3
  | shift => 2
  | xor => 1

/-- The operations on numbers of 32 bits without sign. -/
def apply : HashOperation → UInt32 → UInt32 → UInt32
  | times, one, other => one * other
  | plus, one, other => one + other
  | minus, one, other => one - other
  | shift, one, other => one <<< other
  | xor, one, other => one ^^^ other

end HashOperation

/-- An expression over the hash so far and the next byte. -/
inductive HashTerm where
  | hash
  | byte
  | number (value : UInt32)
  | group (term : HashTerm)
  | binary (operation : HashOperation) (left right : HashTerm)

namespace HashTerm

def text : HashTerm → String
  | hash => "hash"
  | byte => "uint32_t((unsigned char)*it)"
  | number value => toString value
  | group term => "(" ++ term.text ++ ")"
  | binary operation left right => left.text ++ " " ++ operation.sign ++ " " ++ right.text

def level : HashTerm → Nat
  | binary operation _ _ => operation.level
  | _ => 5

/-- The text is read as the expression: operations group from the left, and tight ones first. -/
def IsRead : HashTerm → Prop
  | group term => term.IsRead
  | binary operation left right =>
    (operation.level ≤ left.level ∧ operation.level < right.level) ∧ left.IsRead ∧ right.IsRead
  | _ => True

def value (sofar next : UInt32) : HashTerm → UInt32
  | hash => sofar
  | byte => next
  | number value => value
  | group term => term.value sofar next
  | binary operation left right =>
    operation.apply (left.value sofar next) (right.value sofar next)

end HashTerm

/-- A hash function: the value before the first byte, and what becomes of it with each byte. -/
structure HashCode where
  seed : UInt32
  term : HashTerm

namespace HashCode

def text (code : HashCode) : String :=
  "uint32_t str_hash(const std::string& str)\n\x7b\n  uint32_t hash = " ++ toString code.seed ++ ";\n" ++
    "  for (std::string::const_iterator it = str.begin(); it != str.end(); ++ it) \x7b\n    hash = " ++
    code.term.text ++ ";\n  \x7d\n  return hash;\n\x7d\n"

def value (code : HashCode) (name : String) : UInt32 :=
  name.toUTF8.toList.foldl (fun sofar byte => code.term.value sofar byte.toUInt32) code.seed

end HashCode

def hashCode : NameHash → HashCode
  | .djb2a => ⟨5381, .binary .xor (.group (.binary .times .hash (.number 33))) .byte⟩
  | .sdbm =>
    let shifted (bits : UInt32) : HashTerm := .group (.binary .shift .hash (.number bits))
    ⟨0, .binary .minus (.binary .plus (.binary .plus .byte (shifted 6)) (shifted 16)) .hash⟩

private theorem hashDefinition_eq (function : NameHash) :
    hashDefinition function = (hashCode function).text := by
  cases function <;> decide +kernel

private theorem isRead_hashCode (function : NameHash) : (hashCode function).term.IsRead := by
  cases function <;> simp [hashCode, HashTerm.IsRead, HashTerm.level, HashOperation.level]

private theorem value_hashCode (function : NameHash) (name : String) :
    (hashCode function).value name = function.hash name := by
  cases function <;> rfl

/-!
## Switches
-/

/-- What stands behind a label. -/
inductive CaseBody where
  | always (statements : List Lexeme)
  /-- Statements by the name they are for. -/
  | byName (branches : List (String × List Lexeme))
deriving Inhabited

/-- The comparison with a name. -/
def nameTest (name : String) : List Lexeme :=
  [.word "typeName".toList, .mark '=', .mark '=', .literal name.toList]

namespace CaseBody

def lexemes : CaseBody → List Lexeme
  | always statements => statements
  | byName branches => choice (branches.map fun branch => (nameTest branch.1, branch.2))

/-- Nothing but whole statements stands behind a label. -/
def WellFormed : CaseBody → Prop
  | always statements => Statements statements
  | byName branches => branches ≠ [] ∧ ∀ branch ∈ branches, Statements branch.2

/-- The statements that are run for a name. -/
def run (name : String) : CaseBody → List Lexeme
  | always statements => statements
  | byName branches => (branches.lookup name).getD []

end CaseBody

/-- A switch over the hash of the name of a type. -/
structure NameProgram where
  cases : List (UInt32 × CaseBody)

namespace NameProgram

/-- A label, what stands behind it, and the end of it. -/
def caseLexemes (entry : UInt32 × CaseBody) : List Lexeme :=
  [.word "case".toList, .word (toString entry.1 ++ "u").toList, .mark ':'] ++ entry.2.lexemes ++
    [.word "break".toList, .mark ';']

def lexemes (program : NameProgram) : List Lexeme :=
  [.word "switch".toList, .mark '(', .word "str_hash".toList, .mark '(', .word "typeName".toList,
      .mark ')', .mark ')', .mark '{'] ++
    program.cases.flatMap caseLexemes ++ [.mark '}']

/-- The labels ascend, so that none stands twice, and whole statements stand behind them. -/
structure WellFormed (program : NameProgram) : Prop where
  ascend : (program.cases.map Prod.fst).Pairwise (· < ·)
  cases : ∀ entry ∈ program.cases, entry.2.WellFormed

/-- The statements that are run for a name with a hash. -/
def run (program : NameProgram) (hash : UInt32) (name : String) : List Lexeme :=
  ((program.cases.lookup hash).map (CaseBody.run name)).getD []

end NameProgram

/-- The function that converts stored records, with the hash function before it. -/
def converter (hash body : String) : Generated :=
  let head := "void hdfConvert(const hdf5pp::Group& group, int64_t idx, const std::string& typeName, " ++
    "int schema_version, const Pds::Src& src, PSEvt::Event& evt, PSEnv::EnvObjectStore& cfgStore)"
  { declaration := head ++ ";\n"
    definition :=
      "namespace \x7b\n\n" ++ hash ++ "\n\x7d // namespace\n\n" ++ head ++ "\n\x7b\n" ++ body ++ "\x7d\n" }

/-- The lines between the braces of the function. -/
def nameText (options : Options) (model : Model) (switch : NameSwitch) : String :=
  "  switch (str_hash(typeName)) \x7b\n" ++ String.join (switch.arms.map (nameLines options model)) ++
    "  \x7d\n"

theorem nameFunction_eq (options : Options) (model : Model) (switch : NameSwitch) :
    nameFunction options model switch =
      converter (hashCode switch.function).text (nameText options model switch) := by
  have opens : "\n\x7b\n  switch (str_hash(typeName)) \x7b\n" =
      "\n\x7b\n" ++ "  switch (str_hash(typeName)) \x7b\n" := by decide +kernel
  have closes : "  \x7d\n\x7d\n" = "  \x7d\n" ++ "\x7d\n" := by decide +kernel
  unfold nameFunction nameHead converter nameText
  simp only [hashDefinition_eq, opens, closes, String.append_assoc]

/-!
## Reading
-/

/-- The names in an arm are read as they are written. A name alone is in a comment, which ends with the line;
names that are compared are in literals. -/
def NameArm.IsLegible (options : Options) (model : Model) : NameArm → Prop
  | sole claim => ('\n' ∉ claim.1.toList ∧ claim.1.toList.getLast? ≠ some '\\') ∧
      Legible options model claim.2
  | compared claims => ∀ claim ∈ claims, claim.1.toList.all isPlain ∧ Legible options model claim.2

instance (options : Options) (model : Model) : DecidablePred (NameArm.IsLegible options model)
  | .sole _ => inferInstanceAs (Decidable ((_ ∧ _) ∧ _))
  | .compared _ => inferInstanceAs (Decidable (∀ claim ∈ _, _ ∧ _))

private theorem lookup_map {α β γ : Type} [BEq α] [LawfulBEq α] (entries : List (α × β)) (view : α × β → γ)
    (key : α) : (entries.map fun entry => (entry.1, view entry)).lookup key =
      (entries.lookup key).map fun held => view (key, held) := by
  induction entries with
  | nil => rfl
  | cons first rest ih =>
    rw [List.map_cons, List.lookup_cons, List.lookup_cons, ih]
    cases same : key == first.1 with
    | true => rw [eq_of_beq same]; rfl
    | false => rfl

/-- An arm is read as what stands behind a label, and both do the same. -/
structure Reads (options : Options) (model : Model) (arm : NameArm) (body : CaseBody) : Prop where
  lexes : Lexes (armLines options model arm) body.lexemes
  wellFormed : body.WellFormed
  runs : ∀ name id, arm.target? name = some id → Stores options model id (body.run name)
  passes : ∀ name, arm.target? name = none → body.run name = []

section Reading

variable {options : Options} {model : Model}

private theorem lexes_nameTest {name : String} (plain : ∀ character ∈ name.toList, isPlain character) :
    Lexes ("typeName == " ++ ("\"" ++ name ++ "\"")) (nameTest name) := by
  have compared : Lexes "typeName == " [.word "typeName".toList, .mark '=', .mark '='] := by decide
  exact compared.append (.literal plain)

private theorem comparedLines_eq (claim : NameClaim) (position : Nat) :
    comparedLines options model claim position =
      "    " ++ (if position = 0 then "if" else "\x7d else if") ++ " (" ++
        ("typeName == " ++ ("\"" ++ claim.1 ++ "\"")) ++ ") \x7b\n" ++
          proxyStatements options model "      " claim.2 := by
  have starts : (if position = 0 then "    if" else "    \x7d else if") =
      "    " ++ (if position = 0 then "if" else "\x7d else if") := by split <;> decide +kernel
  have opens : " (typeName == \"" = " (" ++ ("typeName == " ++ "\"") := by decide +kernel
  have closes : "\") \x7b\n" = "\"" ++ ") \x7b\n" := by decide +kernel
  unfold comparedLines
  simp only [starts, opens, closes, toString_text, String.append_assoc]

private theorem armLines_compared (claims : List NameClaim) :
    armLines options model (.compared claims) = choiceText "    " (claims.map fun claim =>
      ("typeName == " ++ ("\"" ++ claim.1 ++ "\""), proxyStatements options model "      " claim.2)) := by
  have ends : "    \x7d\n" = "    " ++ "\x7d\n" := by decide +kernel
  rw [choiceText, List.zipIdx_map, List.map_map]
  unfold armLines
  simp only [comparedLines_eq, ends, Function.comp_def, Prod.map_fst, Prod.map_snd, id_eq,
    String.append_assoc]

/-- A legible arm is what stands behind a label. -/
theorem exists_reads {arm : NameArm} (present : arm.claims ≠ []) (legible : arm.IsLegible options model) :
    ∃ body, Reads options model arm body := by
  have indent : Lexes "    " [] := by decide
  have deeper : Lexes "      " [] := by decide
  cases arm with
  | sole claim =>
    obtain ⟨⟨line, ends⟩, names⟩ := legible
    obtain ⟨lexemes, read, statements, stores⟩ := lexes_proxyStatements names indent
    refine ⟨.always lexemes, ?_, statements, ?_, nofun⟩
    · have remark : "    // " = "    " ++ "// " := by decide
      have whole := (indent.append (.remark line ends)).append read
      unfold armLines
      simpa only [CaseBody.lexemes, remark, toString_text, String.append_assoc, List.nil_append] using whole
    · rintro name id ⟨⟩
      exact stores
  | compared claims =>
    have each : ∀ claim ∈ claims, ∃ lexemes,
        Lexes (proxyStatements options model "      " claim.2) lexemes ∧ Statements lexemes ∧
          Stores options model claim.2 lexemes :=
      fun claim listed => lexes_proxyStatements (legible claim listed).2 deeper
    choose! body read statements stores using each
    refine ⟨.byName (claims.map fun claim => (claim.1, body claim)), ?_, ⟨?_, ?_⟩, ?_, ?_⟩
    · rw [armLines_compared, CaseBody.lexemes, List.map_map]
      refine Lexes.choice indent ?_ fun none => present (List.map_eq_nil_iff.mp none)
      rw [List.forall₂_map_left_iff, List.forall₂_map_right_iff, List.forall₂_same]
      exact fun claim listed => ⟨lexes_nameTest (List.all_eq_true.mp (legible claim listed).1), read claim listed⟩
    · exact fun none => present (List.map_eq_nil_iff.mp none)
    · exact List.forall_mem_map.mpr statements
    · intro name id found
      have among : (name, id) ∈ claims := mem_of_lookup found
      rw [CaseBody.run, lookup_map, show claims.lookup name = some id from found]
      exact stores _ among
    · intro name missing
      rw [CaseBody.run, lookup_map, show claims.lookup name = none from missing]
      rfl

private theorem lexes_nameLines {arm : UInt32 × NameArm} {body : CaseBody}
    (read : Lexes (armLines options model arm.2) body.lexemes) :
    Lexes (nameLines options model arm) (NameProgram.caseLexemes (arm.1, body)) := by
  have begins : Lexes "  case " [.word "case".toList] := by decide
  have ends : Lexes "    break;\n" [.word "break".toList, .mark ';'] := by decide
  have digits : ∀ character ∈ (toString arm.1 ++ "u").toList, Lexer.isWord character := by
    intro character among
    rw [String.toList_append] at among
    rcases List.mem_append.mp among with among | last
    · have digit : character.isDigit = true :=
        Nat.isDigit_of_mem_toDigits (by decide) (by decide) (Nat.toList_repr ▸ among)
      simp [Lexer.isWord, isWordChar, Char.isAlphanum, digit]
    · rw [List.mem_singleton.mp last]
      decide
  have label : Lexes (toString arm.1 ++ "u" ++ ":\n") [.word (toString arm.1 ++ "u").toList, .mark ':'] := by
    refine .label ?_ digits
    intro none
    simpa using congrArg String.toList none
  have colon : "u:\n" = "u" ++ ":\n" := by decide
  have whole := ((begins.append label).append read).append ends
  unfold nameLines
  simpa [NameProgram.caseLexemes, colon, toString_text, String.append_assoc] using whole

private theorem lexes_nameText {switch : NameSwitch} {body : UInt32 × NameArm → CaseBody}
    (read : ∀ arm ∈ switch.arms, Lexes (armLines options model arm.2) (body arm).lexemes) :
    Lexes (nameText options model switch)
      (NameProgram.lexemes ⟨switch.arms.map fun arm => (arm.1, body arm)⟩) := by
  have begins : Lexes "  switch (str_hash(typeName)) \x7b\n" [.word "switch".toList, .mark '(',
      .word "str_hash".toList, .mark '(', .word "typeName".toList, .mark ')', .mark ')', .mark '{'] := by
    decide +kernel
  have ends : Lexes "  \x7d\n" [.mark '}'] := by decide
  have cases : List.Forall₂ Lexes (switch.arms.map (nameLines options model))
      (switch.arms.map fun arm => NameProgram.caseLexemes (arm.1, body arm)) := by
    rw [List.forall₂_map_left_iff, List.forall₂_map_right_iff, List.forall₂_same]
    exact fun arm listed => lexes_nameLines (read arm listed)
  have whole := (begins.append (.join cases)).append ends
  unfold nameText
  rwa [NameProgram.lexemes, List.flatMap_map, List.flatMap_def]

/-- The function for a case distinction is the code of a hash and of a program that switches over it. The
labels are those of the case distinction. For every name the program runs the statements of the type that
the case distinction leads to, and nothing if it leads to none. -/
structure NameSwitch.ReadsAs (options : Options) (model : Model) (switch : NameSwitch) (hash : HashCode)
    (body : String) (program : NameProgram) : Prop where
  written : nameFunction options model switch = converter hash.text body
  term : hash.term.IsRead
  value : ∀ name, hash.value name = switch.function.hash name
  lexes : Lexes body program.lexemes
  wellFormed : program.WellFormed
  labels : program.cases.map Prod.fst = switch.arms.map Prod.fst
  stores : ∀ name id, switch.target? name = some id →
    Stores options model id (program.run (hash.value name) name)
  passes : ∀ name, switch.target? name = none → program.run (hash.value name) name = []

/-- The function for a case distinction with legible names is the code of a program. -/
theorem exists_readsAs {switch : NameSwitch} (ascend : (switch.arms.map Prod.fst).Pairwise (· < ·))
    (present : ∀ arm ∈ switch.arms, arm.2.claims ≠ [])
    (legible : ∀ arm ∈ switch.arms, arm.2.IsLegible options model) :
    ∃ hash body program, switch.ReadsAs options model hash body program := by
  choose! body reads using fun arm listed => exists_reads (present arm listed) (legible arm listed)
  have labels : (switch.arms.map fun arm => (arm.1, body arm)).map Prod.fst = switch.arms.map Prod.fst := by
    rw [List.map_map]
    rfl
  have runs : ∀ name, NameProgram.run ⟨switch.arms.map fun arm => (arm.1, body arm)⟩
      (switch.function.hash name) name =
        ((switch.arms.lookup (switch.function.hash name)).map fun arm =>
          (body (switch.function.hash name, arm)).run name).getD [] := by
    intro name
    rw [NameProgram.run, lookup_map, Option.map_map]
    rfl
  refine ⟨hashCode switch.function, nameText options model switch,
    ⟨switch.arms.map fun arm => (arm.1, body arm)⟩, ?_⟩
  exact
    { written := nameFunction_eq options model switch
      term := isRead_hashCode _
      value := value_hashCode _
      lexes := lexes_nameText fun arm listed => (reads arm listed).lexes
      wellFormed := ⟨labels ▸ ascend, List.forall_mem_map.mpr fun arm listed => (reads arm listed).wellFormed⟩
      labels
      stores := by
        intro name id led
        obtain ⟨arm, found, target⟩ := Option.bind_eq_some_iff.mp led
        rw [value_hashCode, runs, found]
        exact (reads _ (mem_of_lookup found)).runs name id target
      passes := by
        intro name none
        rw [value_hashCode, runs]
        rw [NameSwitch.target?] at none
        cases found : switch.arms.lookup (switch.function.hash name) with
        | none => rfl
        | some arm =>
          rw [found] at none
          exact (reads _ (mem_of_lookup found)).passes name none }

end Reading

/-!
## Statements in the code
-/

section Places

variable {lexeme : Lexeme}

private theorem mem_otherwise {branches : List (List Lexeme × List Lexeme)}
    {found : List Lexeme × List Lexeme}
    (listed : found ∈ branches) (among : lexeme ∈ found.2) : lexeme ∈ otherwise branches := by
  induction branches with
  | nil => cases listed
  | cons first rest ih =>
    rcases List.mem_cons.mp listed with rfl | later
    · simp [otherwise, branch, among]
    · simp [otherwise, ih later]

private theorem mem_choice {branches : List (List Lexeme × List Lexeme)} {found : List Lexeme × List Lexeme}
    (listed : found ∈ branches) (among : lexeme ∈ found.2) : lexeme ∈ choice branches := by
  cases branches with
  | nil => cases listed
  | cons first rest =>
    rcases List.mem_cons.mp listed with rfl | later
    · simp [choice, branch, among]
    · simp [choice, mem_otherwise later among]

/-- What is run stands in the code. -/
theorem CaseBody.mem_lexemes {name : String} {body : CaseBody} (among : lexeme ∈ body.run name) :
    lexeme ∈ body.lexemes := by
  cases body with
  | always statements => exact among
  | byName branches =>
    rw [run] at among
    cases found : branches.lookup name with
    | none =>
      rw [found] at among
      cases among
    | some statements =>
      rw [found] at among
      exact mem_choice (List.mem_map_of_mem (mem_of_lookup found)) among

namespace NameProgram

variable {program : NameProgram} {hash other : UInt32} {name second : String}

/-- What is run stands behind the label of the hash. -/
theorem exists_case (among : lexeme ∈ program.run hash name) :
    ∃ entry ∈ program.cases, entry.1 = hash ∧ lexeme ∈ caseLexemes entry := by
  rw [run] at among
  cases found : program.cases.lookup hash with
  | none =>
    rw [found] at among
    cases among
  | some body =>
    rw [found] at among
    refine ⟨(hash, body), mem_of_lookup found, rfl, ?_⟩
    exact List.mem_append_left _ (List.mem_append_right _ (CaseBody.mem_lexemes among))

/-- What is run for two hash values stands in two places of the code. -/
theorem two_le_count (apart : hash ≠ other) (one : lexeme ∈ program.run hash name)
    (two : lexeme ∈ program.run other second) : 2 ≤ program.lexemes.count lexeme := by
  obtain ⟨entry, listed, rfl, here⟩ := exists_case one
  obtain ⟨later, listedToo, rfl, there⟩ := exists_case two
  obtain ⟨front, back, split⟩ := List.append_of_mem listed
  have elsewhere : later ∈ front ++ back := by
    rw [split, List.mem_append, List.mem_cons] at listedToo
    rcases listedToo with early | rfl | late
    · exact List.mem_append_left _ early
    · exact absurd rfl apart
    · exact List.mem_append_right _ late
  have own : 0 < (caseLexemes entry).count lexeme := List.count_pos_iff.mpr here
  have others : 0 < ((front ++ back).flatMap caseLexemes).count lexeme :=
    List.count_pos_iff.mpr (List.mem_flatMap.mpr ⟨later, elsewhere, there⟩)
  rw [List.flatMap_append, List.count_append] at others
  simp only [lexemes, split, List.flatMap_append, List.flatMap_cons, List.count_append]
  omega

end NameProgram

end Places

end RecordSchema.Dispatch
