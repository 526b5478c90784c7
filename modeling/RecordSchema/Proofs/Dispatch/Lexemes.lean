import RecordSchema.Proofs.Text

/-!
# Lexemes of C++ code

Code is read as a compiler reads it. Lines that end in a backslash are first joined with the lines after
them. Then comments are dropped, and what is left is words, string literals, and marks of one character each.
A text that ends where nothing is pending is read alike wherever it stands, so the readings of texts that
are put together are put together as well.
-/

set_option autoImplicit false

namespace RecordSchema.Cpp

open Text

/-!
## Reading
-/

inductive Lexeme where
  | word (text : List Char)
  | literal (text : List Char)
  | mark (character : Char)
deriving DecidableEq

/-- Joins every line that ends in a backslash with the line after it. -/
def splice : List Char → List Char
  | '\\' :: '\n' :: rest => splice rest
  | character :: rest => character :: splice rest
  | [] => []

namespace Lexer

/-- What is being read. -/
inductive Mode where
  | code
  | word (read : List Char)
  /-- A slash that may begin a comment. -/
  | slash
  /-- A comment up to the end of the line. -/
  | remark
  | block
  /-- A star that may end a comment. -/
  | star
  | literal (read : List Char)
  /-- Something that is none of these. -/
  | broken
deriving DecidableEq

end Lexer

/-- What is being read, and the lexemes before it. -/
structure Lexer where
  mode : Lexer.Mode := .code
  lexemes : List Lexeme := []
deriving DecidableEq

namespace Lexer

/-- The characters of names and numbers, letters outside of ASCII among them. -/
def isWord (character : Char) : Bool :=
  isWordChar character || 128 ≤ character.toNat

def isSpace (character : Char) : Bool :=
  character == ' ' || (9 ≤ character.toNat && character.toNat ≤ 13)

/-- Reads a character where nothing is pending. -/
def start (lexemes : List Lexeme) (character : Char) : Lexer :=
  if isWord character then ⟨.word [character], lexemes⟩
  else if isSpace character then ⟨.code, lexemes⟩
  else if character = '/' then ⟨.slash, lexemes⟩
  else if character = '"' then ⟨.literal [], lexemes⟩
  else if character = '\'' ∨ character = '\\' then ⟨.broken, lexemes⟩
  else ⟨.code, lexemes ++ [.mark character]⟩

def step (lexer : Lexer) (character : Char) : Lexer :=
  let lexemes := lexer.lexemes
  match lexer.mode with
  | .code => start lexemes character
  | .word read =>
    if isWord character then ⟨.word (read ++ [character]), lexemes⟩
    else start (lexemes ++ [.word read]) character
  | .slash =>
    if character = '/' then ⟨.remark, lexemes⟩
    else if character = '*' then ⟨.block, lexemes⟩
    else start (lexemes ++ [.mark '/']) character
  | .remark => if character = '\n' then ⟨.code, lexemes⟩ else lexer
  | .block => if character = '*' then ⟨.star, lexemes⟩ else lexer
  | .star =>
    if character = '/' then ⟨.code, lexemes⟩
    else if character = '*' then lexer
    else ⟨.block, lexemes⟩
  | .literal read =>
    if character = '"' then ⟨.code, lexemes ++ [.literal read]⟩
    else if character = '\\' ∨ character = '\n' then ⟨.broken, lexemes⟩
    else ⟨.literal (read ++ [character]), lexemes⟩
  | .broken => lexer

/-- The lexemes that have been read, if nothing is left open. -/
def finish? (lexer : Lexer) : Option (List Lexeme) :=
  match lexer.mode with
  | .code | .remark => some lexer.lexemes
  | .word read => some (lexer.lexemes ++ [.word read])
  | .slash => some (lexer.lexemes ++ [.mark '/'])
  | .block | .star | .literal _ | .broken => none

end Lexer

/-- The lexemes of a text, unless it ends within something or has what is neither of them. -/
def lexemes? (text : String) : Option (List Lexeme) :=
  ((splice text.toList).foldl Lexer.step {}).finish?

/-!
## Texts put together
-/

/-- No line of a text is joined with another, whatever comes after it. -/
def Unspliced (text : List Char) : Prop :=
  splice text = text ∧ text.getLast? ≠ some '\\'

instance (text : List Char) : Decidable (Unspliced text) :=
  inferInstanceAs (Decidable (_ ∧ _))

/-- A text is read as lexemes, and nothing is pending behind it. -/
structure Lexes (text : String) (lexemes : List Lexeme) : Prop where
  unspliced : Unspliced text.toList
  read : text.toList.foldl Lexer.step {} = ⟨.code, lexemes⟩

instance (text : String) (lexemes : List Lexeme) : Decidable (Lexes text lexemes) :=
  decidable_of_iff (Unspliced text.toList ∧ text.toList.foldl Lexer.step {} = ⟨.code, lexemes⟩)
    ⟨fun both => ⟨both.1, both.2⟩, fun lexes => ⟨lexes.unspliced, lexes.read⟩⟩

private theorem splice_cons {character : Char} {rest : List Char}
    (apart : character = '\\' → rest.head? ≠ some '\n') :
    splice (character :: rest) = character :: splice rest := by
  rw [splice]
  rintro later rfl rfl
  exact apart rfl rfl

private theorem splice_append {first second : List Char} (ends : first.getLast? ≠ some '\\') :
    splice (first ++ second) = splice first ++ splice second := by
  induction first using splice.induct with
  | case1 rest ih =>
    rw [List.cons_append, List.cons_append, splice, splice]
    refine ih fun last => ends ?_
    rw [List.getLast?_cons_cons, List.getLast?_cons, last]
    rfl
  | case2 character rest apart ih =>
    have other : character = '\\' → rest.head? ≠ some '\n' := by
      rintro rfl feed
      obtain ⟨later, rfl⟩ := List.head?_eq_some_iff.mp feed
      exact apart later rfl rfl
    rw [splice_cons other, List.cons_append, splice_cons, ih, List.cons_append]
    · refine fun last => ends ?_
      rw [List.getLast?_cons, last]
      rfl
    · intro backslash feed
      cases rest with
      | nil => exact ends (congrArg some backslash)
      | cons next rest => exact other backslash feed
  | case3 => rfl

namespace Unspliced

theorem append {first second : List Char} (one : Unspliced first) (other : Unspliced second) :
    Unspliced (first ++ second) := by
  refine ⟨by rw [splice_append one.2, one.1, other.1], ?_⟩
  rw [List.getLast?_append]
  have ends := other.2
  cases last : second.getLast? with
  | none => exact one.2
  | some character => rwa [last] at ends

theorem cons {character : Char} {text : List Char} (apart : character ≠ '\\') (unspliced : Unspliced text) :
    Unspliced ([character] ++ text) :=
  append ⟨splice_cons nofun, by simpa using apart⟩ unspliced

/-- A text without backslashes has no lines that are joined. -/
theorem of_not_mem {text : List Char} (absent : '\\' ∉ text) : Unspliced text := by
  induction text with
  | nil => decide
  | cons character rest ih =>
    obtain ⟨apart, later⟩ := not_or.mp (mt List.mem_cons.mpr absent)
    exact cons (Ne.symm apart) (ih later)

/-- A line has no other to be joined with. -/
theorem of_line {text : List Char} (line : '\n' ∉ text) (ends : text.getLast? ≠ some '\\') :
    Unspliced text := by
  refine ⟨?_, ends⟩
  clear ends
  induction text with
  | nil => rfl
  | cons character rest ih =>
    have later : '\n' ∉ rest := fun feed => line (List.mem_cons_of_mem _ feed)
    rw [splice_cons, ih later]
    exact fun _ feed => later (List.mem_of_mem_head? feed)

end Unspliced

namespace Lexer

private theorem start_frame (before lexemes : List Lexeme) (character : Char) :
    start (before ++ lexemes) character =
      ⟨(start lexemes character).mode, before ++ (start lexemes character).lexemes⟩ := by
  simp only [start]
  split_ifs <;> simp

/-- What has been read before stays in front. -/
theorem foldl_step_frame (text : List Char) (mode : Mode) (before lexemes : List Lexeme) :
    text.foldl step ⟨mode, before ++ lexemes⟩ =
      ⟨(text.foldl step ⟨mode, lexemes⟩).mode,
        before ++ (text.foldl step ⟨mode, lexemes⟩).lexemes⟩ := by
  induction text generalizing mode lexemes with
  | nil => rfl
  | cons character rest ih =>
    have here : step ⟨mode, before ++ lexemes⟩ character =
        ⟨(step ⟨mode, lexemes⟩ character).mode,
          before ++ (step ⟨mode, lexemes⟩ character).lexemes⟩ := by
      cases mode <;> simp only [step, List.append_assoc] <;> (try split_ifs) <;>
        simp [start_frame]
    rw [List.foldl_cons, List.foldl_cons, here, ih]

private theorem foldl_step_code (text : List Char) (before : List Lexeme) :
    text.foldl step ⟨.code, before⟩ =
      ⟨(text.foldl step {}).mode, before ++ (text.foldl step {}).lexemes⟩ := by
  have frame := foldl_step_frame text .code before []
  rwa [List.append_nil] at frame

end Lexer

namespace Lexes

variable {text other : String} {lexemes found : List Lexeme}

theorem append (first : Lexes text lexemes) (second : Lexes other found) :
    Lexes (text ++ other) (lexemes ++ found) where
  unspliced := by
    rw [String.toList_append]
    exact first.unspliced.append second.unspliced
  read := by
    rw [String.toList_append, List.foldl_append, first.read, Lexer.foldl_step_code, second.read]

theorem empty : Lexes "" [] := by
  decide

theorem join {texts : List String} {parts : List (List Lexeme)}
    (each : List.Forall₂ Lexes texts parts) : Lexes (String.join texts) parts.flatten := by
  induction each with
  | nil => exact empty
  | cons here _ ih =>
    rw [String.join_cons, List.flatten_cons]
    exact here.append ih

theorem lexemes? (lexes : Lexes text lexemes) : lexemes? text = some lexemes := by
  rw [Cpp.lexemes?, lexes.unspliced.1, lexes.read]
  rfl

end Lexes

/-!
## Names in code
-/

/-- The characters that a reader of code does more with than to end a word: they begin or end a line, a
comment, a literal, a statement or something in parentheses. -/
def structural : List Char := ['\n', '"', '\'', '\\', '/', '(', ')', '{', '}', ';']

/-- A text that is read as part of what it stands in. -/
def IsFlat (text : String) : Prop :=
  ∀ character ∈ text.toList, character ∉ structural

instance (text : String) : Decidable (IsFlat text) :=
  List.decidableBAll (· ∉ structural) text.toList

theorem IsFlat.append {text other : String} (one : IsFlat text) (two : IsFlat other) :
    IsFlat (text ++ other) := by
  intro character among
  rw [String.toList_append] at among
  exact (List.mem_append.mp among).elim (one character) (two character)

def Lexeme.IsFlat : Lexeme → Prop
  | word _ => True
  | literal _ => False
  | mark character => character ∉ structural

namespace Lexer

/-- Nothing but a word may be pending. -/
def Mode.IsPlain : Mode → Prop
  | .code | .word _ => True
  | _ => False

/-- The lexemes so far with the word that is pending. -/
def complete (lexer : Lexer) : List Lexeme :=
  match lexer.mode with
  | .word read => lexer.lexemes ++ [.word read]
  | _ => lexer.lexemes

private theorem start_flat {character : Char} (flat : character ∉ structural) (lexemes : List Lexeme) :
    (start lexemes character).mode.IsPlain ∧
      ∃ more, (start lexemes character).lexemes = lexemes ++ more ∧ ∀ lexeme ∈ more, lexeme.IsFlat := by
  have apart : character ≠ '/' ∧ character ≠ '"' ∧ character ≠ '\'' ∧ character ≠ '\\' := by
    refine ⟨?_, ?_, ?_, ?_⟩ <;> rintro rfl <;> exact flat (by decide)
  rw [start]
  split_ifs with word space slash quote other
  · exact ⟨trivial, [], by simp, nofun⟩
  · exact ⟨trivial, [], by simp, nofun⟩
  · exact absurd slash apart.1
  · exact absurd quote apart.2.1
  · exact absurd other (by simp [apart])
  · exact ⟨trivial, [.mark character], rfl, by simpa [Lexeme.IsFlat] using flat⟩

private theorem step_flat {character : Char} (flat : character ∉ structural) {lexer : Lexer}
    (plain : lexer.mode.IsPlain) :
    (step lexer character).mode.IsPlain ∧
      ∃ more, (step lexer character).lexemes = lexer.lexemes ++ more ∧
        ∀ lexeme ∈ more, lexeme.IsFlat := by
  obtain ⟨mode, lexemes⟩ := lexer
  cases mode with
  | code => exact start_flat flat lexemes
  | word read =>
    by_cases word : isWord character
    · exact ⟨by simp [step, word, Mode.IsPlain], [], by simp [step, word], nofun⟩
    · obtain ⟨kept, more, same, flats⟩ := start_flat flat (lexemes ++ [.word read])
      refine ⟨by simpa [step, word] using kept, .word read :: more, by simp [step, word, same], ?_⟩
      exact List.forall_mem_cons.mpr ⟨trivial, flats⟩
  | _ => cases plain

/-- A flat text is read as words and marks. -/
theorem foldl_step_flat {text : List Char} (flat : ∀ character ∈ text, character ∉ structural)
    {lexer : Lexer} (plain : lexer.mode.IsPlain) :
    (text.foldl step lexer).mode.IsPlain ∧
      ∃ more, (text.foldl step lexer).lexemes = lexer.lexemes ++ more ∧
        ∀ lexeme ∈ more, lexeme.IsFlat := by
  induction text generalizing lexer with
  | nil => exact ⟨plain, [], by simp, nofun⟩
  | cons character rest ih =>
    obtain ⟨here, later⟩ := List.forall_mem_cons.mp flat
    obtain ⟨kept, more, same, flats⟩ := step_flat here plain
    obtain ⟨ends, others, whole, flatsToo⟩ := ih later kept
    refine ⟨ends, more ++ others, by rw [List.foldl_cons, whole, same, List.append_assoc], ?_⟩
    exact List.forall_mem_append.mpr ⟨flats, flatsToo⟩

end Lexer

/-- The marks that a flat text may be followed by. -/
def bounding : List Char := ['(', ')', '{', '}', ';']

private theorem Lexer.bounding_apart : ∀ character ∈ bounding, isWord character = false ∧
    isSpace character = false ∧ character ≠ '/' ∧ character ≠ '"' ∧ character ≠ '\'' ∧
      character ≠ '\\' := by
  simp only [bounding, List.forall_mem_cons]
  refine ⟨by decide, by decide, by decide, by decide, by decide, nofun⟩

private theorem Lexer.step_bounding {character : Char} (bounds : character ∈ bounding) {lexer : Lexer}
    (plain : lexer.mode.IsPlain) :
    step lexer character = ⟨.code, lexer.complete ++ [.mark character]⟩ := by
  obtain ⟨word, space, apart⟩ := bounding_apart character bounds
  obtain ⟨mode, lexemes⟩ := lexer
  cases mode with
  | code | word _ => simp [step, start, complete, word, space, apart]
  | _ => cases plain

/-- A flat text and the mark after it. -/
theorem Lexes.flat {text : String} (flat : IsFlat text) (mark : String) (character : Char)
    (bounds : character ∈ bounding) (single : mark.toList = [character]) :
    ∃ lexemes, (∀ lexeme ∈ lexemes, lexeme.IsFlat) ∧
      Lexes (text ++ mark) (lexemes ++ [.mark character]) := by
  have nothing : Lexer.Mode.IsPlain ({} : Lexer).mode := trivial
  obtain ⟨plain, more, same, flats⟩ := Lexer.foldl_step_flat flat nothing
  rw [List.nil_append] at same
  have characters : (text ++ mark).toList = text.toList ++ [character] := by
    rw [String.toList_append, single]
  refine ⟨(text.toList.foldl Lexer.step {}).complete, ?_, ?_, ?_⟩
  · intro lexeme among
    rw [Lexer.complete] at among
    split at among
    · rw [same] at among
      rcases List.mem_append.mp among with among | last
      · exact flats lexeme among
      · rw [List.mem_singleton.mp last]
        trivial
    · exact flats lexeme (same ▸ among)
  · rw [characters]
    refine .append (.of_not_mem fun backslash => flat _ backslash (by decide)) (.of_not_mem ?_)
    simpa using (Lexer.bounding_apart character bounds).2.2.2.2.2.symm
  · rw [characters, List.foldl_append, List.foldl_cons, List.foldl_nil,
      Lexer.step_bounding bounds plain]

/-!
## Words, literals and remarks
-/

private theorem Lexer.foldl_step_word {text : List Char} (words : ∀ character ∈ text, isWord character)
    (read : List Char) (lexemes : List Lexeme) :
    text.foldl step ⟨.word read, lexemes⟩ = ⟨.word (read ++ text), lexemes⟩ := by
  induction text generalizing read with
  | nil => rw [List.append_nil, List.foldl_nil]
  | cons character rest ih =>
    obtain ⟨here, later⟩ := List.forall_mem_cons.mp words
    have taken : step ⟨.word read, lexemes⟩ character = ⟨.word (read ++ [character]), lexemes⟩ :=
      if_pos here
    rw [List.foldl_cons, taken, ih later, List.append_assoc, List.singleton_append]

/-- The characters of a string literal that stand for themselves. -/
def isPlain (character : Char) : Bool :=
  character ≠ '"' && character ≠ '\\' && character ≠ '\n' && character ≠ '\x00'

private theorem Lexer.foldl_step_literal {text : List Char} (plain : ∀ character ∈ text, isPlain character)
    (read : List Char) (lexemes : List Lexeme) :
    text.foldl step ⟨.literal read, lexemes⟩ = ⟨.literal (read ++ text), lexemes⟩ := by
  induction text generalizing read with
  | nil => rw [List.append_nil, List.foldl_nil]
  | cons character rest ih =>
    obtain ⟨here, later⟩ := List.forall_mem_cons.mp plain
    obtain ⟨⟨⟨quote, backslash⟩, feed⟩, _⟩ : ((character ≠ '"' ∧ character ≠ '\\') ∧
        character ≠ '\n') ∧ character ≠ '\x00' := by simpa [isPlain] using here
    have taken : step ⟨.literal read, lexemes⟩ character = ⟨.literal (read ++ [character]), lexemes⟩ :=
      (if_neg quote).trans (if_neg (not_or.mpr ⟨backslash, feed⟩))
    rw [List.foldl_cons, taken, ih later, List.append_assoc, List.singleton_append]

private theorem Lexer.foldl_step_remark {text : List Char} (line : '\n' ∉ text) (lexemes : List Lexeme) :
    text.foldl step ⟨.remark, lexemes⟩ = ⟨.remark, lexemes⟩ := by
  induction text with
  | nil => rfl
  | cons character rest ih =>
    obtain ⟨apart, later⟩ := not_or.mp (mt List.mem_cons.mpr line)
    have taken : step ⟨.remark, lexemes⟩ character = ⟨.remark, lexemes⟩ := if_neg (Ne.symm apart)
    rw [List.foldl_cons, taken, ih later]

namespace Lexes

/-- A case label. -/
theorem label {text : String} (some : text ≠ "") (words : ∀ character ∈ text.toList, Lexer.isWord character) :
    Lexes (text ++ ":\n") [.word text.toList, .mark ':'] := by
  have clear : '\\' ∉ text.toList := fun backslash => absurd (words _ backslash) (by decide)
  refine ⟨?_, ?_⟩
  · rw [String.toList_append]
    exact (Unspliced.of_not_mem clear).append (by decide)
  · rw [String.toList_append, List.foldl_append]
    cases characters : text.toList with
    | nil => exact absurd (String.toList_eq_nil_iff.mp characters) some
    | cons first rest =>
      rw [characters] at words
      obtain ⟨here, later⟩ := List.forall_mem_cons.mp words
      have begun : Lexer.step {} first = ⟨.word [first], []⟩ := if_pos here
      rw [List.foldl_cons, begun, Lexer.foldl_step_word later]
      rfl

theorem literal {text : String} (plain : ∀ character ∈ text.toList, isPlain character) :
    Lexes ("\"" ++ text ++ "\"") [.literal text.toList] := by
  have clear : '\\' ∉ text.toList := fun backslash => absurd (plain _ backslash) (by decide)
  refine ⟨?_, ?_⟩
  · rw [String.toList_append, String.toList_append]
    exact ((by decide : Unspliced "\"".toList).append (.of_not_mem clear)).append (by decide)
  · have opened : "\"".toList.foldl Lexer.step {} = ⟨.literal [], []⟩ := by decide
    rw [String.toList_append, String.toList_append, List.foldl_append, List.foldl_append, opened,
      Lexer.foldl_step_literal plain]
    rfl

/-- A comment is a line of its own. -/
theorem remark {text : String} (line : '\n' ∉ text.toList) (ends : text.toList.getLast? ≠ some '\\') :
    Lexes ("// " ++ text ++ "\n") [] := by
  refine ⟨?_, ?_⟩
  · rw [String.toList_append, String.toList_append]
    exact ((by decide : Unspliced "// ".toList).append (.of_line line ends)).append (by decide)
  · have opened : "// ".toList.foldl Lexer.step {} = ⟨.remark, []⟩ := by decide
    rw [String.toList_append, String.toList_append, List.foldl_append, List.foldl_append, opened,
      Lexer.foldl_step_remark line]
    rfl

end Lexes

end RecordSchema.Cpp
