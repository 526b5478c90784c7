import Mathlib.Algebra.GroupWithZero.Nat
import Mathlib.Data.List.DropRight
import Mathlib.Data.List.Forall2
import RecordSchema.Cpp.Comment
import RecordSchema.Proofs.Text

/-!
# Comments in generated code

A documentation comment is written line by line, each line behind the indent, with all that is visible
of its lines in their order. Nothing in it is rewritten. So what is written is one comment of the target
language just if the text that it is made of does not end a comment itself.
-/

set_option autoImplicit false

namespace RecordSchema.Text

/-!
## Blanks at the ends
-/

section Blanks

variable {front rest back : List Char}

private theorem dropTrailingBlanks_append (blank : ∀ character ∈ back, isBlank character = true) :
    dropTrailingBlanks (rest ++ back) = dropTrailingBlanks rest := by
  rw [dropTrailingBlanks, List.reverse_append, List.dropWhile_append_of_pos, ← dropTrailingBlanks]
  exact fun character listed => blank character (List.mem_reverse.mp listed)

private theorem trimBlanks_front (blank : ∀ character ∈ front, isBlank character = true) :
    trimBlanks (front ++ rest) = trimBlanks rest := by
  rw [trimBlanks, dropBlanks, List.dropWhile_append_of_pos blank]
  rfl

private theorem trimBlanks_back (blank : ∀ character ∈ back, isBlank character = true) :
    trimBlanks (rest ++ back) = trimBlanks rest := by
  cases visible : dropBlanks rest with
  | nil =>
    have none : ∀ character ∈ rest, isBlank character = true := List.dropWhile_eq_nil_iff.mp visible
    have whole : trimBlanks (rest ++ back) = trimBlanks back := trimBlanks_front none
    rw [whole, trimBlanks_eq_nil_iff.mpr blank, trimBlanks_eq_nil_iff.mpr none]
  | cons first others =>
    have kept : dropBlanks (rest ++ back) = dropBlanks rest ++ back := by
      rw [visible]
      rw [dropBlanks] at visible
      rw [dropBlanks, List.dropWhile_append, visible]
      exact if_neg Bool.false_ne_true
    rw [trimBlanks, kept, dropTrailingBlanks_append blank, ← trimBlanks]

/-- Blanks alone are dropped at the end. -/
theorem exists_dropTrailingBlanks (characters : List Char) :
    ∃ back, characters = dropTrailingBlanks characters ++ back ∧
      ∀ character ∈ back, isBlank character = true :=
  ⟨characters.rtakeWhile isBlank, List.rdropWhile_append_rtakeWhile.symm,
    fun _ => List.mem_rtakeWhile_imp⟩

/-- Blanks alone are dropped at either end. -/
theorem exists_trimBlanks (characters : List Char) :
    ∃ front back, characters = front ++ (trimBlanks characters ++ back) ∧
      (∀ character ∈ front, isBlank character = true) ∧
      ∀ character ∈ back, isBlank character = true := by
  obtain ⟨back, split, blank⟩ := exists_dropTrailingBlanks (dropBlanks characters)
  refine ⟨characters.takeWhile isBlank, back, ?_, fun _ => List.mem_takeWhile_imp, blank⟩
  rw [trimBlanks, ← split]
  exact List.takeWhile_append_dropWhile.symm

/-- What is left of a line at both ends stands at the end of what is left of it at one. -/
theorem exists_front_trimBlanks (characters : List Char) :
    ∃ front, dropTrailingBlanks characters = front ++ trimBlanks characters := by
  obtain ⟨front, back, split, blank, behind⟩ := exists_trimBlanks characters
  by_cases none : trimBlanks characters = []
  · exact ⟨dropTrailingBlanks characters, by rw [none, List.append_nil]⟩
  refine ⟨front, ?_⟩
  have last : dropTrailingBlanks (front ++ trimBlanks characters) = front ++ trimBlanks characters := by
    refine List.rdropWhile_eq_self_iff.mpr fun some => ?_
    rw [List.getLast_append_of_ne_nil _ none]
    simpa using (trimBlanks_trimmed characters).last _ (List.getLast?_eq_getLast_of_ne_nil none)
  conv_lhs => rw [split, ← List.append_assoc]
  rw [dropTrailingBlanks_append behind, last]

end Blanks

/-!
## Lines
-/

section Lines

variable {characters : List Char}

/-- A text is one line without its end, or a line with its end before further text. -/
theorem lines_induction {motive : List Char → Prop} (last : ∀ line, '\n' ∉ line → motive line)
    (line : ∀ line rest, '\n' ∉ line → motive rest → motive (line ++ '\n' :: rest))
    (characters : List Char) : motive characters := by
  induction length : characters.length using Nat.strong_induction_on generalizing characters with
  | h size ih =>
    by_cases ends : '\n' ∈ characters
    · obtain ⟨first, rest, rfl, free⟩ := List.eq_append_cons_of_mem ends
      refine line first rest free (ih rest.length ?_ rest rfl)
      rw [← length, List.length_append, List.length_cons]
      omega
    · exact last characters ends

private theorem splitOnChar_append {separator : Char} {piece rest : List Char} (free : separator ∉ piece) :
    splitOnChar separator (piece ++ separator :: rest) = piece :: splitOnChar separator rest := by
  induction piece with
  | nil => rw [List.nil_append, splitOnChar, if_pos rfl]
  | cons character piece ih =>
    obtain ⟨different, free⟩ := not_or.mp (mt List.mem_cons.mpr free)
    rw [List.cons_append, splitOnChar, if_neg (Ne.symm different), ih free]

private theorem splitOnChar_ne_nil (separator : Char) (characters : List Char) :
    splitOnChar separator characters ≠ [] := by
  cases characters with
  | nil => exact List.cons_ne_nil _ _
  | cons character rest =>
    rw [splitOnChar]
    split
    · exact List.cons_ne_nil _ _
    · split <;> exact List.cons_ne_nil _ _

/-- The lines of a text, as lists of characters. -/
def linesOf (characters : List Char) : List (List Char) :=
  linesOfPieces (splitOnChar '\n' characters)

private theorem linesOf_last {line : List Char} (free : '\n' ∉ line) :
    linesOf line = if line.isEmpty then [] else [line] := by
  rw [linesOf, splitOnChar_eq_singleton free]
  rfl

private theorem linesOf_append {line : List Char} (free : '\n' ∉ line) (rest : List Char) :
    linesOf (line ++ '\n' :: rest) = dropCarriageReturn line :: linesOf rest := by
  rw [linesOf, linesOf, splitOnChar_append free]
  cases pieces : splitOnChar '\n' rest with
  | nil => exact absurd pieces (splitOnChar_ne_nil _ _)
  | cons => rfl

/-- A carriage return may be dropped from the end of a line, and nothing else. -/
theorem exists_dropCarriageReturn (line : List Char) :
    ∃ back, line = dropCarriageReturn line ++ back ∧ ∀ character ∈ back, character = '\r' := by
  unfold dropCarriageReturn
  split
  · rename_i last
    exact ⟨['\r'], (List.dropLast_append_getLast? _ last).symm, by simp⟩
  · exact ⟨[], (List.append_nil line).symm, nofun⟩

/-- There is no line feed within a line. -/
theorem not_mem_of_mem_linesOf {line : List Char} (listed : line ∈ linesOf characters) :
    '\n' ∉ line := by
  induction characters using lines_induction with
  | last whole free =>
    rw [linesOf_last free] at listed
    split at listed
    · cases listed
    · rwa [List.mem_singleton.mp listed]
  | line first rest free ih =>
    rw [linesOf_append free] at listed
    rcases List.mem_cons.mp listed with rfl | later
    · obtain ⟨back, split, -⟩ := exists_dropCarriageReturn first
      rw [split] at free
      exact mt (List.mem_append_left back) free
    · exact ih later

private theorem not_mem_of_mem_lines {text line : String} (listed : line ∈ lines text) :
    '\n' ∉ line.toList := by
  obtain ⟨line, among, rfl⟩ := List.mem_map.mp listed
  rw [String.toList_ofList]
  exact not_mem_of_mem_linesOf among

/-- Rows that end in a line feed each are the lines of the text that they make. -/
theorem linesOf_flatMap {rows : List (List Char)} (free : ∀ row ∈ rows, '\n' ∉ row)
    (ending : ∀ row ∈ rows, row.getLast? ≠ some '\r') :
    linesOf (rows.flatMap (· ++ ['\n'])) = rows := by
  induction rows with
  | nil => rfl
  | cons row rows ih =>
    obtain ⟨here, later⟩ := List.forall_mem_cons.mp free
    obtain ⟨fine, others⟩ := List.forall_mem_cons.mp ending
    have kept : dropCarriageReturn row = row := by
      unfold dropCarriageReturn
      split
      · rename_i last
        exact absurd last fine
      · rfl
    rw [List.flatMap_cons, List.append_assoc, List.singleton_append, linesOf_append here, kept,
      ih later others]

/-- What can be seen of the lines of a text: what trimming leaves of each, if anything. -/
def shownLines (characters : List Char) : List (List Char) :=
  ((linesOf characters).map trimBlanks).filter (· ≠ [])

private theorem trimBlanks_dropCarriageReturn (line : List Char) :
    trimBlanks (dropCarriageReturn line) = trimBlanks line := by
  obtain ⟨back, split, only⟩ := exists_dropCarriageReturn line
  conv_rhs => rw [split]
  refine (trimBlanks_back fun character listed => ?_).symm
  rw [only character listed]
  rfl

private theorem shownLines_append {line : List Char} (free : '\n' ∉ line) (rest : List Char) :
    shownLines (line ++ '\n' :: rest) = [trimBlanks line].filter (· ≠ []) ++ shownLines rest := by
  rw [shownLines, linesOf_append free, List.map_cons, trimBlanks_dropCarriageReturn, ← List.singleton_append,
    List.filter_append]
  rfl

private theorem shownLines_last {line : List Char} (free : '\n' ∉ line) :
    shownLines line = [trimBlanks line].filter (· ≠ []) := by
  rw [shownLines, linesOf_last free]
  split
  · rename_i empty
    rw [List.isEmpty_iff.mp empty]
    rfl
  · rfl

private theorem shownLines_front {front : List Char} (blank : ∀ character ∈ front, isBlank character = true)
    (rest : List Char) : shownLines (front ++ rest) = shownLines rest := by
  induction front using lines_induction with
  | last line free =>
    by_cases ends : '\n' ∈ rest
    · obtain ⟨first, later, rfl, within⟩ := List.eq_append_cons_of_mem ends
      rw [← List.append_assoc, shownLines_append (by simp [free, within]), shownLines_append within,
        trimBlanks_front blank]
    · rw [shownLines_last (by simp [free, ends]), shownLines_last ends, trimBlanks_front blank]
  | line line later free ih =>
    obtain ⟨here, others⟩ := List.forall_mem_append.mp blank
    rw [List.append_assoc, List.cons_append, shownLines_append free, trimBlanks_eq_nil_iff.mpr here]
    exact ih (List.forall_mem_cons.mp others).2

private theorem shownLines_back {back : List Char} (blank : ∀ character ∈ back, isBlank character = true)
    (rest : List Char) : shownLines (rest ++ back) = shownLines rest := by
  have none : ∀ {blanks : List Char}, (∀ character ∈ blanks, isBlank character = true) →
      shownLines blanks = [] := fun only => by
    have whole := shownLines_front only []
    rwa [List.append_nil] at whole
  induction rest using lines_induction with
  | last line free =>
    by_cases ends : '\n' ∈ back
    · obtain ⟨first, later, rfl, within⟩ := List.eq_append_cons_of_mem ends
      obtain ⟨here, others⟩ := List.forall_mem_append.mp blank
      rw [← List.append_assoc, shownLines_append (by simp [free, within]), shownLines_last free,
        trimBlanks_back here, none (List.forall_mem_cons.mp others).2, List.append_nil]
    · rw [shownLines_last (by simp [free, ends]), shownLines_last free, trimBlanks_back blank]
  | line line later free ih =>
    rw [List.append_assoc, List.cons_append, shownLines_append free, shownLines_append free, ih]

/-- Blanks at the ends of a text make no difference to what can be seen of its lines. -/
theorem shownLines_trimBlanks (characters : List Char) :
    shownLines (trimBlanks characters) = shownLines characters := by
  obtain ⟨front, back, split, blank, behind⟩ := exists_trimBlanks characters
  conv_rhs => rw [split]
  rw [shownLines_front blank, shownLines_back behind]

private theorem filter_trim_lines (text : String) :
    ((lines text).map trim).filter (· ≠ "") = (shownLines text.toList).map String.ofList := by
  have trims : trim ∘ String.ofList = String.ofList ∘ trimBlanks := by
    funext line
    rw [Function.comp_apply, trim, String.toList_ofList]
    rfl
  rw [lines, ← linesOf, List.map_map, trims, ← List.map_map, shownLines, List.filter_map]
  refine congrArg _ (List.filter_congr fun line _ => ?_)
  simp

end Lines

/-!
## Texts in order
-/

/-- Texts that stand in a text one after another. -/
inductive InOrder : List String → String → Prop where
  | nil {text : String} : InOrder [] text
  | cons {part before after : String} {parts : List String} :
      InOrder parts after → InOrder (part :: parts) (before ++ part ++ after)

namespace InOrder

variable {parts : List String} {text : String}

theorem append_left (ordered : InOrder parts text) (front : String) : InOrder parts (front ++ text) := by
  cases ordered with
  | nil => exact .nil
  | @cons part before after parts later =>
    rw [← String.append_assoc, ← String.append_assoc]
    exact .cons later

/-- Empty texts stand everywhere. -/
theorem of_filter (ordered : InOrder (parts.filter (· ≠ "")) text) : InOrder parts text := by
  induction parts generalizing text with
  | nil => exact .nil
  | cons part parts ih =>
    by_cases empty : part = ""
    · subst empty
      have whole := @InOrder.cons "" "" _ _ (ih ordered)
      simpa using whole
    · rw [List.filter_cons_of_pos (by simpa using empty)] at ordered
      cases ordered with
      | cons later => exact .cons (ih later)

theorem filter (ordered : InOrder parts text) : InOrder (parts.filter (· ≠ "")) text := by
  induction ordered with
  | nil => exact .nil
  | @cons part before after parts _ ih =>
    by_cases empty : part = ""
    · rw [List.filter_cons_of_neg (by simpa using empty)]
      exact ih.append_left _
    · rw [List.filter_cons_of_pos (by simpa using empty)]
      exact .cons ih

end InOrder

end RecordSchema.Text

namespace RecordSchema.Cpp

open Text

/-!
## Where comments end
-/

/-- How often the end of a comment, an asterisk before a slash, stands in a text. -/
def closings : List Char → Nat
  | [] => 0
  | character :: rest => (if character = '*' ∧ rest.head? = some '/' then 1 else 0) + closings rest

/-- What comes behind the first end of a comment. -/
def afterComment? : List Char → Option (List Char)
  | [] => none
  | '*' :: '/' :: rest => some rest
  | _ :: rest => afterComment? rest

/-- A text that is one comment: the first end of a comment behind its opening is the end of the text. -/
def IsComment (text : String) : Prop :=
  ∃ inner, text.toList = '/' :: '*' :: inner ∧ afterComment? inner = some []

section Closings

variable {characters left right : List Char}

private theorem closings_cons {character : Char} (other : character ≠ '*') (rest : List Char) :
    closings (character :: rest) = closings rest := by
  rw [closings, if_neg fun closes => other closes.1, Nat.zero_add]

private theorem closings_append (apart : right.head? ≠ some '/') :
    closings (left ++ right) = closings left + closings right := by
  induction left with
  | nil => rw [List.nil_append, closings, Nat.zero_add]
  | cons character rest ih =>
    have next : (rest ++ right).head? = some '/' ↔ rest.head? = some '/' := by
      cases rest with
      | nil => exact iff_of_false apart nofun
      | cons => rfl
    simp only [List.cons_append, closings, next, ih, Nat.add_assoc]

private theorem ne_of_isBlank {character : Char} (blank : isBlank character = true) :
    character ≠ '*' ∧ character ≠ '/' := by
  constructor <;>
  · rintro rfl
    cases blank

private theorem closings_front (blank : ∀ character ∈ left, isBlank character = true) :
    closings (left ++ right) = closings right := by
  induction left with
  | nil => rfl
  | cons character rest ih =>
    obtain ⟨here, later⟩ := List.forall_mem_cons.mp blank
    rw [List.cons_append, closings_cons (ne_of_isBlank here).1, ih later]

private theorem closings_back (blank : ∀ character ∈ right, isBlank character = true) :
    closings (left ++ right) = closings left := by
  have none : closings (right ++ []) = closings [] := closings_front blank
  rw [List.append_nil, closings] at none
  rw [closings_append fun head => (ne_of_isBlank (blank _ (List.mem_of_head? head))).2 rfl, none,
    Nat.add_zero]

/-- No comment ends across a blank. -/
theorem closings_between {character : Char} (blank : isBlank character = true) (left right : List Char) :
    closings (left ++ character :: right) = closings left + closings right := by
  obtain ⟨noStar, noSlash⟩ := ne_of_isBlank blank
  have apart : (character :: right).head? ≠ some '/' := fun head => noSlash (Option.some.inj head)
  rw [closings_append apart, closings_cons noStar]

private theorem closings_trimBlanks (characters : List Char) :
    closings (trimBlanks characters) = closings characters := by
  obtain ⟨front, back, split, blank, behind⟩ := exists_trimBlanks characters
  conv_rhs => rw [split]
  rw [closings_front blank, closings_back behind]

private theorem closings_dropTrailingBlanks (characters : List Char) :
    closings (dropTrailingBlanks characters) = closings characters := by
  obtain ⟨back, split, blank⟩ := exists_dropTrailingBlanks characters
  conv_rhs => rw [split]
  rw [closings_back blank]

/-- No comment ends across the end of a line. -/
theorem sum_closings_linesOf (characters : List Char) :
    ((linesOf characters).map closings).sum = closings characters := by
  induction characters using lines_induction with
  | last line free =>
    rw [linesOf_last free]
    split
    · rename_i empty
      rw [List.isEmpty_iff.mp empty]
      rfl
    · exact List.sum_singleton
  | line line rest free ih =>
    obtain ⟨back, split, only⟩ := exists_dropCarriageReturn line
    have same : closings (dropCarriageReturn line) = closings line := by
      conv_rhs => rw [split]
      refine (closings_back fun character listed => ?_).symm
      rw [only character listed]
      rfl
    rw [linesOf_append free, List.map_cons, List.sum_cons, ih, same, closings_between rfl]

private theorem closings_eq_zero_iff : closings characters = 0 ↔ ¬ ['*', '/'] <:+: characters := by
  induction characters with
  | nil => simp [closings]
  | cons character rest ih =>
    have begins : ['*', '/'] <+: character :: rest ↔ character = '*' ∧ rest.head? = some '/' := by
      cases rest with
      | nil => simp
      | cons next rest => simp [List.cons_prefix_cons, eq_comm]
    rw [closings, List.infix_cons_iff, begins, not_or, ← ih]
    split <;> simp_all

/-- Between its delimiters a comment does not end. -/
theorem afterComment?_eq_nil_iff :
    afterComment? (characters ++ ['*', '/']) = some [] ↔ closings characters = 0 := by
  induction characters with
  | nil => simp [afterComment?, closings]
  | cons character rest ih =>
    by_cases closes : character = '*' ∧ rest.head? = some '/'
    · obtain ⟨rfl, head⟩ := closes
      obtain ⟨rest, rfl⟩ := List.head?_eq_some_iff.mp head
      simp [afterComment?, closings]
    · have skipped : afterComment? ((character :: rest) ++ ['*', '/']) =
          afterComment? (rest ++ ['*', '/']) := by
        rw [List.cons_append, afterComment?]
        rintro next rfl same
        refine closes ⟨rfl, ?_⟩
        cases rest with
        | nil => cases same
        | cons first rest =>
          cases same
          rfl
      rw [skipped, ih, closings, if_neg closes, Nat.zero_add]

private theorem isComment_iff (inner : String) :
    IsComment ("/*" ++ inner ++ "*/") ↔ closings inner.toList = 0 := by
  have whole : ("/*" ++ inner ++ "*/").toList = '/' :: '*' :: (inner.toList ++ ['*', '/']) := by
    simp only [String.toList_append]
    rfl
  rw [← afterComment?_eq_nil_iff, IsComment, whole]
  constructor
  · rintro ⟨_, same, ends⟩
    cases same
    exact ends
  · exact fun ends => ⟨_, rfl, ends⟩

end Closings

/-!
## The rows of a comment
-/

/-- The rows of a comment that has its delimiters on rows of their own, without the indent. -/
def blockRows (found : List String) : List String :=
  "/**" :: (found.map (" * " ++ trimEnd ·) ++ [" */"])

/-- The rows of a comment of some lines, without the indent. -/
def commentRows : List String → List String
  | [] => []
  | [line] => ["/** " ++ line ++ " */"]
  | found => blockRows found

/-- The text of rows behind an indent. -/
def textOf (indent : String) (rows : List String) : String :=
  String.join (rows.map fun row => indent ++ row ++ "\n")

private theorem textOf_blockRows (indent : String) (found : List String) :
    textOf indent (blockRows found) =
      indent ++ "/**\n" ++
        (textOf indent (found.map (" * " ++ trimEnd ·)) ++ (indent ++ " */\n")) := by
  have opening : "/**\n" = "/**" ++ "\n" := rfl
  have closing : " */\n" = " */" ++ "\n" := rfl
  rw [textOf, blockRows, List.map_cons, List.map_append, List.map_singleton, String.join_cons,
    String.join_append, String.join_cons, String.join_nil, String.append_empty, opening, closing,
    ← textOf]
  simp only [String.append_assoc]

/-- A comment is written in rows. -/
theorem docComment_eq (indent comment : String) :
    docComment indent (some comment) = textOf indent (commentRows (lines (trim comment))) := by
  simp only [docComment, Option.map_some]
  generalize lines (trim comment) = found
  match found with
  | [] => rfl
  | [line] => simp [commentRows, textOf, String.append_assoc]
  | first :: second :: rest =>
    refine Eq.trans ?_ (textOf_blockRows indent (first :: second :: rest)).symm
    simp only [textOf, List.map_map, Function.comp_def, String.append_assoc]

section Rows

variable {found : List String} {indent : String}

/-- A row is the opening, a line or the closing of the comment, or all of it. -/
theorem commentRows_cases {row : String} (listed : row ∈ commentRows found) :
    (∃ line ∈ found, row = "/** " ++ line ++ " */" ∨ row = " * " ++ trimEnd line) ∨
      row = "/**" ∨ row = " */" := by
  unfold commentRows at listed
  split at listed
  · cases listed
  · rename_i line
    exact .inl ⟨line, List.mem_cons_self, .inl (List.mem_singleton.mp listed)⟩
  · rcases List.mem_cons.mp listed with rfl | listed
    · exact .inr (.inl rfl)
    rcases List.mem_append.mp listed with listed | listed
    · obtain ⟨line, among, rfl⟩ := List.mem_map.mp listed
      exact .inl ⟨line, among, .inr rfl⟩
    · exact .inr (.inr (List.mem_singleton.mp listed))

private theorem not_mem_commentRow (free : ∀ line ∈ found, '\n' ∉ line.toList) {row : String}
    (listed : row ∈ commentRows found) : '\n' ∉ row.toList := by
  rcases commentRows_cases listed with ⟨line, among, rfl | rfl⟩ | rfl | rfl
  · simp [free line among]
  · obtain ⟨back, split, -⟩ := exists_dropTrailingBlanks line.toList
    have whole := free line among
    rw [split] at whole
    simpa [trimEnd] using mt (List.mem_append_left back) whole
  · decide
  · decide

/-- No row is empty, and none ends in a carriage return. -/
theorem exists_last_commentRow {row : String} (listed : row ∈ commentRows found) :
    ∃ last, row.toList.getLast? = some last ∧ last ≠ '\r' := by
  rcases commentRows_cases listed with ⟨line, among, rfl | rfl⟩ | rfl | rfl
  · refine ⟨'/', ?_, by decide⟩
    rw [String.toList_append, List.getLast?_append]
    rfl
  · rw [String.toList_append, List.getLast?_append]
    cases visible : (trimEnd line).toList.getLast? with
    | none => exact ⟨' ', rfl, by decide⟩
    | some last =>
      refine ⟨last, rfl, ?_⟩
      rintro rfl
      rw [trimEnd, String.toList_ofList, dropTrailingBlanks, List.getLast?_reverse] at visible
      cases dropBlanks_first line.toList.reverse '\r' visible
  · exact ⟨'*', rfl, by decide⟩
  · exact ⟨'/', rfl, by decide⟩

/-- Behind an indent without a line feed the rows are the lines of the text. -/
theorem lines_textOf (flat : '\n' ∉ indent.toList) (free : ∀ line ∈ found, '\n' ∉ line.toList) :
    lines (textOf indent (commentRows found)) = (commentRows found).map (indent ++ ·) := by
  have shape : (textOf indent (commentRows found)).toList =
      ((commentRows found).map fun row => (indent ++ row).toList).flatMap (· ++ ['\n']) := by
    rw [textOf, String.toList_join, List.flatMap_map, List.flatMap_map]
    refine List.flatMap_congr fun row _ => ?_
    rw [String.toList_append]
    rfl
  have rows : linesOf (textOf indent (commentRows found)).toList =
      (commentRows found).map fun row => (indent ++ row).toList := by
    rw [shape]
    refine linesOf_flatMap (fun row listed => ?_) (fun row listed => ?_)
    · obtain ⟨row, among, rfl⟩ := List.mem_map.mp listed
      rw [String.toList_append]
      exact List.not_mem_append flat (not_mem_commentRow free among)
    · obtain ⟨row, among, rfl⟩ := List.mem_map.mp listed
      obtain ⟨last, ends, other⟩ := exists_last_commentRow among
      rw [String.toList_append, List.getLast?_append, ends]
      exact fun same => other (Option.some.inj same)
  rw [lines, ← linesOf, rows, List.map_map]
  exact List.map_congr_left fun row _ => String.ofList_toList

/-!
### What ends in the rows
-/

private theorem closings_oneRow (line : String) :
    closings ("/** " ++ line ++ " */").toList = closings line.toList + 1 := by
  have shape : ("/** " ++ line ++ " */").toList =
      "/**".toList ++ ' ' :: (line.toList ++ ' ' :: "*/".toList) := by
    simp only [String.toList_append, List.append_assoc]
    rfl
  have opening : closings "/**".toList = 0 := rfl
  have closing : closings "*/".toList = 1 := rfl
  rw [shape, closings_between rfl, closings_between rfl, opening, closing, Nat.zero_add]

private theorem closings_row (line : String) :
    closings (" * " ++ trimEnd line).toList = closings line.toList := by
  have shape : (" * " ++ trimEnd line).toList =
      " *".toList ++ ' ' :: dropTrailingBlanks line.toList := by
    simp only [String.toList_append, trimEnd, String.toList_ofList]
    rfl
  have opening : closings " *".toList = 0 := rfl
  rw [shape, closings_between rfl, closings_dropTrailingBlanks, opening, Nat.zero_add]

private theorem sum_closings_blockRows (found : List String) :
    ((blockRows found).map fun row => closings row.toList).sum =
      (found.map fun line => closings line.toList).sum + 1 := by
  have rows : (found.map (" * " ++ trimEnd ·)).map (fun row => closings row.toList) =
      found.map fun line => closings line.toList := by
    rw [List.map_map]
    refine List.map_congr_left fun line _ => ?_
    rw [Function.comp_apply, closings_row]
  have opening : closings "/**".toList = 0 := rfl
  have closing : closings " */".toList = 1 := rfl
  rw [blockRows, List.map_cons, List.map_append, rows, List.sum_cons, List.sum_append, List.map_singleton,
    List.sum_singleton, opening, closing, Nat.zero_add]

private theorem sum_closings_commentRows (present : found ≠ []) :
    ((commentRows found).map fun row => closings row.toList).sum =
      (found.map fun line => closings line.toList).sum + 1 :=
  match found, present with
  | [line], _ => closings_oneRow line
  | first :: second :: rest, _ => sum_closings_blockRows (first :: second :: rest)

private theorem closings_textOf (blank : ∀ character ∈ indent.toList, isBlank character = true)
    (rows : List String) :
    closings (textOf indent rows).toList = (rows.map fun row => closings row.toList).sum := by
  induction rows with
  | nil => rfl
  | cons row rows ih =>
    have shape : (textOf indent (row :: rows)).toList =
        indent.toList ++ (row.toList ++ '\n' :: (textOf indent rows).toList) := by
      simp only [textOf, List.map_cons, String.join_cons, String.toList_append, List.append_assoc]
      rfl
    rw [shape, closings_front blank, closings_between rfl, ih, List.map_cons, List.sum_cons]

/-!
### What stands in the rows
-/

private theorem trim_occurs (line : String) : Occurs (trim line) line := by
  obtain ⟨front, back, split, -⟩ := exists_trimBlanks line.toList
  refine ⟨String.ofList front, String.ofList back, ?_⟩
  rw [trim, String.append_assoc, ← String.ofList_append, ← String.ofList_append, ← split,
    String.ofList_toList]

private theorem trim_occurs_trimEnd (line : String) : Occurs (trim line) (trimEnd line) := by
  obtain ⟨front, split⟩ := exists_front_trimBlanks line.toList
  refine ⟨String.ofList front, "", ?_⟩
  rw [trimEnd, split, String.ofList_append, trim, String.append_empty]

/-- Texts that stand in rows one by one stand in order in the text of the rows. -/
theorem inOrder_textOf (indent : String) {parts rows : List String}
    (shown : List.Forall₂ Occurs parts rows) (behind : String) : InOrder parts (textOf indent rows ++ behind) := by
  induction shown with
  | nil => exact .nil
  | @cons part row parts rows occurs _ ih =>
    obtain ⟨before, after, rfl⟩ := occurs
    have whole := @InOrder.cons part (indent ++ before) _ _ (ih.append_left (after ++ "\n"))
    simpa only [textOf, List.map_cons, String.join_cons, String.append_assoc] using whole

/-- Each line can be seen in its row. -/
theorem inOrder_commentRows (indent : String) (found : List String) :
    InOrder (found.map trim) (textOf indent (commentRows found)) := by
  match found with
  | [] => exact .nil
  | [line] =>
    have row : Occurs (trim line) ("/** " ++ line ++ " */") :=
      ((trim_occurs line).append_left _).append_right _
    have ordered := inOrder_textOf indent (.cons row .nil) ""
    rwa [String.append_empty] at ordered
  | first :: second :: rest =>
    have rows : List.Forall₂ Occurs ((first :: second :: rest).map trim)
        ((first :: second :: rest).map (" * " ++ trimEnd ·)) := by
      rw [List.forall₂_map_left_iff, List.forall₂_map_right_iff, List.forall₂_same]
      exact fun line _ => (trim_occurs_trimEnd line).append_left _
    have shape := textOf_blockRows indent (first :: second :: rest)
    exact shape ▸ (inOrder_textOf indent rows _).append_left _

/-- The rows make one block between the delimiters of a comment. -/
theorem exists_block (indent : String) (present : found ≠ []) :
    ∃ body, textOf indent (commentRows found) = indent ++ "/**" ++ body ++ "*/\n" := by
  match found, present with
  | [line], _ => exact ⟨" " ++ line ++ " ", String.toList_injective (by simp [commentRows, textOf])⟩
  | first :: second :: rest, _ =>
    refine ⟨"\n" ++ textOf indent ((first :: second :: rest).map (" * " ++ trimEnd ·)) ++ indent ++ " ",
      Eq.trans (textOf_blockRows indent (first :: second :: rest)) ?_⟩
    generalize textOf indent _ = middle
    exact String.toList_injective (by simp)

end Rows

/-!
## The comment as a whole
-/

section Comment

variable {indent comment : String}

private theorem lines_ne_nil (visible : allBlank comment = false) : lines (trim comment) ≠ [] := by
  have some : trimBlanks comment.toList ≠ [] := by
    intro none
    rw [allBlank, List.all_eq_true.mpr (trimBlanks_eq_nil_iff.mp none)] at visible
    cases visible
  have whole : linesOf (trimBlanks comment.toList) ≠ [] := by
    by_cases ends : '\n' ∈ trimBlanks comment.toList
    · obtain ⟨first, rest, split, free⟩ := List.eq_append_cons_of_mem ends
      rw [split, linesOf_append free]
      exact List.cons_ne_nil _ _
    · rw [linesOf_last ends, if_neg (mt List.isEmpty_iff.mp some)]
      exact List.cons_ne_nil _ _
  rw [lines, trim, String.toList_ofList]
  exact mt List.map_eq_nil_iff.mp whole

private theorem closings_docComment (blank : ∀ character ∈ indent.toList, isBlank character = true)
    (visible : allBlank comment = false) :
    closings (docComment indent (some comment)).toList = closings comment.toList + 1 := by
  have lines : ((lines (trim comment)).map fun line => closings line.toList).sum =
      closings comment.toList := by
    rw [lines, trim, String.toList_ofList, List.map_map, ← closings_trimBlanks, ← sum_closings_linesOf]
    refine congrArg List.sum (List.map_congr_left fun line _ => ?_)
    rw [Function.comp_apply, String.toList_ofList]
  rw [docComment_eq, closings_textOf blank, sum_closings_commentRows (lines_ne_nil visible), lines]

/-- The only text without a visible row is that of a comment without a visible character. -/
theorem docComment_eq_empty_iff (blank : ∀ character ∈ indent.toList, isBlank character = true) :
    docComment indent (some comment) = "" ↔ allBlank comment = true := by
  constructor
  · intro empty
    by_contra visible
    have some := closings_docComment blank (Bool.eq_false_iff.mpr visible)
    rw [empty] at some
    cases some
  · intro none
    have trimmed : trim comment = "" := by
      rw [trim, trimBlanks_eq_nil_iff.mpr (List.all_eq_true.mp none)]
    rw [docComment_eq, trimmed]
    rfl

/-- What a comment writes is a comment just if it does not end one itself. -/
theorem isComment_block_iff (blank : ∀ character ∈ indent.toList, isBlank character = true)
    (visible : allBlank comment = false) {body : String}
    (block : docComment indent (some comment) = indent ++ "/**" ++ body ++ "*/\n") :
    IsComment ("/**" ++ body ++ "*/") ↔ ¬ Occurs "*/" comment := by
  have whole := closings_docComment blank visible
  have shape : (indent ++ "/**" ++ body ++ "*/\n").toList =
      indent.toList ++ '/' :: '*' :: (("*" ++ body).toList ++ "*/\n".toList) := by
    simp only [String.toList_append, List.append_assoc]
    rfl
  have closing : closings "*/\n".toList = 1 := rfl
  have opening : closings ('*' :: (("*" ++ body).toList ++ "*/\n".toList)) =
      closings (("*" ++ body).toList ++ "*/\n".toList) := by
    rw [closings, if_neg, Nat.zero_add]
    rintro ⟨-, head⟩
    simp at head
  rw [block, shape, closings_front blank, closings_cons (by decide), opening, closings_append (by decide),
    closing, Nat.add_right_cancel_iff] at whole
  have delimited : "/**" ++ body ++ "*/" = "/*" ++ ("*" ++ body) ++ "*/" :=
    String.toList_injective (by simp)
  rw [delimited, isComment_iff, whole, closings_eq_zero_iff, occurs_iff]
  rfl

private theorem inOrder_docComment (indent comment : String) :
    InOrder ((lines comment).map trim) (docComment indent (some comment)) := by
  have same : ((lines (trim comment)).map trim).filter (· ≠ "") =
      ((lines comment).map trim).filter (· ≠ "") := by
    rw [filter_trim_lines, filter_trim_lines, trim, String.toList_ofList, shownLines_trimBlanks]
  refine .of_filter (same ▸ ?_)
  rw [docComment_eq]
  exact (inOrder_commentRows indent _).filter

/-- What a comment writes behind an indent of blanks. It writes nothing just if nothing of it is visible.
Otherwise it writes a block that begins with the opening of a comment and ends with the closing of one, and
other closings stand in the block only where the comment has them; so the block is one comment just if the
comment has none. It is written in rows that begin with the indent each, which are its lines unless the
indent has a line feed, and what is visible of the lines of the comment stands in it in order. -/
theorem docComment_encloses
    (blank : ∀ character ∈ indent.toList, isBlank character = true) :
    (docComment indent (some comment) = "" ↔ allBlank comment = true) ∧
    (allBlank comment = false →
      closings (docComment indent (some comment)).toList = closings comment.toList + 1 ∧
      ∃ body, docComment indent (some comment) = indent ++ "/**" ++ body ++ "*/\n" ∧
        (IsComment ("/**" ++ body ++ "*/") ↔ ¬ Occurs "*/" comment)) ∧
    (∃ rows, docComment indent (some comment) = textOf indent rows ∧
      (∀ row ∈ rows, '\n' ∉ row.toList) ∧
      ('\n' ∉ indent.toList →
        lines (docComment indent (some comment)) = rows.map (indent ++ ·))) ∧
    InOrder ((lines comment).map trim) (docComment indent (some comment)) := by
  have free : ∀ line ∈ lines (trim comment), '\n' ∉ line.toList := fun _ => not_mem_of_mem_lines
  refine ⟨docComment_eq_empty_iff blank, fun visible => ⟨closings_docComment blank visible, ?_⟩,
    ⟨commentRows (lines (trim comment)), docComment_eq indent comment,
      fun _ => not_mem_commentRow free, fun flat => ?_⟩, inOrder_docComment indent comment⟩
  · obtain ⟨body, block⟩ := exists_block indent (lines_ne_nil visible)
    rw [← docComment_eq] at block
    exact ⟨body, block, isComment_block_iff blank visible block⟩
  · rw [docComment_eq]
    exact lines_textOf flat free

theorem docComment_encloses_sample :
    (∀ character ∈ "  ".toList, isBlank character = true) ∧
    allBlank "\nSize of\r\n   the header. " = false ∧
    docComment "  " (some "\nSize of\r\n   the header. ") =
      "  /**\n   * Size of\n   *    the header.\n   */\n" ∧
    closings (docComment "  " (some "\nSize of\r\n   the header. ")).toList = 1 ∧
    InOrder ["", "Size of", "the header."]
      (docComment "  " (some "\nSize of\r\n   the header. ")) := by
  have blank : ∀ character ∈ "  ".toList, isBlank character = true :=
    List.all_eq_true.mp (by decide)
  have visible : allBlank "\nSize of\r\n   the header. " = false := by decide
  obtain ⟨-, written, -, ordered⟩ :=
    @docComment_encloses "  " "\nSize of\r\n   the header. " blank
  have parts : (lines "\nSize of\r\n   the header. ").map trim = ["", "Size of", "the header."] := by
    decide +kernel
  exact ⟨blank, visible, by decide +kernel, (written visible).1, parts ▸ ordered⟩

/-- A comment that ends a comment itself leaves the rest of its text outside, and no line begins with an
indent that has a line feed. -/
theorem docComment_not_comment :
    closings (docComment "  " (some "ends */ early")).toList = 2 ∧
    (¬ ∃ block, docComment "  " (some "ends */ early") = "  " ++ block ++ "\n" ∧ IsComment block) ∧
    ¬ ∀ line ∈ lines (docComment "\n" (some "short")), "\n".toList <+: line.toList := by
  have written : docComment "  " (some "ends */ early") = "  " ++ "/** ends */ early */" ++ "\n" := by
    decide +kernel
  refine ⟨by decide +kernel, ?_, fun indented => ?_⟩
  · rintro ⟨block, same, inner, opened, ends⟩
    rw [written] at same
    have text : "/** ends */ early */".toList = block.toList := by
      have whole := congrArg String.toList same
      simp only [String.toList_append] at whole
      exact List.append_cancel_left (List.append_cancel_right whole)
    rw [← text] at opened
    obtain rfl : "* ends */ early */".toList = inner := (List.cons.inj (List.cons.inj opened).2).2
    have early : afterComment? "* ends */ early */".toList = some " early */".toList := by decide
    rw [early] at ends
    cases ends
  · have row : "/** short */" ∈ lines (docComment "\n" (some "short")) := by decide +kernel
    exact absurd (indented _ row) (by decide)

end Comment

end RecordSchema.Cpp
