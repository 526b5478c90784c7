import Mathlib.Data.List.TakeWhile
import RecordSchema.Expr.Parser
import RecordSchema.Proofs.Outcome

/-!
# The placeholders of a text

Which operands a text names does not depend on the text around its placeholders. So reading two texts
with a character between them that can be no part of a placeholder gives the operands of the one and
then those of the other, and writing the operands of a text gives the text again.
-/

set_option autoImplicit false

namespace RecordSchema

open Outcome

/-- Whether an operand comes from a placeholder. -/
def Operand.isPlaceholder : Operand → Bool
  | text _ => false
  | _ => true

namespace Expr.Parser

variable {context : Context}

/-- The operand that a placeholder with a member name stands for, if it may stand there. -/
def meaning? (context : Context) (member : String) : Placeholder → Option Operand
  | .self => some (.member member)
  | .type => context.owner.map fun record => .static record member
  | .config => context.config.map fun record => .config record member

/-- The operands that the placeholders of a text stand for. -/
inductive Refers (context : Context) : List Char → List Operand → Prop where
  | nil : Refers context [] []
  | text {character : Char} {rest : List Char} {found : List Operand} :
      (∀ (placeholder : Placeholder) (tail : List Char),
        character :: rest ≠ placeholder.token.toList ++ tail) →
      Refers context rest found → Refers context (character :: rest) found
  | reference {placeholder : Placeholder} {part : Operand} {member rest : List Char}
      {found : List Operand} :
      meaning? context (String.ofList member) placeholder = some part → member ≠ [] →
      (∀ character ∈ member, Text.isWordChar character = true) →
      (∀ character, rest.head? = some character → Text.isWordChar character = false) →
      Refers context rest found →
      Refers context (placeholder.token.toList ++ '.' :: (member ++ rest)) (part :: found)

/-!
## One placeholder
-/

private theorem after?_eq_some_iff {expected input rest : List Char} :
    after? expected input = some rest ↔ input = expected ++ rest := by
  fun_induction after? expected input with
  | case1 input => simp [eq_comm]
  | case2 expected more => simp
  | case3 character more next ih => simp [ih]
  | case4 expected more character next different =>
    simp [different]

theorem token_eq_cons (placeholder : Placeholder) :
    ∃ inner, placeholder.token.toList = '\x7b' :: inner ∧ '\x7b' ∉ inner := by
  cases placeholder <;> exact ⟨_, rfl, by decide⟩

/-- No placeholder begins at a character that is no brace. -/
theorem cons_ne_token {character : Char} (other : character ≠ '\x7b') (rest : List Char)
    (placeholder : Placeholder) (tail : List Char) :
    character :: rest ≠ placeholder.token.toList ++ tail := by
  intro same
  obtain ⟨inner, token, -⟩ := token_eq_cons placeholder
  rw [token] at same
  exact other (List.cons.inj same).1

theorem placeholder?_eq_some_iff {input rest : List Char} {placeholder : Placeholder} :
    placeholder? input = some (placeholder, rest) ↔ input = placeholder.token.toList ++ rest := by
  constructor
  · intro found
    obtain ⟨candidate, _, reads⟩ := List.exists_of_findSome?_eq_some found
    obtain ⟨tail, same, pair⟩ := Option.map_eq_some_iff.mp reads
    cases pair
    exact after?_eq_some_iff.mp same
  · rintro rfl
    cases placeholder <;> rfl

theorem placeholder?_eq_none_iff {input : List Char} :
    placeholder? input = none ↔
      ∀ (placeholder : Placeholder) (tail : List Char), input ≠ placeholder.token.toList ++ tail := by
  rw [Option.eq_none_iff_forall_ne_some, Prod.forall]
  exact forall₂_congr fun _ _ => not_congr placeholder?_eq_some_iff

theorem operand_eq_ok_iff {source member : String} {placeholder : Placeholder} {part : Operand} :
    operand context source placeholder member = .ok part ↔
      meaning? context member placeholder = some part := by
  cases placeholder with
  | self => simp [operand, meaning?]
  | type => cases known : context.owner <;> simp [operand, meaning?, known]
  | config => cases known : context.config <;> simp [operand, meaning?, known]

theorem meaning_isPlaceholder {member : String} {placeholder : Placeholder} {part : Operand}
    (meaning : meaning? context member placeholder = some part) : part.isPlaceholder = true := by
  cases placeholder with
  | self =>
    cases meaning
    rfl
  | type | config =>
    obtain ⟨_, _, rfl⟩ := Option.map_eq_some_iff.mp meaning
    rfl

theorem memberName_eq_ok_iff {source : String} {placeholder : Placeholder}
    {input member rest : List Char} :
    memberName context source placeholder input = .ok (member, rest) ↔
      input = '.' :: (member ++ rest) ∧ member ≠ [] ∧
        (∀ character ∈ member, Text.isWordChar character = true) ∧
        ∀ character, rest.head? = some character → Text.isWordChar character = false := by
  unfold memberName
  split
  · rename_i tail
    have whole : name tail ++ afterName tail = tail := List.takeWhile_append_dropWhile
    constructor
    · intro read
      split at read
      · cases read
      · rename_i some
        cases read
        refine ⟨by rw [whole], some, fun character => List.mem_takeWhile_imp, ?_⟩
        intro character found
        have stopped := List.head?_dropWhile_not Text.isWordChar tail
        rw [afterName] at found
        rw [found] at stopped
        exact stopped
    · rintro ⟨split, some, letters, ends⟩
      obtain rfl : tail = member ++ rest := (List.cons.inj split).2
      have named : name (member ++ rest) = member := by
        rw [name, List.takeWhile_append_of_pos letters]
        cases rest with
        | nil => exact List.append_nil member
        | cons character rest =>
          rw [List.takeWhile_cons_of_neg (by simp [ends character rfl]), List.append_nil]
      have after : afterName (member ++ rest) = rest := by
        rw [named] at whole
        exact List.append_cancel_left whole
      rw [named, after]
      split
      · exact absurd rfl some
      · rfl
  · rename_i noDot
    constructor
    · intro read
      cases read
    · rintro ⟨rfl, _⟩
      exact absurd rfl (noDot _)

/-!
## All placeholders
-/

private theorem filter_pendingText (reversed : List Char) :
    (pendingText reversed).filter Operand.isPlaceholder = [] := by
  unfold pendingText
  split <;> rfl

theorem operands_refers {source : String} {reversed input : List Char} {parts : List Operand}
    (accepted : operands context source reversed input = .ok parts) :
    Refers context input (parts.filter Operand.isPlaceholder) := by
  fun_induction operands context source reversed input generalizing parts with
  | case1 reversed =>
    cases accepted
    rw [filter_pendingText]
    exact .nil
  | case2 reversed rest noPlaceholder ih =>
    exact .text (placeholder?_eq_none_iff.mp noPlaceholder) (ih accepted)
  | case3 => cases accepted
  | case4 reversed rest placeholder tail member more read found ih =>
    obtain ⟨part, one, accepted⟩ := bind_ok accepted
    obtain ⟨others, later, accepted⟩ := bind_ok accepted
    cases accepted
    have meaning := operand_eq_ok_iff.mp one
    obtain ⟨split, some, letters, ends⟩ := memberName_eq_ok_iff.mp read
    rw [placeholder?_eq_some_iff.mp found, split, List.filter_append, filter_pendingText,
      List.nil_append, List.filter_cons_of_pos (meaning_isPlaceholder meaning)]
    exact .reference meaning some letters ends (ih later)
  | case5 reversed character rest noBrace ih =>
    exact .text (cons_ne_token noBrace rest) (ih accepted)

theorem operands_text {character : Char} {rest : List Char}
    (plain : ∀ (placeholder : Placeholder) (tail : List Char),
      character :: rest ≠ placeholder.token.toList ++ tail) (source : String) (reversed : List Char) :
    operands context source reversed (character :: rest) =
      operands context source (character :: reversed) rest := by
  have none := placeholder?_eq_none_iff.mpr plain
  rw [operands]
  split
  · split
    · rfl
    · rename_i found
      rw [none] at found
      cases found
  · rfl

theorem operands_placeholder (placeholder : Placeholder) (after : List Char) (source : String)
    (reversed : List Char) :
    operands context source reversed (placeholder.token.toList ++ after) =
      (memberName context source placeholder after).bind fun read =>
        (operand context source placeholder (String.ofList read.1)).bind fun part =>
          (operands context source [] read.2).map fun others =>
            pendingText reversed ++ part :: others := by
  have found := placeholder?_eq_some_iff.mpr (rfl : placeholder.token.toList ++ after = _)
  obtain ⟨inner, token, -⟩ := token_eq_cons placeholder
  rw [token, List.cons_append] at found ⊢
  rw [operands, if_pos rfl]
  split
  · rename_i missing
    rw [found] at missing
    cases missing
  · rename_i same
    rw [found] at same
    cases same
    split
    · rename_i refused
      rw [refused]
      rfl
    · rename_i read
      rw [read]
      rfl

theorem operands_reference {placeholder : Placeholder} {part : Operand} {member rest : List Char}
    (meaning : meaning? context (String.ofList member) placeholder = some part)
    (nonempty : member ≠ [])
    (letters : ∀ character ∈ member, Text.isWordChar character = true)
    (ends : ∀ character, rest.head? = some character → Text.isWordChar character = false)
    (source : String) (reversed : List Char) :
    operands context source reversed (placeholder.token.toList ++ '.' :: (member ++ rest)) =
      (operands context source [] rest).map fun others => pendingText reversed ++ part :: others := by
  have read : memberName context source placeholder ('.' :: (member ++ rest)) = .ok (member, rest) :=
    memberName_eq_ok_iff.mpr ⟨rfl, nonempty, letters, ends⟩
  have one : operand context source placeholder (String.ofList member) = .ok part :=
    operand_eq_ok_iff.mpr meaning
  rw [operands_placeholder, read, Except.bind, one, Except.bind]

/-- What a text refers to is read from it whatever is pending and whatever text messages show. -/
theorem Refers.operands {input : List Char} {found : List Operand} (refers : Refers context input found)
    (source : String) (reversed : List Char) :
    ∃ parts, operands context source reversed input = .ok parts ∧
      parts.filter Operand.isPlaceholder = found := by
  induction refers generalizing reversed with
  | nil => exact ⟨pendingText reversed, by rw [Parser.operands], filter_pendingText reversed⟩
  | @text character rest found plain _ ih =>
    rw [operands_text plain]
    exact ih (character :: reversed)
  | @reference placeholder part member rest found meaning nonempty letters ends _ ih =>
    obtain ⟨others, later, same⟩ := ih []
    rw [operands_reference meaning nonempty letters ends, later]
    refine ⟨_, rfl, ?_⟩
    rw [List.filter_append, filter_pendingText, List.nil_append,
      List.filter_cons_of_pos (meaning_isPlaceholder meaning), same]

/-!
## Two texts
-/

/-- A character that is no part of a placeholder or of the name behind it. -/
structure Separates (separator : Char) : Prop where
  token : ∀ placeholder : Placeholder, separator ∉ placeholder.token.toList
  name : Text.isWordChar separator = false

namespace Refers

variable {input left right : List Char} {found first second : List Operand} {separator : Char}

/-- No placeholder reaches across a separator. -/
theorem token_of_append (separates : Separates separator) {placeholder : Placeholder}
    {tail : List Char} (same : left ++ separator :: right = placeholder.token.toList ++ tail) :
    ∃ more, left = placeholder.token.toList ++ more := by
  rcases List.append_eq_append_iff.mp same with ⟨more, token, _⟩ | ⟨more, whole, _⟩
  · cases more with
    | nil => exact ⟨[], by simpa using token.symm⟩
    | cons character more =>
      rename_i rest
      obtain ⟨rfl, _⟩ := List.cons.inj rest
      exact absurd (by simp [token]) (separates.token placeholder)
  · exact ⟨more, whole⟩

theorem append (one : Refers context left first) (other : Refers context right second)
    (separates : Separates separator) :
    Refers context (left ++ separator :: right) (first ++ second) := by
  induction one with
  | nil =>
    refine .text (fun placeholder tail same => ?_) other
    obtain ⟨more, empty⟩ : ∃ more, [] = placeholder.token.toList ++ more :=
      token_of_append separates same
    cases placeholder <;> cases empty
  | @text character rest _ plain _ ih =>
    refine .text (fun placeholder tail same => ?_) ih
    obtain ⟨more, whole⟩ : ∃ more, character :: rest = placeholder.token.toList ++ more :=
      token_of_append separates same
    exact plain placeholder more whole
  | @reference placeholder part member rest found meaning nonempty letters ends _ ih =>
    rw [List.append_assoc, List.cons_append, List.append_assoc, List.cons_append]
    refine .reference meaning nonempty letters (fun character same => ?_) ih
    cases rest with
    | nil =>
      cases same
      exact separates.name
    | cons => exact ends character same

/-- A text without braces refers to nothing. -/
theorem of_plain (plain : ∀ character ∈ input, character ≠ '\x7b') : Refers context input [] := by
  induction input with
  | nil => exact .nil
  | cons character rest ih =>
    obtain ⟨here, later⟩ := List.forall_mem_cons.mp plain
    exact .text (cons_ne_token here rest) (ih later)

end Refers

/-!
## Texts of operands
-/

/-- The text of operands one after the other. -/
def written (parts : List Operand) : List Char :=
  parts.flatMap fun part => (part.render .source).toList

private theorem written_pendingText (reversed : List Char) :
    written (pendingText reversed) = reversed.reverse := by
  unfold pendingText
  split
  · rename_i empty
    rw [List.isEmpty_iff.mp empty]
    rfl
  · simp [written, Operand.render]

private theorem meaning_source {member : String} {placeholder : Placeholder} {part : Operand}
    (meaning : meaning? context member placeholder = some part) :
    part.render .source = placeholder.token ++ "." ++ member := by
  cases placeholder with
  | self =>
    cases meaning
    rfl
  | type | config =>
    obtain ⟨_, _, rfl⟩ := Option.map_eq_some_iff.mp meaning
    rfl

/-- The operands of a text are written as that text. -/
theorem operands_written {source : String} {reversed input : List Char} {parts : List Operand}
    (accepted : operands context source reversed input = .ok parts) :
    written parts = reversed.reverse ++ input := by
  fun_induction operands context source reversed input generalizing parts with
  | case1 reversed =>
    cases accepted
    rw [written_pendingText, List.append_nil]
  | case2 reversed rest noPlaceholder ih => simpa using ih accepted
  | case3 => cases accepted
  | case4 reversed rest placeholder tail member more read found ih =>
    obtain ⟨part, one, accepted⟩ := bind_ok accepted
    obtain ⟨others, later, accepted⟩ := bind_ok accepted
    cases accepted
    have text := meaning_source (operand_eq_ok_iff.mp one)
    have rest := ih later
    rw [written, List.flatMap_append, List.flatMap_cons]
    change written _ ++ (_ ++ written others) = _
    rw [written_pendingText, rest, text, placeholder?_eq_some_iff.mp found,
      (memberName_eq_ok_iff.mp read).1]
    simp
  | case5 reversed character rest noBrace ih => simpa using ih accepted

private theorem renderParts_cons (part : Operand) (rest : List Operand) :
    renderParts .source none (part :: rest) =
      part.render .source ++ renderParts .source none rest := by
  cases part with
  | member name =>
    cases rest with
    | nil => rfl
    | cons next rest =>
      cases next with
      | text source =>
        rw [renderParts]
        split <;> rfl
      | member _ | static _ _ | config _ _ => rfl
  | text _ | static _ _ | config _ _ => rfl

theorem renderParts_source (parts : List Operand) :
    (renderParts .source none parts).toList = written parts := by
  induction parts with
  | nil => rfl
  | cons part rest ih =>
    rw [renderParts_cons, String.toList_append, ih]
    rfl

theorem source_ofOperands (parts : List Operand) :
    (ofOperands parts).source.toList = written parts := by
  unfold ofOperands
  split
  · simp [Expr.source, Expr.render, written]
  · exact renderParts_source _

end Expr.Parser

end RecordSchema
