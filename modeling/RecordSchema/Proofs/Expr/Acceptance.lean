import Mathlib.Data.Nat.Find
import Mathlib.Logic.Relation
import RecordSchema.Proofs.Expr.RoundTrip

/-!
# What is accepted as an expression

A text is refused for the first placeholder in it that is misused: one without a member name behind it,
or one that means nothing where the text stands. The scan goes on from brace to brace. No round of it goes
past a placeholder that is misused, so the first one in what is left is the first one of all.
-/

set_option autoImplicit false

namespace RecordSchema.Expr

open Outcome

namespace Parser

variable {context : Context} {source : String}

/-!
## Misused placeholders
-/

/-- What is wrong with a placeholder in front of some characters. -/
inductive Misused (context : Context) (source : String) :
    Placeholder → List Char → SchemaError → Prop where
  | withoutDot {placeholder : Placeholder} {after : List Char} : after.head? ≠ some '.' →
      Misused context source placeholder after
        (.invalidExpression context.path (.withoutDot placeholder.token source))
  | withoutName {placeholder : Placeholder} {after : List Char} :
      (∀ character, after.head? = some character → Text.isWordChar character = false) →
      Misused context source placeholder ('.' :: after)
        (.invalidExpression context.path (.withoutName placeholder.token source))
  | outsideType {first : Char} {after : List Char} : Text.isWordChar first = true →
      context.owner = none →
      Misused context source .type ('.' :: first :: after)
        (.invalidExpression context.path (.outsideType source))
  | withoutConfig {first : Char} {after : List Char} : Text.isWordChar first = true →
      context.config = none →
      Misused context source .config ('.' :: first :: after) (.missingConfig context.path source)

theorem Misused.unique {placeholder : Placeholder} {after : List Char} {error other : SchemaError}
    (misused : Misused context source placeholder after error)
    (again : Misused context source placeholder after other) : error = other := by
  cases misused with
  | withoutDot noDot =>
    cases again with
    | withoutDot => rfl
    | withoutName | outsideType | withoutConfig => exact absurd rfl noDot
  | withoutName noName =>
    cases again with
    | withoutDot noDot => exact absurd rfl noDot
    | withoutName => rfl
    | outsideType letter | withoutConfig letter =>
      rw [noName _ rfl] at letter
      cases letter
  | outsideType letter =>
    cases again with
    | withoutDot noDot => exact absurd rfl noDot
    | withoutName noName =>
      rw [noName _ rfl] at letter
      cases letter
    | outsideType => rfl
  | withoutConfig letter =>
    cases again with
    | withoutDot noDot => exact absurd rfl noDot
    | withoutName noName =>
      rw [noName _ rfl] at letter
      cases letter
    | withoutConfig => rfl

/-- A placeholder stands at a position of a text and is misused there. -/
def MisusedAt (context : Context) (source : String) (text : List Char) (position : Nat)
    (error : SchemaError) : Prop :=
  ∃ (placeholder : Placeholder) (after : List Char),
    text.drop position = placeholder.token.toList ++ after ∧
      Misused context source placeholder after error

/-- The first placeholder of a text that is misused. -/
def FirstMisuse (context : Context) (source : String) (text : List Char) (error : SchemaError) :
    Prop :=
  ∃ position, MisusedAt context source text position error ∧
    ∀ earlier < position, ∀ other, ¬ MisusedAt context source text earlier other

theorem MisusedAt.unique {text : List Char} {position : Nat} {error other : SchemaError}
    (misused : MisusedAt context source text position error)
    (again : MisusedAt context source text position other) : error = other := by
  obtain ⟨placeholder, after, stands, misused⟩ := misused
  obtain ⟨_, _, standsAgain, again⟩ := again
  have found := placeholder?_eq_some_iff.mpr stands
  rw [placeholder?_eq_some_iff.mpr standsAgain] at found
  cases found
  exact misused.unique again

theorem FirstMisuse.unique {text : List Char} {error other : SchemaError}
    (misuse : FirstMisuse context source text error)
    (again : FirstMisuse context source text other) : error = other := by
  obtain ⟨position, misused, first⟩ := misuse
  obtain ⟨same, misusedAgain, firstAgain⟩ := again
  rcases Nat.lt_trichotomy position same with before | rfl | behind
  · exact absurd misused (firstAgain position before error)
  · exact misused.unique misusedAgain
  · exact absurd misusedAgain (first same behind other)

/-- Where something is misused, there is a first misuse. -/
theorem exists_firstMisuse_iff {text : List Char} :
    (∃ error, FirstMisuse context source text error) ↔
      ∃ position error, MisusedAt context source text position error := by
  constructor
  · rintro ⟨error, position, misused, -⟩
    exact ⟨position, error, misused⟩
  · intro misused
    classical
    obtain ⟨error, found⟩ := Nat.find_spec misused
    exact ⟨error, Nat.find misused, found,
      fun earlier before other again => Nat.find_min misused before ⟨other, again⟩⟩

theorem MisusedAt.brace {text : List Char} {error : SchemaError}
    (misused : MisusedAt context source text 0 error) : text.head? = some '\x7b' := by
  obtain ⟨placeholder, after, stands, -⟩ := misused
  obtain ⟨inner, token, -⟩ := token_eq_cons placeholder
  rw [List.drop_zero, token] at stands
  rw [stands]
  rfl

/-- A character at which no placeholder is misused changes nothing. -/
theorem firstMisuse_cons {character : Char} {rest : List Char} {error : SchemaError}
    (fine : ∀ other, ¬ MisusedAt context source (character :: rest) 0 other) :
    FirstMisuse context source (character :: rest) error ↔ FirstMisuse context source rest error := by
  constructor
  · rintro ⟨position, misused, first⟩
    cases position with
    | zero => exact absurd misused (fine error)
    | succ position =>
      exact ⟨position, misused, fun earlier before => first (earlier + 1) (Nat.succ_lt_succ before)⟩
  · rintro ⟨position, misused, first⟩
    refine ⟨position + 1, misused, fun earlier before => ?_⟩
    cases earlier with
    | zero => exact fine
    | succ earlier => exact first earlier (Nat.lt_of_succ_lt_succ before)

private theorem firstMisuse_append {plain rest : List Char} {error : SchemaError} (free : '\x7b' ∉ plain) :
    FirstMisuse context source (plain ++ rest) error ↔ FirstMisuse context source rest error := by
  induction plain with
  | nil => rfl
  | cons character plain ih =>
    refine (firstMisuse_cons fun other misused => ?_).trans (ih (List.not_mem_of_not_mem_cons free))
    exact List.ne_of_not_mem_cons free (Option.some.inj misused.brace).symm

/-- Up to the end of what a brace begins nothing is misused, if that is not. -/
theorem firstMisuse_brace {front inner rest : List Char} {error : SchemaError}
    (free : '\x7b' ∉ front) (freeInner : '\x7b' ∉ inner)
    (fine : ∀ other, ¬ MisusedAt context source ('\x7b' :: (inner ++ rest)) 0 other) :
    FirstMisuse context source (front ++ '\x7b' :: (inner ++ rest)) error ↔
      FirstMisuse context source rest error :=
  (firstMisuse_append free).trans ((firstMisuse_cons fine).trans (firstMisuse_append freeInner))

private theorem not_firstMisuse_of_plain {text : List Char} {error : SchemaError} (free : '\x7b' ∉ text) :
    ¬ FirstMisuse context source text error := by
  intro misuse
  rw [← List.append_nil text, firstMisuse_append free] at misuse
  obtain ⟨position, ⟨placeholder, after, stands, -⟩, -⟩ := misuse
  obtain ⟨inner, token, -⟩ := token_eq_cons placeholder
  rw [List.drop_nil, token] at stands
  cases stands

/-!
## One placeholder
-/

/-- Whether a dot and a name come after a placeholder. -/
def Named (after : List Char) : Prop :=
  ∃ first rest, after = '.' :: first :: rest ∧ Text.isWordChar first = true

/-- What comes after a placeholder: no dot, a dot and no name, or a dot and a name. -/
theorem after_cases (after : List Char) :
    after.head? ≠ some '.' ∨
      (∃ rest, after = '.' :: rest ∧
        ∀ character, rest.head? = some character → Text.isWordChar character = false) ∨
      Named after := by
  by_cases dot : after.head? = some '.'
  · obtain ⟨rest, rfl⟩ := List.head?_eq_some_iff.mp dot
    refine .inr ?_
    cases rest with
    | nil => exact .inl ⟨[], rfl, nofun⟩
    | cons first rest =>
      cases letter : Text.isWordChar first with
      | true => exact .inr ⟨first, rest, rfl, letter⟩
      | false =>
        refine .inl ⟨_, rfl, fun character found => ?_⟩
        cases found
        exact letter
  · exact .inl dot

private theorem memberName_of_noDot {after : List Char} (noDot : after.head? ≠ some '.')
    (placeholder : Placeholder) : memberName context source placeholder after =
      .error (.invalidExpression context.path (.withoutDot placeholder.token source)) := by
  unfold memberName
  split
  · exact absurd rfl noDot
  · rfl

private theorem memberName_of_noName {rest : List Char}
    (noName : ∀ character, rest.head? = some character → Text.isWordChar character = false)
    (placeholder : Placeholder) : memberName context source placeholder ('.' :: rest) =
      .error (.invalidExpression context.path (.withoutName placeholder.token source)) := by
  have none : name rest = [] := by
    cases rest with
    | nil => rfl
    | cons first rest => exact List.takeWhile_cons_of_neg (by simp [noName first rfl])
  rw [memberName, none]

private theorem memberName_of_letter {first : Char} (letter : Text.isWordChar first = true)
    (rest : List Char) (placeholder : Placeholder) :
    memberName context source placeholder ('.' :: first :: rest) =
      .ok (first :: name rest, afterName rest) := by
  simp [memberName, name, afterName, letter]

private theorem operand_eq_error_iff {placeholder : Placeholder} {member : String} {error : SchemaError} :
    operand context source placeholder member = .error error ↔
      placeholder = .type ∧ context.owner = none ∧
          .invalidExpression context.path (.outsideType source) = error ∨
        placeholder = .config ∧ context.config = none ∧
          .missingConfig context.path source = error := by
  cases placeholder with
  | self => simp [operand]
  | type => cases known : context.owner <;> simp [operand, known]
  | config => cases known : context.config <;> simp [operand, known]

/-- A placeholder is misused just if no operand can be made of it. -/
theorem misused_iff {placeholder : Placeholder} {after : List Char} {error : SchemaError} :
    Misused context source placeholder after error ↔
      ((memberName context source placeholder after).bind fun read =>
        operand context source placeholder (String.ofList read.1)) = .error error := by
  rcases after_cases after with noDot | ⟨rest, rfl, noName⟩ | ⟨first, rest, rfl, letter⟩
  · rw [memberName_of_noDot noDot]
    exact ⟨fun misused => congrArg _ ((Misused.withoutDot noDot).unique misused),
      fun same => by cases same; exact .withoutDot noDot⟩
  · rw [memberName_of_noName noName]
    exact ⟨fun misused => congrArg _ ((Misused.withoutName noName).unique misused),
      fun same => by cases same; exact .withoutName noName⟩
  · rw [memberName_of_letter letter, Except.bind, operand_eq_error_iff]
    constructor
    · rintro (noDot | noName | ⟨-, none⟩ | ⟨-, none⟩)
      · exact absurd rfl noDot
      · rw [noName first rfl] at letter
        cases letter
      · exact .inl ⟨rfl, none, rfl⟩
      · exact .inr ⟨rfl, none, rfl⟩
    · rintro (⟨rfl, none, rfl⟩ | ⟨rfl, none, rfl⟩)
      · exact .outsideType letter none
      · exact .withoutConfig letter none

/-- A placeholder is misused without a name behind it, and where it has no meaning. -/
theorem exists_misused_iff {placeholder : Placeholder} {after : List Char} :
    (∃ error, Misused context source placeholder after error) ↔
      ¬ Named after ∨ placeholder = .type ∧ context.owner = none ∨
        placeholder = .config ∧ context.config = none := by
  constructor
  · rintro ⟨error, noDot | noName | ⟨-, none⟩ | ⟨-, none⟩⟩
    · refine .inl ?_
      rintro ⟨_, _, rfl, -⟩
      exact noDot rfl
    · refine .inl ?_
      rintro ⟨_, _, same, letter⟩
      cases same
      rw [noName _ rfl] at letter
      cases letter
    · exact .inr (.inl ⟨rfl, none⟩)
    · exact .inr (.inr ⟨rfl, none⟩)
  · intro wrong
    rcases after_cases after with noDot | ⟨rest, rfl, noName⟩ | ⟨first, rest, rfl, letter⟩
    · exact ⟨_, .withoutDot noDot⟩
    · exact ⟨_, .withoutName noName⟩
    · rcases wrong with noName | ⟨rfl, none⟩ | ⟨rfl, none⟩
      · exact absurd ⟨first, rest, rfl, letter⟩ noName
      · exact ⟨_, .outsideType letter none⟩
      · exact ⟨_, .withoutConfig letter none⟩

private theorem operands_misused {placeholder : Placeholder} {after : List Char} {error : SchemaError}
    (misused : Misused context source placeholder after error) (reversed : List Char) :
    operands context source reversed (placeholder.token.toList ++ after) = .error error := by
  have refused := misused_iff.mp misused
  rw [operands_placeholder]
  cases read : memberName context source placeholder after with
  | error fault =>
    rw [read] at refused
    cases refused
    rfl
  | ok found =>
    rw [read, Except.bind] at refused
    rw [Except.bind, refused]
    rfl

/-!
## The rounds of the scan
-/

/-- What a scan has between two rounds: the operands that it has found, the characters that are pending,
the last one first, and what is left of the text. -/
structure Scan where
  found : List Operand
  reversed : List Char
  rest : List Char

/-- A round goes on to the next brace, and past it, or past the reference that begins there. -/
inductive Round (context : Context) : Scan → Scan → Prop where
  | brace {found : List Operand} {reversed front rest : List Char} : '\x7b' ∉ front →
      (∀ (placeholder : Placeholder) (tail : List Char),
        '\x7b' :: rest ≠ placeholder.token.toList ++ tail) →
      Round context ⟨found, reversed, front ++ '\x7b' :: rest⟩
        ⟨found, '\x7b' :: (front.reverse ++ reversed), rest⟩
  | reference {found : List Operand} {reversed front member rest : List Char}
      {placeholder : Placeholder} {part : Operand} : '\x7b' ∉ front →
      meaning? context (String.ofList member) placeholder = some part → member ≠ [] →
      (∀ character ∈ member, Text.isWordChar character = true) →
      (∀ character, rest.head? = some character → Text.isWordChar character = false) →
      Round context
        ⟨found, reversed, front ++ (placeholder.token.toList ++ '.' :: (member ++ rest))⟩
        ⟨found ++ (pendingText (front.reverse ++ reversed) ++ [part]), [], rest⟩

/-- Where there is no further round: no brace is left, or the next one begins a placeholder that is
misused. -/
inductive Stops (context : Context) (source : String) :
    Scan → Except SchemaError (List Operand) → Prop where
  | plain {found : List Operand} {reversed rest : List Char} : '\x7b' ∉ rest →
      Stops context source ⟨found, reversed, rest⟩
        (.ok (found ++ pendingText (rest.reverse ++ reversed)))
  | misused {found : List Operand} {reversed front after : List Char} {placeholder : Placeholder}
      {error : SchemaError} : '\x7b' ∉ front → Misused context source placeholder after error →
      Stops context source ⟨found, reversed, front ++ (placeholder.token.toList ++ after)⟩
        (.error error)

/-- What comes of a scan in the end. -/
def Scan.outcome (context : Context) (source : String) (scan : Scan) :
    Except SchemaError (List Operand) :=
  (operands context source scan.reversed scan.rest).map (scan.found ++ ·)

section Scans

variable {scan next last : Scan} {result : Except SchemaError (List Operand)} {error : SchemaError}

private theorem operands_append {front : List Char} (free : '\x7b' ∉ front) (reversed rest : List Char) :
    operands context source reversed (front ++ rest) =
      operands context source (front.reverse ++ reversed) rest := by
  induction front generalizing reversed with
  | nil => rfl
  | cons character front ih =>
    have noBrace : character ≠ '\x7b' := (List.ne_of_not_mem_cons free).symm
    rw [List.cons_append, operands_text (cons_ne_token noBrace _), ih (List.not_mem_of_not_mem_cons free),
      List.reverse_cons, List.append_assoc, List.singleton_append]

/-- A round keeps what comes of the scan. -/
theorem Round.outcome_eq (round : Round context scan next) (source : String) :
    scan.outcome context source = next.outcome context source := by
  cases round with
  | brace free plain => simp only [Scan.outcome, operands_append free, operands_text plain]
  | @reference _ _ _ _ rest _ _ free meaning some letters ends =>
    simp only [Scan.outcome, operands_append free, operands_reference meaning some letters ends]
    cases operands context source [] rest with
    | error fault => rfl
    | ok others => simp [Except.map]

private theorem Stops.outcome_eq (stops : Stops context source scan result) :
    scan.outcome context source = result := by
  cases stops with
  | plain free =>
    rename_i found reversed rest
    have whole : operands context source reversed (rest ++ []) = _ := operands_append free reversed []
    rw [List.append_nil, operands] at whole
    simp only [Scan.outcome, whole]
    rfl
  | misused free misused =>
    simp only [Scan.outcome, operands_append free, operands_misused misused]
    rfl

/-- A round leaves fewer braces. -/
theorem Round.count_lt (round : Round context scan next) :
    next.rest.count '\x7b' < scan.rest.count '\x7b' := by
  cases round with
  | brace =>
    simp only [List.count_append, List.count_cons_self]
    omega
  | @reference _ _ _ _ _ placeholder =>
    obtain ⟨inner, token, -⟩ := token_eq_cons placeholder
    simp only [token, List.cons_append, List.count_append, List.count_cons_self, List.count_cons]
    omega

/-- There is no end to rounds only where there are infinitely many braces. -/
theorem round_wellFounded (context : Context) :
    WellFounded fun later earlier => Round context earlier later :=
  Subrelation.wf Round.count_lt (measure fun scan : Scan => scan.rest.count '\x7b').wf

private theorem Round.firstMisuse_iff (round : Round context scan next) :
    FirstMisuse context source scan.rest error ↔ FirstMisuse context source next.rest error := by
  cases round with
  | brace free plain =>
    refine firstMisuse_brace free List.not_mem_nil fun other misused => ?_
    obtain ⟨placeholder, after, stands, -⟩ := misused
    exact plain placeholder after stands
  | @reference _ _ front member rest placeholder part free meaning some letters ends =>
    obtain ⟨inner, token, freeInner⟩ := token_eq_cons placeholder
    have shape : placeholder.token.toList ++ '.' :: (member ++ rest) =
        '\x7b' :: (inner ++ '.' :: member ++ rest) := by rw [token]; simp
    have freeMember : '\x7b' ∉ inner ++ '.' :: member := by
      intro inside
      rcases List.mem_append.mp inside with early | late
      · exact freeInner early
      rcases List.mem_cons.mp late with dot | named
      · cases dot
      · exact absurd (letters _ named) (by decide)
    simp only [shape]
    refine firstMisuse_brace free freeMember fun other misused => ?_
    obtain ⟨found, after, stands, misused⟩ := misused
    have same := placeholder?_eq_some_iff.mpr stands
    rw [List.drop_zero, ← shape, placeholder?_eq_some_iff.mpr rfl] at same
    cases same
    have refused := misused_iff.mp misused
    have read : memberName context source placeholder ('.' :: (member ++ rest)) =
        .ok (member, rest) := memberName_eq_ok_iff.mpr ⟨rfl, some, letters, ends⟩
    rw [read, Except.bind, operand_eq_ok_iff.mpr meaning] at refused
    cases refused

private theorem Stops.eq_error_iff (stops : Stops context source scan result) :
    result = .error error ↔ FirstMisuse context source scan.rest error := by
  cases stops with
  | plain free => exact iff_of_false nofun (not_firstMisuse_of_plain free)
  | @misused _ _ front after placeholder fault free misused =>
    have first : FirstMisuse context source (front ++ (placeholder.token.toList ++ after)) fault :=
      (firstMisuse_append free).mpr ⟨0, ⟨placeholder, after, rfl, misused⟩, nofun⟩
    constructor
    · intro same
      cases same
      exact first
    · intro again
      rw [first.unique again]

/-- A scan that does not stop has a round to go. -/
theorem exists_round_or_stops (context : Context) (source : String) (scan : Scan) :
    (∃ next, Round context scan next) ∨ ∃ result, Stops context source scan result := by
  obtain ⟨found, reversed, rest⟩ := scan
  by_cases left : '\x7b' ∈ rest
  · obtain ⟨front, more, rfl, free⟩ := List.eq_append_cons_of_mem left
    cases begins : placeholder? ('\x7b' :: more) with
    | none => exact .inl ⟨_, .brace free (placeholder?_eq_none_iff.mp begins)⟩
    | some pair =>
      obtain ⟨placeholder, after⟩ := pair
      rw [placeholder?_eq_some_iff.mp begins]
      cases read : memberName context source placeholder after with
      | error fault => exact .inr ⟨_, .misused free (misused_iff.mpr (by rw [read]; rfl))⟩
      | ok pair =>
        obtain ⟨member, more⟩ := pair
        cases one : operand context source placeholder (String.ofList member) with
        | error fault => exact .inr ⟨_, .misused free (misused_iff.mpr (by rw [read]; exact one))⟩
        | ok part =>
          obtain ⟨rfl, some, letters, ends⟩ := memberName_eq_ok_iff.mp read
          exact .inl ⟨_, .reference free (operand_eq_ok_iff.mp one) some letters ends⟩
  · exact .inr ⟨_, .plain left⟩

/-- From every scan rounds lead to one that stops. -/
theorem exists_stop (context : Context) (source : String) (scan : Scan) :
    ∃ last result, Relation.ReflTransGen (Round context) scan last ∧
      Stops context source last result := by
  induction scan using (round_wellFounded context).induction with
  | h scan ih =>
    rcases exists_round_or_stops context source scan with ⟨next, round⟩ | ⟨result, stops⟩
    · obtain ⟨last, result, rounds, stops⟩ := ih next round
      exact ⟨last, result, .head round rounds, stops⟩
    · exact ⟨scan, result, .refl, stops⟩

private theorem rounds_outcome_eq (rounds : Relation.ReflTransGen (Round context) scan last)
    (source : String) : scan.outcome context source = last.outcome context source := by
  induction rounds with
  | refl => rfl
  | tail _ round ih => exact ih.trans (round.outcome_eq source)

private theorem rounds_firstMisuse_iff (rounds : Relation.ReflTransGen (Round context) scan last) :
    FirstMisuse context source scan.rest error ↔ FirstMisuse context source last.rest error := by
  induction rounds with
  | refl => rfl
  | tail _ round ih => exact ih.trans round.firstMisuse_iff

/-- A text is refused for its first misuse, and for nothing else. -/
theorem operands_eq_error_iff {reversed input : List Char} :
    operands context source reversed input = .error error ↔
      FirstMisuse context source input error := by
  obtain ⟨last, result, rounds, stops⟩ := exists_stop context source ⟨[], reversed, input⟩
  rw [← stops.outcome_eq, ← rounds_outcome_eq rounds] at stops
  have misuse : FirstMisuse context source input error ↔ _ := rounds_firstMisuse_iff rounds
  rw [misuse, ← stops.eq_error_iff, Scan.outcome]
  cases operands context source reversed input with
  | error fault => exact .rfl
  | ok parts => exact iff_of_false nofun nofun

end Scans

/-!
## The operands that are found
-/

/-- Operands with no empty text among them and no two texts side by side. -/
structure Alternating (parts : List Operand) : Prop where
  nonempty : .text "" ∉ parts
  apart : parts.IsChain fun one other => one.isPlaceholder ∨ other.isPlaceholder

theorem Alternating.pendingText (reversed : List Char) : Alternating (pendingText reversed) := by
  unfold Parser.pendingText
  split
  · exact ⟨List.not_mem_nil, .nil⟩
  · rename_i some
    refine ⟨fun listed => some ?_, .singleton _⟩
    have empty := congrArg String.toList (Operand.text.inj (List.mem_singleton.mp listed))
    simpa using empty.symm

/-- A placeholder may stand between what is pending and any operands. -/
theorem Alternating.reference {part : Operand} {others : List Operand}
    (placeholder : part.isPlaceholder = true) (alternating : Alternating others)
    (reversed : List Char) : Alternating (Parser.pendingText reversed ++ part :: others) where
  nonempty listed := by
    rcases List.mem_append.mp listed with pending | listed
    · exact (Alternating.pendingText reversed).nonempty pending
    rcases List.mem_cons.mp listed with rfl | later
    · cases placeholder
    · exact alternating.nonempty later
  apart := by
    have behind : (part :: others).IsChain fun one other => one.isPlaceholder ∨ other.isPlaceholder := by
      cases others with
      | nil => exact .singleton part
      | cons next rest => exact .cons_cons (.inl placeholder) alternating.apart
    unfold Parser.pendingText
    split
    · exact behind
    · exact List.isChain_cons_cons.mpr ⟨.inr placeholder, behind⟩

theorem operands_alternating {reversed input : List Char} {parts : List Operand}
    (accepted : operands context source reversed input = .ok parts) : Alternating parts := by
  fun_induction operands context source reversed input generalizing parts with
  | case1 reversed =>
    cases accepted
    exact .pendingText reversed
  | case2 _ _ _ ih | case5 _ _ _ _ ih => exact ih accepted
  | case3 => cases accepted
  | case4 reversed _ _ _ _ _ _ _ ih =>
    obtain ⟨part, one, accepted⟩ := bind_ok accepted
    obtain ⟨others, later, accepted⟩ := bind_ok accepted
    cases accepted
    exact (ih later).reference (meaning_isPlaceholder (operand_eq_ok_iff.mp one)) reversed

end Parser

/-!
## Texts of expressions
-/

/-- One operand that is not an empty text, or several without an empty text and without two texts side
by side. -/
inductive Canonical : Expr → Prop where
  | operand {part : Operand} : part ≠ .text "" → Canonical (.operand part)
  | concat {parts : List Operand} : 2 ≤ parts.length → Parser.Alternating parts →
      Canonical (.concat parts)

theorem Canonical.ofOperands {parts : List Operand} (some : parts ≠ [])
    (alternating : Parser.Alternating parts) : Canonical (Parser.ofOperands parts) := by
  unfold Parser.ofOperands
  split
  · rename_i part
    exact .operand fun empty => alternating.nonempty (empty ▸ List.mem_singleton_self _)
  · rename_i several
    refine .concat ?_ alternating
    match parts, some, several with
    | [part], _, several => exact absurd rfl (several part)
    | _ :: _ :: _, _, _ => exact Nat.le_add_left ..

/-- Why a text is no expression. -/
inductive Refused (context : Context) (text : String) : SchemaError → Prop where
  | empty : text = "" → Refused context text (.invalidExpression context.path .empty)
  | misused {error : SchemaError} : text ≠ "" →
      (∀ value, ¬ (Numeral.Denotes text.toList value ∧ Word.Fits value)) →
      Parser.FirstMisuse context text text.toList error → Refused context text error

section Parse

variable {context : Context} {raw : String}

private theorem parse_of_numeral {value : Int} (numeral : Numeral.Denotes (Text.trim raw).toList value)
    (fits : Word.Fits value) : parse context raw = .ok (.const value) := by
  have read := Numeral.word?_eq_some_iff.mpr ⟨numeral, fits⟩
  have nonempty : ¬ (Text.trim raw).isEmpty = true := by
    intro empty
    rw [String.isEmpty_iff.mp empty] at read
    cases read
  simp only [parse, if_neg nonempty, read]

private theorem parse_of_text (nonempty : Text.trim raw ≠ "")
    (noNumeral : ∀ value, ¬ (Numeral.Denotes (Text.trim raw).toList value ∧ Word.Fits value)) :
    parse context raw =
      (Parser.operands context (Text.trim raw) [] (Text.trim raw).toList).map Parser.ofOperands := by
  have read : Numeral.word? (Text.trim raw).toList = none :=
    Option.eq_none_iff_forall_ne_some.mpr fun value found =>
      noNumeral value (Numeral.word?_eq_some_iff.mp found)
  have some : ¬ (Text.trim raw).isEmpty = true := fun empty =>
    nonempty (String.isEmpty_iff.mp empty)
  simp only [parse, if_neg some, read]

private theorem parse_eq_error_iff {error : SchemaError} :
    parse context raw = .error error ↔ Refused context (Text.trim raw) error := by
  by_cases empty : Text.trim raw = ""
  · have refused : parse context raw = .error (.invalidExpression context.path .empty) := by
      rw [parse, empty]
      rfl
    rw [refused]
    constructor
    · intro same
      cases same
      exact .empty empty
    · rintro (- | ⟨some, -, -⟩)
      · rfl
      · exact absurd empty some
  by_cases numeral : ∃ value, Numeral.Denotes (Text.trim raw).toList value ∧ Word.Fits value
  · obtain ⟨value, numeral, fits⟩ := numeral
    rw [parse_of_numeral numeral fits]
    refine iff_of_false (by simp) ?_
    rintro (none | ⟨-, noNumeral, -⟩)
    · exact empty none
    · exact noNumeral value ⟨numeral, fits⟩
  · have noNumeral := not_exists.mp numeral
    have scanned : parse context raw = .error error ↔
        Parser.operands context (Text.trim raw) [] (Text.trim raw).toList = .error error := by
      rw [parse_of_text empty noNumeral]
      cases Parser.operands context (Text.trim raw) [] (Text.trim raw).toList with
      | error fault => simp [Except.map]
      | ok parts => simp [Except.map]
    rw [scanned, Parser.operands_eq_error_iff]
    constructor
    · exact .misused empty noNumeral
    · rintro (none | ⟨-, -, misuse⟩)
      · exact absurd none empty
      · exact misuse

theorem parse_eq_const_iff {value : Int} :
    parse context raw = .ok (.const value) ↔
      Numeral.Denotes (Text.trim raw).toList value ∧ Word.Fits value := by
  refine ⟨fun accepted => ?_, fun numeral => parse_of_numeral numeral.1 numeral.2⟩
  by_cases numeral : ∃ other, Numeral.Denotes (Text.trim raw).toList other ∧ Word.Fits other
  · obtain ⟨other, numeral, fits⟩ := numeral
    rw [parse_of_numeral numeral fits] at accepted
    cases accepted
    exact ⟨numeral, fits⟩
  by_cases empty : Text.trim raw = ""
  · rw [parse_eq_error_iff.mpr (.empty empty)] at accepted
    cases accepted
  · rw [parse_of_text empty (not_exists.mp numeral)] at accepted
    obtain ⟨parts, -, same⟩ := map_ok accepted
    have none := ofOperands_constant? parts
    rw [same] at none
    cases none

/-- What is read from a text that is no numeral is in canonical form: it is written as that text and has
the placeholders of the text in their order. -/
theorem parse_canonical {expr : Expr} (accepted : parse context raw = .ok expr)
    (noNumeral : expr.isConstant = false) :
    Canonical expr ∧ expr.source = Text.trim raw ∧
      Parser.Refers context (Text.trim raw).toList
        (expr.operands.filter Operand.isPlaceholder) := by
  rcases parse_cases accepted with ⟨_, rfl, _⟩ | ⟨nonempty, _, text, parts, read, rfl⟩
  · cases noNumeral
  · have some : parts ≠ [] := by
      rintro rfl
      have written := Parser.operands_written read
      rw [List.reverse_nil, List.nil_append] at written
      exact nonempty (String.toList_eq_nil_iff.mp written.symm)
    refine ⟨.ofOperands some (Parser.operands_alternating read), text, ?_⟩
    rw [Parser.ofOperands_operands]
    exact Parser.operands_refers read

/-- What is accepted and what comes of it. A text is refused if it is empty, or no numeral and with a
placeholder in it that is misused; the message is that of the first one. Numerals of words are numbers,
and all else that is accepted is in canonical form. The rounds of the scan come to an end on every text,
and what comes of them then is what is read. -/
theorem parse_grammar (context : Context) (raw : String) :
    ((∃ error, parse context raw = .error error) ↔
      Text.trim raw = "" ∨
        (∀ value, ¬ (Numeral.Denotes (Text.trim raw).toList value ∧ Word.Fits value)) ∧
          ∃ (position : Nat) (placeholder : Placeholder) (after : List Char),
            (Text.trim raw).toList.drop position = placeholder.token.toList ++ after ∧
              (¬ Parser.Named after ∨ placeholder = .type ∧ context.owner = none ∨
                placeholder = .config ∧ context.config = none)) ∧
      (∀ error, parse context raw = .error error ↔ Refused context (Text.trim raw) error) ∧
      (∀ value, parse context raw = .ok (.const value) ↔
        Numeral.Denotes (Text.trim raw).toList value ∧ Word.Fits value) ∧
      (∀ expr, parse context raw = .ok expr → expr.isConstant = false →
        Canonical expr ∧ expr.source = Text.trim raw ∧
          Parser.Refers context (Text.trim raw).toList
            (expr.operands.filter Operand.isPlaceholder)) ∧
      (WellFounded fun later earlier => Parser.Round context earlier later) ∧
      ∃ last result,
        Relation.ReflTransGen (Parser.Round context) ⟨[], [], (Text.trim raw).toList⟩ last ∧
          Parser.Stops context (Text.trim raw) last result ∧
          Parser.operands context (Text.trim raw) [] (Text.trim raw).toList = result := by
  refine ⟨?_, fun error => parse_eq_error_iff, fun value => parse_eq_const_iff,
    fun expr => parse_canonical, Parser.round_wellFounded context, ?_⟩
  · have misused : (∃ (position : Nat) (placeholder : Placeholder) (after : List Char),
        (Text.trim raw).toList.drop position = placeholder.token.toList ++ after ∧
          (¬ Parser.Named after ∨ placeholder = .type ∧ context.owner = none ∨
            placeholder = .config ∧ context.config = none)) ↔
        ∃ error, Parser.FirstMisuse context (Text.trim raw) (Text.trim raw).toList error := by
      rw [Parser.exists_firstMisuse_iff]
      refine exists_congr fun position => ?_
      constructor
      · rintro ⟨placeholder, after, stands, wrong⟩
        obtain ⟨error, misused⟩ := Parser.exists_misused_iff.mpr wrong
        exact ⟨error, placeholder, after, stands, misused⟩
      · rintro ⟨error, placeholder, after, stands, misused⟩
        exact ⟨placeholder, after, stands, Parser.exists_misused_iff.mp ⟨error, misused⟩⟩
    simp only [misused, parse_eq_error_iff]
    constructor
    · rintro ⟨error, empty | ⟨-, noNumeral, misuse⟩⟩
      · exact .inl empty
      · exact .inr ⟨noNumeral, error, misuse⟩
    · intro refused
      by_cases empty : Text.trim raw = ""
      · exact ⟨_, .empty empty⟩
      · obtain ⟨noNumeral, error, misuse⟩ := refused.resolve_left empty
        exact ⟨error, .misused empty noNumeral misuse⟩
  · obtain ⟨last, result, rounds, stops⟩ :=
      Parser.exists_stop context (Text.trim raw) ⟨[], [], (Text.trim raw).toList⟩
    refine ⟨last, result, rounds, stops, ?_⟩
    rw [← stops.outcome_eq, ← Parser.rounds_outcome_eq rounds, Parser.Scan.outcome]
    cases Parser.operands context (Text.trim raw) [] (Text.trim raw).toList with
    | error fault => rfl
    | ok parts => rfl

/-- Outside of a record type `{type}` is misused, and that is what the message is about, though later on
there is a placeholder without a name. Two members with an operator between them make three operands. -/
theorem parse_grammar_sample :
    let context : Context := ⟨none, none, "Pkg.size"⟩
    Refused context "\x7bself\x7d.n + \x7btype\x7d.m + \x7bself\x7d"
        (.invalidExpression "Pkg.size" (.outsideType "\x7bself\x7d.n + \x7btype\x7d.m + \x7bself\x7d")) ∧
      Canonical (.concat [.member "n", .text " * ", .member "m"]) ∧
      Numeral.Denotes "-07".toList (-7) := by
  intro context
  obtain ⟨-, refused, -⟩ := parse_grammar context "\x7bself\x7d.n + \x7btype\x7d.m + \x7bself\x7d"
  obtain ⟨-, -, -, canonical, -⟩ := parse_grammar context "\x7bself\x7d.n * \x7bself\x7d.m"
  obtain ⟨-, -, numeral, -⟩ := parse_grammar context " -07 "
  refine ⟨(refused _).mp (by decide +kernel), (canonical _ (by decide +kernel) rfl).1, ?_⟩
  exact ((numeral (-7)).mp (by decide +kernel)).1

end Parse

end RecordSchema.Expr
