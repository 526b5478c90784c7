import RecordSchema.Proofs.Expr.Acceptance

/-!
# Texts with their placeholders replaced

The text of an expression is cut at its placeholders, and what is rendered is made of the pieces one by
one: characters stay, and a reference becomes what the spelling has for it. A member with a parenthesis
behind it is a call. Its piece has the parenthesis, so an implicit argument stands where its call does,
however calls are nested.
-/

set_option autoImplicit false

namespace RecordSchema.Expr

open Outcome

/-!
## Where a list of arguments ends
-/

/-- Blanks alone stand before the parenthesis that closes a list of arguments. -/
def ClosesAtOnce (arguments : List Char) : Prop :=
  ∃ blanks rest, arguments = blanks ++ ')' :: rest ∧
    ∀ character ∈ blanks, Text.isBlank character = true

private theorem closesAtOnce_iff {arguments : List Char} :
    ClosesAtOnce arguments ↔ (Text.dropBlanks arguments).head? = some ')' := by
  constructor
  · rintro ⟨blanks, rest, rfl, blank⟩
    rw [Text.dropBlanks, List.dropWhile_append_of_pos blank, List.dropWhile_cons_of_neg (by decide)]
    rfl
  · intro closes
    obtain ⟨rest, left⟩ := List.head?_eq_some_iff.mp closes
    refine ⟨arguments.takeWhile Text.isBlank, rest, ?_, fun _ => List.mem_takeWhile_imp⟩
    rw [← left]
    exact List.takeWhile_append_dropWhile.symm

instance (arguments : List Char) : Decidable (ClosesAtOnce arguments) :=
  decidable_of_iff _ closesAtOnce_iff.symm

private theorem argumentSeparator_eq (arguments : List Char) :
    argumentSeparator arguments = if ClosesAtOnce arguments then "" else ", " := by
  unfold argumentSeparator
  split
  · rename_i left
    rw [if_pos (closesAtOnce_iff.mpr (by rw [left]; rfl))]
  · rename_i other
    refine (if_neg fun closes => ?_).symm
    obtain ⟨rest, left⟩ := List.head?_eq_some_iff.mp (closesAtOnce_iff.mp closes)
    exact other rest left

/-- Text from a brace on does not close a list of arguments. -/
theorem closesAtOnce_append (arguments : List Char) {behind : List Char}
    (brace : ∀ character, behind.head? = some character → character = '\x7b') :
    ClosesAtOnce (arguments ++ behind) ↔ ClosesAtOnce arguments := by
  simp only [closesAtOnce_iff]
  induction arguments with
  | nil =>
    cases behind with
    | nil => rfl
    | cons character rest =>
      cases brace character rfl
      have kept : Text.dropBlanks ([] ++ '\x7b' :: rest) = '\x7b' :: rest :=
        List.dropWhile_cons_of_neg (by decide)
      rw [kept]
      exact iff_of_false (by simp) (by decide)
  | cons character rest ih =>
    rw [List.cons_append, Text.dropBlanks, Text.dropBlanks, List.dropWhile_cons, List.dropWhile_cons]
    split
    · exact ih
    · rfl

/-!
## Pieces of a text
-/

/-- A piece of the text of an expression. -/
inductive Segment where
  | character (character : Char)
  /-- A reference that is not called. -/
  | value (part : Operand)
  /-- A member with the parenthesis behind it, and whether that is closed at once. -/
  | call (name : String) (closes : Bool)
deriving DecidableEq

/-- What a piece becomes. An implicit argument goes behind the parenthesis. -/
def Segment.spell (spelling : Operand.Spelling) : Segment → String
  | character sign => String.singleton sign
  | value part => part.render spelling
  | call name closes =>
    (spelling.call name).1 ++ "(" ++
      match (spelling.call name).2 with
      | none => ""
      | some argument => if closes then argument else argument ++ ", "

def spelled (spelling : Operand.Spelling) (segments : List Segment) : String :=
  String.join (segments.map (Segment.spell spelling))

/-- A placeholder with a member name stands at the beginning of a text. -/
structure Mention (text : List Char) (placeholder : Placeholder) (member rest : List Char) : Prop where
  text : text = placeholder.token.toList ++ '.' :: (member ++ rest)
  nonempty : member ≠ []
  letters : ∀ character ∈ member, Text.isWordChar character = true
  ends : ∀ character, rest.head? = some character → Text.isWordChar character = false

/-- The pieces of a text from left to right. -/
inductive Segmented (context : Context) : List Char → List Segment → Prop where
  | nil : Segmented context [] []
  | character {character : Char} {rest : List Char} {segments : List Segment} :
      (∀ (placeholder : Placeholder) (tail : List Char),
        character :: rest ≠ placeholder.token.toList ++ tail) →
      Segmented context rest segments →
      Segmented context (character :: rest) (.character character :: segments)
  | value {text member rest : List Char} {placeholder : Placeholder} {part : Operand}
      {segments : List Segment} : Mention text placeholder member rest →
      ¬ (placeholder = .self ∧ rest.head? = some '(') →
      Parser.meaning? context (String.ofList member) placeholder = some part →
      Segmented context rest segments → Segmented context text (.value part :: segments)
  | call {text member arguments : List Char} {segments : List Segment} :
      Mention text .self member ('(' :: arguments) → Segmented context arguments segments →
      Segmented context text
        (.call (String.ofList member) (decide (ClosesAtOnce arguments)) :: segments)

section Mentions

variable {text before after member rest : List Char} {placeholder : Placeholder}

theorem Mention.brace (mention : Mention text placeholder member rest) : text.head? = some '\x7b' := by
  obtain ⟨inner, token, -⟩ := Parser.token_eq_cons placeholder
  rw [mention.text, token]
  rfl

theorem Mention.memberName (mention : Mention text placeholder member rest) (context : Context)
    (source : String) : Parser.placeholder? text = some (placeholder, '.' :: (member ++ rest)) ∧
      Parser.memberName context source placeholder ('.' :: (member ++ rest)) = .ok (member, rest) :=
  ⟨Parser.placeholder?_eq_some_iff.mpr mention.text,
    Parser.memberName_eq_ok_iff.mpr ⟨rfl, mention.nonempty, mention.letters, mention.ends⟩⟩

theorem Mention.unique {other : Placeholder} {name left : List Char}
    (mention : Mention text placeholder member rest) (again : Mention text other name left) :
    placeholder = other ∧ member = name ∧ rest = left := by
  obtain ⟨found, read⟩ := mention.memberName ⟨none, none, ""⟩ ""
  obtain ⟨foundAgain, readAgain⟩ := again.memberName ⟨none, none, ""⟩ ""
  rw [found] at foundAgain
  obtain ⟨rfl, same⟩ := Prod.mk.inj (Option.some.inj foundAgain)
  rw [same, readAgain] at read
  obtain ⟨rfl, rfl⟩ := Prod.mk.inj (Except.ok.inj read)
  exact ⟨rfl, rfl, rfl⟩

/-- A reference does not reach across a brace behind its own. -/
theorem Mention.of_append (mention : Mention (before ++ '\x7b' :: after) placeholder member rest)
    (some : before ≠ []) :
    ∃ left, Mention before placeholder member left ∧ rest = left ++ '\x7b' :: after := by
  obtain ⟨inner, token, free⟩ := Parser.token_eq_cons placeholder
  obtain ⟨first, others, rfl⟩ := List.exists_cons_of_ne_nil some
  have text := mention.text
  rw [token, List.cons_append, List.cons_append, List.cons.injEq] at text
  obtain ⟨rfl, text⟩ := text
  have free : '\x7b' ∉ inner ++ '.' :: member := by
    intro listed
    rcases List.mem_append.mp listed with inside | listed
    · exact free inside
    rcases List.mem_cons.mp listed with dot | letter
    · exact absurd dot (by decide)
    · exact absurd (mention.letters _ letter) (by decide)
  have whole : others ++ '\x7b' :: after = (inner ++ '.' :: member) ++ rest := by
    rw [text, List.append_assoc, List.cons_append]
  rcases List.append_eq_append_iff.mp whole with ⟨middle, front, behind⟩ | ⟨left, rfl, rfl⟩
  · cases middle with
    | nil =>
      refine ⟨[], ⟨?_, mention.nonempty, mention.letters, nofun⟩, behind.symm⟩
      rw [token, List.append_nil, List.cons_append, front, List.append_nil]
    | cons character middle =>
      obtain ⟨rfl, -⟩ := List.cons.inj behind
      exact absurd (front ▸ List.mem_append_right _ List.mem_cons_self) free
  · refine ⟨left, ⟨?_, mention.nonempty, mention.letters, fun character found => ?_⟩, rfl⟩
    · rw [token, List.cons_append, List.append_assoc, List.cons_append]
    · exact mention.ends character (by rw [List.head?_append, found]; rfl)

end Mentions

namespace Segmented

variable {context : Context} {text before after : List Char} {segments others : List Segment}

theorem unique (segmented : Segmented context text segments) (again : Segmented context text others) :
    segments = others := by
  induction segmented generalizing others with
  | nil =>
    cases again with
    | nil => rfl
    | value mention | call mention => cases mention.brace
  | character plain _ ih =>
    cases again with
    | character _ again => rw [ih again]
    | value mention | call mention => exact absurd mention.text (plain _ _)
  | value mention notCalled meaning _ ih =>
    cases again with
    | nil => cases mention.brace
    | character plain => exact absurd mention.text (plain _ _)
    | value other _ meaningAgain again =>
      obtain ⟨rfl, rfl, rfl⟩ := mention.unique other
      rw [meaning] at meaningAgain
      cases meaningAgain
      rw [ih again]
    | call other =>
      obtain ⟨rfl, -, rfl⟩ := mention.unique other
      exact absurd ⟨rfl, rfl⟩ notCalled
  | call mention _ ih =>
    cases again with
    | nil => cases mention.brace
    | character plain => exact absurd mention.text (plain _ _)
    | value other notCalled =>
      obtain ⟨rfl, -, rfl⟩ := mention.unique other
      exact absurd ⟨rfl, rfl⟩ notCalled
    | call other again =>
      obtain ⟨-, rfl, same⟩ := mention.unique other
      cases same
      rw [ih again]

/-- A brace is at the beginning of a piece. -/
theorem split (segmented : Segmented context (before ++ '\x7b' :: after) segments) :
    ∃ front back, segments = front ++ back ∧ Segmented context before front ∧
      Segmented context ('\x7b' :: after) back := by
  generalize same : before ++ '\x7b' :: after = text at segmented
  induction segmented generalizing before with
  | nil => exact absurd same (by simp)
  | @character first rest segments plain later ih =>
    cases before with
    | nil =>
      rw [List.nil_append] at same
      exact ⟨[], _, rfl, .nil, same ▸ .character plain later⟩
    | cons _ before =>
      obtain ⟨rfl, rfl⟩ := List.cons.inj same
      obtain ⟨front, back, rfl, one, other⟩ := ih rfl
      refine ⟨_ :: front, back, rfl, .character (fun placeholder tail token => ?_) one, other⟩
      refine plain placeholder (tail ++ '\x7b' :: after) ?_
      rw [← List.append_assoc, ← token]
      rfl
  | @value text member rest placeholder part segments mention notCalled meaning later ih =>
    by_cases none : before = []
    · subst none
      rw [List.nil_append] at same
      exact ⟨[], _, rfl, .nil, same ▸ .value mention notCalled meaning later⟩
    · obtain ⟨left, begins, rfl⟩ := (same ▸ mention).of_append none
      obtain ⟨front, back, rfl, one, other⟩ := ih rfl
      refine ⟨_ :: front, back, rfl, .value begins (fun called => notCalled ?_) meaning one, other⟩
      exact ⟨called.1, by rw [List.head?_append, called.2]; rfl⟩
  | @call text member arguments segments mention later ih =>
    by_cases none : before = []
    · subst none
      rw [List.nil_append] at same
      exact ⟨[], _, rfl, .nil, same ▸ .call mention later⟩
    · obtain ⟨left, begins, behind⟩ := (same ▸ mention).of_append none
      obtain ⟨left, rfl, rfl⟩ : ∃ more, left = '(' :: more ∧ arguments = more ++ '\x7b' :: after := by
        cases left with
        | nil => exact absurd (List.cons.inj behind).1 (by decide)
        | cons opening more =>
          obtain ⟨rfl, rfl⟩ := List.cons.inj behind
          exact ⟨more, rfl, rfl⟩
      obtain ⟨front, back, rfl, one, other⟩ := ih rfl
      refine ⟨_, back, ?_, .call begins one, other⟩
      rw [List.cons_append, decide_eq_decide.mpr (closesAtOnce_append left (by simp))]

/-- Every call in a text is a piece of it. -/
theorem exists_call {member arguments : List Char}
    (segmented : Segmented context (before ++ after) segments)
    (mention : Mention after .self member ('(' :: arguments)) :
    ∃ front back, Segmented context before front ∧ Segmented context arguments back ∧
      segments = front ++ .call (String.ofList member) (decide (ClosesAtOnce arguments)) :: back := by
  obtain ⟨inner, token, -⟩ := Parser.token_eq_cons .self
  have brace : after = '\x7b' :: (inner ++ '.' :: (member ++ '(' :: arguments)) := by
    rw [mention.text, token, List.cons_append]
  rw [brace] at segmented mention
  obtain ⟨front, back, rfl, one, other⟩ := segmented.split
  cases other with
  | character plain => exact absurd mention.text (plain _ _)
  | value again notCalled =>
    obtain ⟨rfl, -, rfl⟩ := mention.unique again
    exact absurd ⟨rfl, rfl⟩ notCalled
  | call again other =>
    obtain ⟨-, rfl, same⟩ := mention.unique again
    cases same
    exact ⟨front, _, one, other, rfl⟩

end Segmented

/-!
## Rows of operands
-/

section Rows

variable {parts more : List Operand} {tail : List Char}

private theorem head?_written {part : Operand} (placeholder : part.isPlaceholder = true)
    (more : List Operand) :
    (Parser.written (part :: more)).head? = some '\x7b' := by
  cases part with
  | text => cases placeholder
  | member | static | config =>
    simp [Parser.written, Operand.render, Operand.Spelling.source, Placeholder.token]

/-- Behind a text, a row goes on with a placeholder if it goes on. -/
theorem head?_written_of_text {source : String} (alternating : Parser.Alternating (.text source :: more)) :
    ∀ character, (Parser.written more).head? = some character → character = '\x7b' := by
  intro character found
  cases more with
  | nil => cases found
  | cons part more =>
    have placeholder := (List.isChain_cons_cons.mp alternating.apart).1.resolve_left Bool.false_ne_true
    rw [head?_written placeholder] at found
    cases found
    rfl

/-- A row whose text begins with a parenthesis begins with a text that does. -/
theorem exists_opening (alternating : Parser.Alternating parts)
    (opens : Parser.written parts = '(' :: tail) :
    ∃ source inner more, parts = .text source :: more ∧ source.toList = '(' :: inner ∧
      tail = inner ++ Parser.written more ∧
      ∀ character, (Parser.written more).head? = some character → character = '\x7b' := by
  cases parts with
  | nil => cases opens
  | cons part more =>
    by_cases placeholder : part.isPlaceholder = true
    · have brace := head?_written placeholder more
      rw [opens] at brace
      cases brace
    · obtain ⟨source, rfl⟩ : ∃ source, part = .text source := by
        cases part with
        | text source => exact ⟨source, rfl⟩
        | member | static | config => exact absurd rfl placeholder
      cases characters : source.toList with
      | nil =>
        refine absurd ?_ alternating.nonempty
        rw [String.toList_eq_nil_iff.mp characters]
        exact List.mem_cons_self
      | cons first inner =>
        have text : Parser.written (.text source :: more) = source.toList ++ Parser.written more := rfl
        rw [text, characters, List.cons_append] at opens
        obtain ⟨rfl, rfl⟩ := List.cons.inj opens
        exact ⟨source, inner, more, rfl, characters, rfl, head?_written_of_text alternating⟩

variable (spelling : Operand.Spelling)

private theorem renderParts_pendingText (reversed : List Char) (parts : List Operand) :
    renderParts spelling none (Parser.pendingText reversed ++ parts) =
      String.ofList reversed.reverse ++ renderParts spelling none parts := by
  unfold Parser.pendingText
  split
  · rename_i empty
    rw [List.isEmpty_iff.mp empty]
    exact String.empty_append.symm
  · rfl

/-- What is not called is rendered by itself. -/
theorem renderParts_value {part : Operand}
    (notCalled : ¬ ((∃ name, part = .member name) ∧ (Parser.written parts).head? = some '(')) :
    renderParts spelling none (part :: parts) =
      part.render spelling ++ renderParts spelling none parts := by
  cases part with
  | text | static | config => rfl
  | member name =>
    cases parts with
    | nil => rfl
    | cons next more =>
      cases next with
      | member | static | config => rfl
      | text source =>
        rw [renderParts, if_neg fun opens => notCalled ⟨⟨name, rfl⟩, ?_⟩]
        · rfl
        · change (source.toList ++ Parser.written more).head? = some '('
          rw [List.head?_append, opens]
          rfl

/-- A call is rendered as a piece of its own, and what it has asked for is not handed on. -/
theorem renderParts_call {name rest : String} (alternating : Parser.Alternating parts)
    (opens : Parser.written parts = '(' :: tail)
    (alone : renderParts spelling none parts = "(" ++ rest) :
    renderParts spelling none (.member name :: parts) =
      Segment.spell spelling (.call name (decide (ClosesAtOnce tail))) ++ rest := by
  obtain ⟨source, inner, more, rfl, characters, rfl, brace⟩ := exists_opening alternating opens
  have text : source = "(" ++ String.ofList inner := by
    rw [← String.toList_inj, characters, String.toList_append, String.toList_ofList,
      String.toList_ofList]
    rfl
  obtain rfl : String.ofList inner ++ renderParts spelling none more = rest := by
    have whole : source ++ renderParts spelling none more = "(" ++ rest := alone
    rw [text, String.append_assoc] at whole
    exact String.append_right_inj _ |>.mp whole
  rw [renderParts, if_pos (by rw [characters]; rfl), Segment.spell]
  cases asked : (spelling.call name).2 with
  | none => simp only [alone, String.append_assoc, String.empty_append]
  | some argument =>
    rw [renderParts, argumentSeparator_eq, characters, List.drop_one, List.tail_cons]
    simp only [closesAtOnce_append inner brace, decide_eq_true_eq]
    split <;> simp only [String.append_assoc, String.empty_append]

end Rows

section Spelled

variable {context : Context} {source : String} {reversed input : List Char} {parts : List Operand}

private theorem spelled_cons (spelling : Operand.Spelling) (segment : Segment) (segments : List Segment) :
    spelled spelling (segment :: segments) = segment.spell spelling ++ spelled spelling segments := by
  rw [spelled, List.map_cons, String.join_cons, spelled]

private theorem spelled_append (spelling : Operand.Spelling) (front back : List Segment) :
    spelled spelling (front ++ back) = spelled spelling front ++ spelled spelling back := by
  rw [spelled, List.map_append, String.join_append, spelled, spelled]

/-- A row of operands is rendered as some pending characters and behind them the pieces of a text. -/
def Pieced (context : Context) (reversed input : List Char) (parts : List Operand) : Prop :=
  ∃ segments, Segmented context input segments ∧
    ∀ spelling, renderParts spelling none parts =
      String.ofList reversed.reverse ++ spelled spelling segments

theorem Pieced.nil (context : Context) (reversed : List Char) :
    Pieced context reversed [] (Parser.pendingText reversed) := by
  refine ⟨[], .nil, fun spelling => ?_⟩
  have whole := renderParts_pendingText spelling reversed []
  rw [List.append_nil] at whole
  exact whole

theorem Pieced.character {character : Char}
    (plain : ∀ (placeholder : Placeholder) (tail : List Char),
      character :: input ≠ placeholder.token.toList ++ tail)
    (pieced : Pieced context (character :: reversed) input parts) :
    Pieced context reversed (character :: input) parts := by
  obtain ⟨segments, segmented, whole⟩ := pieced
  refine ⟨_, .character plain segmented, fun spelling => ?_⟩
  rw [whole, spelled_cons, List.reverse_cons, String.ofList_append, String.append_assoc]
  rfl

private theorem self_of_meaning {member name : String} {placeholder : Placeholder}
    (meaning : Parser.meaning? context member placeholder = some (.member name)) :
    placeholder = .self := by
  cases placeholder with
  | self => rfl
  | type | config =>
    obtain ⟨_, _, other⟩ := Option.map_eq_some_iff.mp meaning
    cases other

/-- The piece of a reference, which has the parenthesis behind it if the reference is a call. -/
theorem Pieced.reference {text member : List Char} {placeholder : Placeholder} {part : Operand}
    (mention : Mention text placeholder member input)
    (meaning : Parser.meaning? context (String.ofList member) placeholder = some part)
    (alternating : Parser.Alternating parts) (written : Parser.written parts = input)
    (pieced : Pieced context [] input parts) :
    Pieced context reversed text (Parser.pendingText reversed ++ part :: parts) := by
  obtain ⟨segments, segmented, whole⟩ := pieced
  by_cases called : placeholder = .self ∧ input.head? = some '('
  · obtain ⟨rfl, opens⟩ := called
    obtain ⟨arguments, rfl⟩ := List.head?_eq_some_iff.mp opens
    cases meaning
    cases segmented with
    | character _ segmented =>
      refine ⟨_, .call mention segmented, fun spelling => ?_⟩
      have alone := whole spelling
      rw [spelled_cons, List.reverse_nil, String.ofList_nil, String.empty_append] at alone
      rw [renderParts_pendingText, renderParts_call spelling alternating written alone, spelled_cons]
    | value again | call again => cases again.brace
  · refine ⟨_, .value mention called meaning segmented, fun spelling => ?_⟩
    have notCalled : ¬ ((∃ name, part = .member name) ∧ (Parser.written parts).head? = some '(') := by
      rintro ⟨⟨name, rfl⟩, opens⟩
      exact called ⟨self_of_meaning meaning, written ▸ opens⟩
    rw [renderParts_pendingText, renderParts_value spelling notCalled, spelled_cons, whole spelling,
      List.reverse_nil, String.ofList_nil, String.empty_append]
    rfl

/-- The operands of a text are rendered piece by piece. -/
theorem operands_pieced (accepted : Parser.operands context source reversed input = .ok parts) :
    Pieced context reversed input parts := by
  fun_induction Parser.operands context source reversed input generalizing parts with
  | case1 reversed =>
    cases accepted
    exact .nil context reversed
  | case2 reversed rest noPlaceholder ih =>
    exact (ih accepted).character (Parser.placeholder?_eq_none_iff.mp noPlaceholder)
  | case3 => cases accepted
  | case4 reversed rest placeholder tail member more read found ih =>
    obtain ⟨part, one, accepted⟩ := bind_ok accepted
    obtain ⟨others, later, accepted⟩ := bind_ok accepted
    cases accepted
    obtain ⟨split, nonempty, letters, ends⟩ := Parser.memberName_eq_ok_iff.mp read
    have text := Parser.placeholder?_eq_some_iff.mp found
    rw [split] at text
    have written := Parser.operands_written later
    rw [List.reverse_nil, List.nil_append] at written
    exact .reference ⟨text, nonempty, letters, ends⟩ (Parser.operand_eq_ok_iff.mp one)
      (Parser.operands_alternating later) written (ih later)
  | case5 reversed character rest noBrace ih =>
    exact (ih accepted).character (Parser.cons_ne_token noBrace rest)

end Spelled

/-!
## Expressions put together by hand
-/

/-- What is left of a text behind so many bytes; none if the text has fewer or a character reaches across
the place. -/
def sliceFrom? : Nat → List Char → Option (List Char)
  | 0, characters => some characters
  | _ + 1, [] => none
  | bytes + 1, character :: rest =>
    if character.utf8Size ≤ bytes + 1 then sliceFrom? (bytes + 1 - character.utf8Size) rest else none

private theorem utf8ByteSize_ofList_cons (character : Char) (rest : List Char) :
    (String.ofList (character :: rest)).utf8ByteSize =
      character.utf8Size + (String.ofList rest).utf8ByteSize := by
  rw [← List.singleton_append, String.ofList_append, String.utf8ByteSize_append]
  exact congrArg (· + _) String.utf8ByteSize_singleton

private theorem sliceFrom?_eq_some_iff {bytes : Nat} {characters rest : List Char} :
    sliceFrom? bytes characters = some rest ↔
      ∃ front, characters = front ++ rest ∧ (String.ofList front).utf8ByteSize = bytes := by
  fun_induction sliceFrom? bytes characters with
  | case1 characters =>
    constructor
    · intro same
      exact ⟨[], Option.some.inj same, rfl⟩
    · rintro ⟨front, rfl, size⟩
      cases front with
      | nil => rfl
      | cons first front =>
        have positive := first.utf8Size_pos
        rw [utf8ByteSize_ofList_cons] at size
        omega
  | case2 =>
    refine iff_of_false nofun ?_
    rintro ⟨front, empty, size⟩
    rw [(List.append_eq_nil_iff.mp empty.symm).1] at size
    cases size
  | case3 bytes character others fits ih =>
    rw [ih]
    constructor
    · rintro ⟨front, rfl, size⟩
      refine ⟨character :: front, rfl, ?_⟩
      rw [utf8ByteSize_ofList_cons, size, Nat.add_sub_of_le fits]
    · rintro ⟨front, same, size⟩
      cases front with
      | nil => cases size
      | cons first front =>
        obtain ⟨rfl, rfl⟩ := List.cons.inj same
        rw [utf8ByteSize_ofList_cons] at size
        exact ⟨front, rfl, by omega⟩
  | case4 bytes character others tooLong =>
    refine iff_of_false nofun ?_
    rintro ⟨front, same, size⟩
    cases front with
    | nil => cases size
    | cons first front =>
      obtain ⟨rfl, -⟩ := List.cons.inj same
      rw [utf8ByteSize_ofList_cons] at size
      omega

private theorem sliceFrom?_opening {source : String} {inner : List Char}
    (opens : source.toList = '(' :: inner) :
    sliceFrom? 1 source.toList = some inner :=
  sliceFrom?_eq_some_iff.mpr ⟨['('], opens, rfl⟩

/-- An expression in which rows are made of any expressions, not of operands alone. -/
inductive Assembly where
  | const (value : Int)
  | operand (part : Operand)
  | concat (parts : List Assembly)
  | add (left right : Assembly)
  | mul (left right : Assembly)

namespace Assembly

def isSimpleFactor : Assembly → Bool
  | operand (.text source) => source.toList.all Text.isWordChar
  | concat _ => false
  | _ => true

mutual

/-- The text of an assembly, if no text in it is cut where it cannot be. -/
def render? (spelling : Operand.Spelling) : Assembly → Option String
  | const value => some (toString value)
  | operand part => some (part.render spelling)
  | concat parts => renderParts? spelling none parts
  | add left right => do
    return "(" ++ (← left.render? spelling) ++ "+" ++ (← right.render? spelling) ++ ")"
  | mul left right => do
    return parenthesizeUnless left.isSimpleFactor (← left.render? spelling) ++ "*" ++
      parenthesizeUnless right.isSimpleFactor (← right.render? spelling)

def renderParts? (spelling : Operand.Spelling) : Option String → List Assembly → Option String
  | _, [] => some ""
  | some argument, operand (.text source) :: rest => do
    let arguments ← sliceFrom? 1 source.toList
    return "(" ++ argument ++ argumentSeparator arguments ++ String.ofList arguments ++
      (← renderParts? spelling none rest)
  | _, operand (.member name) :: operand (.text next) :: rest =>
    if next.toList.head? = some '(' then do
      return (spelling.call name).1 ++
        (← renderParts? spelling (spelling.call name).2 (operand (.text next) :: rest))
    else do
      return spelling.member name ++ (← renderParts? spelling none (operand (.text next) :: rest))
  | _, part :: rest => do
    return (← part.render? spelling) ++ (← renderParts? spelling none rest)

end

/-- An implicit argument waits for a text that begins with a parenthesis. -/
def Expects (pending : Option String) (parts : List Assembly) : Prop :=
  pending = none ∨
    ∃ source rest, parts = operand (.text source) :: rest ∧ source.toList.head? = some '('

variable (spelling : Operand.Spelling)

private theorem renderParts?_argument {argument source : String} {rest : List Assembly}
    (expects : Expects (some argument) (operand (.text source) :: rest)) :
    renderParts? spelling (some argument) (operand (.text source) :: rest) =
      (renderParts? spelling none rest).map fun behind =>
        "(" ++ argument ++ argumentSeparator (source.toList.drop 1) ++
          String.ofList (source.toList.drop 1) ++ behind := by
  obtain ⟨_, _, same, opens⟩ := expects.resolve_left nofun
  cases same
  obtain ⟨inner, characters⟩ := List.head?_eq_some_iff.mp opens
  rw [renderParts?, sliceFrom?_opening characters, characters]
  cases renderParts? spelling none rest <;> rfl

private theorem exists_render (assembly : Assembly) : ∃ text, assembly.render? spelling = some text := by
  refine render?.induct spelling (fun assembly => ∃ text, assembly.render? spelling = some text)
    (fun pending parts => Expects pending parts →
      ∃ text, renderParts? spelling pending parts = some text)
    ?const ?operand ?concat ?add ?mul ?nil ?argument ?call ?value ?other assembly
  case const => exact fun value => ⟨toString value, by rw [render?]⟩
  case operand => exact fun part => ⟨part.render spelling, by rw [render?]⟩
  case concat =>
    intro parts row
    obtain ⟨text, rendered⟩ := row (.inl rfl)
    exact ⟨text, by rw [render?, rendered]⟩
  case add | mul =>
    rintro left right ⟨one, rendered⟩ ⟨other, renderedToo⟩
    rw [render?, rendered, renderedToo]
    exact ⟨_, rfl⟩
  case nil => exact fun _ _ => ⟨"", by rw [renderParts?]⟩
  case argument =>
    intro argument source rest later expects
    obtain ⟨behind, rendered⟩ := later (.inl rfl)
    rw [renderParts?_argument spelling expects, rendered]
    exact ⟨_, rfl⟩
  case call =>
    intro pending name next rest opens later _
    obtain ⟨behind, rendered⟩ := later (.inr ⟨next, rest, rfl, opens⟩)
    rw [renderParts?, if_pos opens, rendered]
    exact ⟨_, rfl⟩
  case value =>
    intro pending name next rest plain later _
    obtain ⟨behind, rendered⟩ := later (.inl rfl)
    rw [renderParts?, if_neg plain, rendered]
    exact ⟨_, rfl⟩
  case other =>
    intro pending part rest noArgument noCall one later _
    obtain ⟨text, rendered⟩ := one
    obtain ⟨behind, renderedToo⟩ := later (.inl rfl)
    rw [renderParts?, rendered, renderedToo]
    · exact ⟨_, rfl⟩
    · exact noCall
    · exact noArgument

/-- In a row of operands nothing is cut but the parenthesis before an implicit argument. -/
theorem renderParts?_map (pending : Option String) (parts : List Operand) :
    Expects pending (parts.map operand) →
    renderParts? spelling pending (parts.map operand) = some (renderParts spelling pending parts) := by
  refine renderParts.induct spelling (fun pending parts => Expects pending (parts.map operand) →
    renderParts? spelling pending (parts.map operand) = some (renderParts spelling pending parts))
    ?nil ?argument ?call ?value ?other pending parts
  case nil => exact fun _ _ => by rw [List.map_nil, renderParts?, renderParts]
  case argument =>
    intro argument source rest later expects
    rw [List.map_cons] at expects ⊢
    rw [renderParts?_argument spelling expects, later (.inl rfl), renderParts]
    rfl
  case call =>
    intro pending name next rest opens later _
    rw [List.map_cons] at later
    rw [List.map_cons, List.map_cons, renderParts?, if_pos opens,
      later (.inr ⟨next, _, rfl, opens⟩), renderParts, if_pos opens]
    rfl
  case value =>
    intro pending name next rest plain later _
    rw [List.map_cons] at later
    rw [List.map_cons, List.map_cons, renderParts?, if_neg plain, later (.inl rfl), renderParts,
      if_neg plain]
    rfl
  case other =>
    intro pending part rest noArgument noCall later _
    have alone : renderParts spelling pending (part :: rest) =
        part.render spelling ++ renderParts spelling none rest := by
      rw [renderParts]
      · exact noCall
      · exact noArgument
    rw [List.map_cons, renderParts?, render?, later (.inl rfl), alone]
    · rfl
    · rintro name next others ⟨⟩ behind
      cases rest with
      | nil => cases behind
      | cons first rest =>
        cases behind
        exact noCall name next rest rfl rfl
    · rintro argument source rfl ⟨⟩
      exact noArgument argument source rfl rfl

end Assembly

/-- An expression as an assembly. -/
def assembly : Expr → Assembly
  | const value => .const value
  | operand part => .operand part
  | concat parts => .concat (parts.map .operand)
  | add left right => .add left.assembly right.assembly
  | mul left right => .mul left.assembly right.assembly

private theorem isSimpleFactor_assembly (expr : Expr) :
    expr.assembly.isSimpleFactor = expr.isSimpleFactor := by
  cases expr with
  | operand part => cases part <;> rfl
  | const | concat | add | mul => rfl

private theorem render?_assembly (spelling : Operand.Spelling) (expr : Expr) :
    expr.assembly.render? spelling = some (expr.render spelling) := by
  induction expr with
  | const value | operand part => rw [assembly, Assembly.render?, render]
  | concat parts =>
    rw [assembly, Assembly.render?, Assembly.renderParts?_map spelling none parts (.inl rfl), render]
  | add left right one other =>
    rw [assembly, Assembly.render?, one, other, render]
    rfl
  | mul left right one other =>
    rw [assembly, Assembly.render?, one, other, isSimpleFactor_assembly, isSimpleFactor_assembly, render]
    rfl

/-!
## What is rendered
-/

private theorem render_ofOperands (spelling : Operand.Spelling) (parts : List Operand) :
    (Parser.ofOperands parts).render spelling = renderParts spelling none parts := by
  unfold Parser.ofOperands
  split
  · rename_i part
    have alone : renderParts spelling none [part] = part.render spelling ++ "" :=
      renderParts_value spelling fun called => nomatch called.2
    rw [render, alone]
    exact String.append_empty.symm
  · rw [render]

private theorem parse_segmented {context : Context} {raw : String} {expr : Expr}
    (accepted : parse context raw = .ok expr) (noNumeral : expr.isConstant = false) :
    ∃ segments, Segmented context (Text.trim raw).toList segments ∧
      ∀ spelling, expr.render spelling = spelled spelling segments := by
  rcases parse_cases accepted with ⟨_, rfl, _⟩ | ⟨_, _, _, parts, read, rfl⟩
  · cases noNumeral
  · obtain ⟨segments, segmented, whole⟩ := operands_pieced read
    refine ⟨segments, segmented, fun spelling => ?_⟩
    rw [render_ofOperands, whole, List.reverse_nil, String.ofList_nil, String.empty_append]

/-- What is rendered of a text. A number is written in decimal. Any other text has its pieces, in one way
only, and they are spelled one by one. Wherever a call stands it is a piece, and its implicit argument is in
that piece alone. Whatever an expression is made of, no text in it is cut where it cannot be. -/
theorem parse_spelled (context : Context) (raw : String) :
    (∀ value, parse context raw = .ok (.const value) →
      Numeral.Denotes (Text.trim raw).toList value ∧
        ∀ spelling, (const value).render spelling = toString value) ∧
      (∀ expr, parse context raw = .ok expr → expr.isConstant = false →
        ∃ segments, (∀ others, Segmented context (Text.trim raw).toList others ↔ others = segments) ∧
          spelled .source segments = Text.trim raw ∧
          (∀ spelling, expr.render spelling = spelled spelling segments) ∧
          ∀ before member arguments,
            (Text.trim raw).toList =
              before ++ (Placeholder.self.token.toList ++ '.' :: (member ++ '(' :: arguments)) →
            member ≠ [] → (∀ character ∈ member, Text.isWordChar character = true) →
            ∃ front back, Segmented context before front ∧ Segmented context arguments back ∧
              ∀ spelling, expr.render spelling =
                spelled spelling front ++
                  Segment.spell spelling
                    (.call (String.ofList member) (decide (ClosesAtOnce arguments))) ++
                  spelled spelling back) ∧
      (∀ (spelling : Operand.Spelling) (assembly : Assembly),
        ∃ text, assembly.render? spelling = some text) ∧
      ∀ (spelling : Operand.Spelling) (expr : Expr),
        expr.assembly.render? spelling = some (expr.render spelling) := by
  refine ⟨fun value accepted => ⟨(parse_eq_const_iff.mp accepted).1, fun _ => rfl⟩,
    fun expr accepted noNumeral => ?_, Assembly.exists_render, render?_assembly⟩
  obtain ⟨segments, segmented, whole⟩ := parse_segmented accepted noNumeral
  refine ⟨segments, fun others => ⟨fun again => again.unique segmented, fun same => same ▸ segmented⟩,
    ?_, whole, ?_⟩
  · rw [← whole]
    exact (parse_canonical accepted noNumeral).2.1
  · intro before member arguments text nonempty letters
    rw [text] at segmented
    have mention : Mention _ .self member ('(' :: arguments) :=
      ⟨rfl, nonempty, letters, fun character found => by cases found; decide⟩
    obtain ⟨front, back, one, other, rfl⟩ := segmented.exists_call mention
    refine ⟨front, back, one, other, fun spelling => ?_⟩
    rw [whole, spelled_append, spelled_cons, String.append_assoc]

/-- The argument of a call is a call itself; both are given what they ask for. -/
theorem parse_spelled_sample :
    let context : Context := ⟨none, none, "Pkg.size"⟩
    let spelling : Operand.Spelling :=
      { member := fun name => "this->_" ++ name
        call := fun name => ("this->" ++ name, if name = "dep" then some "cfg" else none)
        static := fun _ name => name
        config := fun _ name => "cfg." ++ name }
    Numeral.Denotes "-07".toList (-7) ∧
      ∃ expr front back, parse context " \x7bself\x7d.dep(\x7bself\x7d.dep( ))" = .ok expr ∧
        Segmented context "\x7bself\x7d.dep(".toList front ∧ Segmented context " ))".toList back ∧
        expr.render spelling = spelled spelling front ++ "this->dep(cfg" ++ spelled spelling back ∧
        expr.render spelling = "this->dep(cfg, this->dep(cfg ))" := by
  intro context spelling
  obtain ⟨numerals, -⟩ := parse_spelled context " -07"
  obtain ⟨-, texts, -⟩ := parse_spelled context " \x7bself\x7d.dep(\x7bself\x7d.dep( ))"
  refine ⟨(numerals (-7) (by decide +kernel)).1, ?_⟩
  let expr : Expr := .concat [.member "dep", .text "(", .member "dep", .text "( ))"]
  obtain ⟨_, -, -, -, calls⟩ := texts expr (by decide +kernel) rfl
  obtain ⟨front, back, one, other, whole⟩ :=
    calls "\x7bself\x7d.dep(".toList "dep".toList " ))".toList (by decide +kernel)
      (by decide) (List.all_eq_true.mp (by decide))
  exact ⟨expr, front, back, by decide +kernel, one, other, whole spelling, by decide +kernel⟩

end RecordSchema.Expr
