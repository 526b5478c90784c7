import Mathlib.Data.String.Basic
import RecordSchema.Proofs.Text
import RecordSchema.Tag

/-!
# Tags are read back

What is read as a tag is written so that it is read as the same tag again. Tags that are kept by name are
kept in ascending order, so adding them one by one in that order gives the same map.
-/

set_option autoImplicit false

namespace RecordSchema

namespace Tag

open Text

/-- A tag as it is read: neither its name nor its argument has blanks at its ends, its name is spelled as
names are compared, and a bare tag has a name. -/
structure Canonical (tag : Tag) : Prop where
  name : Trimmed tag.name.toList
  spelled : ∀ character ∈ tag.name.toList, character ≠ '-' ∧ character ≠ '('
  argument : ∀ argument ∈ tag.argument, Trimmed argument.toList
  named : tag.argument = none → tag.name.toList ≠ []

/-!
## What is read
-/

private theorem normalizeCharacters_trimmed (name : List Char) : Trimmed (normalizeCharacters name) := by
  have trimmed := trimBlanks_trimmed name
  have visible : ∀ character, isBlank character = false →
      isBlank (if character = '-' then '_' else character) = false := by
    intro character visible
    split
    · rfl
    · exact visible
  constructor
  · intro character found
    rw [normalizeCharacters, List.head?_map] at found
    obtain ⟨original, first, rfl⟩ := Option.map_eq_some_iff.mp found
    exact visible original (trimmed.first original first)
  · intro character found
    rw [normalizeCharacters, List.getLast?_map] at found
    obtain ⟨original, final, rfl⟩ := Option.map_eq_some_iff.mp found
    exact visible original (trimmed.last original final)

private theorem normalizeCharacters_spelled {name : List Char}
    (plain : ∀ character ∈ name, character ≠ '(') :
    ∀ character ∈ normalizeCharacters name, character ≠ '-' ∧ character ≠ '(' := by
  intro character member
  obtain ⟨original, kept, rfl⟩ := List.mem_map.mp member
  split
  · decide
  · rename_i other
    exact ⟨other, plain original (mem_of_mem_trimBlanks kept)⟩

/-- A spelling that names are compared under is its own. -/
theorem normalizeCharacters_eq_self {name : List Char} (trimmed : Trimmed name)
    (spelled : ∀ character ∈ name, character ≠ '-') : normalizeCharacters name = name := by
  rw [normalizeCharacters, trimmed.trimBlanks]
  refine (List.map_congr_left fun character member => ?_).trans (List.map_id _)
  exact if_neg (spelled character member)

private theorem ofTrimmed_canonical {text : List Char} (trimmed : Trimmed text) (visible : text ≠ []) :
    (ofTrimmed text).Canonical := by
  have before : ∀ character ∈ text.takeWhile (· ≠ '('), character ≠ '(' := fun character member =>
    by simpa using List.mem_takeWhile_imp member
  unfold ofTrimmed
  split
  · rename_i none
    have plain : ∀ character ∈ text, character ≠ '(' := by
      simpa using List.dropWhile_eq_nil_iff.mp none
    constructor
    · simpa using normalizeCharacters_trimmed text
    · simpa using normalizeCharacters_spelled plain
    · rintro _ ⟨⟩
    · intro _
      rw [String.toList_ofList, normalizeCharacters, trimmed.trimBlanks]
      simpa using visible
  · constructor
    · simpa using normalizeCharacters_trimmed _
    · simpa using normalizeCharacters_spelled before
    · rintro _ ⟨⟩
      rw [String.toList_ofList]
      exact trimBlanks_trimmed _
    · rintro ⟨⟩

theorem canonical_of_parse? {raw : String} {tag : Tag} (read : parse? raw = some tag) :
    tag.Canonical := by
  unfold parse? at read
  split at read
  · cases read
  · rename_i visible
    cases read
    exact ofTrimmed_canonical (trimBlanks_trimmed _) visible

theorem canonical_of_mem_parseAll {raw : List String} {tag : Tag} (member : tag ∈ parseAll raw) :
    tag.Canonical := by
  obtain ⟨text, -, read⟩ := List.mem_filterMap.mp member
  exact canonical_of_parse? read

/-- A bare tag with an argument added. -/
theorem Canonical.of_named {name argument : String} (bare : parse? name = some ⟨name, none⟩)
    (trimmed : Trimmed argument.toList) : Canonical ⟨name, some argument⟩ := by
  have canonical := canonical_of_parse? bare
  refine ⟨canonical.name, canonical.spelled, ?_, fun none => nomatch none⟩
  rintro _ ⟨⟩
  exact trimmed

/-!
## What is written
-/

private theorem argumentOf_closed {argument : List Char} (trimmed : Trimmed argument) :
    argumentOf (argument ++ [')']) = argument := by
  rw [argumentOf, if_pos (List.getLast?_concat), List.dropLast_concat, trimmed.trimBlanks]

private theorem parse?_of_trimmed {text : String} (trimmed : Trimmed text.toList)
    (visible : text.toList ≠ []) :
    parse? text = some (ofTrimmed text.toList) := by
  unfold parse?
  rw [trimmed.trimBlanks]
  split
  · rename_i none
    exact absurd none visible
  · rfl

private theorem Canonical.parse?_render {tag : Tag} (canonical : tag.Canonical) :
    parse? tag.render = some tag := by
  obtain ⟨name, argument⟩ := tag
  have plain : ∀ character ∈ name.toList, (decide (character ≠ '(')) = true := fun character member =>
    decide_eq_true (canonical.spelled character member).2
  have same : normalizeCharacters name.toList = name.toList :=
    normalizeCharacters_eq_self canonical.name fun character member =>
      (canonical.spelled character member).1
  cases argument with
  | none =>
    have bare : name.toList.dropWhile (· ≠ '(') = [] := List.dropWhile_eq_nil_iff.mpr plain
    change parse? name = _
    rw [parse?_of_trimmed canonical.name (canonical.named rfl), ofTrimmed, bare]
    simp only [same, String.ofList_toList]
  | some argument =>
    have inner := canonical.argument argument rfl
    have text : (render ⟨name, some argument⟩).toList =
        name.toList ++ '(' :: (argument.toList ++ [')']) := by
      simp [render]
    have trimmed : Trimmed (name.toList ++ '(' :: (argument.toList ++ [')'])) :=
      canonical.name.append (inner.append .nil (by decide)) (by decide)
    rw [parse?_of_trimmed (text ▸ trimmed) (by rw [text]; simp), text, ofTrimmed,
      List.dropWhile_append_of_pos plain, List.takeWhile_append_of_pos plain]
    simp [same, argumentOf_closed inner]

private theorem parse?_eq_none_iff {raw : String} :
    parse? raw = none ↔ ∀ character ∈ raw.toList, isBlank character = true := by
  rw [← trimBlanks_eq_nil_iff, parse?]
  split
  · rename_i blank
    exact iff_of_true rfl blank
  · rename_i visible
    exact iff_of_false (fun none => nomatch none) visible

/-- Nothing but blank texts is no tag, and a tag that is read from any text is read again from its
written form. The tags that are read again are the canonical ones. -/
theorem parse?_stable (raw : String) :
    (parse? raw = none ↔ ∀ character ∈ raw.toList, isBlank character = true) ∧
      ∀ tag, (parse? raw = some tag → parse? tag.render = some tag) ∧
        (parse? tag.render = some tag ↔ tag.Canonical) := by
  refine ⟨parse?_eq_none_iff, fun tag => ⟨fun read => ?_, ?_⟩⟩
  · exact (canonical_of_parse? read).parse?_render
  · exact ⟨canonical_of_parse?, Canonical.parse?_render⟩

theorem parse?_stable_unterminated :
    parse? " -alias-( Old (Name) ( " = some ⟨"_alias_", some "Old (Name) ("⟩ ∧
      parse? (render ⟨"_alias_", some "Old (Name) ("⟩) = some ⟨"_alias_", some "Old (Name) ("⟩ := by
  have read : parse? " -alias-( Old (Name) ( " = some ⟨"_alias_", some "Old (Name) ("⟩ := by
    decide +kernel
  exact ⟨read, ((parse?_stable _).2 _).1 read⟩

theorem parseAll_render {tags : List Tag} (canonical : ∀ tag ∈ tags, tag.Canonical) :
    parseAll (tags.map render) = tags := by
  rw [parseAll, List.filterMap_map]
  refine (List.filterMap_congr fun tag member => ?_).trans List.filterMap_some
  exact (canonical tag member).parse?_render

end Tag

/-!
## Maps in order
-/

namespace SortedMap

variable {α : Type}

/-- The keys ascend. -/
def Ascending (map : SortedMap α) : Prop :=
  map.Pairwise fun one other => one.1 < other.1

theorem mem_of_mem_insert {key : String} {value : α} {map : SortedMap α} {entry : String × α}
    (member : entry ∈ insert key value map) : entry = (key, value) ∨ entry ∈ map := by
  induction map with
  | nil => exact .inl (List.mem_singleton.mp member)
  | cons first rest ih =>
    rw [insert] at member
    split_ifs at member with before same
    · exact List.mem_cons.mp member
    · exact (List.mem_cons.mp member).imp_right (List.mem_cons_of_mem _)
    · rcases List.mem_cons.mp member with rfl | later
      · exact .inr List.mem_cons_self
      · exact (ih later).imp_right (List.mem_cons_of_mem _)

theorem Ascending.insert {map : SortedMap α} (ascending : map.Ascending) (key : String) (value : α) :
    Ascending (map.insert key value) := by
  induction map with
  | nil => exact List.pairwise_singleton _ _
  | cons first rest ih =>
    obtain ⟨below, others⟩ := List.pairwise_cons.mp ascending
    rw [SortedMap.insert]
    split_ifs with before same
    · refine List.pairwise_cons.mpr ⟨fun entry member => ?_, ascending⟩
      rcases List.mem_cons.mp member with rfl | later
      · exact before
      · exact before.trans (below entry later)
    · exact List.pairwise_cons.mpr ⟨fun entry member => same ▸ below entry member, others⟩
    · refine List.pairwise_cons.mpr ⟨fun entry member => ?_, ih others⟩
      rcases mem_of_mem_insert member with rfl | later
      · exact lt_of_le_of_ne (not_lt.mp before) (Ne.symm same)
      · exact below entry later

/-- A key above all others comes last. -/
theorem insert_above {key : String} {map : SortedMap α} (above : ∀ entry ∈ map, entry.1 < key)
    (value : α) : insert key value map = map ++ [(key, value)] := by
  induction map with
  | nil => rfl
  | cons first rest ih =>
    have below := above first List.mem_cons_self
    rw [insert, if_neg below.not_gt, if_neg below.ne',
      ih fun entry member => above entry (List.mem_cons_of_mem _ member), List.cons_append]

theorem foldl_insert {before map : SortedMap α} (ascending : Ascending (before ++ map)) :
    map.foldl (fun found entry => insert entry.1 entry.2 found) before = before ++ map := by
  induction map generalizing before with
  | nil => rw [List.foldl_nil, List.append_nil]
  | cons entry rest ih =>
    have above := (List.pairwise_append.mp ascending).2.2
    rw [List.foldl_cons, insert_above fun other member => above other member entry List.mem_cons_self,
      ih (by rwa [List.append_assoc, List.singleton_append]), List.append_assoc, List.singleton_append]

end SortedMap

end RecordSchema
