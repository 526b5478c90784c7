import Mathlib.Data.List.Forall2
import RecordSchema.Proofs.Outcome

/-!
# Two runs side by side

What a first run gives, a second run gives in other words. Passes over a list take its elements in
different orders in the two runs; it makes no difference if every step fills in a part of its own, from
what was there before the pass and from parts that are filled in earlier in both.
-/

set_option autoImplicit false

namespace RecordSchema.Outcome

section Follows

variable {ε α β γ δ : Type}

/-- If the first computation gives something, the second gives something related to it. -/
def Follows (related : α → β → Prop) (first : Except ε α) (second : Except ε β) : Prop :=
  ∀ value, first = .ok value → ∃ value', second = .ok value' ∧ related value value'

/-- What the first computation gives, the second gives in translation. -/
abbrev Mirrors (translate : α → β) : Except ε α → Except ε β → Prop :=
  Follows fun value value' => value' = translate value

namespace Follows

variable {related : α → β → Prop} {first : Except ε α} {second : Except ε β}

theorem ok {value : α} {value' : β} (here : related value value') :
    Follows (ε := ε) related (.ok value) (.ok value') := by
  rintro _ ⟨⟩
  exact ⟨value', rfl, here⟩

theorem error {error : ε} : Follows related (.error error) second := by
  rintro _ ⟨⟩

theorem imp {more : α → β → Prop} (here : Follows related first second)
    (implied : ∀ value value', first = .ok value → related value value' → more value value') :
    Follows more first second := by
  intro value taken
  obtain ⟨value', taken', holds⟩ := here value taken
  exact ⟨value', taken', implied value value' taken holds⟩

theorem bind {onward : γ → δ → Prop} {next : α → Except ε γ} {next' : β → Except ε δ}
    (here : Follows related first second)
    (later : ∀ value value', first = .ok value → second = .ok value' → related value value' →
      Follows onward (next value) (next' value')) :
    Follows onward (first >>= next) (second >>= next') := by
  intro result accepted
  obtain ⟨value, taken, accepted⟩ := bind_ok accepted
  obtain ⟨value', taken', holds⟩ := here value taken
  rw [taken']
  exact later value value' taken taken' holds result accepted

theorem map {onward : γ → δ → Prop} {change : α → γ} {change' : β → δ}
    (here : Follows related first second)
    (same : ∀ value value', related value value' → onward (change value) (change' value')) :
    Follows onward (first.map change) (second.map change') := by
  intro result accepted
  obtain ⟨value, taken, rfl⟩ := map_ok accepted
  obtain ⟨value', taken', holds⟩ := here value taken
  exact ⟨change' value', by rw [taken']; rfl, same value value' holds⟩

theorem ite {condition condition' : Prop} [Decidable condition] [Decidable condition']
    {otherwise : Except ε α} {otherwise' : Except ε β} (same : condition' ↔ condition)
    (yes : condition → Follows related first second)
    (no : ¬ condition → Follows related otherwise otherwise') :
    Follows related (if condition then first else otherwise)
      (if condition' then second else otherwise') := by
  by_cases holds : condition
  · simpa only [if_pos holds, if_pos (same.mpr holds)] using yes holds
  · simpa only [if_neg holds, if_neg (mt same.mp holds)] using no holds

/-- A computation that goes on only if something is not the case, in both runs alike. -/
theorem guarded {condition condition' : Bool} {refusal refusal' : ε} (same : condition' = condition)
    (here : condition = false → Follows related first second) :
    Follows related (if condition then .error refusal else first)
      (if condition' then .error refusal' else second) :=
  ite (same ▸ Iff.rfl) (fun _ => error) fun holds => here (eq_false_of_ne_true holds)

theorem mapM {items : List γ} {read : γ → Except ε α} {read' : γ → Except ε β}
    (each : ∀ item ∈ items, Follows related (read item) (read' item)) :
    Follows (List.Forall₂ related) (items.mapM read) (items.mapM read') := by
  induction items with
  | nil => exact ok .nil
  | cons item rest ih =>
    obtain ⟨here, others⟩ := List.forall_mem_cons.mp each
    rw [List.mapM_cons, List.mapM_cons]
    exact here.bind fun _ _ _ _ one => (ih others).bind fun _ _ _ _ more => ok (.cons one more)

theorem foldlM {items : List γ} {step : α → γ → Except ε α} {step' : β → γ → Except ε β}
    (each : ∀ state state', ∀ item ∈ items, related state state' →
      Follows related (step state item) (step' state' item))
    {start : α} {start' : β} (initial : related start start') :
    Follows related (items.foldlM step start) (items.foldlM step' start') := by
  induction items generalizing start start' with
  | nil => exact ok initial
  | cons item rest ih =>
    rw [List.foldlM_cons, List.foldlM_cons]
    refine (each start start' item List.mem_cons_self initial).bind fun _ _ _ _ holds => ih ?_ holds
    exact fun state state' item later => each state state' item (List.mem_cons_of_mem _ later)

/-- Two folds, over elements that are paired. -/
theorem foldlM_pairs {paired : γ → δ → Prop} {items : List γ} {items' : List δ}
    (pairs : List.Forall₂ paired items items') {step : α → γ → Except ε α} {step' : β → δ → Except ε β}
    (each : ∀ state state' item item', paired item item' → related state state' →
      Follows related (step state item) (step' state' item'))
    {start : α} {start' : β} (initial : related start start') :
    Follows related (items.foldlM step start) (items'.foldlM step' start') := by
  induction pairs generalizing start start' with
  | nil => exact ok initial
  | cons here _ ih =>
    rw [List.foldlM_cons, List.foldlM_cons]
    exact (each start start' _ _ here initial).bind fun _ _ _ _ holds => ih holds

end Follows

namespace Mirrors

variable {translate : α → β}

theorem mapM {items : List γ} {read : γ → Except ε α} {read' : γ → Except ε β}
    (each : ∀ item ∈ items, Mirrors translate (read item) (read' item)) :
    Mirrors (List.map translate) (items.mapM read) (items.mapM read') := by
  refine (Follows.mapM each).imp fun values values' accepted alike => ?_
  clear accepted
  induction alike with
  | nil => rfl
  | cons same _ ih => rw [same, ih, List.map_cons]

theorem optionMapM {item : Option γ} {read : γ → Except ε α} {read' : γ → Except ε β}
    (each : ∀ raw ∈ item, Mirrors translate (read raw) (read' raw)) :
    Mirrors (Option.map translate) (item.mapM read) (item.mapM read') := by
  cases item with
  | none => exact .ok rfl
  | some raw =>
    refine Follows.map (each raw rfl) fun _ _ same => ?_
    rw [same]
    rfl

theorem foldlM_from {items : List γ} {step : α → γ → Except ε α} {step' : β → γ → Except ε β}
    (each : ∀ state, ∀ item ∈ items, Mirrors translate (step state item) (step' (translate state) item))
    (start : α) :
    Mirrors translate (items.foldlM step start) (items.foldlM step' (translate start)) := by
  refine Follows.foldlM (fun state state' item listed same => ?_) rfl
  subst same
  exact each state item listed

theorem orOverflow {first : Option α} {second : Option β} (same : second = first.map translate) :
    Mirrors translate (RecordSchema.orOverflow first) (RecordSchema.orOverflow second) := by
  subst same
  cases first with
  | none => exact .error
  | some value => exact .ok rfl

end Mirrors

end Follows

section Passes

variable {ε State Item Key Part : Type}

/-- A pass in which every step keeps what the pass relies on, fills in the part of its element and
leaves the other parts alone. -/
structure Local (step : State → Item → Except ε State) (items : List Item) (key : Item → Key)
    (part : Key → State → Part) (fine : State → Prop) : Prop where
  distinct : (items.map key).Nodup
  keeps : ∀ item ∈ items, ∀ state after, fine state → step state item = .ok after → fine after
  others : ∀ item ∈ items, ∀ state after, fine state → step state item = .ok after →
    ∀ other, other ≠ key item → part other after = part other state

namespace Local

variable {step : State → Item → Except ε State} {items : List Item} {key : Item → Key}
  {part : Key → State → Part} {fine : State → Prop}

/-- Some of the elements fill in their own parts only. -/
theorem untouched (pass : Local step items key part fine) {some : List Item}
    (listed : ∀ item ∈ some, item ∈ items) {start final : State} (initial : fine start)
    (accepted : some.foldlM step start = .ok final) :
    fine final ∧ ∀ other ∉ some.map key, part other final = part other start := by
  induction some generalizing start with
  | nil =>
    cases accepted
    exact ⟨initial, fun _ _ => rfl⟩
  | cons item rest ih =>
    rw [List.foldlM_cons] at accepted
    obtain ⟨after, taken, accepted⟩ := bind_ok accepted
    obtain ⟨here, others⟩ := List.forall_mem_cons.mp listed
    obtain ⟨fineFinal, same⟩ := ih others (pass.keeps item here start after initial taken) accepted
    refine ⟨fineFinal, fun other unlisted => ?_⟩
    obtain ⟨different, later⟩ := not_or.mp (mt List.mem_cons.mpr unlisted)
    rw [same other later, pass.others item here start after initial taken other different]

/-- When an element has its turn, its part is as at the start and the parts of the elements before it
are as at the end; after its turn, its own part is as at the end. -/
theorem turn (pass : Local step items key part fine) {start final : State} (initial : fine start)
    (accepted : items.foldlM step start = .ok final) {seen rest : List Item} {item : Item}
    (split : items = seen ++ item :: rest) :
    ∃ state after, fine state ∧ step state item = .ok after ∧
      part (key item) state = part (key item) start ∧
      part (key item) final = part (key item) after ∧
      ∀ earlier ∈ seen, part (key earlier) final = part (key earlier) state := by
  have distinct := pass.distinct
  rw [split, List.foldlM_append] at accepted
  obtain ⟨state, before, accepted⟩ := bind_ok accepted
  have behind := accepted
  rw [List.foldlM_cons] at accepted
  obtain ⟨after, taken, later⟩ := bind_ok accepted
  have listed : ∀ other ∈ seen ++ item :: rest, other ∈ items := fun _ member => split ▸ member
  obtain ⟨seenListed, restListed⟩ := List.forall_mem_append.mp listed
  obtain ⟨here, laterListed⟩ := List.forall_mem_cons.mp restListed
  rw [split, List.map_append, List.nodup_append, List.map_cons, List.nodup_cons] at distinct
  obtain ⟨_, ⟨unrepeated, _⟩, apart⟩ := distinct
  obtain ⟨good, sameBefore⟩ := pass.untouched seenListed initial before
  obtain ⟨_, sameBehind⟩ := pass.untouched restListed good behind
  obtain ⟨_, sameLater⟩ :=
    pass.untouched laterListed (pass.keeps item here state after good taken) later
  refine ⟨state, after, good, taken, sameBefore _ ?_, sameLater _ unrepeated,
    fun earlier member => sameBehind _ ?_⟩
  · exact fun found => apart _ found _ List.mem_cons_self rfl
  · exact fun found => apart _ (List.mem_map_of_mem member) _ found rfl

/-- A pass that succeeds in one run succeeds in another, in which the elements come in another order,
if every element fills in the same part in translation whenever those before it have. -/
theorem mirrored {items' : List Item} {fine' : State → Prop} {translate : Part → Part}
    {twin : Item → Item → Prop} {start start' final : State}
    (pass : Local step items key part fine) (pass' : Local step items' key part fine')
    (initial : fine start) (initial' : fine' start')
    (accepted : items.foldlM step start = .ok final)
    (unique : ∀ one ∈ items, ∀ other ∈ items, ∀ item' ∈ items', twin one item' → twin other item' →
      one = other)
    (matched : ∀ item' ∈ items', ∃ item ∈ items, twin item item')
    (pair : ∀ seen item rest seen' item' rest', items = seen ++ item :: rest →
      items' = seen' ++ item' :: rest' → twin item item' → ∀ state after state', fine state →
      fine' state' → part (key item) state = part (key item) start →
      part (key item') state' = part (key item') start' →
      (∀ earlier ∈ seen, ∀ earlier' ∈ seen', twin earlier earlier' →
        part (key earlier') state' = translate (part (key earlier) state)) →
      step state item = .ok after →
        ∃ after', step state' item' = .ok after' ∧
          part (key item') after' = translate (part (key item) after)) :
    ∃ final', items'.foldlM step start' = .ok final' ∧ fine final ∧ fine' final' ∧
      (∀ item ∈ items, ∀ item' ∈ items', twin item item' →
        part (key item') final' = translate (part (key item) final)) ∧
      (∀ other ∉ items.map key, part other final = part other start) ∧
      ∀ other ∉ items'.map key, part other final' = part other start' := by
  have loop : ∀ rest' seen' state', items' = seen' ++ rest' → fine' state' →
      (∀ other ∉ seen'.map key, part other state' = part other start') →
      (∀ item ∈ items, ∀ item' ∈ seen', twin item item' →
        part (key item') state' = translate (part (key item) final)) →
      ∃ final', rest'.foldlM step state' = .ok final' ∧
        ∀ item ∈ items, ∀ item' ∈ items', twin item item' →
          part (key item') final' = translate (part (key item) final) := by
    intro rest'
    induction rest' with
    | nil =>
      intro seen' state' split' _ _ done
      rw [List.append_nil] at split'
      exact ⟨state', rfl, split' ▸ done⟩
    | cons item' rest' ih =>
      intro seen' state' split' good' untouched' done
      have here' : item' ∈ items' := by simp [split']
      obtain ⟨item, member, same⟩ := matched item' here'
      obtain ⟨seen, rest, split⟩ := List.append_of_mem member
      obtain ⟨state, after, good, taken, own, finished, earlier⟩ := pass.turn initial accepted split
      have fresh : ∀ other ∈ seen', key other ≠ key item' := by
        have distinct := pass'.distinct
        rw [split', List.map_append, List.nodup_append] at distinct
        exact fun other listed => distinct.2.2 _ (List.mem_map_of_mem listed) _ List.mem_cons_self
      have unseen : key item' ∉ seen'.map key := by
        intro found
        obtain ⟨other, listed, equal⟩ := List.mem_map.mp found
        exact fresh other listed equal
      obtain ⟨after', taken', filled⟩ := pair seen item rest seen' item' rest' split split' same state
        after state' good good' own (untouched' _ unseen) (fun one listed one' listed' paired => by
          rw [← earlier one listed]
          exact done one (by simp [split, listed]) one' listed' paired) taken
      have others := pass'.others item' here' state' after' good' taken'
      have outside : ∀ other ∉ (seen' ++ [item']).map key, part other after' = part other start' := by
        intro other unlisted
        rw [List.map_append, List.map_singleton, List.mem_append, not_or, List.mem_singleton]
          at unlisted
        rw [others other unlisted.2, untouched' other unlisted.1]
      have all : ∀ one ∈ items, ∀ one' ∈ seen' ++ [item'], twin one one' →
          part (key one') after' = translate (part (key one) final) := by
        intro one listed one' listed' paired
        rcases List.mem_append.mp listed' with old | new
        · rw [others _ (fresh one' old)]
          exact done one listed one' old paired
        · cases List.mem_singleton.mp new
          rw [unique one listed item member item' here' paired same, finished, filled]
      obtain ⟨final', later, complete⟩ := ih (seen' ++ [item']) after' (by simp [split'])
        (pass'.keeps item' here' state' after' good' taken') outside all
      refine ⟨final', ?_, complete⟩
      rw [List.foldlM_cons, taken']
      exact later
  obtain ⟨final', accepted', all⟩ := loop items' [] start' rfl initial' (fun _ _ => rfl)
    fun _ _ _ none => nomatch none
  obtain ⟨good, outside⟩ := pass.untouched (fun _ member => member) initial accepted
  obtain ⟨good', outside'⟩ := pass'.untouched (fun _ member => member) initial' accepted'
  exact ⟨final', accepted', good, good', all, outside, outside'⟩

end Local

end Passes

end RecordSchema.Outcome
