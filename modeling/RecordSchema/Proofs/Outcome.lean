import RecordSchema.SchemaError

/-!
# Successful computations

What is known of the parts when a computation that may be refused succeeds: a sequence, a fold, a
check of every element, a list of results.
-/

set_option autoImplicit false

namespace RecordSchema.Outcome

variable {ε α β : Type}

theorem bind_ok {computation : Except ε α} {next : α → Except ε β} {result : β}
    (accepted : computation >>= next = .ok result) :
    ∃ value, computation = .ok value ∧ next value = .ok result := by
  cases computation with
  | error error => cases accepted
  | ok value => exact ⟨value, rfl, accepted⟩

theorem bind_error {computation : Except ε α} {next : α → Except ε β} {error : ε}
    (failed : computation >>= next = .error error) :
    computation = .error error ∨ ∃ value, computation = .ok value ∧ next value = .error error := by
  cases computation with
  | error other =>
    cases failed
    exact .inl rfl
  | ok value => exact .inr ⟨value, rfl, failed⟩

theorem bind_none {computation : Option α} {next : α → Option β}
    (failed : computation.bind next = none) :
    computation = none ∨ ∃ value, computation = some value ∧ next value = none := by
  cases computation with
  | none => exact .inl rfl
  | some value => exact .inr ⟨value, rfl, failed⟩

theorem map_ok {computation : Except ε α} {change : α → β} {result : β}
    (accepted : computation.map change = .ok result) :
    ∃ value, computation = .ok value ∧ change value = result := by
  cases computation with
  | error error => cases accepted
  | ok value =>
    cases accepted
    exact ⟨value, rfl, rfl⟩

theorem orOverflow_ok {computation : Option α} {result : α}
    (accepted : orOverflow computation = .ok result) : computation = some result := by
  cases computation with
  | none => cases accepted
  | some value =>
    cases accepted
    rfl

theorem orOverflow_error {computation : Option α} {fault : Fault}
    (failed : orOverflow computation = .error fault) : fault = .overflow := by
  cases computation with
  | none =>
    cases failed
    rfl
  | some value => cases failed

theorem orOverflow_bind {computation : Option α} {next : α → Except Fault β} :
    (orOverflow computation >>= next) = .error .overflow ↔
      computation = none ∨ ∃ value, computation = some value ∧ next value = .error .overflow := by
  cases computation with
  | none => exact ⟨fun _ => .inl rfl, fun _ => rfl⟩
  | some value => simp [orOverflow, bind, Except.bind]

theorem toOption_eq_some {outcome : Except ε α} {value : α} :
    outcome.toOption = some value ↔ outcome = .ok value := by
  cases outcome <;> simp [Except.toOption]

private theorem toOption_foldlM (items : List α) (step : β → α → Except ε β) (start : β) :
    (items.foldlM step start).toOption =
      items.foldlM (fun state item => (step state item).toOption) start := by
  induction items generalizing start with
  | nil => rfl
  | cons first rest ih =>
    rw [List.foldlM_cons, List.foldlM_cons]
    cases step start first with
    | error _ => rfl
    | ok state => exact ih state

/-- What every step keeps, a fold keeps that gives something. The invariant may speak of the elements
that have been taken already. -/
theorem foldlM_invariant_option {items : List α} {step : β → α → Option β} {start final : β}
    (accepted : items.foldlM step start = some final) (invariant : List α → β → Prop)
    (initial : invariant [] start)
    (preserved : ∀ seen item rest state after, items = seen ++ item :: rest →
      invariant seen state → step state item = some after → invariant (seen ++ [item]) after) :
    invariant items final := by
  have loop : ∀ remaining seen state, items = seen ++ remaining → invariant seen state →
      remaining.foldlM step state = some final → invariant items final := by
    intro remaining
    induction remaining with
    | nil =>
      intro seen state split holds finished
      cases finished
      simpa [split] using holds
    | cons item rest ih =>
      intro seen state split holds finished
      rw [List.foldlM_cons] at finished
      obtain ⟨after, taken, finished⟩ := Option.bind_eq_some_iff.mp finished
      exact ih (seen ++ [item]) after (by simp [split])
        (preserved seen item rest state after split holds taken) finished
  exact loop items [] start rfl initial accepted

/-- A property of the state alone that every step keeps. -/
theorem foldlM_preserves_option {items : List α} {step : β → α → Option β} {start final : β}
    (accepted : items.foldlM step start = some final) (property : β → Prop)
    (initial : property start)
    (preserved : ∀ item ∈ items, ∀ state after, property state → step state item = some after →
      property after) : property final := by
  refine foldlM_invariant_option accepted (fun _ state => property state) initial ?_
  intro seen item rest state after split holds taken
  exact preserved item (by simp [split]) state after holds taken

theorem foldlM_invariant {items : List α} {step : β → α → Except ε β} {start final : β}
    (accepted : items.foldlM step start = .ok final) (invariant : List α → β → Prop)
    (initial : invariant [] start)
    (preserved : ∀ seen item rest state after, items = seen ++ item :: rest →
      invariant seen state → step state item = .ok after → invariant (seen ++ [item]) after) :
    invariant items final := by
  have reached := toOption_eq_some.mpr accepted
  rw [toOption_foldlM] at reached
  refine foldlM_invariant_option reached invariant initial ?_
  intro seen item rest state after split holds taken
  exact preserved seen item rest state after split holds (toOption_eq_some.mp taken)

theorem foldlM_preserves {items : List α} {step : β → α → Except ε β} {start final : β}
    (accepted : items.foldlM step start = .ok final) (property : β → Prop) (initial : property start)
    (preserved : ∀ item ∈ items, ∀ state after, property state → step state item = .ok after →
      property after) : property final := by
  refine foldlM_invariant accepted (fun _ state => property state) initial ?_
  intro seen item rest state after split holds taken
  exact preserved item (by simp [split]) state after holds taken

/-- A fold that fails does so at an element, and takes all before it. -/
theorem foldlM_error {items : List α} {step : β → α → Except ε β} {start : β} {error : ε}
    (failed : items.foldlM step start = .error error) :
    ∃ seen item rest state, items = seen ++ item :: rest ∧
      seen.foldlM step start = .ok state ∧ step state item = .error error := by
  induction items generalizing start with
  | nil => cases failed
  | cons first rest ih =>
    rw [List.foldlM_cons] at failed
    cases taken : step start first with
    | error other =>
      rw [taken] at failed
      cases failed
      exact ⟨[], first, rest, start, rfl, rfl, taken⟩
    | ok next =>
      rw [taken] at failed
      obtain ⟨seen, item, later, state, split, reached, fails⟩ := ih failed
      refine ⟨first :: seen, item, later, state, congrArg (first :: ·) split, ?_, fails⟩
      rw [List.foldlM_cons, taken]
      exact reached

theorem foldlM_error_iff {items : List α} {step : β → α → Except ε β} {start : β} {error : ε} :
    items.foldlM step start = .error error ↔
      ∃ seen item rest state, items = seen ++ item :: rest ∧
        seen.foldlM step start = .ok state ∧ step state item = .error error := by
  refine ⟨foldlM_error, ?_⟩
  rintro ⟨seen, item, rest, state, rfl, reached, fails⟩
  rw [List.foldlM_append, reached]
  change (item :: rest).foldlM step state = _
  rw [List.foldlM_cons, fails]
  rfl

theorem forM_ok {items : List α} {check : α → Except ε Unit}
    (accepted : items.forM check = .ok ()) : ∀ item ∈ items, check item = .ok () := by
  induction items with
  | nil => intro item member; cases member
  | cons first rest ih =>
    change (check first >>= fun _ => rest.forM check) = .ok () at accepted
    obtain ⟨_, passed, accepted⟩ := bind_ok accepted
    intro item member
    rcases List.mem_cons.mp member with rfl | later
    · exact passed
    · exact ih accepted item later

/-- A list of checks passes if each does, and else fails as one of them does. -/
theorem forM_cases (items : List α) (check : α → Except ε Unit) :
    (items.forM check = .ok () ∧ ∀ item ∈ items, check item = .ok ()) ∨
      ∃ item ∈ items, ∃ error, check item = .error error ∧ items.forM check = .error error := by
  induction items with
  | nil => exact .inl ⟨rfl, fun _ none => nomatch none⟩
  | cons first rest ih =>
    have step : (first :: rest).forM check = check first >>= fun _ => rest.forM check := rfl
    rw [step]
    cases here : check first with
    | error error => exact .inr ⟨first, List.mem_cons_self, error, here, rfl⟩
    | ok _ =>
      rcases ih with ⟨passed, each⟩ | ⟨item, listed, error, failed, same⟩
      · exact .inl ⟨passed, List.forall_mem_cons.mpr ⟨here, each⟩⟩
      · exact .inr ⟨item, List.mem_cons_of_mem _ listed, error, failed, same⟩

theorem forM_error {items : List α} {check : α → Except ε Unit} {error : ε}
    (failed : items.forM check = .error error) :
    ∃ seen item rest, items = seen ++ item :: rest ∧
      (∀ earlier ∈ seen, check earlier = .ok ()) ∧ check item = .error error := by
  induction items with
  | nil => cases failed
  | cons first rest ih =>
    change (check first >>= fun _ => rest.forM check) = .error error at failed
    rcases bind_error failed with here | ⟨_, passed, failed⟩
    · exact ⟨[], first, rest, rfl, nofun, here⟩
    · obtain ⟨seen, item, later, split, each, fails⟩ := ih failed
      refine ⟨first :: seen, item, later, congrArg (first :: ·) split, ?_, fails⟩
      exact List.forall_mem_cons.mpr ⟨passed, each⟩

theorem forM_ok_iff {items : List α} {check : α → Except ε Unit} :
    items.forM check = .ok () ↔ ∀ item ∈ items, check item = .ok () := by
  refine ⟨forM_ok, fun each => ?_⟩
  rcases forM_cases items check with ⟨passed, _⟩ | ⟨item, listed, error, failed, _⟩
  · exact passed
  · rw [each item listed] at failed
    cases failed

theorem mapM_ok {items : List α} {read : α → Except ε β} {results : List β}
    (accepted : items.mapM read = .ok results) :
    ∀ result ∈ results, ∃ item ∈ items, read item = .ok result := by
  induction items generalizing results with
  | nil =>
    cases accepted
    intro result member
    cases member
  | cons first rest ih =>
    rw [List.mapM_cons] at accepted
    obtain ⟨head, taken, accepted⟩ := bind_ok accepted
    obtain ⟨tail, others, accepted⟩ := bind_ok accepted
    cases accepted
    intro result member
    rcases List.mem_cons.mp member with rfl | later
    · exact ⟨first, by simp, taken⟩
    · obtain ⟨item, included, same⟩ := ih others result later
      exact ⟨item, by simp [included], same⟩

/-- What can be told of each result from its item can be told of all results from the items. -/
theorem mapM_ok_map {γ : Type} {items : List α} {read : α → Except ε β} {results : List β}
    (accepted : items.mapM read = .ok results) {view : β → γ} {expected : α → γ}
    (each : ∀ item ∈ items, ∀ result, read item = .ok result → view result = expected item) :
    results.map view = items.map expected := by
  induction items generalizing results with
  | nil =>
    cases accepted
    rfl
  | cons first rest ih =>
    rw [List.mapM_cons] at accepted
    obtain ⟨head, taken, accepted⟩ := bind_ok accepted
    obtain ⟨tail, others, accepted⟩ := bind_ok accepted
    cases accepted
    obtain ⟨here, later⟩ := List.forall_mem_cons.mp each
    rw [List.map_cons, List.map_cons, here head taken, ih others later]

theorem exists_mapM {items : List α} {read : α → Except ε β}
    (each : ∀ item ∈ items, ∃ result, read item = .ok result) :
    ∃ results, items.mapM read = .ok results := by
  induction items with
  | nil => exact ⟨[], rfl⟩
  | cons first rest ih =>
    obtain ⟨⟨head, taken⟩, others⟩ := List.forall_mem_cons.mp each
    obtain ⟨tail, read⟩ := ih others
    exact ⟨head :: tail, by rw [List.mapM_cons, taken, read]; rfl⟩

theorem mapM_eq_none_iff {items : List α} {read : α → Option β} :
    items.mapM read = none ↔ ∃ item ∈ items, read item = none := by
  induction items with
  | nil => simp
  | cons first rest ih =>
    rw [List.mapM_cons]
    cases here : read first with
    | none => simp [here]
    | some head =>
      cases others : rest.mapM read with
      | none =>
        obtain ⟨item, listed, failed⟩ := ih.mp others
        simp only [Option.bind_eq_bind, Option.bind_some, Option.bind_none, true_iff]
        exact ⟨item, List.mem_cons_of_mem _ listed, failed⟩
      | some tail =>
        have each : ∀ item ∈ rest, read item ≠ none := fun item listed failed => by
          rw [ih.mpr ⟨item, listed, failed⟩] at others
          cases others
        simpa [here] using each

theorem exists_mapM_option {items : List α} {read : α → Option β}
    (each : ∀ item ∈ items, ∃ result, read item = some result) :
    ∃ results, items.mapM read = some results := by
  refine Option.ne_none_iff_exists'.mp fun failed => ?_
  obtain ⟨item, listed, none⟩ := mapM_eq_none_iff.mp failed
  obtain ⟨result, taken⟩ := each item listed
  rw [none] at taken
  cases taken

theorem exists_foldlM_option {items : List α} {step : β → α → Option β} {start : β}
    (each : ∀ item ∈ items, ∀ state, ∃ after, step state item = some after) :
    ∃ final, items.foldlM step start = some final := by
  induction items generalizing start with
  | nil => exact ⟨start, rfl⟩
  | cons first rest ih =>
    obtain ⟨here, others⟩ := List.forall_mem_cons.mp each
    obtain ⟨next, taken⟩ := here start
    obtain ⟨final, finished⟩ := @ih next others
    exact ⟨final, by rw [List.foldlM_cons, taken]; exact finished⟩

theorem option_mapM_ok {item : Option α} {read : α → Except ε β} {result : Option β}
    (accepted : item.mapM read = .ok result) :
    ∀ value ∈ result, ∃ raw ∈ item, read raw = .ok value := by
  cases item with
  | none =>
    cases accepted
    intro value member
    cases member
  | some raw =>
    obtain ⟨value, taken, accepted⟩ := map_ok accepted
    cases accepted
    intro found member
    cases member
    exact ⟨raw, rfl, taken⟩

/-- What can be computed of the outcome of a computation. -/
theorem exists_ok {outcome : Except ε α} {property : α → Prop} [DecidablePred property]
    (holds : outcome.toOption.any fun value => decide (property value)) :
    ∃ value, outcome = .ok value ∧ property value := by
  cases outcome with
  | error error => cases holds
  | ok value => exact ⟨value, rfl, of_decide_eq_true holds⟩

end RecordSchema.Outcome
