import Mathlib.Data.List.Dedup
import Mathlib.Data.List.FinRange
import Mathlib.Data.List.Induction
import RecordSchema.NameHash

/-!
# Names grouped by hash

The groups of a list of names are told by what is found under a hash value: the names that have it, in
their order. The values ascend, so each is found in one place only. No name is lost or doubled, so the
collisions of a hash are the names that repeat a hash value. Of the hashes the first that collides least
is selected.
-/

set_option autoImplicit false

namespace RecordSchema.NameHash

section Ascending

variable {α : Type} {groups : List (UInt32 × α)}

/-- The hash values of groups ascend. -/
def Ascend (groups : List (UInt32 × α)) : Prop :=
  groups.Pairwise fun left right => left.1 < right.1

private theorem lookup_eq_none {value : UInt32} (apart : ∀ bucket ∈ groups, bucket.1 ≠ value) :
    groups.lookup value = none :=
  List.lookup_eq_none_iff.mpr fun bucket listed => by simpa using (apart bucket listed).symm

/-- Each group is found under its value. -/
theorem mem_iff_lookup (ascend : Ascend groups) {value : UInt32} {group : α} :
    (value, group) ∈ groups ↔ groups.lookup value = some group := by
  induction groups with
  | nil => simp
  | cons bucket rest ih =>
    obtain ⟨below, later⟩ := List.pairwise_cons.mp ascend
    obtain ⟨held, others⟩ := bucket
    rw [List.lookup_cons, List.mem_cons, ih later]
    by_cases same : value = held
    · subst same
      have none : rest.lookup value = none :=
        lookup_eq_none fun bucket listed => (Std.ne_of_lt (below bucket listed)).symm
      simp [none, eq_comm]
    · simp [same, beq_false_of_ne same]

end Ascending

section Insert

variable {groups : NameBuckets} (value : UInt32) (name : String)

theorem mem_insert {bucket : UInt32 × List String} (among : bucket ∈ insert value name groups) :
    bucket.1 = value ∨ bucket ∈ groups := by
  induction groups with
  | nil =>
    cases List.mem_singleton.mp among
    exact .inl rfl
  | cons first rest ih =>
    rw [insert] at among
    split at among
    · rcases List.mem_cons.mp among with rfl | old
      · exact .inl rfl
      · exact .inr old
    · split at among
      · rename_i same
        rcases List.mem_cons.mp among with rfl | old
        · exact .inl same.symm
        · exact .inr (List.mem_cons_of_mem _ old)
      · rcases List.mem_cons.mp among with rfl | later
        · exact .inr List.mem_cons_self
        · exact (ih later).imp_right (List.mem_cons_of_mem _)

private theorem ascend_insert (ascend : Ascend groups) : Ascend (insert value name groups) := by
  induction groups with
  | nil => exact List.pairwise_singleton _ _
  | cons first rest ih =>
    obtain ⟨below, later⟩ := List.pairwise_cons.mp ascend
    rw [insert]
    split
    · rename_i less
      refine List.pairwise_cons.mpr ⟨fun bucket among => ?_, ascend⟩
      rcases List.mem_cons.mp among with rfl | among
      · exact less
      · exact Std.lt_trans less (below bucket among)
    · rename_i notLess
      split
      · exact List.pairwise_cons.mpr ⟨below, later⟩
      · rename_i different
        refine List.pairwise_cons.mpr ⟨fun bucket among => ?_, ih later⟩
        rcases mem_insert value name among with same | old
        · rw [same]
          exact Std.lt_of_le_of_ne (Std.not_lt.mp notLess) (Ne.symm different)
        · exact below bucket old

/-- Inserting a name adds it at the end of the group of its value. -/
theorem lookup_insert (ascend : Ascend groups) (other : UInt32) :
    (insert value name groups).lookup other =
      if other = value then some ((groups.lookup value).getD [] ++ [name])
      else groups.lookup other := by
  induction groups with
  | nil =>
    by_cases same : other = value
    · simp [insert, same]
    · simp [insert, List.lookup_cons, same, beq_false_of_ne same]
  | cons first rest ih =>
    obtain ⟨below, later⟩ := List.pairwise_cons.mp ascend
    obtain ⟨held, names⟩ := first
    rw [insert]
    split
    · rename_i less
      have missing : List.lookup value ((held, names) :: rest) = none := by
        refine lookup_eq_none fun bucket listed => ?_
        rcases List.mem_cons.mp listed with rfl | listed
        · exact (Std.ne_of_lt less).symm
        · exact (Std.ne_of_lt (Std.lt_trans less (below bucket listed))).symm
      rw [missing, List.lookup_cons]
      by_cases same : other = value
      · simp [same]
      · simp [same, beq_false_of_ne same]
    · split
      · rename_i same
        subst same
        by_cases same : other = value
        · simp [same]
        · simp [List.lookup_cons, same, beq_false_of_ne same]
      · rename_i different
        rw [List.lookup_cons, ih later, List.lookup_cons, List.lookup_cons,
          beq_false_of_ne different]
        by_cases same : other = held
        · subst same
          simp [Ne.symm different]
        · simp [beq_false_of_ne same]

end Insert

private theorem buckets_concat (function : NameHash) (names : List String) (name : String) :
    function.buckets (names ++ [name]) =
      insert (function.hash name) name (function.buckets names) := by
  rw [buckets, List.foldl_append]
  rfl

/-- A group has the names of its value in their order, one at least; the values ascend. -/
theorem buckets_spec (function : NameHash) (names : List String) :
    Ascend (function.buckets names) ∧ ∀ value,
      (function.buckets names).lookup value =
        if (names.filter (function.hash · = value)).isEmpty then none
        else some (names.filter (function.hash · = value)) := by
  induction names using List.reverseRecOn with
  | nil => exact ⟨.nil, fun _ => rfl⟩
  | append_singleton names name ih =>
    obtain ⟨ascend, found⟩ := ih
    rw [buckets_concat]
    refine ⟨ascend_insert _ _ ascend, fun value => ?_⟩
    rw [lookup_insert _ _ ascend, found, found, List.filter_append]
    by_cases same : value = function.hash name
    · subst same
      by_cases empty : (names.filter (function.hash · = function.hash name)).isEmpty
      · simp [List.isEmpty_iff.mp empty]
      · simp [empty]
    · simp [same, Ne.symm same]

theorem ascend_buckets (function : NameHash) (names : List String) :
    Ascend (function.buckets names) :=
  (buckets_spec function names).1

/-- A name is in the group of its hash, and in no other. -/
theorem mem_buckets {function : NameHash} {names : List String} {value : UInt32}
    {group : List String} :
    (value, group) ∈ function.buckets names ↔
      group = names.filter (function.hash · = value) ∧ group ≠ [] := by
  rw [mem_iff_lookup (ascend_buckets function names), (buckets_spec function names).2]
  by_cases empty : (names.filter (function.hash · = value)).isEmpty
  · rw [if_pos empty, List.isEmpty_iff.mp empty]
    simp
  · rw [if_neg empty]
    have some : names.filter (function.hash · = value) ≠ [] := mt List.isEmpty_iff.mpr empty
    constructor
    · rintro ⟨⟩
      exact ⟨rfl, some⟩
    · rintro ⟨rfl, _⟩
      rfl

/-!
## Collisions
-/

section Collisions

variable (function : NameHash) (names : List String)

private theorem flatMap_insert (value : UInt32) (name : String) (groups : NameBuckets) :
    ((insert value name groups).flatMap (·.2)).Perm (groups.flatMap (·.2) ++ [name]) := by
  induction groups with
  | nil => exact .refl _
  | cons first rest ih =>
    rw [insert]
    split
    · exact (List.perm_append_singleton name _).symm
    · split
      · simp only [List.flatMap_cons, List.append_assoc]
        exact List.perm_append_comm.append_left _
      · simp only [List.flatMap_cons, List.append_assoc]
        exact ih.append_left _

/-- No name is lost and none is doubled. -/
theorem flatMap_buckets : ((function.buckets names).flatMap (·.2)).Perm names := by
  induction names using List.reverseRecOn with
  | nil => exact .refl _
  | append_singleton names name ih =>
    rw [buckets_concat]
    exact (flatMap_insert _ _ _).trans (ih.append_right _)

/-- There is one group for each hash value. -/
theorem values_buckets :
    ((function.buckets names).map Prod.fst).Perm (names.map function.hash).dedup := by
  have apart : ((function.buckets names).map Prod.fst).Nodup :=
    List.pairwise_map.mpr ((ascend_buckets function names).imp Std.ne_of_lt)
  refine (List.perm_ext_iff_of_nodup apart (List.nodup_dedup _)).mpr fun value => ?_
  rw [List.mem_dedup, List.mem_map, List.mem_map]
  constructor
  · rintro ⟨⟨value, group⟩, listed, rfl⟩
    obtain ⟨rfl, some⟩ := mem_buckets.mp listed
    obtain ⟨name, among⟩ := List.exists_mem_of_ne_nil _ some
    obtain ⟨named, same⟩ := List.mem_filter.mp among
    exact ⟨name, named, of_decide_eq_true same⟩
  · rintro ⟨name, named, rfl⟩
    have among : name ∈ names.filter (function.hash · = function.hash name) :=
      List.mem_filter.mpr ⟨named, decide_eq_true rfl⟩
    exact ⟨(_, _), mem_buckets.mpr ⟨rfl, List.ne_nil_of_mem among⟩, rfl⟩

/-- Each group that is not empty has one name that does not count. -/
theorem foldl_spare {groups : NameBuckets} (filled : ∀ bucket ∈ groups, bucket.2 ≠ []) (start : Nat) :
    groups.foldl (fun total bucket => total + (bucket.2.length - 1)) start + groups.length =
      start + (groups.flatMap (·.2)).length := by
  induction groups generalizing start with
  | nil => rfl
  | cons bucket rest ih =>
    obtain ⟨some, later⟩ := List.forall_mem_cons.mp filled
    have one := List.length_pos_iff.mpr some
    have others := ih later (start + (bucket.2.length - 1))
    simp only [List.foldl_cons, List.length_cons, List.flatMap_cons, List.length_append]
    omega

/-- The collisions are the names less the distinct hash values. -/
theorem collisions_add_dedup :
    function.collisions names + (names.map function.hash).dedup.length = names.length := by
  have filled : ∀ bucket ∈ function.buckets names, bucket.2 ≠ [] := fun _ listed =>
    (mem_buckets.mp listed).2
  have values := (values_buckets function names).length_eq
  rw [List.length_map] at values
  rw [collisions, ← values, foldl_spare filled, Nat.zero_add,
    (flatMap_buckets function names).length_eq]

private theorem collisions_perm {other : List String} (perm : names.Perm other) :
    function.collisions other = function.collisions names := by
  have distinct := (perm.map function.hash).dedup.length_eq
  have one := collisions_add_dedup function names
  have length := perm.length_eq
  have two := collisions_add_dedup function other
  omega

private theorem collisions_eq_zero_iff :
    function.collisions names = 0 ↔
      Function.Injective fun position : Fin names.length => function.hash names[position] := by
  have values : (List.ofFn fun position : Fin names.length => function.hash names[position]) =
      names.map function.hash := List.ofFn_getElem_eq_map names function.hash
  have distinct := collisions_add_dedup function names
  rw [← List.nodup_ofFn, values, ← List.dedup_eq_self]
  constructor
  · intro none
    refine (List.dedup_sublist _).eq_of_length ?_
    rw [List.length_map]
    omega
  · intro same
    rw [same, List.length_map] at distinct
    omega

/-- How many entries of a list stand in it before. -/
def repetitions (values : List UInt32) : Nat :=
  (List.range values.length).countP fun position =>
    decide (∃ earlier < position, values[earlier]? = values[position]?)

private theorem repetitions_concat (values : List UInt32) (value : UInt32) :
    repetitions (values ++ [value]) = repetitions values + if value ∈ values then 1 else 0 := by
  rw [repetitions, List.length_append, List.length_singleton, List.range_succ, List.countP_append,
    List.countP_singleton]
  congr 1
  · refine List.countP_congr fun position listed => ?_
    have below : position < values.length := List.mem_range.mp listed
    simp only [decide_eq_true_eq]
    refine exists_congr fun earlier => and_congr_right fun before => ?_
    rw [List.getElem?_append_left below, List.getElem?_append_left (Nat.lt_trans before below)]
  · have repeated : (∃ earlier < values.length,
        (values ++ [value])[earlier]? = (values ++ [value])[values.length]?) ↔ value ∈ values := by
      rw [List.getElem?_concat_length, List.mem_iff_getElem?]
      constructor
      · rintro ⟨earlier, before, same⟩
        exact ⟨earlier, (List.getElem?_append_left before).symm.trans same⟩
      · rintro ⟨earlier, same⟩
        obtain ⟨before, -⟩ := List.getElem?_eq_some_iff.mp same
        exact ⟨earlier, before, (List.getElem?_append_left before).trans same⟩
    simp only [repeated, decide_eq_true_eq]

private theorem repetitions_add_dedup (values : List UInt32) :
    repetitions values + values.dedup.length = values.length := by
  induction values using List.reverseRecOn with
  | nil => rfl
  | append_singleton values value ih =>
    rw [repetitions_concat, (List.perm_append_singleton value values).dedup.length_eq,
      List.length_append, List.length_singleton]
    by_cases before : value ∈ values
    · rw [if_pos before, List.dedup_cons_of_mem before]
      omega
    · rw [if_neg before, List.dedup_cons_of_notMem before, List.length_cons]
      omega

private theorem collisions_eq_repetitions :
    function.collisions names = repetitions (names.map function.hash) := by
  have distinct := collisions_add_dedup function names
  have repeated := repetitions_add_dedup (names.map function.hash)
  rw [List.length_map] at repeated
  omega

end Collisions

/-!
## The hash that collides least
-/

section Selection

variable {names : List String}

/-- A hash of a list that collides no more than any of the list, and less than those before it. -/
def Leads (names : List String) (functions : List NameHash) (best : NameHash) : Prop :=
  ∃ before after, functions = before ++ best :: after ∧
    (∀ function ∈ before, best.collisions names < function.collisions names) ∧
    ∀ function ∈ after, best.collisions names ≤ function.collisions names

/-- One more hash takes the lead only if it collides less than the one that has it. -/
theorem Leads.concat {functions : List NameHash} {best : NameHash} (leads : Leads names functions best)
    (next : NameHash) : Leads names (functions ++ [next]) (better names best next) := by
  obtain ⟨before, after, rfl, less, most⟩ := leads
  unfold better
  split
  · rename_i fewer
    refine ⟨before ++ best :: after, [], rfl, fun function listed => ?_, nofun⟩
    rcases List.mem_append.mp listed with early | listed
    · exact Nat.lt_trans fewer (less function early)
    · rcases List.mem_cons.mp listed with rfl | late
      · exact fewer
      · exact Nat.lt_of_lt_of_le fewer (most function late)
  · rename_i notFewer
    refine ⟨before, after ++ [next], by simp, less, fun function listed => ?_⟩
    rcases List.mem_append.mp listed with early | listed
    · exact most function early
    · rw [List.mem_singleton.mp listed]
      exact Nat.le_of_not_lt notFewer

private theorem leads_foldl (first : NameHash) (rest : List NameHash) :
    Leads names (first :: rest) (rest.foldl (better names) first) := by
  induction rest using List.reverseRecOn with
  | nil => exact ⟨[], [], rfl, nofun, nofun⟩
  | append_singleton rest next ih =>
    rw [List.foldl_append, ← List.cons_append]
    exact ih.concat next

private theorem leads_select (names : List String) : Leads names all (select names).1 := by
  have first : better names djb2a djb2a = djb2a := if_neg (Nat.lt_irrefl _)
  have leads : Leads names all _ := leads_foldl djb2a [sdbm]
  rw [select, all, List.foldl_cons, first]
  exact leads

end Selection

/-- What grouping, counting and selecting come to. The groups of a hash divide the names by their hash
value, each in the order of the names. Its collisions are the names less the distinct hash values, which
are the names with a hash value that occurs earlier, in whatever order the names are listed. The hash
that is selected is the first of those that collide least; it comes with its collisions, and there are
none just if no two positions have one hash value. -/
theorem select_leads (names : List String) :
    (∀ function : NameHash,
      (Ascend (function.buckets names) ∧
        (∀ value group, (value, group) ∈ function.buckets names ↔
          group = names.filter (function.hash · = value) ∧ group ≠ []) ∧
        ((function.buckets names).flatMap (·.2)).Perm names) ∧
      function.collisions names + (names.map function.hash).dedup.length = names.length ∧
      function.collisions names = repetitions (names.map function.hash) ∧
      ∀ other, names.Perm other → function.collisions other = function.collisions names) ∧
    Leads names all (select names).1 ∧
    (select names).2 = (select names).1.collisions names ∧
    ((select names).2 = 0 ↔
      Function.Injective fun position : Fin names.length => (select names).1.hash names[position]) := by
  refine ⟨fun function => ⟨⟨ascend_buckets function names, fun value group => mem_buckets,
    flatMap_buckets function names⟩, collisions_add_dedup function names,
    collisions_eq_repetitions function names, fun other => collisions_perm function names⟩,
    leads_select names, rfl, ?_⟩
  exact collisions_eq_zero_iff _ names

/-- The names collide under the first hash, in either order, and not under the second. -/
theorem select_leads_sample :
    ["Pkg::Taa3", "Pkg::TabP"].Perm ["Pkg::TabP", "Pkg::Taa3"] ∧
      djb2a.collisions ["Pkg::TabP", "Pkg::Taa3"] = djb2a.collisions ["Pkg::Taa3", "Pkg::TabP"] ∧
      djb2a.collisions ["Pkg::Taa3", "Pkg::TabP"] = 1 ∧ select ["Pkg::Taa3", "Pkg::TabP"] = (sdbm, 0) := by
  have perm : ["Pkg::Taa3", "Pkg::TabP"].Perm ["Pkg::TabP", "Pkg::Taa3"] := List.Perm.swap _ _ _
  obtain ⟨-, -, -, same⟩ := (select_leads ["Pkg::Taa3", "Pkg::TabP"]).1 djb2a
  exact ⟨perm, same _ perm, by decide +kernel, by decide +kernel⟩

end RecordSchema.NameHash
