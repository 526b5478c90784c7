import RecordSchema.Dispatch.ByNumber
import RecordSchema.Proofs.Build
import RecordSchema.Proofs.Dispatch.Converters
import RecordSchema.Proofs.Dispatch.Statements
import RecordSchema.Proofs.NameHash
import RecordSchema.Proofs.Sorting

/-!
# Who is responsible for a number and a version

The case distinction by type number leads each number and version to the first type that claims it.
No two types declare the same pair, but the compressed form of one may be what another declares; then
the first of them gets it.
-/

set_option autoImplicit false

/-!
## The lines of a dispatcher by number

The function for a case distinction by number is a switch over type numbers with a switch over versions in
each case. Behind a version stand the statements that put a record of one type into its store, and behind a
number that is ignored stands nothing.
-/

namespace RecordSchema.Dispatcher

open Cpp Dispatch Text

/-- The statements that put a raw record of a type into its store. Config objects go to the config store,
values to the event. For other types the event gets a proxy, made with the config object that is there if
the type has config types. The classes for raw records have other names than the interfaces of proxies. -/
inductive StoresRaw (model : Model) (raw interface : RecordId → String) (indent : String) (id : RecordId) :
    String → Prop where
  | config : (model.record id).configType = true →
      StoresRaw model raw interface indent id
        (indent ++ "cfgStore.put(boost::shared_ptr<const " ++ raw id ++ ">(xtc, (const " ++ raw id ++
          "*)xtc->payload()), src);\n")
  | value : (model.record id).configType = false → (model.record id).valueType = true →
      StoresRaw model raw interface indent id
        (indent ++ "evt.put(boost::make_shared<" ++ raw id ++ ">(*(const " ++ raw id ++
          "*)xtc->payload()), src);\n")
  | plain : (model.record id).configType = false → (model.record id).valueType = false →
      (model.record id).configs = [] →
      StoresRaw model raw interface indent id
        (indent ++ "evt.putProxy<" ++ interface id ++ ">(boost::make_shared<EvtProxy<" ++ interface id ++
          ", " ++ raw id ++ "> >(xtc), src);\n")
  | configured : (model.record id).configType = false → (model.record id).valueType = false →
      (model.record id).configs ≠ [] →
      StoresRaw model raw interface indent id
        (choiceText indent ((model.record id).configs.map fun config =>
          ("boost::shared_ptr<const " ++ raw config ++ "> cfgPtr = cfgStore.get(src)",
            indent ++ "  evt.putProxy<" ++ interface id ++ ">(boost::make_shared<EvtProxyCfg<" ++
              interface id ++ ", " ++ raw id ++ ", " ++ raw config ++ "> >(xtc, cfgPtr), src);\n")))

/-- The lines for a version: the path of a type in a comment, and the statements for it. -/
def WritesVersion (options : Options) (model : Model) (entry : VersionCase) (text : String) : Prop :=
  ∃ statements, StoresRaw model
      (fun id => Cpp.inNamespace options.nativeNamespace (Cpp.typeName model id))
      (fun id => Cpp.inNamespace (some options.interfaceNamespace) (Cpp.typeName model id))
      "        " entry.record statements ∧
    text = "    case " ++ toString entry.version ++ ":\n      \x7b\n        // " ++
      model.recordPath entry.record ++ "\n" ++ statements ++ "      \x7d\n      break;\n"

/-- The lines for a number: none but the end of the case if it is ignored, or else a switch over versions. -/
inductive WritesNumber (options : Options) (model : Model) : UInt32 × NumberArm → String → Prop where
  | ignored (number : UInt32) : WritesNumber options model (number, .ignored)
      ("  case " ++ toString number ++ ":\n    // ignored\n    break;\n")
  | versions (number : UInt32) {cases : List VersionCase} {texts : List String} :
      List.Forall₂ (WritesVersion options model) cases texts →
      WritesNumber options model (number, .versions cases)
        ("  case " ++ toString number ++ ":\n    switch (xtc->contains.version()) \x7b\n" ++
          String.join texts ++ "    \x7d\n    break;\n")

/-- The function that converts raw records, given the lines for the numbers. -/
def rawConverter (cases : String) : Generated :=
  let head := "void xtcConvert(const boost::shared_ptr<Pds::Xtc>& xtc, PSEvt::Event& evt, " ++
    "PSEnv::EnvObjectStore& cfgStore)"
  { declaration := head ++ ";\n"
    definition := head ++
      "\n\x7b\n  const Pds::Src& src = xtc->src;\n  switch (xtc->contains.id()) \x7b\n" ++ cases ++
        "  \x7d\n\x7d\n" }

section Lines

variable (options : Options) (model : Model)

private theorem storesRaw_storeStatements (indent : String) (id : RecordId) :
    StoresRaw model (nativeName options model) (interfaceName options model) indent id
      (storeStatements options model indent id) := by
  unfold storeStatements
  simp only [toString_text]
  cases config : (model.record id).configType with
  | true =>
    have payload : ">(xtc, (const " = ">" ++ "(xtc, (const " := by decide +kernel
    simpa [payload, -String.reduceAppend, String.append_assoc] using StoresRaw.config config
  | false =>
    cases value : (model.record id).valueType with
    | true => simpa [String.append_assoc] using StoresRaw.value config value
    | false =>
      by_cases free : (model.record id).configs = []
      · simpa [free, String.append_assoc] using StoresRaw.plain config value free
      · have begins : "  evt.putProxy<" = "  " ++ "evt.putProxy<" := by decide +kernel
        have ends : "> >(xtc, cfgPtr), src);\n" = "> >(xtc, cfgPtr), src);" ++ "\n" := by decide +kernel
        simpa [free, begins, ends, -String.reduceAppend, configChain_eq, String.append_assoc] using
          StoresRaw.configured config value free

private theorem writesVersion_versionLines (entry : VersionCase) :
    WritesVersion options model entry (versionLines options model entry) := by
  refine ⟨_, storesRaw_storeStatements options model _ entry.record, ?_⟩
  unfold versionLines
  simp only [toString_text, String.append_assoc]

private theorem writesNumber_numberLines (arm : UInt32 × NumberArm) :
    WritesNumber options model arm (numberLines options model arm) := by
  obtain ⟨number, arm⟩ := arm
  unfold numberLines
  cases arm with
  | ignored =>
    have lines : ":\n    // ignored\n    break;\n" = ":\n" ++ "    // ignored\n    break;\n" := by
      decide +kernel
    simpa [toString_text, lines, String.append_assoc] using WritesNumber.ignored number
  | versions cases =>
    have lines : ":\n    switch (xtc->contains.version()) \x7b\n" =
        ":\n" ++ "    switch (xtc->contains.version()) \x7b\n" := by decide +kernel
    have each : List.Forall₂ (WritesVersion options model) cases (cases.map (versionLines options model)) :=
      List.forall₂_map_right_iff.mpr (List.forall₂_same.mpr fun entry _ =>
        writesVersion_versionLines options model entry)
    simpa [toString_text, lines, -String.reduceAppend, String.append_assoc] using
      WritesNumber.versions number each

private theorem writesNumber_lines (switch : NumberSwitch) :
    List.Forall₂ (WritesNumber options model) switch (switch.map (numberLines options model)) :=
  List.forall₂_map_right_iff.mpr (List.forall₂_same.mpr fun arm _ =>
    writesNumber_numberLines options model arm)

theorem numberFunction_eq (switch : NumberSwitch) :
    numberFunction options model switch =
      rawConverter (String.join (switch.map (numberLines options model))) := by
  unfold numberFunction numberHead rawConverter
  rfl

end Lines

end RecordSchema.Dispatcher

/-!
## Claims on a number and a version
-/

namespace RecordSchema

open Model

namespace Dispatch

/-- A record type is declared with a type number and a version. -/
def Declares (model : Model) (number version : UInt32) (id : RecordId) : Prop :=
  (model.record id).identity = some ⟨number, version⟩

/-- A type number and a version are the compressed form of those of a record type. Config types have
none. -/
def CompressesTo (model : Model) (number version : UInt32) (id : RecordId) : Prop :=
  (model.record id).configType = false ∧
    ∃ plain, Declares model number plain id ∧ plain ||| compressedFlag = version

/-- A record type is responsible for a type number and a version. -/
def Responsible (model : Model) (number version : UInt32) (id : RecordId) : Prop :=
  Declares model number version id ∨ CompressesTo model number version id

instance (model : Model) (number version : UInt32) :
    DecidablePred (Declares model number version) :=
  fun _ => inferInstanceAs (Decidable (_ = _))

instance (model : Model) (number version : UInt32) :
    DecidablePred (CompressesTo model number version) := fun id =>
  decidable_of_iff ((model.record id).configType = false ∧
      (model.record id).identity.any fun identity =>
        identity.typeId == number && (identity.version ||| compressedFlag) == version) <| by
    refine and_congr_right fun _ => ?_
    simp only [Option.any_eq_true, Bool.and_eq_true, beq_iff_eq, Declares]
    constructor
    · rintro ⟨⟨_, plain⟩, declared, rfl, same⟩
      exact ⟨plain, declared, same⟩
    · rintro ⟨plain, declared, same⟩
      exact ⟨_, declared, rfl, same⟩

instance (model : Model) (number version : UInt32) :
    DecidablePred (Responsible model number version) :=
  fun _ => inferInstanceAs (Decidable (_ ∨ _))

section Cases

private theorem find?_dropWhile {cases : List VersionCase} {version other : UInt32}
    (different : version ≠ other) :
    (cases.dropWhile fun next => next.version == version).find? (·.version == other) =
      cases.find? (·.version == other) := by
  induction cases with
  | nil => rfl
  | cons first rest ih =>
    rw [List.dropWhile_cons]
    split
    · rename_i same
      have unlike : (first.version == other) = false := by
        rw [eq_of_beq same]
        exact beq_false_of_ne different
      rw [ih, List.find?_cons, unlike]
    · rfl

/-- Dropping what repeats a version keeps the first case of each. -/
theorem find?_dropRepeatedVersions (cases : List VersionCase) (version : UInt32) :
    (dropRepeatedVersions cases).find? (·.version == version) =
      cases.find? (·.version == version) := by
  induction cases with
  | nil => rfl
  | cons first rest ih =>
    rw [dropRepeatedVersions, List.find?_cons, List.find?_cons]
    split
    · rfl
    · rename_i different
      rw [find?_dropWhile (by simpa using different), ih]

private theorem mem_of_mem_dropRepeatedVersions {cases : List VersionCase} {entry : VersionCase}
    (among : entry ∈ dropRepeatedVersions cases) : entry ∈ cases := by
  induction cases with
  | nil => exact among
  | cons first rest ih =>
    rcases List.mem_cons.mp among with rfl | later
    · exact List.mem_cons_self
    · exact List.mem_cons_of_mem _ (ih ((List.dropWhile_sublist _).subset later))

private theorem lt_of_mem_dropWhile {cases : List VersionCase} {version : UInt32}
    (ascend : cases.Pairwise fun left right => left.version < right.version)
    (least : ∀ entry ∈ cases, version ≤ entry.version) {entry : VersionCase}
    (among : entry ∈ cases.dropWhile fun next => next.version == version) :
    version < entry.version := by
  induction cases with
  | nil => cases among
  | cons first rest ih =>
    obtain ⟨before, later⟩ := List.pairwise_cons.mp ascend
    obtain ⟨atLeast, others⟩ := List.forall_mem_cons.mp least
    rw [List.dropWhile_cons] at among
    split at among
    · exact ih later others among
    · rename_i different
      have below : version < first.version :=
        Std.lt_of_le_of_ne atLeast fun same => different (beq_iff_eq.mpr same.symm)
      rcases List.mem_cons.mp among with rfl | among
      · exact below
      · exact Std.lt_of_lt_of_le below (Std.le_of_lt (before entry among))

/-- The versions of sorted cases ascend once repetitions are dropped. -/
theorem pairwise_dropRepeatedVersions {cases : List VersionCase}
    (sorted : cases.Pairwise fun left right => left.version ≤ right.version) :
    (dropRepeatedVersions cases).Pairwise fun left right => left.version < right.version := by
  induction cases with
  | nil => exact .nil
  | cons first rest ih =>
    obtain ⟨least, later⟩ := List.pairwise_cons.mp sorted
    refine List.pairwise_cons.mpr ⟨fun entry among => ?_,
      (ih later).sublist (List.dropWhile_sublist _)⟩
    exact lt_of_mem_dropWhile (ih later)
      (fun entry among => least entry (mem_of_mem_dropRepeatedVersions among)) among

end Cases

section Switch

variable (model : Model) (records : List RecordId)

private theorem mem_versionClaims {id : RecordId} {number : UInt32} {entry : VersionCase} :
    (number, entry) ∈ versionClaims model id ↔
      entry.record = id ∧ Responsible model number entry.version id := by
  obtain ⟨version, record⟩ := entry
  dsimp only [versionClaims, Responsible, CompressesTo, Declares]
  rcases (model.record id).identity with _ | ⟨typeId, plain⟩
  · simp
  · cases (model.record id).configType <;> simp <;> grind

/-- The claims on a type number. -/
def claimsOn (number : UInt32) (claims : List (UInt32 × VersionCase)) : List VersionCase :=
  claims.filterMap fun claim => if claim.1 = number then some claim.2 else none

private theorem mem_claimsOn {number : UInt32} {claims : List (UInt32 × VersionCase)}
    {entry : VersionCase} :
    entry ∈ claimsOn number claims ↔ (number, entry) ∈ claims := by
  rw [claimsOn, List.mem_filterMap]
  constructor
  · rintro ⟨⟨other, _⟩, among, found⟩
    split at found
    · rename_i same
      cases found
      exact same ▸ among
    · cases found
  · exact fun among => ⟨_, among, if_pos rfl⟩

/-- Of the claims on a number and a version, the first is that of the first type responsible. -/
theorem find?_claimsOn (number version : UInt32) :
    (claimsOn number (records.flatMap (versionClaims model))).find? (·.version == version) =
      (records.find? (Responsible model number version)).map (⟨version, ·⟩) := by
  induction records with
  | nil => rfl
  | cons id rest ih =>
    rw [List.flatMap_cons, claimsOn, List.filterMap_append, List.find?_append, List.find?_cons]
    change ((claimsOn number (versionClaims model id)).find? _).or ((claimsOn number _).find? _) = _
    rw [ih]
    cases found : (claimsOn number (versionClaims model id)).find? (·.version == version) with
    | none =>
      have unclaimed : ¬ Responsible model number version id := fun responsible =>
        List.find?_eq_none.mp found ⟨version, id⟩
          (mem_claimsOn.mpr ((mem_versionClaims model).mpr ⟨rfl, responsible⟩)) (beq_self_eq_true _)
      rw [decide_eq_false unclaimed, Option.none_or]
    | some entry =>
      obtain ⟨same, responsible⟩ :=
        (mem_versionClaims model).mp (mem_claimsOn.mp (List.mem_of_find?_eq_some found))
      have claimed : entry.version = version := by simpa using List.find?_some found
      subst same claimed
      rw [decide_eq_true responsible]
      rfl

private theorem pairwise_versionCases (claims : List (UInt32 × VersionCase)) (number : UInt32) :
    (versionCases claims number).Pairwise fun left right => left.version < right.version :=
  pairwise_dropRepeatedVersions (Sorting.pairwise_mergeSort VersionCase.version _)

/-- The case of a version is for the first type responsible. -/
theorem find?_versionCases (number version : UInt32) :
    (versionCases (records.flatMap (versionClaims model)) number).find? (·.version == version) =
      (records.find? (Responsible model number version)).map (⟨version, ·⟩) := by
  have find?_eq : ∀ cases : List VersionCase, cases.find? (·.version == version) =
      (cases.filter (·.version = version)).head? := by
    intro cases
    rw [List.head?_filter]
    rfl
  rw [versionCases, find?_dropRepeatedVersions, find?_eq,
    Sorting.filter_mergeSort VersionCase.version, ← find?_eq]
  exact find?_claimsOn model records number version

/-- A version has one case. -/
theorem versionCases_unique {claims : List (UInt32 × VersionCase)} {number : UInt32}
    {entry other : VersionCase} (listed : entry ∈ versionCases claims number)
    (listed' : other ∈ versionCases claims number) (same : entry.version = other.version) :
    entry = other := by
  have distinct : ((versionCases claims number).map VersionCase.version).Nodup :=
    List.pairwise_map.mpr ((pairwise_versionCases claims number).imp Std.ne_of_lt)
  exact List.inj_on_of_nodup_map distinct listed listed' same

private theorem mem_ascending {numbers : List UInt32} {number : UInt32} :
    number ∈ ascending numbers ↔ number ∈ numbers := by
  rw [ascending, Sorting.mem_eraseReps, List.mem_mergeSort]

private theorem pairwise_ascending (numbers : List UInt32) : (ascending numbers).Pairwise (· < ·) :=
  Sorting.pairwise_eraseReps (Sorting.pairwise_mergeSort id numbers)

private theorem pairwise_numberSwitch (ignored : List UInt32) :
    (numberSwitch model records ignored).Pairwise fun left right => left.1 < right.1 :=
  List.pairwise_map.mpr (pairwise_ascending _)

/-- A type that is responsible for a number has a case for it, unless the number is ignored. -/
theorem mem_numberSwitch {ignored : List UInt32} {number version : UInt32} {id : RecordId}
    (listed : id ∈ records) (responsible : Responsible model number version id)
    (heeded : number ∉ ignored) :
    (number, .versions (versionCases (records.flatMap (versionClaims model)) number)) ∈
      numberSwitch model records ignored := by
  refine List.mem_map.mpr ⟨number, mem_ascending.mpr (List.mem_append_left _ ?_), ?_⟩
  · refine List.mem_map.mpr ⟨(number, ⟨version, id⟩), List.mem_flatMap.mpr ⟨id, listed, ?_⟩, rfl⟩
    exact (mem_versionClaims model).mpr ⟨rfl, responsible⟩
  · rw [if_neg heeded]

end Switch

private theorem and_compressedFlag (version : UInt32) :
    (version ||| compressedFlag) &&& compressedFlag = compressedFlag := by
  refine UInt32.eq_of_toBitVec_eq (BitVec.eq_of_getLsbD_eq fun position _ => ?_)
  simp only [UInt32.toBitVec_and, UInt32.toBitVec_or, BitVec.getLsbD_and, BitVec.getLsbD_or]
  cases version.toBitVec.getLsbD position <;> simp

private theorem not_compressesTo {model : Model} {number version : UInt32} {id : RecordId}
    (plain : version &&& compressedFlag = 0) : ¬ CompressesTo model number version id := by
  rintro ⟨_, other, _, rfl⟩
  rw [and_compressedFlag] at plain
  exact absurd plain (by decide)

section Built

variable {units : List SourceUnit} {built : Built}

open Traversal

/-- Of the types responsible for what a type declares, the type itself is the first unless something
before it compresses to the same. -/
theorem build_first_responsible (accepted : build units = .ok built) {id : RecordId}
    (inside : id.index < built.model.records.size) (emitted : built.model.isEmitted id)
    {number version : UInt32} (declared : Declares built.model number version id) :
    ∃ owner, (visited built.model).find? (Responsible built.model number version) = some owner ∧
      (owner = id ↔ ∀ front back, visited built.model = front ++ id :: back →
        ∀ other ∈ front, ¬ CompressesTo built.model number version other) := by
  obtain ⟨stages⟩ := build_stages accepted
  have listed : id ∈ visited built.model := (build_mem_visited accepted id).mpr ⟨inside, emitted⟩
  have distinct := build_nodup_visited accepted
  cases found : (visited built.model).find? (Responsible built.model number version) with
  | none =>
    have missing := List.find?_eq_none.mp found id listed
    exact absurd (decide_eq_true (Or.inl declared)) missing
  | some owner =>
    have responsible : Responsible built.model number version owner :=
      by simpa using List.find?_some found
    obtain ⟨insideOwner, _⟩ :=
      (build_mem_visited accepted owner).mp (List.mem_of_find?_eq_some found)
    refine ⟨owner, rfl, ?_, fun quiet => ?_⟩
    · rintro rfl front back split other earlier compresses
      rw [split] at distinct
      rw [split, List.find?_append] at found
      cases first : front.find? (Responsible built.model number version) with
      | none =>
        have unclaimed := List.find?_eq_none.mp first other earlier
        exact unclaimed (decide_eq_true (Or.inr compresses))
      | some before =>
        rw [first] at found
        cases found
        exact (List.nodup_append.mp distinct).2.2 owner (List.mem_of_find?_eq_some first) owner
          List.mem_cons_self rfl
    · obtain ⟨front, back, split⟩ := List.append_of_mem listed
      have claimed : decide (Responsible built.model number version id) = true :=
        decide_eq_true (.inl declared)
      rw [split, List.find?_append] at found
      simp only [List.find?_cons, claimed] at found
      cases first : front.find? (Responsible built.model number version) with
      | none =>
        rw [first] at found
        exact (Option.some.inj found).symm
      | some before =>
        rw [first] at found
        cases found
        rcases responsible with same | compresses
        · exact stages.identities insideOwner inside same declared
        · exact absurd compresses (quiet front back split owner (List.mem_of_find?_eq_some first))

/-- The dispatcher by type number writes a case for the number and version of every type that is
emitted and not ignored, with the statements for a type. It is the type's own unless the compressed form of a
type visited before is the same pair; no version without the bit for compression is lost that way. -/
theorem build_versionCase (accepted : build units = .ok built) (options : Dispatcher.Options)
    (outer : Option String) (start : Dispatcher.State) {id : RecordId}
    (inside : id.index < built.model.records.size) (emitted : built.model.isEmitted id)
    {number version : UInt32} (declared : Declares built.model number version id)
    (heeded : number ∉ options.ignored) :
    let switch := numberSwitch built.model (visited built.model) options.ignored
    ((run built.model (Dispatcher.byNumber options) outer).run.run start).1 =
        .ok (Dispatcher.framed options built.model outer
          (Dispatcher.numberFunction options built.model switch)) ∧
      (∃ lines, List.Forall₂ (Dispatcher.WritesNumber options built.model) switch lines ∧
        Dispatcher.numberFunction options built.model switch =
          Dispatcher.rawConverter (String.join lines)) ∧
      switch.Pairwise (fun left right => left.1 < right.1) ∧
      ∃ cases owner, (number, .versions cases) ∈ switch ∧
        cases.Pairwise (fun left right => left.version < right.version) ∧
        ⟨version, owner⟩ ∈ cases ∧
        (visited built.model).find? (Responsible built.model number version) = some owner ∧
        (owner = id ↔ ∀ front back, visited built.model = front ++ id :: back →
          ∀ other ∈ front, ¬ CompressesTo built.model number version other) ∧
        (version &&& compressedFlag = 0 → owner = id) := by
  intro switch
  have listed : id ∈ visited built.model := (build_mem_visited accepted id).mpr ⟨inside, emitted⟩
  obtain ⟨owner, found, own⟩ := build_first_responsible accepted inside emitted declared
  have entry := find?_versionCases built.model (visited built.model) number version
  rw [found, Option.map_some] at entry
  refine ⟨?_, ⟨_, Dispatcher.writesNumber_lines options built.model switch,
    Dispatcher.numberFunction_eq options built.model switch⟩, pairwise_numberSwitch _ _ _, _, owner,
    mem_numberSwitch built.model _ listed (.inl declared) heeded, pairwise_versionCases _ _,
    List.mem_of_find?_eq_some entry, found, own, fun plain => ?_⟩
  · rw [Dispatcher.byNumber, Dispatcher.run_collecting]
  · exact own.mpr fun _ _ _ _ _ => not_compressesTo plain

end Built

/-- Two types of one number, the second with the bit for compression in its version, and a config
type. -/
def eventUnits : List SourceUnit :=
  let attributes : List Declaration.Attribute := [{ name := "value", typeName := some "uint32_t" }]
  let event (name : String) (version : UInt32) : Declaration.Record :=
    { name, typeId := some 10, version := some version, attributes }
  let settings : Declaration.Record :=
    { name := "Settings", typeId := some 20, version := some 1, tags := ["config_type"], attributes }
  [{ document := { packages := [.mk "Sample" none [] [] [] []
      [event "First" 1, event "Second" 32769, settings]] } }]

theorem build_versionCase_sample : ∃ built, build eventUnits = .ok built ∧
    built.model.isEmitted ⟨0⟩ ∧ Declares built.model 10 1 ⟨0⟩ ∧
    ∃ cases, (10, .versions cases) ∈ numberSwitch built.model (Traversal.visited built.model) [7] ∧
      ⟨1, ⟨0⟩⟩ ∈ cases := by
  have computed : ∃ built, build eventUnits = .ok built ∧ 0 < built.model.records.size ∧
      built.model.isEmitted ⟨0⟩ ∧ Declares built.model 10 1 ⟨0⟩ := exists_built (by decide +kernel)
  obtain ⟨built, accepted, inside, emitted, declared⟩ := computed
  obtain ⟨_, _, _, cases, owner, listed, _, entry, _, _, plain⟩ :=
    build_versionCase accepted { ignored := [7] } none {} inside emitted declared (by decide)
  cases plain (by decide)
  exact ⟨built, accepted, emitted, declared, cases, listed, entry⟩

/-- The compressed form of a type takes the place of what a type visited later declares: version 32769
of number 10 belongs to the second type, but its case is for the first. -/
theorem build_not_versionCase : ∃ built, build eventUnits = .ok built ∧
    ¬ ∀ (ignored : List UInt32) (id : RecordId) (number version : UInt32),
      id.index < built.model.records.size → built.model.isEmitted id →
        Declares built.model number version id → number ∉ ignored →
          ∃ cases,
            (number, .versions cases) ∈
              numberSwitch built.model (Traversal.visited built.model) ignored ∧
            ⟨version, id⟩ ∈ cases := by
  have computed : ∃ built, build eventUnits = .ok built ∧ 1 < built.model.records.size ∧
      built.model.isEmitted ⟨1⟩ ∧ Declares built.model 10 32769 ⟨1⟩ ∧
      (Traversal.visited built.model).find? (Responsible built.model 10 32769) = some ⟨0⟩ :=
    exists_built (by decide +kernel)
  obtain ⟨built, accepted, inside, emitted, declared, first⟩ := computed
  refine ⟨built, accepted, fun all => ?_⟩
  obtain ⟨cases, listed, entry⟩ := all [] ⟨1⟩ 10 32769 inside emitted declared (by decide)
  obtain ⟨_, _, same⟩ := List.mem_map.mp listed
  cases same
  have taken := find?_versionCases built.model (Traversal.visited built.model) 10 32769
  rw [first, Option.map_some] at taken
  cases versionCases_unique entry (List.mem_of_find?_eq_some taken) rfl

end Dispatch

end RecordSchema

/-!
## The case distinction by number as a whole

The labels of the case distinction are what the emitted types and the options ask for, no label comes
twice, and no case is for a type that has nothing to do with its number and version. What is done for a
pair is therefore done for a type that is responsible for it, or nothing is done.
-/

namespace RecordSchema

open Model

namespace Dispatch

section Switch

variable (model : Model) (records : List RecordId) (ignored : List UInt32)

/-- A type is responsible for versions of the number that it declares, and of no other. -/
theorem Responsible.declares {model : Model} {number version : UInt32} {id : RecordId}
    (responsible : Responsible model number version id) :
    ∃ plain, Declares model number plain id := by
  rcases responsible with declared | ⟨_, plain, declared, _⟩
  · exact ⟨version, declared⟩
  · exact ⟨plain, declared⟩

end Switch

section Built

variable {units : List SourceUnit} {built : Built}

open Traversal

end Built

end Dispatch

end RecordSchema
