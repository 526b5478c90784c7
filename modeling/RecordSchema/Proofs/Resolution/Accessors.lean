import RecordSchema.Proofs.Model.Inheritance
import RecordSchema.Proofs.Resolution.MethodNames

/-!
# Readers of attributes

What reads an attribute is the accessor of it, and gives a value of its type and rank. Under its name a
method is found from every type below its own, unless a type between the two has a method of the name.
-/

set_option autoImplicit false

namespace RecordSchema

open Model Outcome

namespace Resolution

/-- A method is the accessor of an attribute. -/
structure Reads (model : Model) (method : MethodId) (attr : AttributeId) : Prop where
  accessor : (model.attr attr).accessor = some method
  result : (model.method method).result = some (model.attr attr).type
  rank : (model.method method).rank = (model.attr attr).rank

/-- What an attribute gives to its accessor. -/
def readView (attr : Attribute) : Option MethodId × TypeRef × Nat :=
  (attr.accessor, attr.type, attr.rank)

def readerView (method : Method) : MethodBody × Option TypeRef × Nat :=
  (method.body, method.result, method.rank)

def ReadersFit (model : Model) : Prop :=
  ∀ method attr, (model.method method).body = .attr attr → Reads model method attr

namespace ReadersFit

variable {before after : Model}

theorem of_noMethods (none : before.methods.size = 0) : ReadersFit before := by
  intro method attr body
  rw [before.method_eq_default (by omega)] at body
  cases body

/-- Whatever reads an attribute has done so before. -/
theorem congr (fit : ReadersFit before) (attrs : ∀ id, readView (after.attr id) = readView (before.attr id))
    (methods : ∀ id, (∀ attr, (after.method id).body ≠ .attr attr) ∨
      readerView (after.method id) = readerView (before.method id)) : ReadersFit after := by
  intro method attr reads
  obtain ⟨accessor, type, rank⟩ : (after.attr attr).accessor = (before.attr attr).accessor ∧
      (after.attr attr).type = (before.attr attr).type ∧
        (after.attr attr).rank = (before.attr attr).rank := by
    simpa only [readView, Prod.mk.injEq] using attrs attr
  rcases methods method with other | same
  · exact absurd reads (other attr)
  · obtain ⟨body, result, methodRank⟩ : (after.method method).body = (before.method method).body ∧
        (after.method method).result = (before.method method).result ∧
          (after.method method).rank = (before.method method).rank := by
      simpa only [readerView, Prod.mk.injEq] using same
    have known := fit method attr (body ▸ reads)
    exact ⟨accessor ▸ known.accessor, type ▸ result ▸ known.result, rank ▸ methodRank ▸ known.rank⟩

/-- A method that reads no attribute is added. -/
theorem withMethod (fit : ReadersFit before) {added : Method} (other : ∀ attr, added.body ≠ .attr attr) :
    ReadersFit (before.withMethod added) := by
  refine fit.congr (fun _ => rfl) fun id => ?_
  have pushed : (before.withMethod added).method id =
      if id.index = before.methods.size then added else before.method id :=
    method_pushMethod before added id
  rw [pushed]
  split
  · exact .inl other
  · exact .inr rfl

end ReadersFit

/-!
## One step
-/

private theorem insertAttribute_fit {model after : Model} (fit : ReadersFit model) {path name : String}
    {attr : Attribute} (accepted : insertAttribute model path name attr = .ok after) :
    ReadersFit after := by
  rw [insertAttribute_eq] at accepted
  split at accepted
  · cases accepted
  cases accepted
  intro method id reads
  rw [method_withReadAttribute] at reads
  split at reads
  · rename_i last
    obtain rfl : (⟨model.attributes.size⟩ : AttributeId) = id := MethodBody.attr.inj reads
    constructor
    · rw [attr_withReadAttribute, if_pos rfl, ← last]
    · rw [method_withReadAttribute, if_pos last, attr_withReadAttribute, if_pos rfl]
      rfl
    · rw [method_withReadAttribute, if_pos last, attr_withReadAttribute, if_pos rfl]
      rfl
  · rename_i old
    have known := fit method id reads
    have different : id.index ≠ model.attributes.size := by
      intro last
      have none := known.accessor
      rw [model.attr_eq_default (by omega)] at none
      cases none
    constructor
    · rw [attr_withReadAttribute, if_neg different, known.accessor]
    · rw [method_withReadAttribute, if_neg old, attr_withReadAttribute, if_neg different, known.result]
    · rw [method_withReadAttribute, if_neg old, attr_withReadAttribute, if_neg different, known.rank]

private theorem insertBitfield_fit {model after : Model} (fit : ReadersFit model) {owner : RecordId}
    {access : Access} {path name : String} {bitfield : Bitfield}
    (accepted : insertBitfield model owner access path name bitfield = .ok after) : ReadersFit after := by
  rw [insertBitfield_eq] at accepted
  split at accepted
  · cases accepted
  cases accepted
  refine fit.congr (fun id => ?_) fun id => ?_
  · rw [attr_withReadBitfield]
    split <;> rfl
  · rw [method_withReadBitfield]
    split
    · exact .inl fun _ impossible => nomatch impossible
    · exact .inr rfl

private theorem addAttribute_fit {model after : Model} (fit : ReadersFit model) {owner : RecordId}
    {typePath : String} {declaration : Declaration.Attribute}
    (accepted : addAttribute owner typePath model declaration = .ok after) : ReadersFit after := by
  obtain ⟨attr, extended, -, -, inserted, bitfields⟩ := addAttribute_ok accepted
  refine addBitfields_preserves bitfields ReadersFit (insertAttribute_fit fit inserted) ?_
  intro state next access path name bitfield fit _ _ _ one
  exact insertBitfield_fit fit one

private theorem addDeclaredMethod_fit {model after : Model} (fit : ReadersFit model) {owner : RecordId}
    {typePath : String} {declaration : Declaration.Method}
    (accepted : addDeclaredMethod owner typePath model declaration = .ok after) : ReadersFit after := by
  obtain ⟨result, arguments, body, access, -, -, read, rfl⟩ := addDeclaredMethod_ok accepted
  obtain ⟨inlined, rawTags, same⟩ := foldl_applyMethodTag (Tag.parseAll declaration.tags)
    { name := declaration.name, owner, result, rank := declaration.rank.toNat, arguments, body,
      access, comment := declaration.comment }
  obtain ⟨-, -, noAttribute, -⟩ := bodyOf_texts read
  rw [same]
  exact fit.withMethod noAttribute

theorem Passes.readersFit {draft : Draft} {built : Built} (passes : Passes draft built)
    (consistent : draft.Consistent) : ReadersFit built.model := by
  have start : ReadersFit passes.withEnumerations :=
    .of_noMethods (by rw [passes.values_only.2, (passes.isHeaded consistent).noMethods])
  have attributes : ReadersFit passes.withAttributes :=
    passes.attributes_preserve consistent start fun _ _ fit added => addAttribute_fit fit added
  have methods : ReadersFit passes.withMethods :=
    passes.methods_preserve consistent attributes fun _ _ fit added => addDeclaredMethod_fit fit added
  refine foldlM_preserves passes.constructors (fun state => ReadersFit state.1) methods ?_
  intro pending _ state after fit taken
  obtain ⟨⟨constructors, more⟩, -, taken⟩ := bind_ok taken
  cases taken
  exact fit.congr (fun _ => rfl) fun _ => .inr rfl

end Resolution

theorem Stages.readersFit {units : List SourceUnit} {built : Built} (stages : Stages units built) :
    Resolution.ReadersFit built.model := by
  obtain ⟨passes⟩ := Resolution.resolveDeclarations_passes stages.resolution
  have agree := stages.agree_derived
  exact (passes.readersFit (Draft.ofUnits_consistent stages.named)).congr
    (agree.attrField Resolution.readView fun _ => rfl)
    fun id => .inr (agree.methodField Resolution.readerView (fun _ => rfl) id)

/-!
## Methods found along a chain of bases
-/

namespace Model

/-- A search along a list finds what one element has if no element before it has anything. -/
theorem findSome?_eq_some_iff_before {α β : Type} [DecidableEq α] {look : α → Option β} {items : List α}
    {owner : α} {result : β} (listed : owner ∈ items) (found : look owner = some result)
    (only : ∀ item, look item = some result → item = owner) :
    items.findSome? look = some result ↔ ∀ item ∈ items.takeWhile (· ≠ owner), look item = none := by
  induction items with
  | nil => cases listed
  | cons first rest ih =>
    by_cases here : first = owner
    · subst here
      simp [found]
    · have later : owner ∈ rest := (List.mem_cons.mp listed).resolve_left (Ne.symm here)
      rw [List.takeWhile_cons_of_pos (by simpa using here), List.forall_mem_cons, ← ih later,
        List.findSome?_cons]
      cases one : look first with
      | none => simp
      | some other =>
        have different : other ≠ result := fun same => here (only first (same ▸ one))
        simp [different]

/-- A type that has a method, or has it from a base, has a method of the same name of a nearer type. -/
def Hides (model : Model) (id : RecordId) (method : MethodId) : Prop :=
  ∃ nearer ∈ (model.lineage id).takeWhile (· ≠ (model.method method).owner),
    (model.method method).name ∈ Resolution.methodNames model nearer

variable {model : Model} {id : RecordId} {method : MethodId}

instance : Decidable (model.Hides id method) :=
  inferInstanceAs (Decidable (∃ nearer ∈ (model.lineage id).takeWhile (· ≠ (model.method method).owner),
    (model.method method).name ∈ Resolution.methodNames model nearer))

theorem not_hides_own (intact : model.Intact) (inside : id.index < model.records.size)
    (own : (model.method method).owner = id) : ¬ model.Hides id method := by
  intro ⟨nearer, before, _⟩
  cases extended : (model.record id).base with
  | none => simp [intact.lineage_of_root inside extended, own] at before
  | some base => simp [intact.lineage_of_base inside extended, own] at before

theorem ownMethod?_eq_some_iff (apart : Resolution.MethodsApart model) {name : String} :
    model.ownMethod? id name = some method ↔
      method ∈ (model.record id).methods ∧ (model.method method).name = name := by
  constructor
  · intro found
    exact ⟨List.mem_of_find?_eq_some found, by simpa using List.find?_some found⟩
  · rintro ⟨listed, rfl⟩
    cases found : model.ownMethod? id (model.method method).name with
    | none => simpa using List.find?_eq_none.mp found method listed
    | some other =>
      have same : (model.method other).name = (model.method method).name := by
        simpa using List.find?_some found
      exact congrArg some
        (List.inj_on_of_nodup_map (apart id) (List.mem_of_find?_eq_some found) listed same)

theorem findMethod?_iff (intact : model.Intact) (apart : Resolution.MethodsApart model)
    (inherited : (model.method method).owner ∈ model.lineage id)
    (inside : method.index < model.methods.size) :
    model.findMethod? id (model.method method).name = some method ↔ ¬ model.Hides id method := by
  have listed : method ∈ (model.record (model.method method).owner).methods :=
    (intact.methods.mem_iff inside).mpr rfl
  have own := (ownMethod?_eq_some_iff apart).mpr ⟨listed, rfl⟩
  refine (findSome?_eq_some_iff_before inherited own fun other found => ?_).trans ?_
  · exact ((intact.methods.mem_iff inside).mp ((ownMethod?_eq_some_iff apart).mp found).1).symm
  · simp [Hides, Resolution.methodNames, List.find?_eq_none]

end Model

/-- A method is found under its name in the type that has it. -/
theorem findMethod?_own {model : Model} (intact : model.Intact) (apart : Resolution.MethodsApart model)
    {id : RecordId} {method : MethodId} (listed : method ∈ (model.record id).methods) :
    model.findMethod? id (model.method method).name = some method := by
  have inside := Model.inside_of_mem Record.methods rfl listed
  have there : method.index < model.methods.size := intact.closed.recordMethods id method listed
  have own : (model.method method).owner = id := (intact.methods.mem_iff there).mp listed
  refine (Model.findMethod?_iff intact apart ?_ there).mpr (Model.not_hides_own intact inside own)
  rw [own]
  exact intact.mem_lineage_self inside

end RecordSchema
