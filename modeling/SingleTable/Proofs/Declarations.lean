import SingleTable.Proofs.Bindings
import SingleTable.TableDefinition

set_option autoImplicit false

/-!
# What is accepted as a schema

A model is accepted exactly if it is well formed (`Model.build_eq_ok_iff`), and a schema exactly if it
is consistent (`Schema.build_eq_ok_iff`): above all, the models that declare a key field agree on its
type, which is a type of keys. So the type that the table takes from one of the models is the type in
all of them (`Schema.Consistent.fieldType?_eq`).
-/

namespace SingleTable

/-! ## Lists without repeated names -/

theorem firstRepeated?_eq_none_iff {seen names : List String} :
    firstRepeated? seen names = none ↔ names.Nodup ∧ ∀ n ∈ names, n ∉ seen := by
  induction names generalizing seen with
  | nil => simp [firstRepeated?]
  | cons n names ih =>
      rw [firstRepeated?, List.contains_eq_mem]
      by_cases hn : n ∈ seen
      · simp [hn]
      · rw [decide_eq_false hn, if_neg Bool.false_ne_true, ih, List.nodup_cons, List.forall_mem_cons]
        simp only [List.mem_cons, not_or]
        constructor
        · rintro ⟨hnd, hall⟩
          exact ⟨⟨fun hmem => (hall n hmem).1 rfl, hnd⟩, hn, fun x hx => (hall x hx).2⟩
        · rintro ⟨⟨hnot, hnd⟩, -, hall⟩
          exact ⟨hnd, fun x hx => ⟨fun heq => hnot (heq ▸ hx), hall x hx⟩⟩

/-! ## Models -/

theorem FieldKind.isComputed_eq_false_iff {k : FieldKind} :
    k.isComputed = false ↔ k.function? = none := by
  rw [isComputed, Option.isSome_eq_false_iff, Option.isNone_iff_eq_none]

namespace Model

/-- No field is declared twice, key names are declared as keys, and both keys are there. -/
structure WellFormed (m : Model) : Prop where
  distinct : (m.fields.map Field.name).Nodup
  reserved : ∀ f ∈ m.fields, isKeyName f.name = true → f.kind.isKey = true
  keys : ∀ key ∈ [partitionKeyName, sortKeyName], ∃ f ∈ m.fields, f.name = key

theorem checkFields_eq_ok_iff {model : String} {seen : List String} {fields : List Field} :
    checkFields model seen fields = .ok ()
      ↔ (fields.map Field.name).Nodup ∧ (∀ f ∈ fields, f.name ∉ seen)
        ∧ ∀ f ∈ fields, isKeyName f.name = true → f.kind.isKey = true := by
  induction fields generalizing seen with
  | nil => simp [checkFields]
  | cons f fields ih =>
      rw [checkFields, List.contains_eq_mem]
      by_cases hseen : f.name ∈ seen
      · simp [hseen]
      · simp only [hseen, decide_false, Bool.false_eq_true, if_false]
        split
        · rename_i hkey
          simp only [Bool.and_eq_true, Bool.not_eq_true'] at hkey
          simp [hkey.1, hkey.2]
        · rename_i hkey
          have hkey' : isKeyName f.name = true → f.kind.isKey = true := by
            simpa using hkey
          rw [ih, List.map_cons, List.nodup_cons, List.mem_map, List.forall_mem_cons,
            List.forall_mem_cons]
          simp only [List.mem_cons, not_or]
          constructor
          · rintro ⟨hnd, hall, hkeys⟩
            refine ⟨⟨?_, hnd⟩, ⟨hseen, fun g hg => (hall g hg).2⟩, hkey', hkeys⟩
            rintro ⟨g, hg, hgf⟩
            exact (hall g hg).1 hgf
          · rintro ⟨⟨hnot, hnd⟩, ⟨-, hall⟩, -, hkeys⟩
            exact ⟨hnd, fun g hg => ⟨fun heq => hnot ⟨g, hg, heq⟩, hall g hg⟩, hkeys⟩

/-- A model is accepted exactly if it is well formed. -/
theorem build_eq_ok_iff {name : String} {fields : List Field} {m : Model} :
    build name fields = .ok m ↔ m = ⟨name, fields⟩ ∧ m.WellFormed := by
  have hfind : [partitionKeyName, sortKeyName].find?
        (fun key => !fields.any (fun f => f.name = key)) = none
      ↔ ∀ key ∈ [partitionKeyName, sortKeyName], ∃ f ∈ fields, f.name = key := by
    simp only [List.find?_eq_none, Bool.not_eq_true', Bool.not_eq_false, List.any_eq_true,
      decide_eq_true_eq]
  constructor
  · intro h
    obtain ⟨⟨⟩, hcheck, h⟩ := bind_eq_ok_iff.mp h
    obtain ⟨hnd, -, hkeys⟩ := checkFields_eq_ok_iff.mp hcheck
    split at h
    · cases h
    · rename_i hnone
      cases h
      exact ⟨rfl, hnd, hkeys, hfind.mp hnone⟩
  · rintro ⟨rfl, hm⟩
    have hcheck : checkFields name [] fields = .ok () :=
      checkFields_eq_ok_iff.mpr ⟨hm.distinct, by simp, hm.reserved⟩
    refine bind_eq_ok_iff.mpr ⟨(), hcheck, ?_⟩
    rw [hfind.mpr hm.keys]
    rfl

/-- The field of a name in a well-formed model. -/
theorem WellFormed.field?_eq_some_iff {m : Model} (h : m.WellFormed) {n : String} {f : Field} :
    m.field? n = some f ↔ f ∈ m.fields ∧ f.name = n :=
  find?_name_eq_some_iff h.distinct

theorem WellFormed.eq_of_name {m : Model} (h : m.WellFormed) {f g : Field} (hf : f ∈ m.fields)
    (hg : g ∈ m.fields) (hname : f.name = g.name) : f = g :=
  Option.some.inj ((h.field?_eq_some_iff.mpr ⟨hf, hname⟩).symm.trans
    (h.field?_eq_some_iff.mpr ⟨hg, rfl⟩))

/-- A field that is generated or required has no key name. -/
theorem WellFormed.not_isKeyName {m : Model} (h : m.WellFormed) {f : Field} (hf : f ∈ m.fields)
    (hkind : f.kind.function? = none) : isKeyName f.name = false := by
  cases hn : isKeyName f.name with
  | false => rfl
  | true =>
      have hkey := h.reserved f hf hn
      cases hk : f.kind with
      | key value =>
          rw [hk] at hkind
          cases hkind
      | _ =>
          rw [hk] at hkey
          cases hkey

end Model

/-! ## Schemas -/

namespace Schema

/-- Some model declares the field, and every model that does gives it the type. -/
def Declares (models : List Model) (field : String) (type : AttributeType) : Prop :=
  (∃ m ∈ models, (m.field? field).isSome = true)
    ∧ ∀ m ∈ models, ∀ f, m.field? field = some f → f.attributeType = type

theorem mem_declarations {models : List Model} {field : String} {d : String × AttributeType} :
    d ∈ declarations models field
      ↔ ∃ m ∈ models, ∃ f, m.field? field = some f ∧ (m.name, f.attributeType) = d := by
  simp only [declarations, List.mem_filterMap, Option.map_eq_some_iff]

/-- The declarations of a field all give it the type, and there is one, exactly if the field is
declared with the type throughout. -/
theorem declares_iff {models : List Model} {field : String} {type : AttributeType} :
    Declares models field type
      ↔ declarations models field ≠ [] ∧ ∀ d ∈ declarations models field, d.2 = type := by
  constructor
  · rintro ⟨⟨m, hm, hsome⟩, hall⟩
    obtain ⟨f, hf⟩ := Option.isSome_iff_exists.mp hsome
    refine ⟨List.ne_nil_of_mem (mem_declarations.mpr ⟨m, hm, f, hf, rfl⟩), fun d hd => ?_⟩
    obtain ⟨n, hn, g, hg, rfl⟩ := mem_declarations.mp hd
    exact hall n hn g hg
  · rintro ⟨hne, hall⟩
    obtain ⟨d, hd⟩ := List.exists_mem_of_ne_nil _ hne
    obtain ⟨m, hm, f, hf, -⟩ := mem_declarations.mp hd
    refine ⟨⟨m, hm, Option.isSome_iff_exists.mpr ⟨f, hf⟩⟩, fun n hn g hg => ?_⟩
    exact hall _ (mem_declarations.mpr ⟨n, hn, g, hg, rfl⟩)

theorem checkKeyField_eq_ok_iff {models : List Model} {key : String × String} :
    checkKeyField models key = .ok ()
      ↔ ∃ type, type.isKey = true ∧ Declares models key.2 type := by
  simp only [checkKeyField, declares_iff]
  cases hd : declarations models key.2 with
  | nil => simp
  | cons d others =>
      obtain ⟨firstModel, first⟩ := d
      simp only [ne_eq, reduceCtorEq, not_false_eq_true, List.forall_mem_cons, true_and]
      cases hkey : first.isKey with
      | false =>
          simp only [Bool.not_false, if_true, reduceCtorEq, false_iff]
          rintro ⟨type, htype, rfl, -⟩
          rw [hkey] at htype
          cases htype
      | true =>
          simp only [Bool.not_true, Bool.false_eq_true, if_false]
          cases hfind : others.find? (fun d => d.2 ≠ first) with
          | none =>
              have hall : ∀ d ∈ others, d.2 = first := by
                simpa using List.find?_eq_none.mp hfind
              exact ⟨fun _ => ⟨first, hkey, rfl, hall⟩, fun _ => rfl⟩
          | some d =>
              have hne : d.2 ≠ first := by simpa using List.find?_some hfind
              refine ⟨nofun, ?_⟩
              rintro ⟨type, -, rfl, hall⟩
              exact absurd (hall d (List.mem_of_find?_eq_some hfind)) hne

/-- The type of a field that is declared with one type throughout. -/
theorem fieldType?_of_declares {s : Schema} {field : String} {type : AttributeType}
    (h : Declares s.models field type) : s.fieldType? field = some type := by
  obtain ⟨⟨m, hm, hsome⟩, hall⟩ := h
  rw [fieldType?]
  cases hfind : s.models.findSome? (fun m => m.field? field) with
  | none =>
      rw [List.findSome?_eq_none_iff.mp hfind m hm] at hsome
      cases hsome
  | some f =>
      obtain ⟨n, hn, hf⟩ := List.exists_of_findSome?_eq_some hfind
      exact congrArg some (hall n hn f hf)

/-- There is a model, the names of models and of indexes differ, no partition key of an index has the
name of a placeholder, and every key field is declared with one type of keys throughout. -/
structure Consistent (s : Schema) : Prop where
  inhabited : s.models ≠ []
  models : (s.models.map Model.name).Nodup
  indexes : s.indexNames.Nodup
  hashes : ∀ i ∈ s.globalIndexes, Placeholder.collides i.hash = false
  keys : ∀ n ∈ s.keyFieldNames, ∃ type, type.isKey = true ∧ Declares s.models n type

/-- The key fields that are checked are those of the table. -/
theorem mem_map_keyFields {s : Schema} {n : String} :
    n ∈ s.keyFields.map Prod.snd ↔ n ∈ s.keyFieldNames := by
  have hglobal : (s.globalIndexes.flatMap
      (fun i => i.keyNames.map (fun n => (i.effectiveName, n)))).map Prod.snd
      = s.globalIndexes.flatMap GlobalIndex.keyNames := by
    rw [List.map_flatMap]
    simp [Function.comp_def]
  simp only [keyFields, keyFieldNames, List.map_append, hglobal, List.map_cons, List.map_nil,
    List.map_map, List.mem_append, List.mem_cons, List.mem_map, List.mem_flatMap,
    Function.comp_apply, List.not_mem_nil, or_false]
  constructor
  · rintro ((h | h) | ⟨i, hi, rfl⟩)
    · exact Or.inl (Or.inl h)
    · exact Or.inl (Or.inr h)
    · exact Or.inr ⟨i, hi, Or.inr rfl⟩
  · rintro ((h | h) | ⟨i, hi, rfl | rfl⟩)
    · exact Or.inl (Or.inl h)
    · exact Or.inl (Or.inr h)
    -- the partition key of a local index is that of the table
    · exact Or.inl (Or.inl (Or.inl rfl))
    · exact Or.inr ⟨i, hi, rfl⟩

theorem forM_checkKeyField_iff {s : Schema} :
    s.keyFields.forM (checkKeyField s.models) = .ok ()
      ↔ ∀ n ∈ s.keyFieldNames, ∃ type, type.isKey = true ∧ Declares s.models n type := by
  simp only [forM_eq_ok_iff, checkKeyField_eq_ok_iff, ← mem_map_keyFields, List.forall_mem_map]

/-- A schema is consistent exactly if it passes the checks one by one. -/
theorem consistent_iff {s : Schema} :
    s.Consistent
      ↔ s.models.isEmpty = false ∧ firstRepeated? [] (s.models.map Model.name) = none
        ∧ firstRepeated? [] s.indexNames = none
        ∧ s.globalIndexes.find? (fun i => Placeholder.collides i.hash) = none
        ∧ s.keyFields.forM (checkKeyField s.models) = .ok () := by
  have hnone : ∀ names, firstRepeated? [] names = none ↔ names.Nodup := by
    intro names
    simp [firstRepeated?_eq_none_iff]
  have hmodels : s.models.isEmpty = false ↔ s.models ≠ [] := by simp
  have hhashes : s.globalIndexes.find? (fun i => Placeholder.collides i.hash) = none
      ↔ ∀ i ∈ s.globalIndexes, Placeholder.collides i.hash = false := by simp
  rw [hmodels, hnone, hnone, hhashes, forM_checkKeyField_iff]
  constructor
  · intro h
    exact ⟨h.inhabited, h.models, h.indexes, h.hashes, h.keys⟩
  · rintro ⟨hinhabited, hnames, hindexes, hhash, hkeys⟩
    exact ⟨hinhabited, hnames, hindexes, hhash, hkeys⟩

/-- A schema is accepted exactly if it is consistent. -/
theorem build_eq_ok_iff {models : List Model} {globalIndexes : List GlobalIndex}
    {localIndexes : List LocalIndex} {s : Schema} :
    build models globalIndexes localIndexes = .ok s
      ↔ s = ⟨models, globalIndexes, localIndexes⟩ ∧ s.Consistent := by
  have hsame : (s = ⟨models, globalIndexes, localIndexes⟩ ∧ s.Consistent)
      ↔ (⟨models, globalIndexes, localIndexes⟩ : Schema).Consistent
        ∧ ⟨models, globalIndexes, localIndexes⟩ = s :=
    ⟨fun ⟨heq, h⟩ => ⟨heq ▸ h, heq.symm⟩, fun ⟨h, heq⟩ => ⟨heq.symm, heq ▸ h⟩⟩
  rw [hsame, consistent_iff, build]
  -- each check either stops with its refusal or lets the next one go on
  cases models.isEmpty with
  | true => exact ⟨nofun, nofun⟩
  | false =>
      cases firstRepeated? [] (models.map Model.name) with
      | some name => exact ⟨nofun, nofun⟩
      | none =>
          cases firstRepeated? [] (Schema.mk models globalIndexes localIndexes).indexNames with
          | some name => exact ⟨nofun, nofun⟩
          | none =>
              cases globalIndexes.find? (fun i => Placeholder.collides i.hash) with
              | some i => exact ⟨nofun, nofun⟩
              | none =>
                  refine bind_eq_ok_iff.trans ?_
                  simp only [pure_eq_ok_iff, true_and]
                  constructor
                  · rintro ⟨_, h, hs⟩
                    exact ⟨h, hs⟩
                  · rintro ⟨h, hs⟩
                    exact ⟨(), h, hs⟩

namespace Consistent

variable {s : Schema} (h : s.Consistent)

include h

/-- A key field has one type of keys in all models that declare it, and this is its type in the
table. -/
theorem fieldType?_eq {n : String} (hn : n ∈ s.keyFieldNames) :
    ∃ type, s.fieldType? n = some type ∧ type.isKey = true ∧ Declares s.models n type := by
  obtain ⟨type, hkey, hdecl⟩ := h.keys n hn
  exact ⟨type, fieldType?_of_declares hdecl, hkey, hdecl⟩

end Consistent

end Schema

end SingleTable
