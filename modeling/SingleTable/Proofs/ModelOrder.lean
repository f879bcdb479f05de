import SingleTable.Proofs.CompiledQuery
import SingleTable.Proofs.SchemaTable

set_option autoImplicit false

/-!
# The order of models

A schema is accepted or refused whatever the order in which its models are registered, and the table of
an accepted schema is the same for every order (`Schema.build_iff_of_perm`). The check of a key field
compares the first declaration with the others, and the table takes the type of the first one; neither
depends on which one comes first because all declarations agree.
-/

namespace SingleTable

namespace Schema

variable {models models' : List Model} {globalIndexes : List GlobalIndex}
  {localIndexes : List LocalIndex} {field : String} {type : AttributeType}

/-! ## Declarations in any order -/

theorem Declares.of_perm (hperm : models'.Perm models) (h : Declares models field type) :
    Declares models' field type := by
  obtain ⟨⟨m, hm, hsome⟩, hall⟩ := h
  exact ⟨⟨m, hperm.mem_iff.mpr hm, hsome⟩, fun m hm => hall m (hperm.mem_iff.mp hm)⟩

theorem Consistent.of_perm (hperm : models'.Perm models)
    (h : Consistent ⟨models, globalIndexes, localIndexes⟩) :
    Consistent ⟨models', globalIndexes, localIndexes⟩ where
  inhabited := fun hnil => h.inhabited (hperm.symm.trans (.of_eq hnil)).eq_nil
  models := (hperm.map Model.name).nodup_iff.mpr h.models
  indexes := h.indexes
  hashes := h.hashes
  keys := fun n hn => by
    obtain ⟨type, hkey, hdecl⟩ := h.keys n hn
    exact ⟨type, hkey, hdecl.of_perm hperm⟩

/-! ## The table in any order -/

variable (hperm : models'.Perm models) (h : Consistent ⟨models, globalIndexes, localIndexes⟩)

include hperm h

/-- The first models that declare a key field give it the same type. -/
theorem Consistent.fieldType?_of_perm {n : String}
    (hn : n ∈ keyFieldNames ⟨models, globalIndexes, localIndexes⟩) :
    fieldType? ⟨models', globalIndexes, localIndexes⟩ n
      = fieldType? ⟨models, globalIndexes, localIndexes⟩ n := by
  obtain ⟨type, htype, -, hdecl⟩ := h.fieldType?_eq hn
  rw [htype]
  exact fieldType?_of_declares (hdecl.of_perm hperm)

theorem Consistent.definitions_of_perm :
    definitions ⟨models', globalIndexes, localIndexes⟩
      = definitions ⟨models, globalIndexes, localIndexes⟩ := by
  refine List.map_congr_left fun n hn => ?_
  rw [h.fieldType?_of_perm hperm (mem_firstOccurrences.mp hn)]

/-- Only the definitions of a table depend on the models. -/
theorem Consistent.createRequest_of_perm (config : TableConfig) :
    createRequest ⟨models', globalIndexes, localIndexes⟩ config
      = createRequest ⟨models, globalIndexes, localIndexes⟩ config := by
  rw [createRequest, createRequest, h.definitions_of_perm hperm]

omit h

/-- A schema is accepted exactly if there is a model, the names of models differ, those of indexes
differ, no partition key of a global index is named like a placeholder of sort conditions, and every key
field is declared, by all models that declare it with one type of keys. So it is accepted for all orders
of its models or for none, and for all orders the key fields have the same types and the table has the
same definitions and is created by the same request. -/
theorem build_iff_of_perm (globalIndexes : List GlobalIndex) (localIndexes : List LocalIndex) :
    (∀ s, build models globalIndexes localIndexes = .ok s
      ↔ s = ⟨models, globalIndexes, localIndexes⟩
        ∧ models ≠ [] ∧ (models.map Model.name).Nodup ∧ s.indexNames.Nodup
        ∧ (∀ i ∈ globalIndexes, i.hash ∉ Placeholder.names)
        ∧ ∀ n ∈ s.keyFieldNames, ∃ type, type.isKey = true ∧ Declares models n type)
    ∧ ((∃ s, build models globalIndexes localIndexes = .ok s)
      ↔ ∃ s', build models' globalIndexes localIndexes = .ok s')
    ∧ ∀ s s', build models globalIndexes localIndexes = .ok s →
      build models' globalIndexes localIndexes = .ok s' →
      (∀ n ∈ s.keyFieldNames, s'.fieldType? n = s.fieldType? n)
        ∧ s'.definitions = s.definitions
        ∧ ∀ config, s'.createRequest config = s.createRequest config := by
  refine ⟨fun s => ?_, ⟨?_, ?_⟩, ?_⟩
  · rw [build_eq_ok_iff]
    refine and_congr_right ?_
    rintro rfl
    have hhashes : (∀ i ∈ globalIndexes, i.hash ∉ Placeholder.names)
        ↔ ∀ i ∈ globalIndexes, Placeholder.collides i.hash = false := by
      simp only [← Placeholder.collides_iff, Bool.not_eq_true]
    rw [hhashes]
    exact ⟨fun h => ⟨h.inhabited, h.models, h.indexes, h.hashes, h.keys⟩,
      fun ⟨hne, hnames, hindexes, hhash, hkeys⟩ => ⟨hne, hnames, hindexes, hhash, hkeys⟩⟩
  · rintro ⟨s, hs⟩
    obtain ⟨rfl, h⟩ := build_eq_ok_iff.mp hs
    exact ⟨_, build_eq_ok_iff.mpr ⟨rfl, h.of_perm hperm⟩⟩
  · rintro ⟨s', hs'⟩
    obtain ⟨rfl, h⟩ := build_eq_ok_iff.mp hs'
    exact ⟨_, build_eq_ok_iff.mpr ⟨rfl, h.of_perm hperm.symm⟩⟩
  · intro s s' hs hs'
    obtain ⟨rfl, h⟩ := build_eq_ok_iff.mp hs
    obtain ⟨rfl, -⟩ := build_eq_ok_iff.mp hs'
    exact ⟨fun n hn => h.fieldType?_of_perm hperm hn, h.definitions_of_perm hperm,
      h.createRequest_of_perm hperm⟩

end Schema

/-- The readers of the library may be registered before its books. -/
theorem build_library_reversed : [reader, book].Perm [book, reader]
    ∧ Schema.build [book, reader] [byAuthor] [] = .ok library.schema
    ∧ ∃ s', Schema.build [reader, book] [byAuthor] [] = .ok s'
      ∧ s'.fieldType? "author" = some .string
      ∧ s'.createRequest library.config = library.schema.createRequest library.config := by
  have hperm : [reader, book].Perm [book, reader] := .swap book reader []
  obtain ⟨-, hboth, hsame⟩ := Schema.build_iff_of_perm hperm [byAuthor] []
  obtain ⟨s', hs'⟩ := hboth.mp ⟨_, build_library⟩
  obtain ⟨htypes, -, hrequest⟩ := hsame _ _ build_library hs'
  have hauthor : "author" ∈ library.schema.keyFieldNames := by decide
  exact ⟨hperm, build_library, s', hs', htypes _ hauthor, hrequest _⟩

end SingleTable
