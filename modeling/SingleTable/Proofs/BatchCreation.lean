import SingleTable.Proofs.ReadBack

set_option autoImplicit false

/-!
# Creating many items

Items that are created together are all made first, and are then put in one batch. Items that are created
one after the other are made and put by turns. Making an item does not look at the store and putting one
draws no id, so both do the same (`Database.run_mapM_create_eq_ok_iff`), but for the size of a batch
(`Database.createMany_exact`).
-/

namespace SingleTable

namespace Database

variable {db : Database} {m : BoundModel} {s s' : Session MemoryStore}

/-- Storing an item puts it into the store and draws no id. -/
theorem run_putItem_eq_ok_iff_put {item : Item} :
    ExceptT.run (db.putItem item) s = (.ok (), s')
      ↔ ∃ store, s.store.put ⟨db.config.name, item⟩ = .ok store ∧ s' = { s with store } := by
  refine run_ofStore_writing_eq_ok_iff.trans (exists_congr fun store => and_congr_left fun _ => ?_)
  rw [map_eq_ok_iff]
  simp

/-- Creations one after the other succeed exactly if all items can be made, and can then be put one after
the other. -/
theorem run_mapM_create_eq_ok_iff {params : List Params} {items : List Item} :
    ExceptT.run (params.mapM (db.create m)) s = (.ok items, s')
      ↔ ExceptT.run (params.mapM (fun p => m.model.materialize db.ids p none)) s.drawn
            = (.ok items, s'.drawn)
        ∧ s.store.putOneByOne db.config.name items = .ok s'.store := by
  induction params generalizing s items with
  | nil =>
      constructor
      · intro h
        cases h
        exact ⟨rfl, rfl⟩
      · rintro ⟨hmade, hput⟩
        obtain ⟨store, drawn⟩ := s'
        cases hmade
        cases hput
        rfl
  | cons p params ih =>
      rw [run_mapM_cons_eq_ok_iff, run_mapM_cons_eq_ok_iff]
      -- the first creation changes the ids drawn and the store, each of them by itself
      constructor
      · rintro ⟨item, u, rest, hitem, hrest, rfl⟩
        obtain ⟨drawn, hmade, hput⟩ := run_create_eq_ok_iff.mp hitem
        obtain ⟨store, hstore, rfl⟩ := run_putItem_eq_ok_iff_put.mp hput
        obtain ⟨hmades, hputs⟩ := ih.mp hrest
        exact ⟨⟨item, drawn, rest, hmade, hmades, rfl⟩, bind_eq_ok_iff.mpr ⟨store, hstore, hputs⟩⟩
      · rintro ⟨⟨item, drawn, rest, hmade, hmades, rfl⟩, h⟩
        obtain ⟨store, hstore, hputs⟩ := bind_eq_ok_iff.mp h
        exact ⟨item, { store, drawn }, rest, run_create_eq_ok_iff.mpr ⟨drawn, hmade,
          run_putItem_eq_ok_iff_put.mpr ⟨store, hstore, rfl⟩⟩, ih.mpr ⟨hmades, hputs⟩, rfl⟩

/-- Creating many items does the same as creating them one after the other: it answers exactly if there
are at most 25 of them and every creation would answer, and then it returns the same items in the same
order, has drawn the same ids and leaves the same store. In all other cases it fails and the store stays
as it is. Without parameters nothing happens. -/
theorem createMany_exact (db : Database) (m : BoundModel) (params : List Params)
    (s : Session MemoryStore) :
    (∀ items s', ExceptT.run (db.createMany m params) s = (.ok items, s')
        ↔ params.length ≤ 25 ∧ ExceptT.run (params.mapM (db.create m)) s = (.ok items, s'))
      ∧ ((∃ items s', ExceptT.run (db.createMany m params) s = (.ok items, s'))
        ∨ ∃ e s', ExceptT.run (db.createMany m params) s = (.error e, s') ∧ s'.store = s.store)
      ∧ ExceptT.run (db.createMany m []) s = (.ok [], s) := by
  refine ⟨fun items s' => ?_, ?_, rfl⟩
  · rw [run_createMany_eq_ok_iff, run_mapM_create_eq_ok_iff]
    constructor
    · rintro ⟨hmade, hlen, hput⟩
      exact ⟨(run_mapM_eq_ok hmade).1 ▸ hlen, hmade, hput⟩
    · rintro ⟨hlen, hmade, hput⟩
      exact ⟨hmade, (run_mapM_eq_ok hmade).1 ▸ hlen, hput⟩
  · obtain ⟨result, s', h⟩ : ∃ result s', ExceptT.run (db.createMany m params) s = (result, s') :=
      ⟨_, _, rfl⟩
    cases result with
    | ok items => exact Or.inl ⟨items, s', h⟩
    | error e =>
        exact Or.inr ⟨e, s', h, ModelWrite.keepsStoreOnError db m (.createMany params) s e s' h⟩

end Database

/-- Another book under the number of the first one. -/
def secondEdition : Params := Dict.ofList [("number", .string "1"), ("author", .string "b")]

/-- Of two books under one number that are created together the last one stays. -/
example : library.storedItems (newLibrary.after (library.createMany books [firstBook, secondEdition]))
    = [firstBookItem.insert "author" (.string "b")] := rfl

end SingleTable
