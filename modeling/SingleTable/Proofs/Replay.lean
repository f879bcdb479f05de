import SingleTable.Proofs.ReadBack
import SingleTable.Proofs.Remaking

set_option autoImplicit false

/-!
# Replaying a creation

An update drops the parameter that has the name of the sort key, and then makes the item anew from what
it holds. So a creation whose parameters are handed in again as an update of its item changes nothing
exactly if the model computes the same without this parameter (`Model.Replays`,
`Database.update_after_create`), and in particular if there is none or no function looks at it.
-/

namespace SingleTable

namespace Model

/-- No function of the model depends on a parameter that has the name of the sort key. -/
def IgnoresSort (m : Model) : Prop :=
  ∀ f ∈ m.fields, ∀ value, f.kind.function? = some value →
    ∀ params : Params, value (params.erase sortKeyName) = value params

/-- The item replays the parameters: from its generated and required values, and from the parameters
without the sort key, its derived values are computed again, and keys that the validators accept. -/
def Replays (m : Model) (params : Params) (item : Item) : Prop :=
  ∃ known, m.Knows (params.erase sortKeyName) item known
    ∧ ∀ f ∈ m.fields, ∀ value, f.kind.function? = some value →
        ∃ v, f.validator.parse (value known) = .ok v
          ∧ (isKeyName f.name = false → item.get? f.name = some v)

variable {m : Model} {ids ids' : IdSource} {params : Params} {existing : Option Item}
  {item made : Item} {partition sort : AttributeValue}

/-- The sort key is computed, so under its name only a parameter is known, and it can be dropped. -/
theorem Knows.erase {known : Params} (hm : m.WellFormed) (h : m.Knows params item known) :
    known.get? sortKeyName = params.get? sortKeyName
      ∧ m.Knows (params.erase sortKeyName) item (known.erase sortKeyName) := by
  have hname : ∀ f ∈ m.fields, f.kind.isComputed = false → f.name ≠ sortKeyName := by
    intro f hf hkind hname
    have hkey := hm.not_isKeyName hf (FieldKind.isComputed_eq_false_iff.mp hkind)
    rw [hname] at hkey
    cases hkey
  refine ⟨h.others sortKeyName hname, fun f hf hkind => ?_, fun n hn => ?_⟩
  · rw [Dict.get?_erase, if_neg (hname f hf hkind), h.supplied f hf hkind]
  · rw [Dict.get?_erase, Dict.get?_erase, h.others n hn]

/-- A made item replays its parameters if they have no sort key or no function of the model depends on
it. -/
theorem Makes.replays (hm : m.WellFormed) (h : m.Makes ids params existing item)
    (hsort : params.get? sortKeyName = none ∨ m.IgnoresSort) : m.Replays params item := by
  obtain ⟨known, hknows, hcomputed⟩ := h.computed
  obtain ⟨hget, herase⟩ := hknows.erase hm
  refine ⟨_, herase, fun f hf value hvalue => ?_⟩
  have hsame : value (known.erase sortKeyName) = value known := by
    rcases hsort with hnone | hignores
    · rw [Dict.erase_of_get?_eq_none (hget.trans hnone)]
    · exact hignores f hf value hvalue known
  obtain ⟨v, hv, hparse⟩ := hcomputed f hf value hvalue
  exact ⟨v, hsame ▸ hparse, fun _ => hv⟩

/-- What an update stores is equal to the item that it replaces if both have the same keys and the same
values under all other names. -/
theorem insert_keys_eq (hpartition : item.get? partitionKeyName = some partition)
    (hsort : item.get? sortKeyName = some sort)
    (hsame : ∀ n, isKeyName n = false → made.get? n = item.get? n) :
    (made.insert sortKeyName sort).insert partitionKeyName partition = item := by
  refine Dict.ext_get? fun n => ?_
  rw [Dict.get?_insert, Dict.get?_insert]
  split
  · rename_i hn
    rw [hn, hpartition]
  · split
    · rename_i hn
      rw [hn, hsort]
    · rename_i hpk hsk
      exact hsame n (by simp [isKeyName, hpk, hsk])

/-- An item that replays parameters is made of them again, but for its keys, and no id is drawn. -/
theorem Replays.run_materialize (hm : m.WellFormed) (hmakes : m.Makes ids params existing item)
    (h : m.Replays params item) (ids' : IdSource) (n : Nat) :
    ∃ made, ExceptT.run (m.materialize ids' (params.erase sortKeyName) (some item)) n = (.ok made, n)
      ∧ ∀ name, isKeyName name = false → made.get? name = item.get? name := by
  have hsome : ∀ f ∈ m.fields, f.kind.isComputed = false → (item.get? f.name).isSome = true :=
    fun f hf _ => hmakes.isSome hf
  obtain ⟨known, hknows, hcomputed⟩ := h
  obtain ⟨made, hmade⟩ : ∃ made, ExceptT.run
      (m.materialize ids' (params.erase sortKeyName) (some item)) n = (.ok made, n) := by
    refine exists_run_materialize_of_parses hm hsome ?_ ids' n
    intro known' hknows' f hf value hvalue
    obtain ⟨v, hparse, -⟩ := hcomputed f hf value hvalue
    exact ⟨v, hknows.unique hknows' ▸ hparse⟩
  have hagain := makes_of_materialize hm hmade
  obtain ⟨known', hknows', hcomputed'⟩ := hagain.computed_of_complete hsome
  obtain rfl : known = known' := hknows.unique hknows'
  refine ⟨made, hmade, fun name hname => ?_⟩
  by_cases hmem : name ∈ m.fields.map Field.name
  · obtain ⟨f, hf, rfl⟩ := List.mem_map.mp hmem
    cases hfun : f.kind.function? with
    | none =>
        obtain ⟨v, hv⟩ := Option.isSome_iff_exists.mp (hmakes.isSome hf)
        rw [hv, hagain.kept rfl hf (FieldKind.isComputed_eq_false_iff.mpr hfun) hv]
    | some value =>
        obtain ⟨v, hparse, hv⟩ := hcomputed f hf value hfun
        obtain ⟨w, hw, hparse'⟩ := hcomputed' f hf value hfun
        obtain rfl : v = w := Except.ok.inj (hparse.symm.trans hparse')
        rw [hw, hv hname]
  · rw [hagain.get?_eq_none hmem, hmakes.get?_eq_none hmem]

/-- An item replays parameters if it is made of them again, but for its keys. -/
theorem replays_of_makes (hmakes : m.Makes ids params existing item)
    (hmade : m.Makes ids' (params.erase sortKeyName) (some item) made)
    (hsame : ∀ name, isKeyName name = false → made.get? name = item.get? name) :
    m.Replays params item := by
  obtain ⟨known, hknows, hcomputed⟩ := hmade.computed_of_complete fun f hf _ => hmakes.isSome hf
  refine ⟨known, hknows, fun f hf value hvalue => ?_⟩
  obtain ⟨v, hv, hparse⟩ := hcomputed f hf value hvalue
  exact ⟨v, hparse, fun hname => (hsame f.name hname).symm.trans hv⟩

end Model

namespace Database

variable {db : Database} {t : StoredTable} {s s' : Session MemoryStore}

/-- A stored item is found under its keys, and storing it again changes nothing. -/
theorem putItem_again {item : Item} (ht : s.store.tables.get? db.config.name = some t)
    (hkeys : t.schema = db.schema.tableKeys) (h : ExceptT.run (db.putItem item) s = (.ok (), s')) :
    ∃ partition sort, item.get? partitionKeyName = some partition
      ∧ item.get? sortKeyName = some sort
      ∧ ExceptT.run (db.get partition sort) s' = (.ok (some item), s')
      ∧ ExceptT.run (db.putItem item) s' = (.ok (), s') := by
  obtain ⟨u, t', hu, hput, hs'⟩ := run_putItem_eq_ok_iff.mp h
  obtain rfl : t = u := Option.some.inj (ht.symm.trans hu)
  have ht' : s'.store.tables.get? db.config.name = some t' := by
    rw [hs']
    exact (MemoryStore.get?_setTable _ _ _ _).trans (if_pos rfl)
  have hagain : ExceptT.run (db.putItem item) s' = (.ok (), s') :=
    run_putItem_eq_ok_iff.mpr ⟨t', t', ht', StoredTable.put_again hput,
      by rw [MemoryStore.setTable_self ht']⟩
  obtain ⟨-, key, hkey, rfl⟩ := StoredTable.put_eq_ok_iff.mp hput
  rw [hkeys] at hkey
  obtain ⟨p, k, hp, hk, hadm, rfl⟩ := Schema.extract_eq_ok_iff.mp hkey
  refine ⟨p, k, hp, hk, ?_, hagain⟩
  rw [run_get_of_admitsKey ht' hkeys hadm, Storage.get?_putAt_self]

/-- The parameters of a creation are handed in again as an update of its item: the update returns this
item and changes nothing exactly if the item replays the parameters. It does so if the parameters do not
name the sort key, or if no function of the model looks at this name. This holds of every model of an
accepted schema, in every session that is reached from the creation of the table by any writes, for
items that stand under the partition key of the model. -/
theorem update_after_create {models : List Model} {globalIndexes : List GlobalIndex}
    {localIndexes : List LocalIndex}
    (hbuild : Schema.build models globalIndexes localIndexes = .ok db.schema)
    (hmodels : ∀ m ∈ models, Model.build m.name m.fields = .ok m)
    {s₀ s₁ : Session MemoryStore} {reply : TableReply}
    (hcreate : ExceptT.run db.createTable s₀ = (.ok reply, s₁))
    (hrun : Session.Continued db.config.name s₁ s) {name : String} {m : BoundModel}
    (hm : db.model name = .ok m) {params : Params} {item : Item}
    (hitem : ExceptT.run (db.create m params) s = (.ok item, s'))
    (hpartition : item.get? partitionKeyName = some m.partition) :
    ∃ sort, item.get? sortKeyName = some sort
      ∧ (∀ upsert, ExceptT.run (db.update m sort params upsert) s' = (.ok item, s')
          ↔ m.model.Replays params item)
      ∧ (params.get? sortKeyName = none ∨ m.model.IgnoresSort → m.model.Replays params item) := by
  have hmem := (model_eq_ok hm).1
  rw [(Schema.build_eq_ok_iff.mp hbuild).1] at hmem
  have hwf : m.model.WellFormed := (Model.build_eq_ok_iff.mp (hmodels m.model hmem)).2
  obtain ⟨t₁, ht₁, -, hkeys₁, -, -⟩ := table_of_createTable hcreate
  obtain ⟨t, ht, hsame⟩ := hrun.table ht₁
  obtain ⟨drawn, hmade, hput⟩ := run_create_eq_ok_iff.mp hitem
  have hmakes := Model.makes_of_materialize hwf hmade
  obtain ⟨p, sort, hp, hsort, hget, hagain⟩ :=
    putItem_again (s := { s with drawn }) ht (hsame.schema.trans hkeys₁) hput
  obtain rfl : p = m.partition := Option.some.inj (hp.symm.trans hpartition)
  refine ⟨sort, hsort, fun upsert => ⟨fun h => ?_, fun h => ?_⟩, hmakes.replays hwf⟩
  · obtain ⟨u, hprepare, -⟩ := run_update_eq_ok_iff.mp h
    obtain ⟨existing, made, n, hget', hmade', heq, -⟩ := run_prepareUpdate_eq_ok hprepare
    obtain rfl : some item = existing := Except.ok.inj (Prod.mk.inj (hget.symm.trans hget')).1
    refine Model.replays_of_makes hmakes (Model.makes_of_materialize hwf hmade') fun n hn => ?_
    rw [heq, get?_insert_keys hn]
  · obtain ⟨made, hmade', hsame'⟩ := h.run_materialize hwf hmakes db.ids s'.drawn
    refine run_update_eq_ok_iff.mpr ⟨s', ?_, hagain⟩
    have hdrawn : ExceptT.run (SessionM.ofDrawing (m.model.materialize db.ids
        (params.erase sortKeyName) (some item))) s' = (.ok made, s') :=
      run_ofDrawing_eq_ok_iff.mpr ⟨_, hmade', rfl⟩
    rw [run_prepareUpdate_of_get hget, if_neg (by simp), run_bind_of_ok hdrawn,
      Model.insert_keys_eq hpartition hsort hsame']
    rfl

end Database

/-- The first book is not changed by an update with the parameters that it has been made of. -/
theorem firstBook_replayed :
    Schema.build [book, reader] [byAuthor] [] = .ok library.schema
      ∧ (∀ m ∈ [book, reader], Model.build m.name m.fields = .ok m)
      ∧ (∃ reply, ExceptT.run library.createTable noTables = (.ok reply, newLibrary))
      ∧ library.model "book" = .ok books
      ∧ firstBookItem.get? partitionKeyName = some books.partition
      ∧ firstBook.get? sortKeyName = none
      ∧ ∃ s', ExceptT.run (library.create books firstBook) newLibrary = (.ok firstBookItem, s')
        ∧ ∀ upsert, ExceptT.run (library.update books (.string "1") firstBook upsert) s'
            = (.ok firstBookItem, s') := by
  have hcreate : ∃ reply, ExceptT.run library.createTable noTables = (.ok reply, newLibrary) :=
    ⟨_, rfl⟩
  have hbound : library.model "book" = .ok books := rfl
  have hpartition : firstBookItem.get? partitionKeyName = some books.partition := rfl
  have hmade : ∃ s', ExceptT.run (library.create books firstBook) newLibrary
      = (.ok firstBookItem, s') := ⟨_, rfl⟩
  obtain ⟨reply, hreply⟩ := hcreate
  obtain ⟨s', hs'⟩ := hmade
  obtain ⟨sort, hsort, hupdate, hreplays⟩ := Database.update_after_create build_library
    build_models_library hreply .start hbound hs' hpartition
  cases hsort
  exact ⟨build_library, build_models_library, ⟨reply, hreply⟩, hbound, hpartition, rfl, s', hs',
    fun upsert => (hupdate upsert).mpr (hreplays (Or.inl rfl))⟩

/-! ## A board -/

/-- A memo stands under the sort key that the caller hands in. -/
def memo : Model where
  name := "memo"
  fields := [
    .partitionKey .string (.constant (.string "memos")),
    .sortKey .string (.parameter sortKeyName)]

/-- A database of memos. -/
def board : Database where
  config := { name := "board" }
  schema := { models := [memo] }
  ids := fun _ => ""

/-- The model of memos, bound to the board. -/
def memos : BoundModel := ⟨memo, .string "memos"⟩

/-- The session in which the table of the board has just been created. -/
def newBoard : Session MemoryStore := noTables.after board.createTable

/-- The parameters of a memo on milk. -/
def milk : Params := Dict.ofList [(sortKeyName, .string "milk")]

/-- An update drops the sort key from the parameters of a memo, and then misses it. -/
theorem milk_notReplayed :
    Schema.build [memo] [] [] = .ok board.schema
      ∧ (∀ m ∈ [memo], Model.build m.name m.fields = .ok m)
      ∧ (∃ reply, ExceptT.run board.createTable noTables = (.ok reply, newBoard))
      ∧ board.model "memo" = .ok memos
      ∧ ∃ s', ExceptT.run (board.create memos milk) newBoard
            = (.ok (Database.keyItem memos.partition (.string "milk")), s')
        ∧ ∀ upsert, ExceptT.run (board.update memos (.string "milk") milk upsert) s'
            = (.error (.field ⟨"memo", sortKeyName, .missing⟩), s') := by
  have hbuild : Schema.build [memo] [] [] = .ok board.schema := rfl
  have hmodels : ∀ m ∈ [memo], Model.build m.name m.fields = .ok m := by
    intro m hm
    rw [List.mem_singleton.mp hm]
    rfl
  refine ⟨hbuild, hmodels, ⟨_, rfl⟩, rfl, _, rfl, fun upsert => ?_⟩
  cases upsert <;> rfl

end SingleTable
