import SingleTable.Proofs.Acceptance
import SingleTable.Proofs.TermNames

set_option autoImplicit false

/-!
# Which indexes can be queried

The key fields of an index go into the text of a key condition as they are named. A key schema reads
every query that suits it exactly if its names are no keywords, consist of characters of names, and
differ (`KeySchema.forall_suits_iff`). An accepted schema may name the key fields of its indexes
otherwise; the table is made, but the index can then not be queried with every condition
(`Database.index_answers_iff`).
-/

namespace SingleTable

/-! ## Queries that suit a key schema -/

/-- The query names the keys of the schema, and its values are of the types of the keys. Where there is
no sort key no condition is put on it. -/
structure KeyQuery.Suits (q : KeyQuery) (schema : KeySchema) : Prop where
  partitionName : q.partitionName = schema.partition.name
  partitionValue : schema.partition.type.holds q.partitionValue = true
  filter : match schema.sort with
    | none => q.filter = {}
    | some key => q.sortName = key.name ∧ q.filter.Typed key.type

/-- The names of the keys can be spelled, and they differ. -/
structure KeySchema.Nameable (schema : KeySchema) : Prop where
  partition : IsName schema.partition.name
  sort : ∀ key, schema.sort = some key → IsName key.name ∧ key.name ≠ schema.partition.name

theorem AttributeType.exists_holds {type : AttributeType} (h : type.isKey = true) :
    ∃ v, type.holds v = true := by
  cases type with
  | string => exact ⟨.string "", rfl⟩
  | number => exact ⟨.number "0", rfl⟩
  | binary => exact ⟨.binary [], rfl⟩
  | _ => cases h

namespace KeyQuery

variable {q : KeyQuery} {schema : KeySchema}

/-- A query without conditions is read back as its partition value. -/
theorem ofText_of_filter_eq (hc : Placeholder.collides q.partitionName = false)
    (hp : schema.partition.name = q.partitionName) (hv : schema.partition.Admits q.partitionValue)
    (hpname : IsName q.partitionName) (hfilter : q.filter = {}) :
    KeyCondition.ofText schema q.bindings q.text = .ok ⟨q.partitionValue, []⟩ := by
  obtain ⟨partitionName, partitionValue, sortName, filter, index, forward⟩ := q
  subst hfilter
  -- the text does not name the sort key, so this can be any name
  have hterms := ofText_compiled (q := ⟨partitionName, partitionValue, sortKeyName, {}, index, forward⟩)
    hpname hc Database.isName_keyNames.2
  refine (KeyCondition.ofText_eq_ok_iff_of_terms hterms).mpr ?_
  have hfold := bind_eq_ok_iff.mpr ⟨_, addTerm_partitionTerm hp hv, rfl⟩
  exact bind_eq_ok_iff.mpr ⟨_, hfold, rfl⟩

/-- A suitable query is read where the names of the keys can be spelled and differ. -/
theorem Suits.exists_condition (h : q.Suits schema) (hn : schema.Nameable)
    (htypes : ∀ key ∈ schema.attributes, key.type.isKey = true)
    (hc : Placeholder.collides schema.partition.name = false) :
    ∃ c, KeyCondition.ofText schema q.bindings q.text = .ok c := by
  have hc' : Placeholder.collides q.partitionName = false := h.partitionName ▸ hc
  have hp : IsName q.partitionName := h.partitionName ▸ hn.partition
  have hadm : schema.partition.Admits q.partitionValue :=
    ⟨htypes _ (by simp [KeySchema.attributes]), h.partitionValue⟩
  have hfilter := h.filter
  cases hs : schema.sort with
  | none =>
      rw [hs] at hfilter
      exact ⟨_, ofText_of_filter_eq hc' h.partitionName.symm hadm hp hfilter⟩
  | some key =>
      rw [hs] at hfilter
      obtain ⟨hname, htyped⟩ := hfilter
      have hkey : key.type.isKey = true := htypes key (by simp [KeySchema.attributes, hs])
      obtain ⟨hsname, hne⟩ := hn.sort key hs
      refine ⟨_, ofText_of_admits hc' h.partitionName.symm hadm hp (hname ▸ hsname) hs hname.symm ?_
        (fun v hv => ⟨hkey, htyped.1 v hv⟩) htyped.2⟩
      rw [hname, h.partitionName]
      exact hne

/-! ## Names that cannot be queried -/

/-- A query is read only where the partition key has a name that can be spelled. -/
theorem isName_partition {values : Dict AttributeValue} {text : String} {c : KeyCondition}
    (h : KeyCondition.ofText schema values text = .ok c) : IsName schema.partition.name := by
  obtain ⟨terms, hterms, hread⟩ := bind_eq_ok_iff.mp h
  have hc := (KeyCondition.ofText_eq_ok_iff_of_terms hterms).mp h
  obtain ⟨t, ht, hfixes⟩ := KeyCondition.exists_fixes_of_ofTerms hc
  exact Term.isName_of_ofText hterms ht hfixes.attribute_mem

/-- The query for one value of the partition key and one of the sort key. -/
def byKeys (index : Option String) (partition : String) (v : AttributeValue) (sort : String)
    (w : AttributeValue) : KeyQuery where
  partitionName := partition
  partitionValue := v
  sortName := sort
  filter := { equal := some w }
  index := index

variable {index : Option String} {key : KeyAttribute} {v w : AttributeValue}

theorem suits_byKeys (hs : schema.sort = some key) (hv : schema.partition.type.holds v = true)
    (hw : key.type.holds w = true) :
    (byKeys index schema.partition.name v key.name w).Suits schema := by
  refine ⟨rfl, hv, ?_⟩
  rw [hs]
  refine ⟨rfl, ?_, nofun⟩
  intro u hu
  rw [List.mem_singleton.mp hu]
  exact hw

/-- The text of the query by two values: the equality of the partition key, then that of the sort key. -/
theorem toList_text_byKeys (partition sort : String) :
    (byKeys index partition v sort w).text.toList
      = (byKeys index partition v sort w).partitionFragment.text.toList ++ ' ' :: "and".toList
        ++ ' ' :: (sort ++ " = " ++ Placeholder.equal).toList := by
  simp [text, byKeys, Fragment.join, SortFilter.fragments, SortFilter.comparison,
    SortFilter.betweenFragment, SortFilter.beginsWithFragment]

/-- A query by two values is not read where both keys have the same name. -/
theorem ne_of_ofText_byKeys {c : KeyCondition}
    (hc : Placeholder.collides schema.partition.name = false)
    (h : KeyCondition.ofText schema (byKeys index schema.partition.name v key.name w).bindings
      (byKeys index schema.partition.name v key.name w).text = .ok c) :
    key.name ≠ schema.partition.name := by
  intro hname
  have hp : IsName schema.partition.name := isName_partition h
  have hterms := ofText_compiled (q := byKeys index schema.partition.name v key.name w) hp hc
    (hname ▸ hp)
  obtain ⟨p, hfold, -⟩ := bind_eq_ok_iff.mp ((KeyCondition.ofText_eq_ok_iff_of_terms hterms).mp h)
  obtain ⟨p₁, h₁, hrest⟩ := bind_eq_ok_iff.mp hfold
  obtain ⟨p₂, h₂, -⟩ := bind_eq_ok_iff.mp hrest
  -- the first equality fixes the partition key, so the second one is refused
  have h₁ : KeyCondition.addPair schema {} schema.partition.name v .equal = .ok p₁ := h₁
  have h₂ : KeyCondition.addPair schema p₁ key.name w .equal = .ok p₂ := h₂
  rcases KeyCondition.addPair_eq_ok_iff.mp h₁ with ⟨-, -, -, -, rfl⟩ | ⟨hne, -⟩
  · rcases KeyCondition.addPair_eq_ok_iff.mp h₂ with ⟨-, -, hnone, -⟩ | ⟨hne, -⟩
    · cases hnone
    · exact hne hname
  · exact hne rfl

/-- A query by two values is read only where the sort key has a name that can be spelled. -/
theorem isName_of_ofText_byKeys {c : KeyCondition} (hs : schema.sort = some key)
    (hc : Placeholder.collides schema.partition.name = false)
    (h : KeyCondition.ofText schema (byKeys index schema.partition.name v key.name w).bindings
      (byKeys index schema.partition.name v key.name w).text = .ok c) :
    IsName key.name := by
  have hp : IsName schema.partition.name := isName_partition h
  have hd : schema.Distinct := (KeySchema.distinct_iff hs).mpr (ne_of_ofText_byKeys hc h)
  obtain ⟨us, hus, -⟩ := bind_eq_ok_iff.mp h
  obtain ⟨ts, hts, ht⟩ := stands_partitionFragment
    (q := byKeys index schema.partition.name v key.name w) hp hc
  obtain ⟨rest, rfl, hrest⟩ := Term.exists_rest_of_ofText (toList_text_byKeys _ _) hts ht hus
  -- at most one of the terms fixes the partition key, so another one speaks of the sort key
  obtain ⟨before, t, after, hsplit, -, hputs⟩ :=
    (KeyCondition.ofTerms_eq_ok_iff hd).mp ((KeyCondition.ofText_eq_ok_iff_of_terms hus).mp h)
  have hne : before ++ after ≠ [] := by
    intro hnil
    obtain ⟨rfl, rfl⟩ := List.append_eq_nil_iff.mp hnil
    exact hrest (List.cons.inj hsplit).2
  obtain ⟨u, hu⟩ := List.exists_mem_of_ne_nil _ hne
  obtain ⟨cond, hcond⟩ := exists_forall₂_iff.mp ⟨_, hputs⟩ u hu
  have hmem : u ∈ before ++ t :: after := by
    rcases List.mem_append.mp hu with hu | hu
    · exact List.mem_append_left _ hu
    · exact List.mem_append_right _ (List.mem_cons_of_mem _ hu)
  rw [← hsplit] at hmem
  exact Term.isName_of_ofText hus hmem (hcond.attribute_mem hs)

end KeyQuery

/-! ## The names of a key schema -/

/-- Every suitable query is read exactly if the names of the keys can be spelled and differ. -/
theorem KeySchema.forall_suits_iff {schema : KeySchema} (index : Option String)
    (htypes : ∀ key ∈ schema.attributes, key.type.isKey = true)
    (hc : Placeholder.collides schema.partition.name = false) :
    (∀ q : KeyQuery, q.index = index → q.Suits schema →
        ∃ c, KeyCondition.ofText schema q.bindings q.text = .ok c)
      ↔ schema.Nameable := by
  constructor
  · intro h
    obtain ⟨v, hv⟩ := AttributeType.exists_holds (htypes schema.partition (by simp [attributes]))
    cases hs : schema.sort with
    | none =>
        have hsuits : (KeyQuery.mk schema.partition.name v sortKeyName {} index true).Suits schema := by
          refine ⟨rfl, hv, ?_⟩
          rw [hs]
        obtain ⟨c, hread⟩ := h _ rfl hsuits
        exact ⟨KeyQuery.isName_partition hread, fun key hkey => by cases hs.symm.trans hkey⟩
    | some key =>
        obtain ⟨w, hw⟩ := AttributeType.exists_holds (htypes key (by simp [attributes, hs]))
        obtain ⟨c, hread⟩ := h _ rfl (KeyQuery.suits_byKeys hs hv hw)
        refine ⟨KeyQuery.isName_partition hread, fun key' hkey => ?_⟩
        obtain rfl : key = key' := Option.some.inj (hs.symm.trans hkey)
        exact ⟨KeyQuery.isName_of_ofText_byKeys hs hc hread, KeyQuery.ne_of_ofText_byKeys hc hread⟩
  · intro hn q _ hq
    exact hq.exists_condition hn htypes hc

/-! ## The indexes of a database -/

namespace Schema

variable {s : Schema} {i : TableIndex}

theorem isKey_of_mem_tableIndexes (h : s.Consistent) (hi : i ∈ s.tableIndexes) :
    ∀ key ∈ i.schema.attributes, key.type.isKey = true := by
  intro key hkey
  have hschema : i.schema ∈ s.tableKeys :: s.tableIndexes.map TableIndex.schema :=
    List.mem_cons_of_mem _ (List.mem_map_of_mem hi)
  obtain ⟨heq, hname⟩ := eq_keyAttribute hschema hkey
  rw [heq]
  exact (h.keyType_spec hname).1

theorem collides_of_mem_tableIndexes (h : s.Consistent) (hi : i ∈ s.tableIndexes) :
    Placeholder.collides i.schema.partition.name = false := by
  rcases List.mem_append.mp hi with hi | hi
  · obtain ⟨g, hg, rfl⟩ := List.mem_map.mp hi
    exact h.hashes g hg
  · obtain ⟨l, -, rfl⟩ := List.mem_map.mp hi
    show Placeholder.collides partitionKeyName = false
    decide

theorem schemaFor_of_mem_tableIndexes (h : s.Consistent) (hi : i ∈ s.tableIndexes) {t : StoredTable}
    (ht : t.indexes = s.tableIndexes) : t.schemaFor (some i.name) = .ok i.schema := by
  have hnames : (s.tableIndexes.map TableIndex.name).Nodup := by
    have hindexes := h.indexes
    rw [indexNames] at hindexes
    rw [tableIndexes, List.map_append, List.map_map, List.map_map]
    exact hindexes
  have hfind : s.tableIndexes.find? (fun j => j.name = i.name) = some i :=
    (find?_name_eq_some_iff hnames).mpr ⟨hi, rfl⟩
  rw [StoredTable.schemaFor, ht, hfind]

end Schema

namespace Database

/-- A query is answered if its text is read under the key schema that it asks for, and refused because
of its condition otherwise. -/
theorem run_query_cases {db : Database} {s : Session MemoryStore} {t : StoredTable}
    (ht : s.store.tables.get? db.config.name = some t) {q : KeyQuery} {schema : KeySchema}
    (hschema : t.schemaFor q.index = .ok schema)
    (hc : Placeholder.collides q.partitionName = false) :
    (∃ c answer, KeyCondition.ofText schema q.bindings q.text = .ok c
        ∧ ExceptT.run (db.query q) s = (.ok answer, s))
      ∨ ∃ e, KeyCondition.ofText schema q.bindings q.text = .error e
        ∧ ExceptT.run (db.query q) s
          = (.error (.store (Refusal.condition e).toStoreError), s) := by
  obtain ⟨request, hcompile⟩ : ∃ request, q.compile? db.config.name = some request :=
    ⟨_, KeyQuery.compile?_eq_some_iff.mpr ⟨hc, rfl⟩⟩
  rw [run_query_of_compile hcompile]
  obtain ⟨-, rfl⟩ := KeyQuery.compile?_eq_some_iff.mp hcompile
  rw [MemoryStore.query_eq ht rfl hschema]
  cases KeyCondition.ofText schema q.bindings q.text with
  | ok c => exact Or.inl ⟨c, _, rfl, rfl⟩
  | error e => exact Or.inr ⟨e, rfl, rfl⟩

/-- A query of an index that suits its keys is either answered or refused because its condition cannot
be read. An index of an accepted schema, whose table is created in the store, answers every such query
exactly if the names of its keys can be spelled and differ. This holds in every session that is reached
from the creation of the table without deleting it. -/
theorem index_answers_iff {db : Database} {models : List Model} {globalIndexes : List GlobalIndex}
    {localIndexes : List LocalIndex}
    (hbuild : Schema.build models globalIndexes localIndexes = .ok db.schema)
    {s₀ s₁ s : Session MemoryStore} {reply : TableReply}
    (hcreate : ExceptT.run db.createTable s₀ = (.ok reply, s₁))
    (hrun : Session.Continued db.config.name s₁ s) {i : TableIndex}
    (hi : i ∈ db.schema.tableIndexes) :
    (∀ q : KeyQuery, q.index = some i.name → q.Suits i.schema →
        (∃ answer, ExceptT.run (db.query q) s = (.ok answer, s))
          ∨ ∃ e, ExceptT.run (db.query q) s
            = (.error (.store (Refusal.condition e).toStoreError), s))
      ∧ ((∀ q : KeyQuery, q.index = some i.name → q.Suits i.schema →
            ∃ answer, ExceptT.run (db.query q) s = (.ok answer, s))
          ↔ i.schema.Nameable) := by
  have h : db.schema.Consistent := (Schema.build_eq_ok_iff.mp hbuild).2
  have hc := Schema.collides_of_mem_tableIndexes h hi
  obtain ⟨t, ht, hdecl⟩ := hrun.table (emptyTable_of_createTable h hcreate)
  have hschema : t.schemaFor (some i.name) = .ok i.schema :=
    Schema.schemaFor_of_mem_tableIndexes h hi hdecl.indexes
  have hcases := fun (q : KeyQuery) (hindex : q.index = some i.name) (hsuits : q.Suits i.schema) =>
    run_query_cases ht (q := q) (hindex ▸ hschema) (hsuits.partitionName ▸ hc)
  constructor
  · intro q hindex hsuits
    rcases hcases q hindex hsuits with ⟨c, answer, -, hanswer⟩ | ⟨e, -, hrefused⟩
    · exact Or.inl ⟨answer, hanswer⟩
    · exact Or.inr ⟨e, hrefused⟩
  · rw [← KeySchema.forall_suits_iff (some i.name) (Schema.isKey_of_mem_tableIndexes h hi) hc]
    refine forall_congr' fun q => imp_congr_right fun hindex => imp_congr_right fun hsuits => ?_
    rcases hcases q hindex hsuits with ⟨c, answer, hread, hanswer⟩ | ⟨e, hread, hrefused⟩
    · exact ⟨fun _ => ⟨c, hread⟩, fun _ => ⟨answer, hanswer⟩⟩
    · rw [hread, hrefused]
      exact ⟨fun ⟨_, h⟩ => (nomatch h), fun ⟨_, h⟩ => (nomatch h)⟩

end Database

/-- The books of an author. -/
def booksOf (author : String) : KeyQuery where
  partitionName := "author"
  partitionValue := .string author
  index := some "byAuthor"

theorem booksOf_answered :
    Schema.build [book, reader] [byAuthor] [] = .ok library.schema
      ∧ (∃ reply, ExceptT.run library.createTable noTables = (.ok reply, newLibrary))
      ∧ ⟨"byAuthor", library.schema.globalKeys byAuthor⟩ ∈ library.schema.tableIndexes
      ∧ (library.schema.globalKeys byAuthor).Nameable
      ∧ ∃ answer, ExceptT.run (library.query (booksOf "ada")) newLibrary = (.ok answer, newLibrary) := by
  have hcreate : ∃ reply, ExceptT.run library.createTable noTables = (.ok reply, newLibrary) :=
    ⟨_, rfl⟩
  have hmem : ⟨"byAuthor", library.schema.globalKeys byAuthor⟩ ∈ library.schema.tableIndexes :=
    List.mem_singleton.mpr rfl
  have hname : (library.schema.globalKeys byAuthor).Nameable := by
    refine ⟨Token.spells_of_word rfl rfl rfl rfl, ?_⟩
    rintro key ⟨⟩
    exact ⟨Token.spells_of_word rfl rfl rfl rfl, by decide⟩
  obtain ⟨reply, hreply⟩ := hcreate
  have hanswers := (Database.index_answers_iff build_library hreply .start hmem).2.mpr hname
  have htyped : (booksOf "ada").filter.Typed .string := ⟨nofun, nofun⟩
  exact ⟨build_library, ⟨reply, hreply⟩, hmem, hname,
    hanswers (booksOf "ada") rfl ⟨rfl, rfl, rfl, htyped⟩⟩

/-! ## Users under the ids of another service -/

/-- A user stands under a number and has an id with another service. -/
def user : Model where
  name := "user"
  fields := [
    .partitionKey .string (.constant (.string "users")),
    .sortKey .string (.parameter "number"),
    { name := "number", kind := .required, validator := .string },
    { name := "user-id", kind := .required, validator := .string }]

/-- The index of users by their ids with the other service. -/
def byUserId : GlobalIndex := { hash := "user-id" }

/-- A database of users. -/
def users : Database where
  config := { name := "users" }
  schema := { models := [user], globalIndexes := [byUserId] }
  ids := fun _ => ""

/-- The session in which the table of users has just been created. -/
def newUsers : Session MemoryStore := noTables.after users.createTable

/-- The query for the user with an id. -/
def userOfId : KeyQuery where
  partitionName := "user-id"
  partitionValue := .string "u1"
  index := some "user-id"

theorem not_isName_userId : ¬ IsName "user-id" := by
  intro h
  have hdash := h.isNameChar '-' (by decide)
  revert hdash
  decide

/-- The schema is accepted and its table created, and yet the query of the index is refused. -/
theorem userOfId_refused :
    Model.build user.name user.fields = .ok user
      ∧ Schema.build [user] [byUserId] [] = .ok users.schema
      ∧ (∃ reply, ExceptT.run users.createTable noTables = (.ok reply, newUsers))
      ∧ ⟨"user-id", users.schema.globalKeys byUserId⟩ ∈ users.schema.tableIndexes
      ∧ userOfId.Suits (users.schema.globalKeys byUserId)
      ∧ ∃ e, ExceptT.run (users.query userOfId) newUsers
        = (.error (.store (Refusal.condition e).toStoreError), newUsers) := by
  have hbuild : Schema.build [user] [byUserId] [] = .ok users.schema := rfl
  have hcreate : ∃ reply, ExceptT.run users.createTable noTables = (.ok reply, newUsers) := ⟨_, rfl⟩
  have hmem : ⟨"user-id", users.schema.globalKeys byUserId⟩ ∈ users.schema.tableIndexes :=
    List.mem_singleton.mpr rfl
  have hsuits : userOfId.Suits (users.schema.globalKeys byUserId) := ⟨rfl, rfl, rfl⟩
  refine ⟨rfl, hbuild, hcreate, hmem, hsuits, ?_⟩
  have h : users.schema.Consistent := (Schema.build_eq_ok_iff.mp hbuild).2
  obtain ⟨reply, hreply⟩ := hcreate
  have ht := Database.emptyTable_of_createTable h hreply
  have hschema : (users.schema.emptyTable users.config noTables.store.clock).schemaFor (some "user-id")
      = .ok (users.schema.globalKeys byUserId) := Schema.schemaFor_of_mem_tableIndexes h hmem rfl
  have hc : Placeholder.collides "user-id" = false := by decide
  rcases Database.run_query_cases ht (q := userOfId) hschema hc with ⟨c, _, hread, -⟩ | ⟨e, -, hrefused⟩
  · exact absurd (KeyQuery.isName_partition hread) not_isName_userId
  · exact ⟨e, hrefused⟩

end SingleTable
