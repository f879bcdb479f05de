import SingleTable.Proofs.TermMeaning

set_option autoImplicit false

/-!
# Queries as they are read back

A query is compiled into a text, which the store reads again. No text is made exactly if the name of the
partition key is that of an operator's placeholder (`KeyQuery.compile?_eq_none_iff`). Otherwise the text
is read as the partition value of the query and one condition for each operator that is set, in a fixed
order (`KeyQuery.reads_what_it_compiles`).
-/

namespace SingleTable

/-! ## Names that cannot be compiled -/

namespace Placeholder

/-- The names that stand in the placeholders of operators. -/
def names : List String :=
  ["eq", "lessThan", "lessThanEqual", "greaterThan", "greaterThanEqual", "betweenA", "betweenB",
    "beginsWith"]

theorem all_eq : all = names.map ofName := rfl

theorem ofName_injective {name name' : String} (h : ofName name = ofName name') : name = name' := by
  have hchars := congrArg String.toList h
  simp only [ofName, String.toList_append] at hchars
  exact String.toList_inj.mp (List.append_cancel_left hchars)

theorem collides_iff {name : String} : collides name = true ↔ name ∈ names := by
  rw [collides, List.contains_iff_mem, all_eq, List.mem_map]
  constructor
  · rintro ⟨name', hmem, heq⟩
    exact ofName_injective heq ▸ hmem
  · intro hmem
    exact ⟨name, hmem, rfl⟩

end Placeholder

namespace KeyQuery

/-- The text of the key condition that a query is compiled to. -/
def text (q : KeyQuery) : String :=
  Fragment.join (q.partitionFragment :: q.filter.fragments q.sortName)

/-- The values of the placeholders in the text. -/
def bindings (q : KeyQuery) : Dict AttributeValue :=
  Fragment.values (q.filter.fragments q.sortName ++ [q.partitionFragment])

variable {q : KeyQuery} {table : String}

theorem compile?_eq_some_iff {request : QueryRequest} :
    q.compile? table = some request
      ↔ Placeholder.collides q.partitionName = false
        ∧ request = {
            table
            index := q.index
            condition := some q.text
            values := q.bindings
            forward := if q.forward then none else some false } := by
  rw [compile?]
  cases Placeholder.collides q.partitionName with
  | true => exact ⟨nofun, nofun⟩
  | false =>
      constructor
      · intro h
        exact ⟨rfl, (Option.some.inj h).symm⟩
      · rintro ⟨-, rfl⟩
        rfl

/-- No request is made exactly if the partition key has the name of a placeholder. -/
theorem compile?_eq_none_iff : q.compile? table = none ↔ q.partitionName ∈ Placeholder.names := by
  rw [← Placeholder.collides_iff, compile?]
  cases Placeholder.collides q.partitionName with
  | true => exact ⟨fun _ => rfl, fun _ => rfl⟩
  | false => exact ⟨nofun, nofun⟩

end KeyQuery

/-! ## The conditions of a filter -/

/-- The condition that a sort key starts with the value, which has to be a string or bytes. -/
def SortCondition.startingWith? : AttributeValue → Option SortCondition
  | .string s => some (.beginsWith s)
  | .binary bytes => some (.beginsWithBytes bytes)
  | _ => none

namespace SortFilter

/-- The conditions of a filter: one for each operator that is set, in a fixed order. -/
def conditions (f : SortFilter) : List SortCondition :=
  (f.equal.map (fun v => .equal (SortKey.ofValueD v))).toList
    ++ (f.less.map (fun v => .less (SortKey.ofValueD v))).toList
    ++ (f.atMost.map (fun v => .atMost (SortKey.ofValueD v))).toList
    ++ (f.greater.map (fun v => .greater (SortKey.ofValueD v))).toList
    ++ (f.atLeast.map (fun v => .atLeast (SortKey.ofValueD v))).toList
    ++ (f.between.map (fun b => .between (SortKey.ofValueD b.1) (SortKey.ofValueD b.2))).toList
    ++ (f.beginsWith.bind SortCondition.startingWith?).toList

end SortFilter

section

variable {key : KeyAttribute}

theorem filterMap_compare {sign : Comparison} {o : Option AttributeValue}
    (h : ∀ v, o = some v → key.Admits v) :
    (o.map (Clause.compare sign)).toList.filterMap (Clause.condition? key)
      = (o.map (fun v => sign.condition (SortKey.ofValueD v))).toList := by
  cases o with
  | none => rfl
  | some v => simp [Clause.condition?, h v rfl]

theorem filterMap_between {o : Option (AttributeValue × AttributeValue)}
    (h : ∀ b, o = some b → key.Admits b.1 ∧ key.Admits b.2) :
    (o.map (fun b => Clause.between b.1 b.2)).toList.filterMap (Clause.condition? key)
      = (o.map (fun b => .between (SortKey.ofValueD b.1) (SortKey.ofValueD b.2))).toList := by
  cases o with
  | none => rfl
  | some b => simp [Clause.condition?, h b rfl]

theorem filterMap_beginsWith {o : Option AttributeValue} (h : ∀ v, o = some v → key.Admits v) :
    (o.map Clause.beginsWith).toList.filterMap (Clause.condition? key)
      = (o.bind SortCondition.startingWith?).toList := by
  cases o with
  | none => rfl
  | some v =>
      have hv := h v rfl
      cases v <;> simp [Clause.condition?, SortCondition.startingWith?, hv]

/-- Where a sort key admits the values of all clauses, the conditions of the clauses are those of the
filter. -/
theorem SortFilter.filterMap_clauses {f : SortFilter} (h : ∀ v ∈ f.values, key.Admits v) :
    f.clauses.filterMap (Clause.condition? key) = f.conditions := by
  have hclause : ∀ c ∈ f.clauses, ∀ v ∈ c.values, key.Admits v :=
    fun c hc v hv => h v (List.mem_flatMap.mpr ⟨c, hc, hv⟩)
  have hcompare : ∀ sign v, Clause.compare sign v ∈ f.clauses → key.Admits v :=
    fun sign v hc => hclause _ hc v (List.mem_singleton.mpr rfl)
  have hbetween : ∀ b, f.between = some b → key.Admits b.1 ∧ key.Admits b.2 := by
    intro b hb
    have hc : Clause.between b.1 b.2 ∈ f.clauses := by simp [clauses, hb]
    exact ⟨hclause _ hc _ (by simp [Clause.values]), hclause _ hc _ (by simp [Clause.values])⟩
  have hstart : ∀ v, f.beginsWith = some v → key.Admits v :=
    fun v hv => hclause _ (mem_clauses_beginsWith.mpr hv) v (List.mem_singleton.mpr rfl)
  simp only [clauses, List.filterMap_append, filterMap_between hbetween, filterMap_beginsWith hstart]
  rw [filterMap_compare (fun v hv => hcompare .equal v (by simp [clauses, hv])),
    filterMap_compare (fun v hv => hcompare .less v (by simp [clauses, hv])),
    filterMap_compare (fun v hv => hcompare .atMost v (by simp [clauses, hv])),
    filterMap_compare (fun v hv => hcompare .greater v (by simp [clauses, hv])),
    filterMap_compare (fun v hv => hcompare .atLeast v (by simp [clauses, hv]))]
  rfl

end

/-! ## The round trip -/

namespace KeyQuery

variable {q : KeyQuery} {schema : KeySchema} {key : KeyAttribute}
  (hc : Placeholder.collides q.partitionName = false)
  (hp : schema.partition.name = q.partitionName) (hv : schema.partition.Admits q.partitionValue)

include hc hp hv

/-- A query by two names is read back as its partition value and the conditions of its filter, if the
keys admit its values. -/
theorem ofText_of_admits (hpname : IsName q.partitionName) (hsname : IsName q.sortName)
    (hs : schema.sort = some key) (hk : key.name = q.sortName) (hne : q.sortName ≠ q.partitionName)
    (hvalues : ∀ v ∈ q.filter.values, key.Admits v)
    (hstart : q.filter.beginsWith.isSome → key.type ≠ .number) :
    KeyCondition.ofText schema q.bindings q.text = .ok ⟨q.partitionValue, q.filter.conditions⟩ := by
  have hkey : key.name ≠ schema.partition.name := by
    rw [hk, hp]
    exact hne
  have hfits : ∀ c ∈ q.filter.clauses, (c.condition? key).isSome := by
    intro c hc
    refine Clause.isSome_condition?_iff.mpr ⟨fun v hv => hvalues v ?_, ?_⟩
    · exact List.mem_flatMap.mpr ⟨c, hc, hv⟩
    · rintro start rfl
      exact hstart (by rw [SortFilter.mem_clauses_beginsWith.mp hc]; rfl)
  have hfold := KeyCondition.foldlM_addTerm hs hkey hfits { partition := some q.partitionValue }
  have hterms : Term.ofText q.bindings q.text = .ok q.terms := ofText_compiled hpname hc hsname
  rw [KeyCondition.ofText_eq_ok_iff_of_terms hterms, ofTerms_eq hp hv hk, hfold,
    SortFilter.filterMap_clauses hvalues]
  rfl

end KeyQuery

/-- No request is made exactly if the partition key has the name of an operator's placeholder. Any other
query whose keys have different names that are no keywords is read back, under a key schema with those
keys and the types of the query's values, as its partition value and the conditions of its filter. -/
theorem KeyQuery.reads_what_it_compiles (q : KeyQuery) (table : String) :
    (q.compile? table = none ↔ q.partitionName ∈ Placeholder.names)
      ∧ ∀ request, q.compile? table = some request →
        IsName q.partitionName → IsName q.sortName → q.sortName ≠ q.partitionName →
        ∀ schema key, schema.sort = some key → schema.partition.name = q.partitionName →
          key.name = q.sortName → schema.partition.Admits q.partitionValue →
          (∀ v ∈ q.filter.values, key.Admits v) → (q.filter.beginsWith.isSome → key.type ≠ .number) →
          ∃ text, request.condition = some text
            ∧ KeyCondition.ofText schema request.values text
              = .ok ⟨q.partitionValue, q.filter.conditions⟩ := by
  refine ⟨compile?_eq_none_iff, ?_⟩
  intro request hrequest hpname hsname hne schema key hs hp hk hv hvalues hstart
  obtain ⟨hc, rfl⟩ := compile?_eq_some_iff.mp hrequest
  exact ⟨q.text, rfl, ofText_of_admits hc hp hv hpname hsname hs hk hne hvalues hstart⟩

/-! ## Chapters of a book -/

/-- The keys of chapters. -/
def chapterKeys : KeySchema where
  partition := ⟨"book", .string⟩
  sort := some ⟨"chapter", .binary⟩

/-- The chapters of a book from one place to another that start with a byte. -/
def someChapters : KeyQuery where
  partitionName := "book"
  partitionValue := .string "lexicon"
  sortName := "chapter"
  filter := {
    greater := some (.binary [1])
    between := some (.binary [1, 2], .binary [3])
    beginsWith := some (.binary [2]) }

theorem reads_someChapters :
    ∃ request text, someChapters.compile? "library" = some request ∧ request.condition = some text
      ∧ KeyCondition.ofText chapterKeys request.values text
        = .ok ⟨.string "lexicon",
            [.greater (.binary [1]), .between (.binary [1, 2]) (.binary [3]), .beginsWithBytes [2]]⟩ := by
  obtain ⟨hnone, hread⟩ := KeyQuery.reads_what_it_compiles someChapters "library"
  have hname : someChapters.compile? "library" ≠ none := by
    rw [ne_eq, hnone]
    decide
  obtain ⟨request, hrequest⟩ := Option.ne_none_iff_exists'.mp hname
  have hp : IsName "book" := Token.spells_of_word rfl rfl rfl rfl
  have hs : IsName "chapter" := Token.spells_of_word rfl rfl rfl rfl
  obtain ⟨text, htext, hread⟩ := hread request hrequest hp hs (by decide) chapterKeys
    ⟨"chapter", .binary⟩ rfl rfl rfl (by decide) (by decide) (by decide)
  exact ⟨request, text, hrequest, htext, hread⟩

end SingleTable
