import SingleTable.KeyCondition
import SingleTable.Proofs.Clauses
import SingleTable.Proofs.ItemKeys

set_option autoImplicit false

/-!
# Clauses under a key schema

What becomes of the clauses of a query under a key schema. If the values of all clauses carry the type
of the sort key, and none asks for the start of a number, each clause is one condition on the sort key
(`KeyQuery.ofTerms_of_typed`); otherwise the query is refused (`KeyQuery.ofTerms_of_not_typed`).
-/

namespace SingleTable

/-! ## The condition of a clause -/

namespace Clause

/-- The condition that a clause puts on a sort key, if it fits the type of the key. -/
def condition? (key : KeyAttribute) : Clause → Option SortCondition
  | .compare c v =>
      if key.Admits v then some (c.condition (SortKey.ofValueD v)) else none
  | .between low high =>
      if key.Admits low ∧ key.Admits high then
        some (.between (SortKey.ofValueD low) (SortKey.ofValueD high))
      else none
  | .beginsWith start =>
      if key.Admits start then
        match start with
        | .string s => some (.beginsWith s)
        | .binary bytes => some (.beginsWithBytes bytes)
        | _ => none
      else none

/-- What a clause that fits a sort key is, and the condition that it puts there. -/
theorem condition?_cases {key : KeyAttribute} {c : Clause} {cond : SortCondition}
    (h : c.condition? key = some cond) :
    (∃ sign v, c = .compare sign v ∧ key.Admits v
        ∧ cond = sign.condition (SortKey.ofValueD v))
      ∨ (∃ low high, c = .between low high ∧ key.Admits low ∧ key.Admits high
        ∧ cond = .between (SortKey.ofValueD low) (SortKey.ofValueD high))
      ∨ (∃ s, c = .beginsWith (.string s) ∧ key.Admits (.string s) ∧ cond = .beginsWith s)
      ∨ ∃ bytes, c = .beginsWith (.binary bytes) ∧ key.Admits (.binary bytes)
        ∧ cond = .beginsWithBytes bytes := by
  cases c with
  | compare sign v =>
      rw [condition?] at h
      split at h
      · rename_i hv
        cases h
        exact Or.inl ⟨sign, v, rfl, hv, rfl⟩
      · cases h
  | between low high =>
      rw [condition?] at h
      split at h
      · rename_i hv
        cases h
        exact Or.inr (Or.inl ⟨low, high, rfl, hv.1, hv.2, rfl⟩)
      · cases h
  | beginsWith start =>
      unfold condition? at h
      dsimp only at h
      split at h
      · rename_i hv
        cases start with
        | string s =>
            cases h
            exact Or.inr (Or.inr (Or.inl ⟨s, rfl, hv, rfl⟩))
        | binary bytes =>
            cases h
            exact Or.inr (Or.inr (Or.inr ⟨bytes, rfl, hv, rfl⟩))
        | _ => cases h
      · cases h

end Clause

namespace KeyCondition

variable {schema : KeySchema} {key : KeyAttribute} {v : AttributeValue}

theorem checkKey_of_admits (h : key.Admits v) : checkKey key v = .ok () := by
  rw [checkKey, (key.check_eq_ok_iff v).mpr h]

theorem checkKey_of_not_admits (h : ¬ key.Admits v) : ∃ e, checkKey key v = .error e := by
  cases hc : key.check v with
  | ok u => exact absurd ((key.check_eq_ok_iff v).mp hc) h
  | error e => exact ⟨.wrongType e, by rw [checkKey, hc]⟩

variable (hs : schema.sort = some key)

include hs

theorem sortValue_of_admits (h : key.Admits v) :
    sortValue schema key.name v = .ok (SortKey.ofValueD v) := by
  simp only [sortValue, hs, if_true, checkKey_of_admits h, h.ofValue key.name]
  rfl

theorem sortValue_of_not_admits (h : ¬ key.Admits v) :
    ∃ e, sortValue schema key.name v = .error e := by
  obtain ⟨e, he⟩ := checkKey_of_not_admits h
  refine ⟨e, ?_⟩
  simp only [sortValue, hs, if_true, he]
  rfl

variable (hne : key.name ≠ schema.partition.name)

include hne

/-- A clause that fits the sort key adds its condition. -/
theorem addTerm_of_condition {c : Clause} {cond : SortCondition}
    (h : c.condition? key = some cond) (p : Progress) :
    addTerm schema p (c.term key.name) = .ok { p with sort := p.sort ++ [cond] } := by
  rcases Clause.condition?_cases h with ⟨sign, v, rfl, hv, rfl⟩ | ⟨low, high, rfl, hlow, hhigh, rfl⟩
    | ⟨s, rfl, hv, rfl⟩ | ⟨bytes, rfl, hv, rfl⟩
  · show (if key.name = schema.partition.name then _ else _) = _
    rw [if_neg hne, sortValue_of_admits hs hv]
    rfl
  · show (sortValue schema key.name low >>= _) = _
    rw [sortValue_of_admits hs hlow]
    show (sortValue schema key.name high >>= _) = _
    rw [sortValue_of_admits hs hhigh]
    rfl
  · show (discard (sortValue schema key.name (.string s)) >>= _) = _
    rw [sortValue_of_admits hs hv]
    rfl
  · show (discard (sortValue schema key.name (.binary bytes)) >>= _) = _
    rw [sortValue_of_admits hs hv]
    rfl

/-- A clause that does not fit the sort key is refused. -/
theorem addTerm_of_condition_none {c : Clause} (h : c.condition? key = none) (p : Progress) :
    ∃ e, addTerm schema p (c.term key.name) = .error e := by
  cases c with
  | compare c v =>
      rw [Clause.condition?] at h
      split at h
      · cases h
      · rename_i hv
        obtain ⟨e, he⟩ := sortValue_of_not_admits hs hv
        refine ⟨e, ?_⟩
        show (if key.name = schema.partition.name then _ else _) = _
        rw [if_neg hne, he]
        rfl
  | between low high =>
      rw [Clause.condition?] at h
      split at h
      · cases h
      · rename_i hv
        by_cases hlow : key.Admits low
        · obtain ⟨e, he⟩ := sortValue_of_not_admits hs (fun hhigh => hv ⟨hlow, hhigh⟩)
          refine ⟨e, ?_⟩
          show (sortValue schema key.name low >>= _) = _
          rw [sortValue_of_admits hs hlow]
          show (sortValue schema key.name high >>= _) = _
          rw [he]
          rfl
        · obtain ⟨e, he⟩ := sortValue_of_not_admits hs hlow
          refine ⟨e, ?_⟩
          show (sortValue schema key.name low >>= _) = _
          rw [he]
          rfl
  | beginsWith start =>
      unfold Clause.condition? at h
      dsimp only at h
      split at h
      · rename_i hv
        -- the value carries the type, and this is the type of numbers
        refine ⟨.beginsWithNumber, ?_⟩
        show (discard (sortValue schema key.name start) >>= _) = _
        rw [sortValue_of_admits hs hv]
        cases start <;> first | rfl | cases h
      · rename_i hv
        obtain ⟨e, he⟩ := sortValue_of_not_admits hs hv
        refine ⟨e, ?_⟩
        show (discard (sortValue schema key.name start) >>= _) = _
        rw [he]
        rfl

/-- If every clause fits the sort key, each one adds its condition. -/
theorem foldlM_addTerm {cs : List Clause} (h : ∀ c ∈ cs, (c.condition? key).isSome) (p : Progress) :
    (cs.map (Clause.term key.name)).foldlM (addTerm schema) p
      = .ok { p with sort := p.sort ++ cs.filterMap (Clause.condition? key) } := by
  induction cs generalizing p with
  | nil =>
      rw [List.filterMap_nil, List.append_nil]
      rfl
  | cons c cs ih =>
      obtain ⟨hc, hcs⟩ := List.forall_mem_cons.mp h
      obtain ⟨cond, hcond⟩ := Option.isSome_iff_exists.mp hc
      rw [List.map_cons, List.foldlM_cons, addTerm_of_condition hs hne hcond]
      refine (ih hcs _).trans ?_
      rw [List.filterMap_cons_some hcond, List.append_assoc, List.singleton_append]

theorem foldlM_addTerm_error {cs : List Clause} (h : ¬ ∀ c ∈ cs, (c.condition? key).isSome)
    (p : Progress) : ∃ e, (cs.map (Clause.term key.name)).foldlM (addTerm schema) p = .error e := by
  induction cs generalizing p with
  | nil => exact absurd (by simp) h
  | cons c cs ih =>
      rw [List.map_cons, List.foldlM_cons]
      cases hc : c.condition? key with
      | none =>
          obtain ⟨e, he⟩ := addTerm_of_condition_none hs hne hc p
          exact ⟨e, by rw [he]; rfl⟩
      | some cond =>
          rw [addTerm_of_condition hs hne hc]
          refine ih (fun hcs => h ?_) _
          exact List.forall_mem_cons.mpr ⟨by rw [hc]; rfl, hcs⟩

end KeyCondition

/-! ## The key condition of a query -/

/-- A text that is read into terms is as good a key condition as its terms. -/
theorem KeyCondition.ofText_of_terms (schema : KeySchema) {values : Dict AttributeValue} {text : String}
    {terms : List Term} (h : Term.ofText values text = .ok terms) :
    ofText schema values text = (ofTerms schema terms).mapError .mismatch := by
  rw [ofText, h]
  dsimp only [bind, Except.bind]
  cases ofTerms schema terms <;> rfl

/-- The values of the operators of a clause. -/
def Clause.values : Clause → List AttributeValue
  | .compare _ v => [v]
  | .between low high => [low, high]
  | .beginsWith start => [start]

namespace SortFilter

/-- The values of all operators of a filter. -/
def values (f : SortFilter) : List AttributeValue := f.clauses.flatMap Clause.values

/-- All operators compare with values of the type, and none asks for the start of a number. -/
def Typed (f : SortFilter) (type : AttributeType) : Prop :=
  (∀ v ∈ f.values, type.holds v = true) ∧ (f.beginsWith.isSome → type ≠ .number)

end SortFilter

/-- A clause fits a sort key if its values carry the type of the key; where it asks for a start, this
may not be the type of numbers. -/
theorem Clause.isSome_condition?_iff {key : KeyAttribute} {c : Clause} :
    (c.condition? key).isSome
      ↔ (∀ v ∈ c.values, key.Admits v) ∧ ∀ start, c = .beginsWith start → key.type ≠ .number := by
  cases c with
  | compare c v => simp [condition?, values]
  | between low high => simp [condition?, values]
  | beginsWith start =>
      have hvalues : (∀ v ∈ values (.beginsWith start), key.Admits v) ↔ key.Admits start := by
        simp [values]
      rw [hvalues]
      unfold condition?
      dsimp only
      split
      · rename_i hv
        rcases hv.cases with ⟨ht, s, rfl⟩ | ⟨ht, text, rfl⟩ | ⟨ht, bytes, rfl⟩
        · simp [hv, ht]
        · simp [ht]
        · simp [hv, ht]
      · rename_i hv
        simp [hv]

theorem SortFilter.mem_clauses_beginsWith {f : SortFilter} {start : AttributeValue} :
    Clause.beginsWith start ∈ f.clauses ↔ f.beginsWith = some start := by
  simp [clauses]

/-- Under a sort key of a key type, the clauses of a filter fit exactly if the filter is typed. -/
theorem SortFilter.forall_isSome_condition?_iff {f : SortFilter} {key : KeyAttribute}
    (hk : key.type.isKey = true) :
    (∀ c ∈ f.clauses, (c.condition? key).isSome) ↔ f.Typed key.type := by
  have hadmits : ∀ v, key.Admits v ↔ key.type.holds v = true := fun v => and_iff_right hk
  simp only [Clause.isSome_condition?_iff, hadmits, Typed, values, List.forall_mem_flatMap]
  constructor
  · intro h
    refine ⟨fun c hc => (h c hc).1, fun hstart => ?_⟩
    obtain ⟨start, hstart⟩ := Option.isSome_iff_exists.mp hstart
    exact (h _ (mem_clauses_beginsWith.mpr hstart)).2 start rfl
  · rintro ⟨hvalues, hstart⟩ c hc
    refine ⟨hvalues c hc, ?_⟩
    rintro start rfl
    exact hstart (by rw [mem_clauses_beginsWith.mp hc]; rfl)

namespace KeyQuery

variable {q : KeyQuery} {schema : KeySchema} {key : KeyAttribute}

/-- The conditions that a query puts on a sort key. -/
def conditions (q : KeyQuery) (key : KeyAttribute) : List SortCondition :=
  q.filter.clauses.filterMap (Clause.condition? key)

section

variable (hp : schema.partition.name = q.partitionName)
  (hv : schema.partition.Admits q.partitionValue)

include hp hv

theorem addTerm_partitionTerm :
    KeyCondition.addTerm schema {} q.partitionTerm
      = .ok { partition := some q.partitionValue } := by
  show (if q.partitionName = schema.partition.name then _ else _) = _
  rw [if_pos hp.symm]
  show (KeyCondition.checkKey schema.partition q.partitionValue >>= _) = _
  rw [KeyCondition.checkKey_of_admits hv]
  rfl

theorem ofTerms_eq (hk : key.name = q.sortName) :
    KeyCondition.ofTerms schema q.terms = (do
      let p ← (q.filter.clauses.map (Clause.term key.name)).foldlM (KeyCondition.addTerm schema)
        { partition := some q.partitionValue }
      match p.partition with
      | none => .error (.noPartition schema.partition.name)
      | some partition => return { partition, sort := p.sort }) := by
  unfold KeyCondition.ofTerms terms
  rw [List.foldlM_cons, addTerm_partitionTerm hp hv, hk]
  rfl

variable (hs : schema.sort = some key) (hk : key.name = q.sortName)
  (hne : q.sortName ≠ q.partitionName) (htype : key.type.isKey = true)

include hs hk hne htype

/-- The terms of a typed query are the key condition of its partition value and its conditions. -/
theorem ofTerms_of_typed (h : q.filter.Typed key.type) :
    KeyCondition.ofTerms schema q.terms = .ok ⟨q.partitionValue, q.conditions key⟩ := by
  have hne' : key.name ≠ schema.partition.name := by
    rw [hk, hp]
    exact hne
  have hfits := (SortFilter.forall_isSome_condition?_iff htype).mpr h
  rw [ofTerms_eq hp hv hk, KeyCondition.foldlM_addTerm hs hne' hfits]
  rfl

/-- The terms of a query that is not typed are refused. -/
theorem ofTerms_of_not_typed (h : ¬ q.filter.Typed key.type) :
    ∃ e, KeyCondition.ofTerms schema q.terms = .error e := by
  have hne' : key.name ≠ schema.partition.name := by
    rw [hk, hp]
    exact hne
  have hfits := (not_congr (SortFilter.forall_isSome_condition?_iff htype)).mpr h
  obtain ⟨e, he⟩ := KeyCondition.foldlM_addTerm_error hs hne' hfits
    { partition := some q.partitionValue }
  exact ⟨e, by rw [ofTerms_eq hp hv hk, he]; rfl⟩

end

end KeyQuery

end SingleTable
