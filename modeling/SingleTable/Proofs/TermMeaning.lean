import Mathlib.Data.List.Forall2
import SingleTable.Proofs.FilterMeaning
import SingleTable.Proofs.Grammar
import SingleTable.Proofs.TableWrites

set_option autoImplicit false

/-!
# The meaning of key conditions

A conjunction of terms fits a key schema exactly if one of its terms fixes the partition key and all
others put conditions on the sort key (`KeyCondition.ofTerms_eq_ok_iff`). The key condition that comes
out is satisfied by the same keys as the terms as they are written, comparisons with the value first
included (`KeyCondition.satisfied_iff_holds`). With the grammar this says of every text whether it is
accepted and what it means (`KeyCondition.reads_grammar_and_means_terms`).
-/

namespace SingleTable

/-! ## What a term does under a key schema -/

theorem KeySchema.distinct_iff {schema : KeySchema} {key : KeyAttribute}
    (hs : schema.sort = some key) : schema.Distinct ↔ key.name ≠ schema.partition.name := by
  simp [Distinct, attributes, hs, eq_comm]

theorem KeySchema.Distinct.ne {schema : KeySchema} {key : KeyAttribute} (hd : schema.Distinct)
    (hs : schema.sort = some key) : key.name ≠ schema.partition.name :=
  (distinct_iff hs).mp hd

namespace Term

/-- The term is an equality of the partition key with the value, either way round, and the value is of
the type of the key. -/
inductive Fixes (schema : KeySchema) : Term → AttributeValue → Prop
  | left {v : AttributeValue} (h : schema.partition.Admits v) :
      Fixes schema (.compare (.attribute schema.partition.name) .equal (.value v)) v
  | right {v : AttributeValue} (h : schema.partition.Admits v) :
      Fixes schema (.compare (.value v) .equal (.attribute schema.partition.name)) v

/-- The term puts the condition on the sort key, with values of the type of the key: it is a comparison,
either way round, or says that the key lies between two values or starts with a string or with bytes. -/
inductive Puts (schema : KeySchema) : Term → SortCondition → Prop
  | left {key : KeyAttribute} {sign : Comparison} {v : AttributeValue} (hs : schema.sort = some key)
      (h : key.Admits v) :
      Puts schema (.compare (.attribute key.name) sign (.value v))
        (sign.condition (SortKey.ofValueD v))
  | right {key : KeyAttribute} {sign : Comparison} {v : AttributeValue} (hs : schema.sort = some key)
      (h : key.Admits v) :
      Puts schema (.compare (.value v) sign (.attribute key.name))
        (sign.flip.condition (SortKey.ofValueD v))
  | between {key : KeyAttribute} {low high : AttributeValue} (hs : schema.sort = some key)
      (hlow : key.Admits low) (hhigh : key.Admits high) :
      Puts schema (.between (.attribute key.name) (.value low) (.value high))
        (.between (SortKey.ofValueD low) (SortKey.ofValueD high))
  | string {key : KeyAttribute} {s : String} (hs : schema.sort = some key)
      (h : key.Admits (.string s)) :
      Puts schema (.beginsWith (.attribute key.name) (.value (.string s))) (.beginsWith s)
  | binary {key : KeyAttribute} {bytes : Bytes} (hs : schema.sort = some key)
      (h : key.Admits (.binary bytes)) :
      Puts schema (.beginsWith (.attribute key.name) (.value (.binary bytes)))
        (.beginsWithBytes bytes)

end Term

/-! ## One term -/

namespace KeyCondition

variable {schema : KeySchema} {p p' : Progress}

theorem checkKey_eq_ok_iff {key : KeyAttribute} {v : AttributeValue} :
    checkKey key v = .ok () ↔ key.Admits v := by
  refine ⟨fun h => ?_, checkKey_of_admits⟩
  by_contra hnot
  obtain ⟨e, he⟩ := checkKey_of_not_admits hnot
  rw [he] at h
  cases h

theorem sortValue_eq_ok_iff {name : String} {v : AttributeValue} {k : SortKey} :
    sortValue schema name v = .ok k
      ↔ ∃ key, schema.sort = some key ∧ key.name = name ∧ key.Admits v ∧ k = SortKey.ofValueD v := by
  constructor
  · intro h
    cases hs : schema.sort with
    | none =>
        simp only [sortValue, hs] at h
        cases h
    | some key =>
        by_cases hname : key.name = name
        · by_cases hv : key.Admits v
          · rw [← hname, sortValue_of_admits hs hv] at h
            exact ⟨key, rfl, hname, hv, (Except.ok.inj h).symm⟩
          · obtain ⟨e, he⟩ := sortValue_of_not_admits hs hv
            rw [← hname, he] at h
            cases h
        · simp only [sortValue, hs, if_neg hname] at h
          cases h
  · rintro ⟨key, hs, rfl, hv, rfl⟩
    exact sortValue_of_admits hs hv

theorem pairUp_eq_ok_iff {left right : Operand} {sign sign' : Comparison} {name : String}
    {v : AttributeValue} :
    pairUp left sign right = .ok (name, v, sign')
      ↔ (left = .attribute name ∧ right = .value v ∧ sign' = sign)
        ∨ (left = .value v ∧ right = .attribute name ∧ sign' = sign.flip) := by
  constructor
  · intro h
    unfold pairUp at h
    split at h
    · cases h
      exact Or.inl ⟨rfl, rfl, rfl⟩
    · cases h
      exact Or.inr ⟨rfl, rfl, rfl⟩
    · cases h
  · rintro (⟨rfl, rfl, rfl⟩ | ⟨rfl, rfl, rfl⟩)
    all_goals rfl

theorem flip_eq_equal_iff {sign : Comparison} : sign.flip = .equal ↔ sign = .equal := by
  cases sign <;> decide

/-- What a comparison adds once its attribute and its value are known. -/
def addPair (schema : KeySchema) (p : Progress) (name : String) (v : AttributeValue)
    (sign : Comparison) : Except Mismatch Progress :=
  if name = schema.partition.name then
    if sign ≠ .equal ∨ p.partition.isSome then .error .partitionComparison
    else do
      checkKey schema.partition v
      return { p with partition := some v }
  else do
    let k ← sortValue schema name v
    return { p with sort := p.sort ++ [sign.condition k] }

theorem addTerm_compare (left right : Operand) (sign : Comparison) :
    addTerm schema p (.compare left sign right)
      = (pairUp left sign right >>= fun a => addPair schema p a.1 a.2.1 a.2.2) := rfl

/-- A comparison with the partition key has to be its first equality; any other attribute has to be the
sort key. -/
theorem addPair_eq_ok_iff {name : String} {v : AttributeValue} {sign : Comparison} :
    addPair schema p name v sign = .ok p'
      ↔ (name = schema.partition.name ∧ sign = .equal ∧ p.partition = none
          ∧ schema.partition.Admits v ∧ p' = { p with partition := some v })
        ∨ (name ≠ schema.partition.name ∧ ∃ key, schema.sort = some key ∧ key.name = name
          ∧ key.Admits v ∧ p' = { p with sort := p.sort ++ [sign.condition (SortKey.ofValueD v)] }) := by
  by_cases hname : name = schema.partition.name
  · rw [addPair, if_pos hname]
    by_cases hbad : sign ≠ .equal ∨ p.partition.isSome
    · rw [if_pos hbad]
      refine ⟨nofun, ?_⟩
      rintro (⟨-, rfl, hnone, -⟩ | ⟨hne, -⟩)
      · rcases hbad with hsign | hsome
        · exact absurd rfl hsign
        · rw [hnone] at hsome
          cases hsome
      · exact absurd hname hne
    · rw [if_neg hbad]
      have hequal : sign = .equal := not_not.mp fun h => hbad (Or.inl h)
      have hnone : p.partition = none := by
        simpa using fun h => hbad (Or.inr h)
      refine bind_eq_ok_iff.trans ⟨?_, ?_⟩
      · rintro ⟨_, hv, hp⟩
        exact Or.inl ⟨hname, hequal, hnone, checkKey_eq_ok_iff.mp hv, (pure_eq_ok_iff.mp hp).symm⟩
      · rintro (⟨-, -, -, hv, rfl⟩ | ⟨hne, -⟩)
        · exact ⟨(), checkKey_eq_ok_iff.mpr hv, rfl⟩
        · exact absurd hname hne
  · rw [addPair, if_neg hname]
    refine bind_eq_ok_iff.trans ⟨?_, ?_⟩
    · rintro ⟨k, hk, hp⟩
      obtain ⟨key, hs, hkey, hv, rfl⟩ := sortValue_eq_ok_iff.mp hk
      exact Or.inr ⟨hname, key, hs, hkey, hv, (pure_eq_ok_iff.mp hp).symm⟩
    · rintro (⟨heq, -⟩ | ⟨-, key, hs, hkey, hv, rfl⟩)
      · exact absurd heq hname
      · exact ⟨_, sortValue_eq_ok_iff.mpr ⟨key, hs, hkey, hv, rfl⟩, rfl⟩

theorem addTerm_between_eq_ok_iff {subject low high : Operand} :
    addTerm schema p (.between subject low high) = .ok p'
      ↔ ∃ cond, Term.Puts schema (.between subject low high) cond
        ∧ p' = { p with sort := p.sort ++ [cond] } := by
  constructor
  · intro h
    unfold addTerm at h
    split at h
    · rename_i heq
      cases heq
    · rename_i heq
      cases heq
      obtain ⟨a, ha, h⟩ := bind_eq_ok_iff.mp h
      obtain ⟨b, hb, h⟩ := bind_eq_ok_iff.mp h
      obtain ⟨key, hs, rfl, hlow, rfl⟩ := sortValue_eq_ok_iff.mp ha
      obtain ⟨key', hs', heq, hhigh, rfl⟩ := sortValue_eq_ok_iff.mp hb
      obtain rfl : key = key' := Option.some.inj (hs.symm.trans hs')
      exact ⟨_, .between hs hlow hhigh, (pure_eq_ok_iff.mp h).symm⟩
    · cases h
    · rename_i heq
      cases heq
    · cases h
  · rintro ⟨cond, hputs, rfl⟩
    cases hputs with
    | between hs hlow hhigh =>
        refine bind_eq_ok_iff.mpr ⟨_, sortValue_of_admits hs hlow, ?_⟩
        exact bind_eq_ok_iff.mpr ⟨_, sortValue_of_admits hs hhigh, rfl⟩

theorem discard_eq_ok_iff {ε α : Type} {x : Except ε α} :
    (discard x : Except ε Unit) = .ok () ↔ ∃ a, x = .ok a := by
  cases x with
  | error e => exact ⟨nofun, nofun⟩
  | ok a => exact ⟨fun _ => ⟨a, rfl⟩, fun _ => rfl⟩

theorem addTerm_beginsWith_eq_ok_iff {subject start : Operand} :
    addTerm schema p (.beginsWith subject start) = .ok p'
      ↔ ∃ cond, Term.Puts schema (.beginsWith subject start) cond
        ∧ p' = { p with sort := p.sort ++ [cond] } := by
  constructor
  · intro h
    unfold addTerm at h
    split at h
    · rename_i heq
      cases heq
    · rename_i heq
      cases heq
    · cases h
    · rename_i heq
      cases heq
      obtain ⟨_, hk, hadd⟩ := bind_eq_ok_iff.mp h
      obtain ⟨k, hk⟩ := discard_eq_ok_iff.mp hk
      obtain ⟨key, hs, rfl, hv, -⟩ := sortValue_eq_ok_iff.mp hk
      clear h
      split at hadd
      · exact ⟨_, .string hs hv, (pure_eq_ok_iff.mp hadd).symm⟩
      · exact ⟨_, .binary hs hv, (pure_eq_ok_iff.mp hadd).symm⟩
      · cases hadd
    · cases h
  · rintro ⟨cond, hputs, rfl⟩
    cases hputs with
    | string hs hv =>
        exact bind_eq_ok_iff.mpr ⟨(), discard_eq_ok_iff.mpr ⟨_, sortValue_of_admits hs hv⟩, rfl⟩
    | binary hs hv =>
        exact bind_eq_ok_iff.mpr ⟨(), discard_eq_ok_iff.mpr ⟨_, sortValue_of_admits hs hv⟩, rfl⟩

/-- A term that is taken up either is the first to fix the partition key or puts one more condition on
the sort key. -/
theorem addTerm_cases {t : Term} (h : addTerm schema p t = .ok p') :
    (∃ v, p.partition = none ∧ t.Fixes schema v ∧ p' = { p with partition := some v })
      ∨ ∃ cond, t.Puts schema cond ∧ p' = { p with sort := p.sort ++ [cond] } := by
  cases t with
  | compare left sign right =>
      rw [addTerm_compare] at h
      obtain ⟨⟨name, v, sign'⟩, hpair, hadd⟩ := bind_eq_ok_iff.mp h
      have hpair := pairUp_eq_ok_iff.mp hpair
      rcases addPair_eq_ok_iff.mp hadd with ⟨rfl, hequal, hnone, hv, rfl⟩ | ⟨hne, key, hs, rfl, hv, rfl⟩
      · refine Or.inl ⟨v, hnone, ?_, rfl⟩
        rcases hpair with ⟨rfl, rfl, hsign⟩ | ⟨rfl, rfl, hsign⟩
        · obtain rfl : sign = .equal := hsign.symm.trans hequal
          exact .left hv
        · obtain rfl : sign = .equal := flip_eq_equal_iff.mp (hsign.symm.trans hequal)
          exact .right hv
      · refine Or.inr ⟨_, ?_, rfl⟩
        rcases hpair with ⟨rfl, rfl, rfl⟩ | ⟨rfl, rfl, rfl⟩
        · exact .left hs hv
        · exact .right hs hv
  | between subject low high => exact Or.inr (addTerm_between_eq_ok_iff.mp h)
  | beginsWith subject start => exact Or.inr (addTerm_beginsWith_eq_ok_iff.mp h)

/-- The first equality of the partition key with a value of its type is taken up. -/
theorem addTerm_of_fixes {t : Term} {v : AttributeValue} (h : t.Fixes schema v)
    (hp : p.partition = none) : addTerm schema p t = .ok { p with partition := some v } := by
  have hadd : schema.partition.Admits v →
      addPair schema p schema.partition.name v .equal = .ok { p with partition := some v } :=
    fun hv => addPair_eq_ok_iff.mpr (Or.inl ⟨rfl, rfl, hp, hv, rfl⟩)
  cases h with
  | left hv => exact bind_eq_ok_iff.mpr ⟨_, pairUp_eq_ok_iff.mpr (Or.inl ⟨rfl, rfl, rfl⟩), hadd hv⟩
  | right hv => exact bind_eq_ok_iff.mpr ⟨_, pairUp_eq_ok_iff.mpr (Or.inr ⟨rfl, rfl, rfl⟩), hadd hv⟩

/-- A condition on the sort key is taken up, if the keys have different names. -/
theorem addTerm_of_puts (hd : schema.Distinct) {t : Term} {cond : SortCondition}
    (h : t.Puts schema cond) : addTerm schema p t = .ok { p with sort := p.sort ++ [cond] } := by
  have hadd : ∀ {key sign v}, schema.sort = some key → key.Admits v →
      addPair schema p key.name v sign
        = .ok { p with sort := p.sort ++ [sign.condition (SortKey.ofValueD v)] } :=
    fun hs hv => addPair_eq_ok_iff.mpr (Or.inr ⟨hd.ne hs, _, hs, rfl, hv, rfl⟩)
  cases h with
  | left hs hv =>
      exact bind_eq_ok_iff.mpr ⟨_, pairUp_eq_ok_iff.mpr (Or.inl ⟨rfl, rfl, rfl⟩), hadd hs hv⟩
  | right hs hv =>
      exact bind_eq_ok_iff.mpr ⟨_, pairUp_eq_ok_iff.mpr (Or.inr ⟨rfl, rfl, rfl⟩), hadd hs hv⟩
  | between hs hlow hhigh => exact addTerm_between_eq_ok_iff.mpr ⟨_, .between hs hlow hhigh, rfl⟩
  | string hs hv => exact addTerm_beginsWith_eq_ok_iff.mpr ⟨_, .string hs hv, rfl⟩
  | binary hs hv => exact addTerm_beginsWith_eq_ok_iff.mpr ⟨_, .binary hs hv, rfl⟩

/-! ## One term after the other -/

/-- Some term of an accepted conjunction fixes the partition key. -/
theorem exists_fixes_of_ofTerms {terms : List Term} {c : KeyCondition}
    (h : ofTerms schema terms = .ok c) : ∃ t ∈ terms, t.Fixes schema c.partition := by
  obtain ⟨q, hq, h⟩ := bind_eq_ok_iff.mp h
  have hstart : ∀ v, ({} : Progress).partition = some v → ∃ t ∈ terms, t.Fixes schema v := by
    intro v hv
    cases hv
  have hfixed : ∀ v, q.partition = some v → ∃ t ∈ terms, t.Fixes schema v := by
    refine foldlM_keeps (P := fun p => ∀ v, p.partition = some v → ∃ t ∈ terms, t.Fixes schema v) ?_
      hstart hq
    intro t ht p p' hp hadd v hv
    rcases addTerm_cases hadd with ⟨w, -, hfixes, rfl⟩ | ⟨cond, -, rfl⟩
    · obtain rfl : w = v := Option.some.inj hv
      exact ⟨t, ht, hfixes⟩
    · exact hp v hv
  split at h
  · cases h
  · rename_i v hv
    cases h
    exact hfixed v hv

section

variable (hd : schema.Distinct)

include hd

/-- Once the partition key is fixed, every term has to put a condition on the sort key. -/
theorem foldlM_of_fixed {v : AttributeValue} (hp : p.partition = some v) {terms : List Term} :
    terms.foldlM (addTerm schema) p = .ok p'
      ↔ ∃ conds, List.Forall₂ (Term.Puts schema) terms conds
        ∧ p' = { p with sort := p.sort ++ conds } := by
  induction terms generalizing p with
  | nil =>
      constructor
      · intro h
        cases h
        exact ⟨[], .nil, by rw [List.append_nil]⟩
      · rintro ⟨_, ⟨⟩, rfl⟩
        rw [List.append_nil]
        rfl
  | cons t terms ih =>
      rw [List.foldlM_cons]
      refine bind_eq_ok_iff.trans ⟨?_, ?_⟩
      · rintro ⟨q, hq, h⟩
        rcases addTerm_cases hq with ⟨_, hnone, -⟩ | ⟨cond, hputs, rfl⟩
        · rw [hp] at hnone
          cases hnone
        · obtain ⟨conds, hconds, rfl⟩ := (ih (by exact hp)).mp h
          refine ⟨cond :: conds, .cons hputs hconds, ?_⟩
          rw [List.append_assoc, List.singleton_append]
      · rintro ⟨_, hall, rfl⟩
        cases hall with
        | cons hputs hconds =>
            rename_i cond conds
            refine ⟨_, addTerm_of_puts hd hputs, ?_⟩
            refine (ih (by exact hp)).mpr ⟨conds, hconds, ?_⟩
            rw [List.append_assoc, List.singleton_append]

/-- While the partition key is open, one term has to fix it and all others put conditions on the sort
key. -/
theorem foldlM_of_open (hp : p.partition = none) {terms : List Term} {v : AttributeValue} :
    (terms.foldlM (addTerm schema) p = .ok p' ∧ p'.partition = some v)
      ↔ ∃ before t after conds, terms = before ++ t :: after ∧ t.Fixes schema v
        ∧ List.Forall₂ (Term.Puts schema) (before ++ after) conds
        ∧ p' = { partition := some v, sort := p.sort ++ conds } := by
  induction terms generalizing p with
  | nil =>
      constructor
      · rintro ⟨h, hv⟩
        cases h
        rw [hp] at hv
        cases hv
      · rintro ⟨before, t, after, _, hnil, -⟩
        simp at hnil
  | cons t terms ih =>
      rw [List.foldlM_cons]
      constructor
      · rintro ⟨h, hv⟩
        obtain ⟨q, hq, h⟩ := bind_eq_ok_iff.mp h
        rcases addTerm_cases hq with ⟨w, -, hfixes, rfl⟩ | ⟨cond, hputs, rfl⟩
        · obtain ⟨conds, hconds, rfl⟩ := (foldlM_of_fixed hd rfl).mp h
          obtain rfl : w = v := Option.some.inj hv
          exact ⟨[], t, terms, conds, rfl, hfixes, hconds, rfl⟩
        · obtain ⟨before, u, after, conds, rfl, hfixes, hall, rfl⟩ := (ih (by exact hp)).mp ⟨h, hv⟩
          refine ⟨t :: before, u, after, cond :: conds, rfl, hfixes, .cons hputs hall, ?_⟩
          rw [List.append_assoc, List.singleton_append]
      · rintro ⟨before, u, after, conds, hterms, hfixes, hall, rfl⟩
        refine ⟨bind_eq_ok_iff.mpr ?_, rfl⟩
        cases before with
        | nil =>
            obtain ⟨rfl, rfl⟩ := List.cons.inj hterms
            refine ⟨_, addTerm_of_fixes hfixes hp, ?_⟩
            exact (foldlM_of_fixed hd rfl).mpr ⟨conds, hall, rfl⟩
        | cons s before =>
            obtain ⟨rfl, rfl⟩ := List.cons.inj hterms
            cases hall with
            | cons hputs hall =>
                rename_i cond conds
                refine ⟨_, addTerm_of_puts hd hputs, ?_⟩
                refine ((ih (by exact hp)).mpr ⟨before, u, after, conds, rfl, hfixes, hall, ?_⟩).1
                rw [List.append_assoc, List.singleton_append]

/-- A conjunction fits a key schema exactly if one term fixes the partition key and all others put
conditions on the sort key. The key condition is made of that value and those conditions. -/
theorem ofTerms_eq_ok_iff {terms : List Term} {c : KeyCondition} :
    ofTerms schema terms = .ok c
      ↔ ∃ before t after, terms = before ++ t :: after ∧ t.Fixes schema c.partition
        ∧ List.Forall₂ (Term.Puts schema) (before ++ after) c.sort := by
  constructor
  · intro h
    obtain ⟨q, hq, h⟩ := bind_eq_ok_iff.mp h
    split at h
    · cases h
    · rename_i v hv
      cases h
      obtain ⟨before, t, after, conds, hterms, hfixes, hall, rfl⟩ := (foldlM_of_open hd rfl).mp ⟨hq, hv⟩
      exact ⟨before, t, after, hterms, hfixes, hall⟩
  · rintro ⟨before, t, after, hterms, hfixes, hall⟩
    have hfold := (foldlM_of_open (p := {}) hd rfl).mpr
      ⟨before, t, after, c.sort, hterms, hfixes, hall, rfl⟩
    exact bind_eq_ok_iff.mpr ⟨_, hfold.1, rfl⟩

omit hd in
theorem ofText_eq_ok_iff_of_terms {values : Dict AttributeValue} {text : String} {terms : List Term}
    {c : KeyCondition} (h : Term.ofText values text = .ok terms) :
    ofText schema values text = .ok c ↔ ofTerms schema terms = .ok c := by
  rw [ofText_of_terms schema h]
  cases ofTerms schema terms with
  | ok c' => rw [Except.mapError, Except.ok.injEq, Except.ok.injEq]
  | error e => exact ⟨nofun, nofun⟩

end

end KeyCondition

/-! ## What a term says about an item -/

/-- The comparison from the other side holds of the comparison the other way round. -/
theorem Comparison.holds_flip_iff (c : Comparison) (o : Ordering) : c.flip.Holds o ↔ c.Holds o.swap := by
  cases c <;> cases o <;> simp [flip, Holds]

/-- The value that an operand has in an item. -/
def Operand.valueIn (item : Item) : Operand → Option AttributeValue
  | .attribute name => item.get? name
  | .value v => some v

/-- The item satisfies the term as it is written. Partition keys are compared for equality only, as
values; all else is compared in the order of sort keys, or by its first bytes. -/
def Term.Holds (schema : KeySchema) (item : Item) : Term → Prop
  | .compare left sign right =>
      ∃ v w, left.valueIn item = some v ∧ right.valueIn item = some w ∧
        if .attribute schema.partition.name ∈ [left, right] then sign = .equal ∧ v = w
        else sign.Holds (v.keyOrder w)
  | .between subject low high =>
      ∃ v a b, subject.valueIn item = some v ∧ low.valueIn item = some a ∧ high.valueIn item = some b
        ∧ (v.keyOrder a).isGE ∧ (v.keyOrder b).isLE
  | .beginsWith subject start =>
      ∃ v w, subject.valueIn item = some v ∧ start.valueIn item = some w ∧ v.StartsWith w

theorem Term.Fixes.holds_iff {schema : KeySchema} {item : Item} {t : Term} {v w : AttributeValue}
    (h : t.Fixes schema v) (hw : item.get? schema.partition.name = some w) :
    t.Holds schema item ↔ w = v := by
  cases h with
  | left hv => simp [Holds, Operand.valueIn, hw]
  | right hv => simp [Holds, Operand.valueIn, hw, eq_comm]

/-- A term that puts a condition on the sort key says the same as a clause with that condition. -/
theorem Term.Puts.exists_clause {schema : KeySchema} {t : Term} {cond : SortCondition}
    (hd : schema.Distinct) (h : t.Puts schema cond) :
    ∃ (key : KeyAttribute) (c : Clause), schema.sort = some key ∧ c.condition? key = some cond ∧
      ∀ (item : Item) v, item.get? key.name = some v → (t.Holds schema item ↔ c.Holds v) := by
  cases h with
  | @left key sign w hs hw =>
      have hne : key.name ≠ schema.partition.name := hd.ne hs
      refine ⟨key, .compare sign w, hs, by simp [Clause.condition?, hw], fun item v hv => ?_⟩
      simp [Holds, Operand.valueIn, hv, hne.symm, Clause.Holds]
  | @right key sign w hs hw =>
      have hne : key.name ≠ schema.partition.name := hd.ne hs
      refine ⟨key, .compare sign.flip w, hs, by simp [Clause.condition?, hw], fun item v hv => ?_⟩
      rw [Clause.Holds, Comparison.holds_flip_iff, AttributeValue.keyOrder, ← SortKey.compare_swap]
      simp [Holds, Operand.valueIn, hv, hne.symm, AttributeValue.keyOrder]
  | @between key low high hs hlow hhigh =>
      refine ⟨key, .between low high, hs, by simp [Clause.condition?, hlow, hhigh],
        fun item v hv => ?_⟩
      simp [Holds, Operand.valueIn, hv, Clause.Holds]
  | @string key s hs hw =>
      refine ⟨key, .beginsWith (.string s), hs, by simp [Clause.condition?, hw], fun item v hv => ?_⟩
      simp [Holds, Operand.valueIn, hv, Clause.Holds]
  | @binary key bytes hs hw =>
      refine ⟨key, .beginsWith (.binary bytes), hs, by simp [Clause.condition?, hw],
        fun item v hv => ?_⟩
      simp [Holds, Operand.valueIn, hv, Clause.Holds]

/-- The condition that a term puts on the sort key is accepted of the items that satisfy the term. -/
theorem Term.Puts.holds_iff {schema : KeySchema} {item : Item} {t : Term} {cond : SortCondition}
    (hd : schema.Distinct) (h : t.Puts schema cond) (hfits : schema.Fits item) :
    t.Holds schema item ↔ cond.accepts (schema.placeOf item) = true := by
  obtain ⟨key, c, hs, hcond, hclause⟩ := h.exists_clause hd
  obtain ⟨v, hv, hadm⟩ := hfits key (by simp [KeySchema.attributes, hs])
  have hplace : schema.placeOf item = SortKey.ofValueD v := by
    simp only [KeySchema.placeOf, hs, hv, Option.elim]
  rw [hplace, hclause item v hv, Clause.accepts_iff hcond hadm]

theorem exists_forall₂_iff {α β : Type} {R : α → β → Prop} {xs : List α} :
    (∃ ys, List.Forall₂ R xs ys) ↔ ∀ x ∈ xs, ∃ y, R x y := by
  induction xs with
  | nil => exact ⟨fun _ => nofun, fun _ => ⟨[], .nil⟩⟩
  | cons x xs ih =>
      rw [List.forall_mem_cons, ← ih]
      constructor
      · rintro ⟨_, hall⟩
        cases hall with
        | cons h hs => exact ⟨⟨_, h⟩, _, hs⟩
      · rintro ⟨⟨y, h⟩, ys, hs⟩
        exact ⟨y :: ys, .cons h hs⟩

theorem Term.forall_holds_iff {schema : KeySchema} {item : Item} {terms : List Term}
    {conds : List SortCondition} (hd : schema.Distinct) (hfits : schema.Fits item)
    (h : List.Forall₂ (Term.Puts schema) terms conds) :
    (∀ t ∈ terms, t.Holds schema item)
      ↔ ∀ cond ∈ conds, cond.accepts (schema.placeOf item) = true := by
  induction h with
  | nil => simp
  | cons hputs h ih => rw [List.forall_mem_cons, List.forall_mem_cons, ih, hputs.holds_iff hd hfits]

/-- A key satisfies the key condition of a conjunction exactly if its item satisfies all terms as they
are written. -/
theorem KeyCondition.satisfied_iff_holds {schema : KeySchema} {terms : List Term} {c : KeyCondition}
    {item : Item} {key : PrimaryKey} (hd : schema.Distinct) (hc : ofTerms schema terms = .ok c)
    (hkey : schema.extract item = .ok key) :
    (key.partition = c.partition ∧ ∀ cond ∈ c.sort, cond.accepts key.place = true)
      ↔ ∀ t ∈ terms, t.Holds schema item := by
  obtain ⟨before, t, after, rfl, hfixes, hall⟩ := (ofTerms_eq_ok_iff hd).mp hc
  obtain ⟨hfits, hpartition, -⟩ := KeySchema.extract_eq_ok_iff.mp hkey
  have hsort := Term.forall_holds_iff hd hfits hall
  rw [KeySchema.place_of_extract hkey, ← hsort, ← hfixes.holds_iff hpartition]
  simp only [List.forall_mem_append, List.forall_mem_cons]
  exact and_left_comm

/-! ## Texts -/

/-- A text is read exactly if it spells a sentence of the grammar whose placeholders are all bound, and
into the terms of the sentence. Under a key schema whose keys have different names it is accepted exactly
if one term fixes the partition key and every other term puts a condition on the sort key. A key then
satisfies the key condition exactly if its item satisfies all terms as they are written. -/
theorem KeyCondition.reads_grammar_and_means_terms (values : Dict AttributeValue) (text : String) :
    (∀ terms, Term.ofText values text = .ok terms
      ↔ ∃ ts, Token.Spelling text.toList ts ∧ Term.Derives values .condition ts terms)
    ∧ ∀ schema : KeySchema, schema.Distinct → ∀ terms, Term.ofText values text = .ok terms →
      ((∃ c, KeyCondition.ofText schema values text = .ok c)
        ↔ ∃ before t after, terms = before ++ t :: after ∧ (∃ v, t.Fixes schema v)
          ∧ ∀ u ∈ before ++ after, ∃ cond, u.Puts schema cond)
      ∧ ∀ c, KeyCondition.ofText schema values text = .ok c →
        ∀ item key, schema.extract item = .ok key →
          ((key.partition = c.partition ∧ ∀ cond ∈ c.sort, cond.accepts key.place = true)
            ↔ ∀ t ∈ terms, t.Holds schema item) := by
  refine ⟨fun terms => Term.ofText_eq_ok_iff, fun schema hd terms hterms => ⟨?_, ?_⟩⟩
  · simp only [ofText_eq_ok_iff_of_terms hterms, ofTerms_eq_ok_iff hd, ← exists_forall₂_iff]
    constructor
    · rintro ⟨c, before, t, after, hsplit, hfixes, hputs⟩
      exact ⟨before, t, after, hsplit, ⟨_, hfixes⟩, ⟨_, hputs⟩⟩
    · rintro ⟨before, t, after, hsplit, ⟨v, hfixes⟩, ⟨conds, hputs⟩⟩
      exact ⟨⟨v, conds⟩, before, t, after, hsplit, hfixes, hputs⟩
  · intro c hc item key hkey
    exact satisfied_iff_holds hd ((ofText_eq_ok_iff_of_terms hterms).mp hc) hkey

/-! ## A bound written before the key -/

/-- Keys made of two strings. -/
def entryKeys : KeySchema where
  partition := ⟨"pk", .string⟩
  sort := some ⟨"sk", .string⟩

/-- The values of a condition on entries. -/
def entryValues : Dict AttributeValue :=
  Dict.ofList [(":pk", .string "a"), (":low", .string "b")]

/-- The tokens of the condition that asks for the entries of a partition after a bound. -/
def entriesAfter : List Token :=
  [.leftBracket, .placeholder "low", .less, .name "sk", .rightBracket, .and, .name "pk", .equal,
    .placeholder "pk"]

theorem spelling_entriesAfter : Token.Spelling "(:low<sk) AND pk=:pk".toList entriesAfter := by
  have hpk : IsName "pk" := Token.spells_of_word rfl rfl rfl rfl
  have hsk : IsName "sk" := Token.spells_of_word rfl rfl rfl rfl
  have hlow : IsName "low" := Token.spells_of_word rfl rfl rfl rfl
  have hand : Token.Spells .and "AND".toList := Token.spells_of_word rfl rfl rfl rfl
  have hequal : Token.Spells .equal ['='] := .sign rfl
  have hless : Token.Spells .less ['<'] := .sign rfl
  have hopen : Token.Spells .leftBracket ['('] := .sign rfl
  have hclose : Token.Spells .rightBracket [')'] := .sign rfl
  -- the equality of the partition key, which follows the bracket after a blank
  have hpartition := hpk.adjoin (.of_head rfl _)
    (hequal.adjoin (.of_head rfl _) hpk.spells_ofName.spelling)
  have hrest := hclose.adjoin (.of_head rfl _)
    (hand.adjoin (.of_head rfl _) hpartition.after_space).after_space
  have hbound := hless.adjoin (.of_head rfl _) (hsk.adjoin (.of_head rfl _) hrest)
  exact hopen.adjoin (.of_head rfl _) (hlow.spells_ofName.adjoin (.of_head rfl _) hbound)

/-- The entry at a key. -/
def entry (sort : String) : Item := Dict.ofList [("pk", .string "a"), ("sk", .string sort)]

theorem reads_entriesAfter :
    ∃ terms c, Term.ofText entryValues "(:low<sk) AND pk=:pk" = .ok terms
      ∧ KeyCondition.ofText entryKeys entryValues "(:low<sk) AND pk=:pk" = .ok c
      ∧ (∀ t ∈ terms, t.Holds entryKeys (entry "c")) ∧ ¬ ∀ t ∈ terms, t.Holds entryKeys (entry "b") := by
  obtain ⟨hgrammar, hmeaning⟩ :=
    KeyCondition.reads_grammar_and_means_terms entryValues "(:low<sk) AND pk=:pk"
  have hlow : Operand.Written entryValues (.placeholder "low") (.value (.string "b")) :=
    .placeholder rfl
  have hpk : Operand.Written entryValues (.placeholder "pk") (.value (.string "a")) :=
    .placeholder rfl
  have hbound := Term.Written.compare (s := .less) hlow rfl (.name "sk")
  have hpartition := Term.Written.compare (s := .equal) (.name "pk") rfl hpk
  have hterms := (hgrammar _).mpr ⟨entriesAfter, spelling_entriesAfter,
    (Term.Derives.brackets (.last (.bare hbound))).and (.last (.bare hpartition))⟩
  have hd : entryKeys.Distinct := by decide
  obtain ⟨haccepted, hholds⟩ := hmeaning entryKeys hd _ hterms
  have hfixes : Term.Fixes entryKeys
      (.compare (.attribute "pk") .equal (.value (.string "a"))) (.string "a") := .left (by decide)
  have hadm : KeyAttribute.Admits ⟨"sk", .string⟩ (.string "b") := by decide
  have hputs : Term.Puts entryKeys (.compare (.value (.string "b")) .less (.attribute "sk"))
      (.greater (.string "b")) := .right rfl hadm
  obtain ⟨c, hc⟩ := haccepted.mpr
    ⟨_, _, [], rfl, ⟨_, hfixes⟩, List.forall_mem_singleton.mpr ⟨_, hputs⟩⟩
  have hparts : c = ⟨.string "a", [.greater (.string "b")]⟩ :=
    Except.ok.inj (((KeyCondition.ofText_eq_ok_iff_of_terms hterms).mp hc).symm.trans rfl)
  subst hparts
  refine ⟨_, _, hterms, hc, ?_, ?_⟩
  · refine (hholds _ hc (entry "c") ⟨.string "a", some (.string "c")⟩ rfl).mp ⟨rfl, ?_⟩
    decide
  · intro hall
    obtain ⟨-, hafter⟩ := (hholds _ hc (entry "b") ⟨.string "a", some (.string "b")⟩ rfl).mpr hall
    revert hafter
    decide

end SingleTable
