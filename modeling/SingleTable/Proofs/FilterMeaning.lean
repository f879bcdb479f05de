import SingleTable.Proofs.Resolution
import SingleTable.Proofs.Selection

set_option autoImplicit false

/-!
# The meaning of filters

A filter accepts a sort key value if the value satisfies each operator that is set, in the order of
sort keys or by its first bytes (`SortFilter.Accepts`). The conditions that a query puts on sort keys
say the same (`KeyQuery.forall_accepts_iff`).
-/

namespace SingleTable

/-! ## What a filter accepts -/

/-- The bytes of a string in UTF-8, or of a binary value. -/
def AttributeValue.bytes? : AttributeValue → Option Bytes
  | .string s => some (utf8Bytes s)
  | .binary bytes => some bytes
  | _ => none

/-- The bytes of the value start with those of `start`. -/
def AttributeValue.StartsWith (v start : AttributeValue) : Prop :=
  ∃ bytes first, v.bytes? = some bytes ∧ start.bytes? = some first ∧ first <+: bytes

/-- How two values compare as sort keys. -/
def AttributeValue.keyOrder (v w : AttributeValue) : Ordering :=
  compare (SortKey.ofValueD v) (SortKey.ofValueD w)

/-- A sort key value satisfies all operators of the filter. -/
structure SortFilter.Accepts (f : SortFilter) (v : AttributeValue) : Prop where
  equal : ∀ w, f.equal = some w → v.keyOrder w = .eq
  less : ∀ w, f.less = some w → v.keyOrder w = .lt
  atMost : ∀ w, f.atMost = some w → (v.keyOrder w).isLE
  greater : ∀ w, f.greater = some w → v.keyOrder w = .gt
  atLeast : ∀ w, f.atLeast = some w → (v.keyOrder w).isGE
  between : ∀ low high, f.between = some (low, high) →
    (v.keyOrder low).isGE ∧ (v.keyOrder high).isLE
  beginsWith : ∀ start, f.beginsWith = some start → v.StartsWith start

/-! ## Clause by clause -/

/-- The comparison holds of two values that compare so. -/
def Comparison.Holds : Comparison → Ordering → Prop
  | .equal, o => o = .eq
  | .less, o => o = .lt
  | .atMost, o => o.isLE
  | .greater, o => o = .gt
  | .atLeast, o => o.isGE

/-- A sort key value satisfies the operator of the clause. -/
def Clause.Holds (v : AttributeValue) : Clause → Prop
  | .compare c w => c.Holds (v.keyOrder w)
  | .between low high => (v.keyOrder low).isGE ∧ (v.keyOrder high).isLE
  | .beginsWith start => v.StartsWith start

theorem SortFilter.accepts_iff {f : SortFilter} {v : AttributeValue} :
    f.Accepts v ↔ ∀ c ∈ f.clauses, c.Holds v := by
  simp only [clauses, List.forall_mem_append, Option.mem_toList, Option.map_eq_some_iff]
  constructor
  · intro h
    refine ⟨⟨⟨⟨⟨⟨?_, ?_⟩, ?_⟩, ?_⟩, ?_⟩, ?_⟩, ?_⟩
    · rintro _ ⟨w, hw, rfl⟩
      exact h.equal w hw
    · rintro _ ⟨w, hw, rfl⟩
      exact h.less w hw
    · rintro _ ⟨w, hw, rfl⟩
      exact h.atMost w hw
    · rintro _ ⟨w, hw, rfl⟩
      exact h.greater w hw
    · rintro _ ⟨w, hw, rfl⟩
      exact h.atLeast w hw
    · rintro _ ⟨⟨low, high⟩, hw, rfl⟩
      exact h.between low high hw
    · rintro _ ⟨w, hw, rfl⟩
      exact h.beginsWith w hw
  · rintro ⟨⟨⟨⟨⟨⟨hequal, hless⟩, hatMost⟩, hgreater⟩, hatLeast⟩, hbetween⟩, hbegins⟩
    exact {
      equal := fun w hw => hequal _ ⟨w, hw, rfl⟩
      less := fun w hw => hless _ ⟨w, hw, rfl⟩
      atMost := fun w hw => hatMost _ ⟨w, hw, rfl⟩
      greater := fun w hw => hgreater _ ⟨w, hw, rfl⟩
      atLeast := fun w hw => hatLeast _ ⟨w, hw, rfl⟩
      between := fun low high hw => hbetween _ ⟨(low, high), hw, rfl⟩
      beginsWith := fun w hw => hbegins _ ⟨w, hw, rfl⟩ }

theorem Comparison.accepts_condition_iff (c : Comparison) (k w : SortKey) :
    (c.condition w).accepts k = true ↔ c.Holds (compare k w) := by
  cases c with
  | equal => exact SortKey.same_iff
  | less => exact SortKey.before_iff
  | atMost => exact Iff.rfl
  | greater => exact beq_iff_eq
  | atLeast => exact Iff.rfl

/-- One text starts with another one exactly if its bytes start with those of the other one. -/
theorem isPrefix_toList_iff {s t : String} : s.toList <+: t.toList ↔ utf8Bytes s <+: utf8Bytes t := by
  have hbytes : ∀ u : String, utf8Bytes u = u.toList.utf8Encode.data.toList := by
    intro u
    rw [utf8Bytes, String.toUTF8_eq_toByteArray, String.utf8Encode_toList]
  rw [hbytes, hbytes]
  constructor
  · rintro ⟨rest, hrest⟩
    refine ⟨rest.utf8Encode.data.toList, ?_⟩
    rw [← hrest, List.utf8Encode_append, ByteArray.toList_data_append]
  · rintro ⟨rest, hrest⟩
    refine List.isPrefix_of_utf8Encode_append_eq_utf8Encode ⟨rest.toArray⟩ ?_
    refine ByteArray.ext (Array.toList_inj.mp ?_)
    rw [ByteArray.toList_data_append]
    exact hrest

theorem startsWith_string_iff {s t : String} :
    (AttributeValue.string t).StartsWith (.string s) ↔ s.toList <+: t.toList := by
  rw [isPrefix_toList_iff]
  constructor
  · rintro ⟨_, _, hb, hf, h⟩
    cases hb
    cases hf
    exact h
  · exact fun h => ⟨_, _, rfl, rfl, h⟩

theorem startsWith_binary_iff {s t : Bytes} :
    (AttributeValue.binary t).StartsWith (.binary s) ↔ s <+: t := by
  constructor
  · rintro ⟨_, _, hb, hf, h⟩
    cases hb
    cases hf
    exact h
  · exact fun h => ⟨_, _, rfl, rfl, h⟩

/-! ## Conditions -/

/-- The condition of a clause holds of the sort keys of which the clause does. -/
theorem Clause.accepts_iff {key : KeyAttribute} {c : Clause} {cond : SortCondition}
    (hc : c.condition? key = some cond) {v : AttributeValue} (hv : key.Admits v) :
    cond.accepts (SortKey.ofValueD v) = true ↔ c.Holds v := by
  rcases condition?_cases hc with ⟨sign, w, rfl, -, rfl⟩ | ⟨low, high, rfl, -, -, rfl⟩
    | ⟨s, rfl, hs, rfl⟩ | ⟨bytes, rfl, hs, rfl⟩
  · exact sign.accepts_condition_iff _ _
  · exact Bool.and_eq_true_iff
  -- the sort key has the type of the start, so both are strings or both are binary
  · obtain ⟨t, rfl⟩ := hs.exists_string hv
    exact List.isPrefixOf_iff_prefix.trans startsWith_string_iff.symm
  · obtain ⟨t, rfl⟩ := hs.exists_binary hv
    exact List.isPrefixOf_iff_prefix.trans startsWith_binary_iff.symm

/-- A sort key satisfies the conditions of a typed query exactly if the filter accepts it. -/
theorem KeyQuery.forall_accepts_iff {q : KeyQuery} {key : KeyAttribute}
    (htype : key.type.isKey = true) (h : q.filter.Typed key.type) {v : AttributeValue}
    (hv : key.Admits v) :
    (∀ c ∈ q.conditions key, c.accepts (SortKey.ofValueD v) = true) ↔ q.filter.Accepts v := by
  have hfits := (SortFilter.forall_isSome_condition?_iff htype).mpr h
  rw [SortFilter.accepts_iff]
  simp only [conditions, List.mem_filterMap]
  constructor
  · intro hall c hc
    obtain ⟨cond, hcond⟩ := Option.isSome_iff_exists.mp (hfits c hc)
    exact (Clause.accepts_iff hcond hv).mp (hall cond ⟨c, hc, hcond⟩)
  · rintro hall cond ⟨c, hc, hcond⟩
    exact (Clause.accepts_iff hcond hv).mpr (hall c hc)

/-- The conditions of a query compare with keys that can be compared, if the values of the filter can
be. -/
theorem KeyQuery.comparable_conditions {q : KeyQuery}
    (h : ∀ v ∈ q.filter.values, (SortKey.ofValueD v).Comparable) (key : KeyAttribute) :
    ∀ c ∈ q.conditions key, c.Comparable := by
  intro cond hcond
  obtain ⟨c, hc, hcond⟩ := List.mem_filterMap.mp hcond
  have hvalues : ∀ v ∈ c.values, (SortKey.ofValueD v).Comparable :=
    fun v hv => h v (List.mem_flatMap.mpr ⟨c, hc, hv⟩)
  rcases Clause.condition?_cases hcond with ⟨sign, w, rfl, -, rfl⟩ | ⟨low, high, rfl, -, -, rfl⟩
    | ⟨s, rfl, -, rfl⟩ | ⟨bytes, rfl, -, rfl⟩
  · have hw := hvalues w (List.mem_singleton.mpr rfl)
    cases sign <;> exact hw
  · exact ⟨hvalues low (by simp [Clause.values]), hvalues high (by simp [Clause.values])⟩
  · trivial
  · trivial

end SingleTable
