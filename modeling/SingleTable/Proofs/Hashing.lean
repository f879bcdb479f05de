import Mathlib.Data.List.Nodup
import Mathlib.Data.List.Perm.Subperm
import SingleTable.Proofs.Bindings
import SingleTable.Proofs.KeyOrder

set_option autoImplicit false

/-!
# Equal values and their hashes

The entries of a map have no order, so two values can be equal although they list their entries
differently. Two values are equal exactly if they are sorted into one value
(`AttributeValue.equivalent_iff_sorted_eq`), and a value is hashed like its sorted form
(`AttributeValue.hashWrites_sorted`), so equal values are hashed alike. Sort keys are equal where the
comparison finds no difference, but they are hashed as they are spelled. Main statement:
`hashedAlike_of_equal`. Equal keys are hashed alike exactly if they are no different spellings of a number.
-/

namespace SingleTable

namespace AttributeValue

/-! ## Equality up to the order of entries -/

mutual

/-- Whether two values are equal, the entries of a map being listed in any order: maps are equal if they
have equally many entries and every entry of the first has an equal one in the second. -/
def equivalent : AttributeValue → AttributeValue → Bool
  | .string s, .string t => s == t
  | .number s, .number t => s == t
  | .binary s, .binary t => s == t
  | .bool s, .bool t => s == t
  | .null s, .null t => s == t
  | .list xs, .list ys => equivalentItems xs ys
  | .map xs, .map ys => xs.length == ys.length && foundIn xs ys
  | _, _ => false

/-- Whether two lists of values are equal item by item. -/
def equivalentItems : List AttributeValue → List AttributeValue → Bool
  | [], [] => true
  | x :: xs, y :: ys => equivalent x y && equivalentItems xs ys
  | _, _ => false

/-- Whether every entry of the first list has an equal value under its name in the second list. -/
def foundIn : List (String × AttributeValue) → List (String × AttributeValue) → Bool
  | [], _ => true
  | (k, x) :: xs, ys =>
      (match ys.lookup k with
        | some y => equivalent x y
        | none => false) && foundIn xs ys

end

mutual

/-- No map in the value, at any depth, has two entries of one name. -/
def DistinctNames : AttributeValue → Prop
  | .list items => DistinctNamesItems items
  | .map entries => (entries.map Prod.fst).Nodup ∧ DistinctNamesEntries entries
  | _ => True

/-- No map in the items has two entries of one name. -/
def DistinctNamesItems : List AttributeValue → Prop
  | [] => True
  | v :: vs => DistinctNames v ∧ DistinctNamesItems vs

/-- No map in the values of the entries has two entries of one name. -/
def DistinctNamesEntries : List (String × AttributeValue) → Prop
  | [] => True
  | (_, v) :: es => DistinctNames v ∧ DistinctNamesEntries es

end

/-! ## Sorted values -/

mutual

/-- The value with the entries of all of its maps in ascending order of name. -/
def sorted : AttributeValue → AttributeValue
  | .list items => .list (sortedItems items)
  | .map entries => .map (sortEntries (sortedEntries entries))
  | v => v

/-- The items of a list, each of them sorted. -/
def sortedItems : List AttributeValue → List AttributeValue
  | [] => []
  | v :: vs => sorted v :: sortedItems vs

/-- The entries of a map, each value sorted. -/
def sortedEntries : List (String × AttributeValue) → List (String × AttributeValue)
  | [] => []
  | (k, v) :: es => (k, sorted v) :: sortedEntries es

end

theorem sortedEntries_eq_map (es : List (String × AttributeValue)) :
    sortedEntries es = es.map (fun e => (e.1, e.2.sorted)) := by
  induction es with
  | nil => rfl
  | cons e es ih => rw [sortedEntries, ih, List.map_cons]

theorem map_fst_sortedEntries (es : List (String × AttributeValue)) :
    (sortedEntries es).map Prod.fst = es.map Prod.fst := by
  rw [sortedEntries_eq_map, List.map_map]
  rfl

theorem mem_sortedEntries_iff {es : List (String × AttributeValue)} {e : String × AttributeValue} :
    e ∈ sortedEntries es ↔ ∃ v, (e.1, v) ∈ es ∧ v.sorted = e.2 := by
  rw [sortedEntries_eq_map, List.mem_map]
  constructor
  · rintro ⟨⟨k, v⟩, hmem, rfl⟩
    exact ⟨v, hmem, rfl⟩
  · rintro ⟨v, hmem, hv⟩
    exact ⟨(e.1, v), hmem, by rw [hv]⟩

theorem nodup_sortedEntries {es : List (String × AttributeValue)} (h : (es.map Prod.fst).Nodup) :
    (sortedEntries es).Nodup :=
  List.Nodup.of_map Prod.fst (by rwa [map_fst_sortedEntries])

section

variable {xs ys : List (String × AttributeValue)} (hys : (ys.map Prod.fst).Nodup)

include hys

theorem sortedEntries_subset_iff :
    sortedEntries xs ⊆ sortedEntries ys
      ↔ ∀ e ∈ xs, ∃ y, ys.lookup e.1 = some y ∧ e.2.sorted = y.sorted := by
  constructor
  · intro hsubset e he
    have hmem : (e.1, e.2.sorted) ∈ sortedEntries ys :=
      hsubset (mem_sortedEntries_iff.mpr ⟨e.2, he, rfl⟩)
    obtain ⟨y, hy, hsorted⟩ := mem_sortedEntries_iff.mp hmem
    exact ⟨y, (lookup_eq_some_iff hys).mpr hy, hsorted.symm⟩
  · intro h e he
    obtain ⟨x, hx, hsorted⟩ := mem_sortedEntries_iff.mp he
    obtain ⟨y, hy, hxy⟩ := h _ hx
    exact mem_sortedEntries_iff.mpr ⟨y, (lookup_eq_some_iff hys).mp hy, hxy.symm.trans hsorted⟩

variable (hxs : (xs.map Prod.fst).Nodup)

include hxs

theorem sortEntries_sortedEntries_eq_iff_perm :
    sortEntries (sortedEntries xs) = sortEntries (sortedEntries ys)
      ↔ (sortedEntries xs).Perm (sortedEntries ys) := by
  have hx : ((sortedEntries xs).map Prod.fst).Nodup := by rwa [map_fst_sortedEntries]
  have hy : ((sortedEntries ys).map Prod.fst).Nodup := by rwa [map_fst_sortedEntries]
  refine ⟨fun h => ?_, sortEntries_eq_of_perm hx⟩
  -- the look-ups in the sorted entries find the entries of both maps
  apply (List.perm_ext_iff_of_nodup (nodup_sortedEntries hxs) (nodup_sortedEntries hys)).mpr
  intro e
  calc e ∈ sortedEntries xs
      ↔ (sortEntries (sortedEntries xs)).lookup e.1 = some e.2 := (lookup_sortEntries hx).symm
    _ ↔ (sortEntries (sortedEntries ys)).lookup e.1 = some e.2 := by rw [h]
    _ ↔ e ∈ sortedEntries ys := lookup_sortEntries hy

/-- Two maps are sorted into one map exactly if they are of one size and every entry of the first is
found, with a value that is sorted into the same, in the second. -/
theorem sortEntries_sortedEntries_eq_iff :
    sortEntries (sortedEntries xs) = sortEntries (sortedEntries ys)
      ↔ xs.length = ys.length
        ∧ ∀ e ∈ xs, ∃ y, ys.lookup e.1 = some y ∧ e.2.sorted = y.sorted := by
  have hlengths : (sortedEntries xs).length = (sortedEntries ys).length
      ↔ xs.length = ys.length := by
    rw [sortedEntries_eq_map, sortedEntries_eq_map, List.length_map, List.length_map]
  rw [sortEntries_sortedEntries_eq_iff_perm hys hxs, ← hlengths, ← sortedEntries_subset_iff hys]
  constructor
  · intro hperm
    exact ⟨hperm.length_eq, hperm.subset⟩
  · intro ⟨hlength, hsubset⟩
    apply (List.subperm_of_subset (nodup_sortedEntries hxs) hsubset).perm_of_length_le
    exact Nat.le_of_eq hlength.symm

end

theorem distinctNames_of_lookup {es : List (String × AttributeValue)} {k : String}
    {v : AttributeValue} (hes : DistinctNamesEntries es) (h : es.lookup k = some v) :
    v.DistinctNames := by
  obtain ⟨before, after, rfl, -⟩ := List.lookup_eq_some_iff.mp h
  clear h
  induction before with
  | nil => exact hes.1
  | cons e before ih => exact ih hes.2

mutual

/-- Two values are equal exactly if they are sorted into one value. -/
theorem equivalent_iff_sorted_eq (a b : AttributeValue) (ha : a.DistinctNames)
    (hb : b.DistinctNames) : a.equivalent b = true ↔ a.sorted = b.sorted := by
  cases a with
  | list xs =>
      cases b with
      | list ys =>
          rw [equivalent, sorted, sorted, list.injEq]
          exact equivalentItems_iff_sortedItems_eq xs ys ha hb
      | _ => simp [equivalent, sorted]
  | map xs =>
      cases b with
      | map ys =>
          rw [equivalent, sorted, sorted, map.injEq, Bool.and_eq_true, beq_iff_eq,
            sortEntries_sortedEntries_eq_iff hb.1 ha.1, foundIn_iff xs ys ha.2 hb.2]
      | _ => simp [equivalent, sorted]
  | _ => cases b <;> simp [equivalent, sorted]

theorem equivalentItems_iff_sortedItems_eq (xs ys : List AttributeValue)
    (hxs : DistinctNamesItems xs) (hys : DistinctNamesItems ys) :
    equivalentItems xs ys = true ↔ sortedItems xs = sortedItems ys := by
  cases xs with
  | nil => cases ys <;> simp [equivalentItems, sortedItems]
  | cons x xs =>
      cases ys with
      | nil => simp [equivalentItems, sortedItems]
      | cons y ys =>
          rw [equivalentItems, sortedItems, sortedItems, List.cons.injEq, Bool.and_eq_true,
            equivalent_iff_sorted_eq x y hxs.1 hys.1,
            equivalentItems_iff_sortedItems_eq xs ys hxs.2 hys.2]

theorem foundIn_iff (xs ys : List (String × AttributeValue)) (hxs : DistinctNamesEntries xs)
    (hys : DistinctNamesEntries ys) :
    foundIn xs ys = true ↔ ∀ e ∈ xs, ∃ y, ys.lookup e.1 = some y ∧ e.2.sorted = y.sorted := by
  cases xs with
  | nil => simp [foundIn]
  | cons x xs =>
      obtain ⟨k, x⟩ := x
      rw [foundIn, Bool.and_eq_true, List.forall_mem_cons, foundIn_iff xs ys hxs.2 hys]
      refine and_congr_left' ?_
      cases hlookup : ys.lookup k with
      | none => simp
      | some y =>
          have hy : y.DistinctNames := distinctNames_of_lookup hys hlookup
          rw [equivalent_iff_sorted_eq x y hxs.1 hy]
          simp

end

/-! ## Hashes of values -/

theorem entryWrites_eq_map (es : List (String × AttributeValue)) :
    entryWrites es = es.map (fun e => (e.1, .text e.1 :: hashWrites e.2)) := by
  induction es with
  | nil => rfl
  | cons e es ih => rw [entryWrites, ih, List.map_cons]

/-- The writes of the entries of a map may be sorted, or the entries before they are written. -/
theorem sortEntries_entryWrites (es : List (String × AttributeValue)) :
    sortEntries (entryWrites es) = entryWrites (sortEntries es) := by
  rw [entryWrites_eq_map, entryWrites_eq_map,
    sortEntries_map (fun k v => HashWrite.text k :: hashWrites v)]

theorem length_sortedItems (vs : List AttributeValue) : (sortedItems vs).length = vs.length := by
  induction vs with
  | nil => rfl
  | cons v vs ih => rw [sortedItems, List.length_cons, List.length_cons, ih]

mutual

/-- A value is hashed like its sorted form. -/
theorem hashWrites_sorted (v : AttributeValue) : v.sorted.hashWrites = v.hashWrites := by
  cases v with
  | list items =>
      rw [sorted, hashWrites, hashWrites, length_sortedItems items, itemWrites_sortedItems items]
  | map entries =>
      have hsorted : sortEntries (entryWrites (sortEntries (sortedEntries entries)))
          = sortEntries (entryWrites entries) := by
        calc sortEntries (entryWrites (sortEntries (sortedEntries entries)))
            = sortEntries (sortEntries (entryWrites (sortedEntries entries))) := by
              rw [sortEntries_entryWrites (sortedEntries entries)]
          _ = sortEntries (entryWrites (sortedEntries entries)) :=
              sortEntries_of_ascending (ascending_sortEntries _)
          _ = sortEntries (entryWrites entries) := by rw [entryWrites_sortedEntries entries]
      rw [sorted, hashWrites, hashWrites, hsorted]
  | _ => rfl

theorem itemWrites_sortedItems (vs : List AttributeValue) :
    itemWrites (sortedItems vs) = itemWrites vs := by
  cases vs with
  | nil => rfl
  | cons v vs =>
      rw [sortedItems, itemWrites, itemWrites, hashWrites_sorted v, itemWrites_sortedItems vs]

theorem entryWrites_sortedEntries (es : List (String × AttributeValue)) :
    entryWrites (sortedEntries es) = entryWrites es := by
  cases es with
  | nil => rfl
  | cons e es =>
      obtain ⟨k, v⟩ := e
      rw [sortedEntries, entryWrites, entryWrites, hashWrites_sorted v,
        entryWrites_sortedEntries es]

end

/-- Equal values are hashed alike. -/
theorem hashWrites_eq_of_equivalent {a b : AttributeValue} (ha : a.DistinctNames)
    (hb : b.DistinctNames) (h : a.equivalent b = true) : a.hashWrites = b.hashWrites := by
  calc a.hashWrites = a.sorted.hashWrites := (hashWrites_sorted a).symm
    _ = b.sorted.hashWrites := by rw [(equivalent_iff_sorted_eq a b ha hb).mp h]
    _ = b.hashWrites := hashWrites_sorted b

end AttributeValue

namespace SortKey

/-! ## Hashes of sort keys -/

theorem hashWrites_inj {a b : SortKey} : a.hashWrites = b.hashWrites ↔ a = b := by
  refine ⟨fun h => ?_, congrArg hashWrites⟩
  cases a <;> cases b <;> simp_all [hashWrites]

/-- Keys at one place are the same, or different spellings of a number. -/
theorem eq_of_same {a b : SortKey} (h : a.same b = true)
    (hspelled : ∀ s t, a = .number s → b = .number t → s = t) : a = b := by
  rw [same_iff] at h
  cases a with
  | string s =>
      cases b with
      | string t =>
          rw [compare_string] at h
          rw [Std.LawfulEqCmp.eq_of_compare h]
      | _ => cases h
  | number s =>
      cases b with
      | number t => rw [hspelled s t rfl rfl]
      | _ => cases h
  | binary s =>
      cases b with
      | binary t =>
          rw [compare_binary] at h
          rw [Std.LawfulEqCmp.eq_of_compare h]
      | _ => cases h
  | absent =>
      cases b with
      | absent => rfl
      | _ => cases h

/-- Keys at one place are hashed alike exactly if they are no different spellings of a number. -/
theorem hashWrites_eq_iff {a b : SortKey} (h : a.same b = true) :
    a.hashWrites = b.hashWrites ↔ ∀ s t, a = .number s → b = .number t → s = t := by
  rw [hashWrites_inj]
  constructor
  · intro hab s t ha hb
    exact number.inj (ha.symm.trans (hab.trans hb))
  · exact eq_of_same h

end SortKey

namespace PrimaryKey

/-! ## Equality and hashes of primary keys -/

/-- Whether two primary keys are equal: their partition values are, and they have sort keys at one place
or none at all. -/
def equivalent (a b : PrimaryKey) : Bool :=
  a.partition.equivalent b.partition
    && match a.sort, b.sort with
      | some s, some t => s.same t
      | none, none => true
      | _, _ => false

/-- The writes by which a primary key is hashed: those of the partition value, then those of the sort
key, if there is one. -/
def hashWrites (key : PrimaryKey) : List HashWrite :=
  key.partition.hashWrites
    ++ match key.sort with
      | none => [.variant 0]
      | some s => .variant 1 :: s.hashWrites

/-- Equal primary keys are hashed alike exactly if their sort keys are no different spellings of a
number. -/
theorem hashWrites_eq_iff {a b : PrimaryKey} (ha : a.partition.DistinctNames)
    (hb : b.partition.DistinctNames) (h : a.equivalent b = true) :
    a.hashWrites = b.hashWrites
      ↔ ∀ s t, a.sort = some (.number s) → b.sort = some (.number t) → s = t := by
  obtain ⟨p, asort⟩ := a
  obtain ⟨q, bsort⟩ := b
  rw [equivalent, Bool.and_eq_true] at h
  have hpartition : p.hashWrites = q.hashWrites :=
    AttributeValue.hashWrites_eq_of_equivalent ha hb h.1
  rw [hashWrites, hashWrites, hpartition, List.append_cancel_left_eq]
  have hsort := h.2
  cases asort with
  | none =>
      cases bsort with
      | none => simp
      | some t => cases hsort
  | some s =>
      cases bsort with
      | none => cases hsort
      | some t =>
          simp only [List.cons.injEq, true_and, Option.some.injEq]
          exact SortKey.hashWrites_eq_iff hsort

end PrimaryKey

/-! ## Which equal keys are hashed alike -/

/-- Equal values are hashed alike, in whatever order their maps list the entries. Sort keys at one place
are hashed alike exactly if they are no different spellings of a number, and so are equal primary keys by
their sort keys. -/
theorem hashedAlike_of_equal (v w : AttributeValue) (hv : v.DistinctNames) (hw : w.DistinctNames)
    (a b : SortKey) :
    (v.equivalent w = true → v.hashWrites = w.hashWrites)
      ∧ (a.same b = true →
        (a.hashWrites = b.hashWrites ↔ ∀ s t, a = .number s → b = .number t → s = t))
      ∧ ∀ x y : Option SortKey, (PrimaryKey.mk v x).equivalent ⟨w, y⟩ = true →
        ((PrimaryKey.mk v x).hashWrites = (PrimaryKey.mk w y).hashWrites
          ↔ ∀ s t, x = some (.number s) → y = some (.number t) → s = t) := by
  refine ⟨?_, ?_, ?_⟩
  · intro h
    exact AttributeValue.hashWrites_eq_of_equivalent hv hw h
  · intro h
    exact SortKey.hashWrites_eq_iff h
  · intro x y h
    exact PrimaryKey.hashWrites_eq_iff hv hw h

/-- A map that lists its entries in descending order of name, at both depths. -/
def descendingMap : AttributeValue :=
  .map [("b", .number "1"), ("a", .list [.map [("y", .bool true), ("x", .null true)]])]

/-- The same map, with its entries in ascending order. -/
def ascendingMap : AttributeValue :=
  .map [("a", .list [.map [("x", .null true), ("y", .bool true)]]), ("b", .number "1")]

/-- The map is hashed like its reordering, alone and in a key with a number that is spelled alike. The
number ten is hashed differently if it is spelled with an exponent. -/
theorem descendingMap_hashedAlike :
    descendingMap.DistinctNames ∧ ascendingMap.DistinctNames
      ∧ descendingMap ≠ ascendingMap
      ∧ descendingMap.equivalent ascendingMap = true
      ∧ descendingMap.hashWrites = ascendingMap.hashWrites
      ∧ (SortKey.number "10").same (.number "1e1") = true
      ∧ (SortKey.number "10").hashWrites ≠ (SortKey.number "1e1").hashWrites
      ∧ (PrimaryKey.mk descendingMap (some (.number "1.0"))).hashWrites
        = (PrimaryKey.mk ascendingMap (some (.number "1.0"))).hashWrites := by
  have hdescending : descendingMap.DistinctNames := by
    simp [descendingMap, AttributeValue.DistinctNames, AttributeValue.DistinctNamesItems,
      AttributeValue.DistinctNamesEntries]
  have hascending : ascendingMap.DistinctNames := by
    simp [ascendingMap, AttributeValue.DistinctNames, AttributeValue.DistinctNamesItems,
      AttributeValue.DistinctNamesEntries]
  have hequal : descendingMap.equivalent ascendingMap = true := by decide
  have hten : (SortKey.number "10").same (.number "1e1") = true := by decide
  obtain ⟨hvalues, hsorts, hkeys⟩ :=
    hashedAlike_of_equal descendingMap ascendingMap hdescending hascending (.number "10") (.number "1e1")
  refine ⟨hdescending, hascending, by decide, hequal, hvalues hequal, hten, ?_, ?_⟩
  · intro h
    have hspelled : "10" = "1e1" := (hsorts hten).mp h "10" "1e1" rfl rfl
    exact absurd hspelled (by decide)
  · apply (hkeys (some (.number "1.0")) (some (.number "1.0")) (by decide)).mpr
    intro s t hs ht
    cases hs
    cases ht
    rfl

/-- The sort keys 1 and 1.0 are at one place, and different bytes are hashed for them. -/
theorem spellings_hashedApart :
    (SortKey.number "1").same (.number "1.0") = true
      ∧ (SortKey.number "1").hashWrites ≠ (SortKey.number "1.0").hashWrites
      ∧ HashWrite.stream (SortKey.number "1").hashWrites
        ≠ HashWrite.stream (SortKey.number "1.0").hashWrites := by
  refine ⟨by decide, by decide, ?_⟩
  decide

end SingleTable
