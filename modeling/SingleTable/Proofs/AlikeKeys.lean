import Mathlib.Data.List.Forall2
import SingleTable.Proofs.RangeSearch
import SingleTable.Proofs.Storage

set_option autoImplicit false

/-!
# Keys that are compared alike

Sort keys are only ever compared. Keys that are compared alike with every key (`SortKey.Alike`) can
therefore take each other's place in look-ups, deletes and conditions, in every storage
(`Storage.get?_alike`, `Storage.delete_alike`, `Storage.query_alike`, `Storage.queryIndex_alike`), and an
item that is put under one of them replaces what is under the other (`Storage.put_alike`).
-/

namespace SingleTable

namespace SortKey

/-- The keys are compared alike with every key, so that they address the same place. -/
def Alike (a b : SortKey) : Prop := ∀ c, compare a c = compare b c

theorem Alike.right {a b : SortKey} (h : a.Alike b) (c : SortKey) : compare c a = compare c b := by
  rw [compare_swap c a, compare_swap c b, h c]

/-- The key, but `b` where it is `a`. -/
def respell (a b : SortKey) (k : SortKey) : SortKey := if k = a then b else k

theorem Alike.respell {a b : SortKey} (h : a.Alike b) (k : SortKey) : k.Alike (respell a b k) := by
  rw [SortKey.respell]
  split
  · rename_i hk
    exact hk ▸ h
  · exact fun _ => rfl

end SortKey

/-! ## Partitions -/

namespace Partition

variable {k k' : SortKey} (h : k.Alike k') (p : Partition)

include h

theorem get?_alike : p.get? k = p.get? k' := by
  induction p with
  | nil => rfl
  | cons e p ih => rw [get?, get?, h e.1, ih]

theorem erase_alike : p.erase k = p.erase k' := by
  induction p with
  | nil => rfl
  | cons e p ih => rw [erase, erase, h e.1, ih]

theorem below_alike : p.below k = p.below k' := by simp only [below, h _]

theorem above_alike : p.above k = p.above k' := by simp only [above, h _]

theorem leading_alike : p.leading k = p.leading k' := by
  cases p with
  | nil => rfl
  | cons e p => rw [leading, leading, h e.1]

end Partition

/-! ## Conditions -/

namespace SortCondition

/-- The conditions are of one kind and hold keys that are compared alike. -/
inductive Alike : SortCondition → SortCondition → Prop
  | equal {v w : SortKey} (h : v.Alike w) : Alike (.equal v) (.equal w)
  | less {v w : SortKey} (h : v.Alike w) : Alike (.less v) (.less w)
  | atMost {v w : SortKey} (h : v.Alike w) : Alike (.atMost v) (.atMost w)
  | greater {v w : SortKey} (h : v.Alike w) : Alike (.greater v) (.greater w)
  | atLeast {v w : SortKey} (h : v.Alike w) : Alike (.atLeast v) (.atLeast w)
  | between {low high low' high' : SortKey} (hlow : low.Alike low') (hhigh : high.Alike high') :
      Alike (.between low high) (.between low' high')
  | beginsWith (start : String) : Alike (.beginsWith start) (.beginsWith start)
  | beginsWithBytes (start : Bytes) : Alike (.beginsWithBytes start) (.beginsWithBytes start)

/-- The condition with every key replaced by another one. -/
def mapKeys (f : SortKey → SortKey) : SortCondition → SortCondition
  | .equal v => .equal (f v)
  | .less v => .less (f v)
  | .atMost v => .atMost (f v)
  | .greater v => .greater (f v)
  | .atLeast v => .atLeast (f v)
  | .between low high => .between (f low) (f high)
  | .beginsWith start => .beginsWith start
  | .beginsWithBytes start => .beginsWithBytes start

theorem alike_mapKeys {f : SortKey → SortKey} (h : ∀ k : SortKey, k.Alike (f k)) (c : SortCondition) :
    c.Alike (c.mapKeys f) := by
  cases c with
  | equal v => exact .equal (h v)
  | less v => exact .less (h v)
  | atMost v => exact .atMost (h v)
  | greater v => exact .greater (h v)
  | atLeast v => exact .atLeast (h v)
  | between low high => exact .between (h low) (h high)
  | beginsWith start => exact .beginsWith start
  | beginsWithBytes start => exact .beginsWithBytes start

/-- Conditions that are alike accept the same keys. -/
theorem Alike.accepts_eq {c c' : SortCondition} (h : c.Alike c') (k : SortKey) :
    c.accepts k = c'.accepts k := by
  cases h with
  | equal h => simp only [accepts, SortKey.same, h.right k]
  | less h => simp only [accepts, SortKey.before, h.right k]
  | atMost h => simp only [accepts, SortKey.notAfter, h.right k]
  | greater h => simp only [accepts, h.right k]
  | atLeast h => simp only [accepts, h.right k]
  | between hlow hhigh => simp only [accepts, SortKey.notAfter, hlow.right k, hhigh.right k]
  | beginsWith start => rfl
  | beginsWithBytes start => rfl

/-- Conditions that are alike are searched for in the same part of a partition. -/
theorem Alike.searched_eq {c c' : SortCondition} (h : c.Alike c') (p : Partition) :
    c.range?.elim [] p.range = c'.range?.elim [] p.range := by
  cases h with
  | equal h =>
      simp only [range?, Option.elim, Partition.range, Partition.above_alike h, Partition.below_alike h,
        Partition.leading_alike h]
  | less h => simp only [range?, Option.elim, Partition.range, Partition.below_alike h]
  | atMost h =>
      simp only [range?, Option.elim, Partition.range, Partition.above_alike h, Partition.below_alike h,
        Partition.leading_alike h]
  | greater h =>
      simp only [range?, Option.elim, Partition.range, Partition.above_alike h,
        Partition.leading_alike h]
  | atLeast h => simp only [range?, Option.elim, Partition.range, Partition.above_alike h]
  | @between low high low' high' hlow hhigh =>
      have hcompare : compare low high = compare low' high' := (hlow high).trans (hhigh.right low')
      simp only [range?, hcompare]
      split
      · rfl
      · simp only [Option.elim, Partition.range, Partition.above_alike hlow,
          Partition.above_alike hhigh, Partition.below_alike hhigh, Partition.leading_alike hhigh]
  | beginsWith start => rfl
  | beginsWithBytes start => rfl

variable {conditions conditions' : List SortCondition}

theorem forall₂_alike_map {f : SortKey → SortKey} (h : ∀ k : SortKey, k.Alike (f k)) :
    List.Forall₂ Alike conditions (conditions.map (mapKeys f)) := by
  induction conditions with
  | nil => exact .nil
  | cons c conditions ih => exact .cons (alike_mapKeys h c) ih

theorem all_accepts_alike (h : List.Forall₂ Alike conditions conditions') (k : SortKey) :
    conditions.all (fun c => c.accepts k) = conditions'.all (fun c => c.accepts k) := by
  induction h with
  | nil => rfl
  | cons hc _ ih => rw [List.all_cons, List.all_cons, hc.accepts_eq k, ih]

end SortCondition

theorem Partition.select_alike {conditions conditions' : List SortCondition}
    (h : List.Forall₂ SortCondition.Alike conditions conditions') (p : Partition) :
    p.select conditions = p.select conditions' := by
  have hsearched : p.searched conditions = p.searched conditions' := by
    cases h with
    | nil => rfl
    | cons hc _ => exact hc.searched_eq p
  rw [select_eq_searched, select_eq_searched, hsearched]
  simp only [SortCondition.all_accepts_alike h]

/-! ## Storages -/

namespace Storage

section

variable {k k' : PrimaryKey} (hplace : k.place.Alike k'.place) (hpart : k.partition = k'.partition)
  (s : Storage)

include hplace hpart

theorem get?_alike : s.get? k = s.get? k' := by
  rw [get?, get?, hpart, Partition.get?_alike hplace]

theorem delete_alike : s.delete k = s.delete k' := by
  rw [delete, delete, s.get?_alike hplace hpart, hpart, Partition.erase_alike hplace]

/-- Of two items that are put under keys for the same place the later one stays, and is found under
both keys. -/
theorem put_alike {item other : Item} (hkey : s.schema.extract item = .ok k)
    (hkey' : s.schema.extract other = .ok k') :
    ∃ s₁ s₂, s.put item = .ok (s.get? k, s₁) ∧ s₁.put other = .ok (some item, s₂)
      ∧ s₂.get? k = some other ∧ s₂.get? k' = some other ∧ s₂.count = s₁.count := by
  have hold : (s.putAt k item).get? k' = some item := by
    rw [← get?_alike hplace hpart, get?_putAt_self]
  have hput := put_of_extract (s := s.putAt k item) hkey'
  have hcount : ((s.putAt k item).putAt k' other).count
      = if ((s.putAt k item).get? k').isSome then (s.putAt k item).count
        else (s.putAt k item).count + 1 := rfl
  rw [hold] at hput hcount
  refine ⟨_, _, put_of_extract hkey, hput, ?_, get?_putAt_self _ k' other, hcount⟩
  rw [get?_alike hplace hpart, get?_putAt_self]

end

variable {conditions conditions' : List SortCondition}
  (h : List.Forall₂ SortCondition.Alike conditions conditions') (s : Storage) (value : AttributeValue)
  (forward : Bool)

include h

theorem query_alike : s.query value conditions forward = s.query value conditions' forward := by
  rw [query, query, Partition.select_alike h]

theorem queryIndex_alike (schema : KeySchema) :
    s.queryIndex schema value conditions forward = s.queryIndex schema value conditions' forward := by
  have hhit : hit? schema value conditions = hit? schema value conditions' := by
    funext basePartition entry
    simp only [hit?, SortCondition.all_accepts_alike h]
  rw [queryIndex, queryIndex, hits, hits, hhit]

end Storage

end SingleTable
