import SingleTable.Proofs.Selection

set_option autoImplicit false

/-!
# Queries and the range that is searched

A query searches its partition in the range of the first condition (`searchedRange?`), and an ordered
map can be searched for *proper* ranges only (`KeyRange.Proper`). Main statement:
`Storage.query_eq_filter`, by which the range is proper and neither it nor the order of the conditions
shows in the answer. An answer keeps the order of the partition whatever the conditions are
(`Partition.select_sublist`).
-/

namespace SingleTable

/-! ## Proper ranges -/

/-- A range is proper if its low end is not after its high end, and if the two do not leave out one
and the same key. -/
def KeyRange.Proper (r : KeyRange) : Prop :=
  match r.low, r.high with
  | .unbounded, _ => True
  | _, .unbounded => True
  | .excluded low, .excluded high => compare low high = .lt
  | .included low, .included high => compare low high ≠ .gt
  | .included low, .excluded high => compare low high ≠ .gt
  | .excluded low, .included high => compare low high ≠ .gt

/-- The range of a condition is proper, also where its keys are no numbers. -/
theorem SortCondition.proper_of_range? {c : SortCondition} {r : KeyRange} (h : c.range? = some r) :
    r.Proper := by
  cases c with
  | equal v =>
      cases h
      show compare v v ≠ .gt
      rw [SortKey.compare_self]
      decide
  | between low high =>
      rw [range?] at h
      split at h
      · cases h
      · rename_i hle
        cases h
        exact hle
  | _ =>
      cases h
      trivial

/-- The range that a query with some conditions searches, or nothing if it searches none. -/
def searchedRange? : List SortCondition → Option KeyRange
  | [] => some {}
  | first :: _ => first.range?

theorem proper_of_searchedRange? {conditions : List SortCondition} {r : KeyRange}
    (h : searchedRange? conditions = some r) : r.Proper := by
  cases conditions with
  | nil =>
      cases h
      trivial
  | cons first rest => exact SortCondition.proper_of_range? h

namespace Partition

/-! ## The search -/

/-- The entries of a partition among which a query looks for matches. -/
def searched (p : Partition) (conditions : List SortCondition) : Partition :=
  (searchedRange? conditions).elim [] p.range

theorem select_eq_searched (p : Partition) (conditions : List SortCondition) :
    p.select conditions
      = ((p.searched conditions).filter
          (fun e => conditions.all (fun c => c.accepts e.1))).map Prod.snd := by
  cases conditions with
  | nil => rfl
  | cons first rest =>
      rw [select, searched, searchedRange?]
      cases first.range? <;> rfl

theorem leading_sublist (p : Partition) (k : SortKey) : (p.leading k).Sublist p := by
  cases p with
  | nil => exact List.Sublist.refl _
  | cons e p =>
      rw [leading]
      split
      · exact (List.nil_sublist p).cons_cons e
      · exact List.nil_sublist _

/-- A search leaves entries out and moves none. -/
theorem range_sublist (p : Partition) (r : KeyRange) : (p.range r).Sublist p := by
  have hlow : (p.fromLow r.low).Sublist p := by
    cases r.low with
    | unbounded => exact List.Sublist.refl _
    | included k => exact (List.dropWhile_suffix _).sublist
    | excluded k => exact (List.drop_sublist _ _).trans (List.dropWhile_suffix _).sublist
  rw [range_eq]
  refine List.Sublist.trans ?_ hlow
  cases r.high with
  | unbounded => exact List.Sublist.refl _
  | included k =>
      -- what is found at the key follows what comes before it
      have hsplit := @List.takeWhile_append_dropWhile _ (fun e => compare k e.1 == .gt)
        (p.fromLow r.low)
      rw [upToHigh]
      conv => rhs; rw [← hsplit]
      exact (List.Sublist.refl _).append (leading_sublist _ k)
  | excluded k => exact (List.takeWhile_prefix _).sublist

/-- An answer has the items of the partition in their order, whatever the conditions are. -/
theorem select_sublist (p : Partition) (conditions : List SortCondition) :
    (p.select conditions).Sublist (p.map Prod.snd) := by
  rw [select_eq_searched]
  refine (List.filter_sublist.trans ?_).map Prod.snd
  rw [searched]
  cases searchedRange? conditions with
  | none => exact List.nil_sublist p
  | some r => exact p.range_sublist r

/-- The entries whose keys satisfy all conditions. -/
def matching (p : Partition) (conditions : List SortCondition) : Partition :=
  p.filter (fun e => conditions.all (fun c => c.accepts e.1))

/-- The order of the conditions does not matter. -/
theorem matching_perm {conditions others : List SortCondition} (h : others.Perm conditions)
    (p : Partition) : p.matching others = p.matching conditions := by
  refine List.filter_congr fun e _ => ?_
  rw [Bool.eq_iff_iff, List.all_eq_true, List.all_eq_true]
  exact forall_congr' fun c => by rw [h.mem_iff]

end Partition

/-! ## The answer -/

/-- A query of an ordered partition, by conditions on comparable keys. It looks for matches in a
proper range, which the first condition alone settles. It lists exactly the items under the keys that
satisfy all conditions, in strictly ascending order of key, or in the reverse of this order. Other
orders of the conditions have other ranges searched, which are proper as well, and give the same
answer. -/
theorem Storage.query_eq_filter {s : Storage} {value : AttributeValue}
    (hp : (s.partition value).Ordered) {conditions : List SortCondition}
    (hc : ∀ c ∈ conditions, c.Comparable) :
    (∀ r, searchedRange? conditions = some r → r.Proper)
      ∧ s.query value conditions true
          = (((s.partition value).searched conditions).matching conditions).map Prod.snd
      ∧ s.query value conditions true = ((s.partition value).matching conditions).map Prod.snd
      ∧ ((s.partition value).matching conditions).Pairwise (fun e f => compare e.1 f.1 = .lt)
      ∧ s.query value conditions false
          = (((s.partition value).matching conditions).map Prod.snd).reverse
      ∧ ∀ others, others.Perm conditions →
          (∀ r, searchedRange? others = some r → r.Proper)
            ∧ ∀ forward, s.query value others forward = s.query value conditions forward := by
  have hselect : (s.partition value).select conditions
      = ((s.partition value).matching conditions).map Prod.snd :=
    Partition.select_eq_filter hp hc
  refine ⟨fun _ => proper_of_searchedRange?, Partition.select_eq_searched _ _, hselect,
    hp.ascending.filter _, congrArg List.reverse hselect, fun others hperm => ?_⟩
  refine ⟨fun _ => proper_of_searchedRange?, fun forward => ?_⟩
  have hothers : (s.partition value).select others
      = ((s.partition value).matching others).map Prod.snd :=
    Partition.select_eq_filter hp fun c hcmem => hc c (hperm.mem_iff.mp hcmem)
  rw [Storage.query, Storage.query, hothers, hselect, Partition.matching_perm hperm]

/-- The volume of a shelf with a number. -/
def volume (number : String) : Item :=
  (Dict.empty.insert "shelf" (.string "a")).insert "volume" (.number number)

/-- A shelf of three volumes. -/
def shelf : Storage where
  schema := ⟨⟨"shelf", .string⟩, some ⟨"volume", .number⟩⟩
  partitions :=
    [(.string "a", ["1", "2.0", "10"].map (fun number => (.number number, volume number)))]
  count := 3

/-- The volumes after the first and up to the second: one order of the conditions has them searched
for from the first on, the other one up to the second. -/
theorem query_shelf :
    (shelf.partition (.string "a")).Ordered
      ∧ shelf.query (.string "a") [.greater (.number "1"), .atMost (.number "2")] true
          = [volume "2.0"]
      ∧ shelf.query (.string "a") [.atMost (.number "2"), .greater (.number "1")] true
          = [volume "2.0"] := by
  have hp : (shelf.partition (.string "a")).Ordered := ⟨by decide, by decide⟩
  have hc : ∀ c ∈ [SortCondition.greater (.number "1"), .atMost (.number "2")], c.Comparable := by
    have hone : SortKey.Comparable (.number "1") := by decide
    have htwo : SortKey.Comparable (.number "2") := by decide
    rintro c (_ | ⟨_, _ | ⟨_, hc⟩⟩)
    · exact hone
    · exact htwo
    · cases hc
  obtain ⟨-, -, hquery, -, -, hothers⟩ := Storage.query_eq_filter hp hc
  have hlist : shelf.query (.string "a") [.greater (.number "1"), .atMost (.number "2")] true
      = [volume "2.0"] := by
    rw [hquery]
    decide
  exact ⟨hp, hlist, ((hothers _ (.swap _ _ _)).2 true).trans hlist⟩

end SingleTable
