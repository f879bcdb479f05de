import SingleTable.Proofs.Partition

set_option autoImplicit false

/-!
# Selecting from a partition by range

A query of a partition searches only the range of its first condition. Main statement:
`Partition.select_eq_filter`, by which the answer is that of a plain filter by all conditions, for
every ordered partition and all conditions on comparable keys. Behind it stand `range_eq_filter` (the
range search keeps the keys within the range) and `contains_of_accepts` (the range of a condition
contains its matches).
-/

namespace SingleTable

/-! ## Tests that hold on a front part of a list -/

section

variable {α : Type} {q : α → Bool} {l : List α}

theorem filter_eq_nil_of_head {a : α} (h : (a :: l).Pairwise (fun x y => q y = true → q x = true))
    (ha : q a = false) : l.filter q = [] := by
  rw [List.filter_eq_nil_iff]
  intro b hb hqb
  rw [(List.pairwise_cons.mp h).1 b hb hqb] at ha
  cases ha

theorem takeWhile_eq_filter (h : l.Pairwise (fun x y => q y = true → q x = true)) :
    l.takeWhile q = l.filter q := by
  induction l with
  | nil => rfl
  | cons a l ih =>
      cases ha : q a with
      | true => simp [ha, ih (List.pairwise_cons.mp h).2]
      | false => simp [ha, filter_eq_nil_of_head h ha]

theorem dropWhile_eq_filter (h : l.Pairwise (fun x y => q y = true → q x = true)) :
    l.dropWhile q = l.filter (fun x => !q x) := by
  induction l with
  | nil => rfl
  | cons a l ih =>
      cases ha : q a with
      | true => simp [ha, ih (List.pairwise_cons.mp h).2]
      | false =>
          have hall : ∀ b ∈ l, q b = false := by
            simpa using List.filter_eq_nil_iff.mp (filter_eq_nil_of_head h ha)
          have hl : l.filter (fun x => !q x) = l :=
            List.filter_eq_self.mpr fun b hb => by rw [hall b hb]; rfl
          simp [ha, hl]

end

namespace Partition

/-! ## Splitting an ordered partition at a key -/

/-- Once a key is not after an entry, it is before all entries that follow. -/
theorem lt_of_isLE_head {e : SortKey × Item} {p : Partition} (h : Ordered (e :: p)) {k : SortKey}
    (hk : k.Comparable) (hke : (compare k e.1).isLE) : ∀ f ∈ p, compare k f.1 = .lt := by
  obtain ⟨he, hlt, hp⟩ := ordered_cons.mp h
  exact fun f hf => SortKey.lt_of_isLE_of_lt hk he (hp.comparable f hf) hke (hlt f hf)

/-- The entries before a key stand in front of all others. -/
theorem pairwise_gt {p : Partition} (h : Ordered p) {k : SortKey} (hk : k.Comparable) :
    p.Pairwise (fun e f => (compare k f.1 == .gt) = true → (compare k e.1 == .gt) = true) := by
  induction p with
  | nil => exact List.Pairwise.nil
  | cons e p ih =>
      refine List.pairwise_cons.mpr ⟨fun f hf hkf => ?_, ih (ordered_cons.mp h).2.2⟩
      rw [beq_iff_eq]
      by_contra hke
      rw [lt_of_isLE_head h hk (Ordering.isLE_iff_ne_gt.mpr hke) f hf] at hkf
      cases hkf

theorem below_eq_filter {p : Partition} (h : Ordered p) {k : SortKey} (hk : k.Comparable) :
    p.below k = p.filter (fun e => compare k e.1 == .gt) :=
  takeWhile_eq_filter (pairwise_gt h hk)

theorem above_eq_filter {p : Partition} (h : Ordered p) {k : SortKey} (hk : k.Comparable) :
    p.above k = p.filter (fun e => compare k e.1 != .gt) :=
  dropWhile_eq_filter (pairwise_gt h hk)

/-- In a partition without keys before `k`, the entry at `k` leads, if there is one. -/
theorem leading_eq_filter {p : Partition} (h : Ordered p) {k : SortKey} (hk : k.Comparable)
    (hle : ∀ e ∈ p, (compare k e.1).isLE) :
    p.leading k = p.filter (fun e => compare k e.1 == .eq)
      ∧ p.drop (p.leading k).length = p.filter (fun e => compare k e.1 == .lt) := by
  cases p with
  | nil => exact ⟨rfl, rfl⟩
  | cons e p =>
      have hlt := lt_of_isLE_head h hk (hle e (by simp))
      have hno : p.filter (fun f => compare k f.1 == .eq) = [] := by
        rw [List.filter_eq_nil_iff]
        intro f hf
        rw [hlt f hf]
        decide
      have hall : p.filter (fun f => compare k f.1 == .lt) = p := by
        rw [List.filter_eq_self]
        intro f hf
        rw [hlt f hf]
        decide
      have hke := hle e (by simp)
      cases hc : compare k e.1 with
      | lt => simp [leading, hc, hno, hall]
      | eq => simp [leading, hc, hno, hall]
      | gt => rw [hc] at hke; cases hke

/-- The entries before a key, followed by the entry at it, are the entries not after it. -/
theorem filter_gt_append_eq {p : Partition} (h : Ordered p) {k : SortKey} (hk : k.Comparable) :
    p.filter (fun e => compare k e.1 == .gt) ++ p.filter (fun e => compare k e.1 == .eq)
      = p.filter (fun e => compare k e.1 != .lt) := by
  induction p with
  | nil => rfl
  | cons e p ih =>
      obtain ⟨-, -, hp⟩ := ordered_cons.mp h
      by_cases hke : compare k e.1 = .gt
      · simp [hke, ih hp]
      · -- from `e` on no entry is before `k`, and none after `e` is at it
        have hlt := lt_of_isLE_head h hk (Ordering.isLE_iff_ne_gt.mpr hke)
        have hno : ∀ q : Ordering → Bool, q .lt = false →
            p.filter (fun f => q (compare k f.1)) = [] := by
          intro q hq
          rw [List.filter_eq_nil_iff]
          intro f hf
          rw [hlt f hf, hq]
          decide
        rw [List.filter_cons, List.filter_cons, List.filter_cons, hno (· == .gt) rfl,
          hno (· == .eq) rfl, hno (· != .lt) rfl]
        cases hc : compare k e.1 with
        | lt => rfl
        | eq => rfl
        | gt => exact absurd hc hke

end Partition

/-! ## Ranges -/

namespace RangeEnd

/-- The keys that an end of a range is made of are comparable. -/
def Comparable : RangeEnd → Prop
  | .unbounded => True
  | .included v => v.Comparable
  | .excluded v => v.Comparable

/-- Whether a key lies on the inner side of a low end. -/
def admitsAbove : RangeEnd → SortKey → Bool
  | .unbounded, _ => true
  | .included v, k => compare v k != .gt
  | .excluded v, k => compare v k == .lt

/-- Whether a key lies on the inner side of a high end. -/
def admitsBelow : RangeEnd → SortKey → Bool
  | .unbounded, _ => true
  | .included v, k => compare v k != .lt
  | .excluded v, k => compare v k == .gt

end RangeEnd

/-- Whether a key lies within a range. -/
def KeyRange.contains (r : KeyRange) (k : SortKey) : Bool :=
  r.low.admitsAbove k && r.high.admitsBelow k

namespace Partition

/-- The entries from a low end on. -/
def fromLow (p : Partition) : RangeEnd → Partition
  | .unbounded => p
  | .included k => p.above k
  | .excluded k => (p.above k).drop ((p.above k).leading k).length

/-- The entries up to a high end. -/
def upToHigh (p : Partition) : RangeEnd → Partition
  | .unbounded => p
  | .included k => p.below k ++ (p.above k).leading k
  | .excluded k => p.below k

theorem range_eq (p : Partition) (r : KeyRange) : p.range r = (p.fromLow r.low).upToHigh r.high := by
  unfold range fromLow upToHigh
  cases r.low <;> cases r.high <;> rfl

theorem isLE_of_mem_above {p : Partition} (h : Ordered p) {k : SortKey} (hk : k.Comparable) :
    ∀ e ∈ p.above k, (compare k e.1).isLE := by
  intro e he
  rw [above_eq_filter h hk] at he
  exact Ordering.isLE_iff_ne_gt.mpr (by simpa using (List.mem_filter.mp he).2)

theorem fromLow_eq_filter {p : Partition} (h : Ordered p) {low : RangeEnd} (hl : low.Comparable) :
    p.fromLow low = p.filter (fun e => low.admitsAbove e.1) := by
  cases low with
  | unbounded => exact (List.filter_eq_self.mpr (fun _ _ => rfl)).symm
  | included k => exact above_eq_filter h hl
  | excluded k =>
      have ha : Ordered (p.above k) := h.sublist (List.dropWhile_suffix _).sublist
      rw [fromLow, (leading_eq_filter ha hl (isLE_of_mem_above h hl)).2, above_eq_filter h hl,
        List.filter_filter]
      refine List.filter_congr fun e _ => ?_
      rw [RangeEnd.admitsAbove]
      cases compare k e.1 <;> rfl

theorem upToHigh_eq_filter {p : Partition} (h : Ordered p) {high : RangeEnd}
    (hh : high.Comparable) : p.upToHigh high = p.filter (fun e => high.admitsBelow e.1) := by
  cases high with
  | unbounded => exact (List.filter_eq_self.mpr (fun _ _ => rfl)).symm
  | included k =>
      have ha : Ordered (p.above k) := h.sublist (List.dropWhile_suffix _).sublist
      have hl : (p.above k).leading k = p.filter (fun e => compare k e.1 == .eq) := by
        rw [(leading_eq_filter ha hh (isLE_of_mem_above h hh)).1, above_eq_filter h hh,
          List.filter_filter]
        refine List.filter_congr fun e _ => ?_
        cases compare k e.1 <;> rfl
      rw [upToHigh, hl, below_eq_filter h hh]
      exact filter_gt_append_eq h hh
  | excluded k => exact below_eq_filter h hh

/-- A range search of an ordered partition keeps exactly the entries within the range. -/
theorem range_eq_filter {p : Partition} (h : Ordered p) {r : KeyRange} (hl : r.low.Comparable)
    (hh : r.high.Comparable) : p.range r = p.filter (fun e => r.contains e.1) := by
  have hlow : p.fromLow r.low = p.filter (fun e => r.low.admitsAbove e.1) := fromLow_eq_filter h hl
  -- the high end is searched for in what the low end has left
  have hord : Ordered (p.fromLow r.low) := by
    rw [hlow]
    exact h.sublist List.filter_sublist
  rw [range_eq, upToHigh_eq_filter hord hh, hlow, List.filter_filter]
  refine List.filter_congr fun e _ => ?_
  rw [KeyRange.contains, Bool.and_comm]

end Partition

/-! ## The range of a condition -/

namespace SortCondition

/-- The keys that a condition compares with are comparable. -/
def Comparable : SortCondition → Prop
  | .equal v => v.Comparable
  | .less v => v.Comparable
  | .atMost v => v.Comparable
  | .greater v => v.Comparable
  | .atLeast v => v.Comparable
  | .between low high => low.Comparable ∧ high.Comparable
  | .beginsWith _ => True
  | .beginsWithBytes _ => True

/-- Keys at the same place satisfy the same conditions. -/
theorem accepts_congr {c : SortCondition} (hc : c.Comparable) {a b : SortKey} (ha : a.Comparable)
    (hb : b.Comparable) (hab : compare a b = .eq) : c.accepts a = c.accepts b := by
  have hcongr : ∀ {v : SortKey}, v.Comparable → compare a v = compare b v :=
    fun hv => SortKey.compare_congr_left ha hb hv hab
  cases c with
  | equal v => rw [accepts, accepts, SortKey.same, SortKey.same, hcongr hc]
  | less v => rw [accepts, accepts, SortKey.before, SortKey.before, hcongr hc]
  | atMost v => rw [accepts, accepts, SortKey.notAfter, SortKey.notAfter, hcongr hc]
  | greater v => rw [accepts, accepts, hcongr hc]
  | atLeast v => rw [accepts, accepts, hcongr hc]
  | between low high =>
      rw [accepts, accepts, SortKey.notAfter, SortKey.notAfter, hcongr hc.1, hcongr hc.2]
  | beginsWith start =>
      -- equal places mean equal strings here, or no strings at all
      cases a with
      | string s =>
          cases b with
          | string t =>
              have hst : compare s t = .eq := hab
              rw [Std.LawfulEqCmp.eq_of_compare hst]
          | _ => cases hab
      | _ => cases b <;> first | rfl | cases hab
  | beginsWithBytes start =>
      cases a with
      | binary s =>
          cases b with
          | binary t =>
              have hst : compare s t = .eq := hab
              rw [Std.LawfulEqCmp.eq_of_compare hst]
          | _ => cases hab
      | _ => cases b <;> first | rfl | cases hab

theorem string_ne_gt_of_prefix {s t : String} (h : s.toList <+: t.toList) : compare s t ≠ .gt := by
  obtain ⟨u, hu⟩ := h
  intro hgt
  have hlt : t < s :=
    (compareOfLessAndEq_eq_gt String.le_antisymm String.le_total String.not_le s t).mp hgt
  rw [String.lt_iff, ← hu] at hlt
  exact absurd hlt (List.not_lt.mpr List.le_append_left)

theorem bytes_ne_gt_of_prefix {s t : Bytes} (h : s <+: t) : compare s t ≠ .gt := by
  obtain ⟨u, rfl⟩ := h
  induction s with
  | nil => cases u <;> exact nofun
  | cons b s ih =>
      have hb : compare b b = .eq := Std.ReflOrd.compare_self
      rw [List.cons_append, List.compare_cons_cons, hb]
      exact ih

/-- The range in which a condition is searched contains every key that satisfies the condition. -/
theorem contains_of_accepts {c : SortCondition} (hc : c.Comparable) {k : SortKey}
    (hk : k.Comparable) (h : c.accepts k = true) : ∃ r, c.range? = some r ∧ r.contains k = true := by
  cases c with
  | equal v =>
      refine ⟨_, rfl, ?_⟩
      rw [accepts, SortKey.same] at h
      rw [KeyRange.contains, RangeEnd.admitsAbove, RangeEnd.admitsBelow, SortKey.compare_swap v k]
      cases hkv : compare k v <;> simp_all
  | less v =>
      refine ⟨_, rfl, ?_⟩
      rw [accepts, SortKey.before] at h
      rw [KeyRange.contains, RangeEnd.admitsAbove, RangeEnd.admitsBelow, SortKey.compare_swap v k]
      cases hkv : compare k v <;> simp_all
  | atMost v =>
      refine ⟨_, rfl, ?_⟩
      rw [accepts, SortKey.notAfter] at h
      rw [KeyRange.contains, RangeEnd.admitsAbove, RangeEnd.admitsBelow, SortKey.compare_swap v k]
      cases hkv : compare k v <;> simp_all
  | greater v =>
      refine ⟨_, rfl, ?_⟩
      rw [accepts] at h
      rw [KeyRange.contains, RangeEnd.admitsAbove, RangeEnd.admitsBelow, SortKey.compare_swap v k]
      cases hkv : compare k v <;> simp_all
  | atLeast v =>
      refine ⟨_, rfl, ?_⟩
      rw [accepts] at h
      rw [KeyRange.contains, RangeEnd.admitsAbove, RangeEnd.admitsBelow, SortKey.compare_swap v k]
      cases hkv : compare k v <;> simp_all
  | between low high =>
      rw [accepts, SortKey.notAfter, Bool.and_eq_true, Ordering.isGE_iff_ne_lt] at h
      have hlow : compare low k ≠ .gt := by
        intro hgt
        exact h.1 (Std.OrientedCmp.gt_iff_lt.mp hgt)
      have hhigh : compare high k ≠ .lt := by
        rw [SortKey.compare_swap]
        intro hlt
        rw [Ordering.swap_eq_lt] at hlt
        rw [hlt] at h
        exact absurd h.2 (by decide)
      -- `low` is not after `k`, and `k` is not after `high`
      have hle : (compare low high).isLE :=
        SortKey.isLE_trans hc.1 hk hc.2 (Ordering.isLE_iff_ne_gt.mpr hlow) h.2
      refine ⟨{ low := .included low, high := .included high }, ?_, ?_⟩
      · rw [range?, if_neg (Ordering.isLE_iff_ne_gt.mp hle)]
      · simp [KeyRange.contains, RangeEnd.admitsAbove, RangeEnd.admitsBelow, hlow, hhigh]
  | beginsWith start =>
      cases k with
      | string s =>
          have hs := string_ne_gt_of_prefix (List.isPrefixOf_iff_prefix.mp h)
          refine ⟨_, rfl, ?_⟩
          simp [KeyRange.contains, RangeEnd.admitsAbove, RangeEnd.admitsBelow,
            SortKey.compare_string, hs]
      | _ => cases h
  | beginsWithBytes start =>
      cases k with
      | binary s =>
          have hs := bytes_ne_gt_of_prefix (List.isPrefixOf_iff_prefix.mp h)
          refine ⟨_, rfl, ?_⟩
          simp [KeyRange.contains, RangeEnd.admitsAbove, RangeEnd.admitsBelow,
            SortKey.compare_binary, hs]
      | _ => cases h

theorem range?_comparable {c : SortCondition} (hc : c.Comparable) {r : KeyRange}
    (hr : c.range? = some r) : r.low.Comparable ∧ r.high.Comparable := by
  cases c with
  | between low high =>
      rw [range?] at hr
      split at hr
      · cases hr
      · cases hr
        exact hc
  | equal v =>
      cases hr
      exact ⟨hc, hc⟩
  | _ =>
      cases hr
      first | exact ⟨hc, trivial⟩ | exact ⟨trivial, hc⟩

end SortCondition

namespace Partition

/-- A query of an ordered partition keeps exactly the items whose keys satisfy all conditions, in
ascending order of key. -/
theorem select_eq_filter {p : Partition} (h : Ordered p) {conditions : List SortCondition}
    (hc : ∀ c ∈ conditions, c.Comparable) :
    p.select conditions
      = (p.filter (fun e => conditions.all (fun c => c.accepts e.1))).map Prod.snd := by
  cases conditions with
  | nil => rfl
  | cons first rest =>
      have hrange : ∀ e ∈ p, (first :: rest).all (fun c => c.accepts e.1) = true →
          ∃ r, first.range? = some r ∧ r.contains e.1 = true := by
        intro e he hall
        rw [List.all_cons, Bool.and_eq_true] at hall
        exact SortCondition.contains_of_accepts (hc first (by simp)) (h.comparable e he) hall.1
      rw [select]
      cases hr : first.range? with
      | none =>
          -- no key satisfies the first condition
          have hnone : p.filter (fun e => (first :: rest).all (fun c => c.accepts e.1)) = [] := by
            rw [List.filter_eq_nil_iff]
            intro e he hall
            obtain ⟨r, hr', -⟩ := hrange e he hall
            rw [hr] at hr'
            cases hr'
          rw [hnone]
          rfl
      | some r =>
          obtain ⟨hlow, hhigh⟩ := SortCondition.range?_comparable (hc first (by simp)) hr
          -- an entry that satisfies all conditions is within the range of the first one
          simp only [range_eq_filter h hlow hhigh, List.filter_filter]
          refine congrArg (List.map Prod.snd) (List.filter_congr fun e he => ?_)
          cases hall : (first :: rest).all (fun c => c.accepts e.1) with
          | false => rfl
          | true =>
              obtain ⟨r', hr', hin⟩ := hrange e he hall
              rw [hr] at hr'
              cases hr'
              rw [hin]
              rfl

end Partition

end SingleTable
