set_option autoImplicit false

/-!
# Dictionaries

A dictionary binds names to values. Its bindings are kept in strictly ascending order of name, so
each name is bound at most once and two dictionaries with the same bindings are the same value.
Main statement: a dictionary is determined by its look-ups (`Dict.ext_get?`).
-/

namespace SingleTable

/-! ## Ascending lists of bindings -/

/-- Bind `k` to `v` in an ascending list of bindings, replacing an earlier binding of `k`. -/
def insertEntry {α : Type} (k : String) (v : α) : List (String × α) → List (String × α)
  | [] => [(k, v)]
  | (k', v') :: rest =>
      if k < k' then (k, v) :: (k', v') :: rest
      else if k = k' then (k, v) :: rest
      else (k', v') :: insertEntry k v rest

/-- Sort a list of bindings by name; of two bindings of one name the later wins. -/
def sortEntries {α : Type} (entries : List (String × α)) : List (String × α) :=
  entries.foldl (fun sorted e => insertEntry e.1 e.2 sorted) []

/-- The names of a list of bindings strictly ascend. -/
def Ascending {α : Type} (entries : List (String × α)) : Prop :=
  (entries.map Prod.fst).Pairwise (· < ·)

theorem mem_insertEntry_fst {α : Type} {k : String} {v : α} {entries : List (String × α)}
    {n : String} (h : n ∈ (insertEntry k v entries).map Prod.fst) :
    n = k ∨ n ∈ entries.map Prod.fst := by
  induction entries with
  | nil => simpa [insertEntry] using h
  | cons e rest ih =>
      obtain ⟨k', v'⟩ := e
      rw [insertEntry] at h
      split at h
      · simpa using h
      · split at h
        · rename_i heq
          subst heq
          simp only [List.map_cons, List.mem_cons] at h ⊢
          rcases h with h | h
          · exact Or.inl h
          · exact Or.inr (Or.inr h)
        · simp only [List.map_cons, List.mem_cons] at h ⊢
          rcases h with h | h
          · exact Or.inr (Or.inl h)
          · rcases ih h with h | h
            · exact Or.inl h
            · exact Or.inr (Or.inr h)

theorem ascending_insertEntry {α : Type} (k : String) (v : α) {entries : List (String × α)}
    (h : Ascending entries) : Ascending (insertEntry k v entries) := by
  induction entries with
  | nil => simp [insertEntry, Ascending]
  | cons e rest ih =>
      obtain ⟨k', v'⟩ := e
      have hk : ∀ n ∈ rest.map Prod.fst, k' < n := (List.pairwise_cons.mp h).1
      have hrest : Ascending rest := (List.pairwise_cons.mp h).2
      rw [insertEntry]
      split
      · rename_i hlt
        refine List.pairwise_cons.mpr ⟨?_, h⟩
        intro n hn
        rcases List.mem_cons.mp hn with rfl | hn
        · exact hlt
        · exact String.lt_trans hlt (hk n hn)
      · split
        · rename_i heq
          subst heq
          exact List.pairwise_cons.mpr ⟨hk, hrest⟩
        · rename_i hlt hne
          refine List.pairwise_cons.mpr ⟨?_, ih hrest⟩
          intro n hn
          rcases mem_insertEntry_fst hn with rfl | hn
          · exact Std.lt_of_le_of_ne (String.not_lt.mp hlt) (Ne.symm hne)
          · exact hk n hn

theorem ascending_foldl_insertEntry {α : Type} (entries sorted : List (String × α))
    (h : Ascending sorted) :
    Ascending (entries.foldl (fun sorted e => insertEntry e.1 e.2 sorted) sorted) := by
  induction entries generalizing sorted with
  | nil => exact h
  | cons e rest ih => exact ih _ (ascending_insertEntry e.1 e.2 h)

theorem ascending_sortEntries {α : Type} (entries : List (String × α)) :
    Ascending (sortEntries entries) :=
  ascending_foldl_insertEntry entries [] List.Pairwise.nil

theorem lookup_cons_eq_ite {α β : Type} [DecidableEq β] (k n : β) (v : α) (rest : List (β × α)) :
    ((k, v) :: rest).lookup n = if n = k then some v else rest.lookup n := by
  by_cases h : n = k
  · simp [h]
  · have hb : (n == k) = false := by simpa using h
    simp [List.lookup_cons, hb, h]

/-- In a list that binds no name twice the look-ups find exactly the bindings. -/
theorem lookup_eq_some_iff {α β : Type} [DecidableEq β] {entries : List (β × α)}
    (h : (entries.map Prod.fst).Nodup) {n : β} {v : α} :
    entries.lookup n = some v ↔ (n, v) ∈ entries := by
  induction entries with
  | nil => simp
  | cons e rest ih =>
      obtain ⟨k, w⟩ := e
      obtain ⟨hk, hrest⟩ := List.nodup_cons.mp h
      rw [lookup_cons_eq_ite, List.mem_cons, Prod.mk.injEq]
      by_cases hn : n = k
      · subst hn
        have hnot : (n, v) ∉ rest := fun hm => hk (List.mem_map.mpr ⟨_, hm, rfl⟩)
        simp [hnot, eq_comm]
      · simp [hn, ih hrest]

theorem lookup_insertEntry {α : Type} (k n : String) (v : α) {entries : List (String × α)}
    (h : Ascending entries) :
    (insertEntry k v entries).lookup n = if n = k then some v else entries.lookup n := by
  induction entries with
  | nil => rw [insertEntry, lookup_cons_eq_ite]
  | cons e rest ih =>
      obtain ⟨k', v'⟩ := e
      have hrest : Ascending rest := (List.pairwise_cons.mp h).2
      rw [insertEntry]
      split
      · rw [lookup_cons_eq_ite]
      · split
        · rename_i heq
          subst heq
          by_cases hn : n = k <;> simp only [lookup_cons_eq_ite, hn, if_true, if_false]
        · rename_i hne
          by_cases hn' : n = k'
          · subst hn'
            simp only [lookup_cons_eq_ite, if_true, if_neg (Ne.symm hne)]
          · simp only [lookup_cons_eq_ite, if_neg hn', ih hrest]

/-! ## The type of dictionaries -/

/-- Bindings of names to values, in ascending order of name. -/
structure Dict (α : Type) where
  entries : List (String × α)
  ordered : Ascending entries
  deriving DecidableEq

namespace Dict

variable {α β : Type}

/-- The dictionary without bindings. -/
def empty : Dict α := ⟨[], List.Pairwise.nil⟩

/-- The value bound to `k`. -/
def get? (d : Dict α) (k : String) : Option α := d.entries.lookup k

/-- Whether `k` is bound. -/
def contains (d : Dict α) (k : String) : Bool := (d.get? k).isSome

/-- The bound names, ascending. -/
def keys (d : Dict α) : List String := d.entries.map Prod.fst

/-- The bound values, in the order of their names. -/
def values (d : Dict α) : List α := d.entries.map Prod.snd

/-- The number of bindings. -/
def size (d : Dict α) : Nat := d.entries.length

/-- Whether there are no bindings. -/
def isEmpty (d : Dict α) : Bool := d.entries.isEmpty

/-- Bind `k` to `v`, replacing an earlier binding of `k`. -/
def insert (d : Dict α) (k : String) (v : α) : Dict α :=
  ⟨insertEntry k v d.entries, ascending_insertEntry k v d.ordered⟩

/-- The dictionary of a list of bindings; of two bindings of one name the later wins. -/
def ofList (entries : List (String × α)) : Dict α :=
  ⟨sortEntries entries, ascending_sortEntries entries⟩

/-- Drop the binding of `k`. -/
def erase (d : Dict α) (k : String) : Dict α :=
  ⟨d.entries.filter (fun e => e.1 ≠ k),
    List.Pairwise.sublist (List.Sublist.map Prod.fst List.filter_sublist) d.ordered⟩

/-- Apply `f` to every value. -/
def map (f : α → β) (d : Dict α) : Dict β :=
  ⟨d.entries.map (fun e => (e.1, f e.2)), by
    have h : (d.entries.map (fun e => (e.1, f e.2))).map Prod.fst = d.entries.map Prod.fst := by
      simp [Function.comp_def]
    rw [Ascending, h]
    exact d.ordered⟩

/-- The bindings of `d` and of `top`; where both bind a name, `top` wins. -/
def overlay (d top : Dict α) : Dict α :=
  top.entries.foldl (fun acc e => acc.insert e.1 e.2) d

/-- The entries of a dictionary, each value replaced by a step that may fail; the failure at the
least name wins. -/
def mapM? {ε : Type} (f : α → Except ε β) (d : Dict α) : Except ε (Dict β) := do
  let entries ← d.entries.mapM (fun e => do return (e.1, ← f e.2))
  return ofList entries

instance : EmptyCollection (Dict α) := ⟨empty⟩

instance : Inhabited (Dict α) := ⟨empty⟩

@[simp] theorem get?_empty (n : String) : (empty : Dict α).get? n = none := rfl

@[simp] theorem get?_insert (d : Dict α) (k n : String) (v : α) :
    (d.insert k v).get? n = if n = k then some v else d.get? n :=
  lookup_insertEntry k n v d.ordered

theorem ext {d e : Dict α} (h : d.entries = e.entries) : d = e := by
  cases d
  cases e
  cases h
  rfl

theorem lookup_isSome_iff {entries : List (String × α)} {n : String} :
    (entries.lookup n).isSome ↔ n ∈ entries.map Prod.fst := by
  induction entries with
  | nil => simp
  | cons e rest ih =>
      obtain ⟨k, v⟩ := e
      by_cases hn : n = k
      · simp [hn]
      · rw [lookup_cons_eq_ite, if_neg hn, ih, List.map_cons, List.mem_cons]
        exact ⟨Or.inr, fun h => h.resolve_left hn⟩

theorem lookup_eq_none_of_lt {entries : List (String × α)} {n : String}
    (h : ∀ k ∈ entries.map Prod.fst, n < k) : entries.lookup n = none := by
  cases hl : entries.lookup n with
  | none => rfl
  | some v =>
      have hm : n ∈ entries.map Prod.fst := lookup_isSome_iff.mp (by simp [hl])
      exact absurd (h n hm) (String.lt_irrefl n)

theorem ascending_eq_of_lookup {d e : List (String × α)} (hd : Ascending d) (he : Ascending e)
    (h : ∀ n, d.lookup n = e.lookup n) : d = e := by
  induction d generalizing e with
  | nil =>
      cases e with
      | nil => rfl
      | cons b e =>
          obtain ⟨kb, vb⟩ := b
          have hb := h kb
          simp at hb
  | cons a d ih =>
      obtain ⟨ka, va⟩ := a
      have had : ∀ k ∈ d.map Prod.fst, ka < k := (List.pairwise_cons.mp hd).1
      have hd' : Ascending d := (List.pairwise_cons.mp hd).2
      cases e with
      | nil =>
          have hb := h ka
          simp at hb
      | cons b e =>
          obtain ⟨kb, vb⟩ := b
          have hbe : ∀ k ∈ e.map Prod.fst, kb < k := (List.pairwise_cons.mp he).1
          have he' : Ascending e := (List.pairwise_cons.mp he).2
          have hkab : ¬ ka < kb := by
            intro hlt
            have hnone : ((kb, vb) :: e).lookup ka = none :=
              lookup_eq_none_of_lt fun k hk => by
                rcases List.mem_cons.mp hk with rfl | hk
                · exact hlt
                · exact String.lt_trans hlt (hbe k hk)
            have hb := h ka
            rw [hnone] at hb
            simp at hb
          have hkba : ¬ kb < ka := by
            intro hlt
            have hnone : ((ka, va) :: d).lookup kb = none :=
              lookup_eq_none_of_lt fun k hk => by
                rcases List.mem_cons.mp hk with rfl | hk
                · exact hlt
                · exact String.lt_trans hlt (had k hk)
            have hb := h kb
            rw [hnone] at hb
            simp at hb
          have hk : ka = kb :=
            String.le_antisymm (String.not_lt.mp hkba) (String.not_lt.mp hkab)
          subst hk
          have hv : va = vb := by
            have hb := h ka
            simpa using hb
          subst hv
          refine congrArg _ (ih hd' he' ?_)
          intro n
          by_cases hn : n = ka
          · subst hn
            rw [lookup_eq_none_of_lt had, lookup_eq_none_of_lt hbe]
          · have hb := h n
            simpa [lookup_cons_eq_ite, hn] using hb

theorem nodup_keys (d : Dict α) : d.keys.Nodup := by
  refine List.Pairwise.imp ?_ d.ordered
  rintro a b hlt rfl
  exact String.lt_irrefl a hlt

/-- The bindings of a dictionary are what its look-ups find. -/
theorem get?_eq_some_iff {d : Dict α} {n : String} {v : α} :
    d.get? n = some v ↔ (n, v) ∈ d.entries :=
  lookup_eq_some_iff d.nodup_keys

theorem mem_keys_iff {d : Dict α} {n : String} : n ∈ d.keys ↔ (d.get? n).isSome :=
  lookup_isSome_iff.symm

@[simp] theorem get?_erase (d : Dict α) (k n : String) :
    (d.erase k).get? n = if n = k then none else d.get? n := by
  rw [Option.ext_iff]
  intro v
  rw [get?_eq_some_iff]
  by_cases hn : n = k
  · simp [erase, hn]
  · simp [erase, hn, get?_eq_some_iff]

/-- A dictionary is determined by its look-ups. -/
theorem ext_get? {d e : Dict α} (h : ∀ n, d.get? n = e.get? n) : d = e :=
  ext (ascending_eq_of_lookup d.ordered e.ordered h)

theorem erase_of_get?_eq_none {d : Dict α} {k : String} (h : d.get? k = none) : d.erase k = d := by
  refine ext_get? fun n => ?_
  rw [get?_erase]
  split
  · rename_i hn
    rw [hn, h]
  · rfl

theorem lookup_foldl_insertEntry (entries : List (String × α)) {sorted : List (String × α)}
    (h : Ascending sorted) (n : String) :
    (entries.foldl (fun sorted e => insertEntry e.1 e.2 sorted) sorted).lookup n
      = (entries.reverse.lookup n).or (sorted.lookup n) := by
  induction entries generalizing sorted with
  | nil => rfl
  | cons e rest ih =>
      obtain ⟨k, v⟩ := e
      rw [List.foldl_cons, ih (ascending_insertEntry k v h), lookup_insertEntry k n v h,
        List.reverse_cons, List.lookup_append, lookup_cons_eq_ite, List.lookup_nil]
      cases rest.reverse.lookup n with
      | some w => rfl
      | none => by_cases hn : n = k <;> simp [hn]

@[simp] theorem get?_map (f : α → β) (d : Dict α) (n : String) :
    (d.map f).get? n = (d.get? n).map f := by
  show (d.entries.map (fun e => (e.1, f e.2))).lookup n = (d.entries.lookup n).map f
  induction d.entries with
  | nil => rfl
  | cons e rest ih =>
      obtain ⟨k, v⟩ := e
      rw [List.map_cons, lookup_cons_eq_ite, lookup_cons_eq_ite, ih]
      split <;> rfl

theorem get?_foldl_insert {entries : List (String × α)} (h : (entries.map Prod.fst).Nodup)
    (d : Dict α) (n : String) :
    (entries.foldl (fun acc e => acc.insert e.1 e.2) d).get? n
      = (entries.lookup n).or (d.get? n) := by
  induction entries generalizing d with
  | nil => rfl
  | cons e rest ih =>
      obtain ⟨k, v⟩ := e
      obtain ⟨hk, hrest⟩ := List.nodup_cons.mp h
      rw [List.foldl_cons, ih hrest, get?_insert, lookup_cons_eq_ite]
      by_cases hn : n = k
      · have hnone : rest.lookup n = none := by
          rw [← Option.not_isSome_iff_eq_none, lookup_isSome_iff, hn]
          exact hk
        rw [hnone, if_pos hn, if_pos hn]
        rfl
      · rw [if_neg hn, if_neg hn]

/-- What the upper dictionary binds hides what the lower one binds. -/
@[simp] theorem get?_overlay (d top : Dict α) (n : String) :
    (d.overlay top).get? n = (top.get? n).or (d.get? n) :=
  get?_foldl_insert top.nodup_keys d n

/-- Of two bindings of one name the later one is found. -/
theorem get?_ofList (entries : List (String × α)) (n : String) :
    (ofList entries).get? n = entries.reverse.lookup n := by
  have h : (ofList entries).get? n = (entries.reverse.lookup n).or (List.lookup n []) :=
    @lookup_foldl_insertEntry α entries [] (ascending_sortEntries []) n
  rw [h, List.lookup_nil, Option.or_none]

/-- Bindings of distinct names are all found. -/
theorem get?_ofList_of_mem {entries : List (String × α)} (h : (entries.map Prod.fst).Nodup)
    {n : String} {v : α} (hm : (n, v) ∈ entries) : (ofList entries).get? n = some v := by
  rw [get?_ofList, lookup_eq_some_iff]
  · exact List.mem_reverse.mpr hm
  · rw [List.map_reverse]
    exact List.pairwise_reverse.mpr (h.imp Ne.symm)

end Dict

end SingleTable
