import SingleTable.Dict
import SingleTable.Proofs.Outcome

set_option autoImplicit false

/-!
# Converting and collecting bindings

Sorting collects bindings by name, whatever order they are met in (`sortEntries_eq_of_perm`). Where names
differ, an element is found by its name (`find?_name_eq_some_iff`). A list or a dictionary whose values
are converted one by one, each with success, is converted as a whole (`mapM_map_eq_ok`,
`Dict.mapM?_map_eq_ok`).
-/

namespace SingleTable

variable {ε α β γ : Type}

/-! ## Sorting -/

/-- In sorted bindings of different names the look-ups find exactly the bindings. -/
theorem lookup_sortEntries {entries : List (String × α)} (h : (entries.map Prod.fst).Nodup)
    {n : String} {v : α} : (sortEntries entries).lookup n = some v ↔ (n, v) ∈ entries := by
  have hreverse : (entries.reverse.map Prod.fst).Nodup := by
    rw [List.map_reverse]
    exact List.pairwise_reverse.mpr (h.imp Ne.symm)
  calc (sortEntries entries).lookup n = some v ↔ entries.reverse.lookup n = some v := by
        rw [← Dict.get?_ofList]
        rfl
    _ ↔ (n, v) ∈ entries := by rw [lookup_eq_some_iff hreverse, List.mem_reverse]

/-- Sorting forgets the order in which bindings of different names are listed. -/
theorem sortEntries_eq_of_perm {met entries : List (String × α)} (h : (met.map Prod.fst).Nodup)
    (hmet : met.Perm entries) : sortEntries met = sortEntries entries := by
  have hentries : (entries.map Prod.fst).Nodup := (hmet.map Prod.fst).nodup_iff.mp h
  refine Dict.ascending_eq_of_lookup (ascending_sortEntries met) (ascending_sortEntries entries)
    fun n => Option.ext fun v => ?_
  rw [lookup_sortEntries h, lookup_sortEntries hentries, hmet.mem_iff]

theorem sortEntries_of_ascending {entries : List (String × α)} (h : Ascending entries) :
    sortEntries entries = entries := by
  have hnodup : (entries.map Prod.fst).Nodup := Dict.nodup_keys ⟨entries, h⟩
  refine Dict.ascending_eq_of_lookup (ascending_sortEntries entries) h fun n => Option.ext fun v => ?_
  rw [lookup_sortEntries hnodup, lookup_eq_some_iff hnodup]

/-- Sorting adds no binding. -/
theorem mem_of_mem_sortEntries {entries : List (String × α)} {e : String × α}
    (h : e ∈ sortEntries entries) : e ∈ entries := by
  have hfound : (Dict.ofList entries).get? e.1 = some e.2 := Dict.get?_eq_some_iff.mpr h
  rw [Dict.get?_ofList, List.lookup_eq_some_iff] at hfound
  obtain ⟨before, after, hsplit, -⟩ := hfound
  rw [← List.mem_reverse, hsplit]
  simp

theorem Dict.ofList_entries (d : Dict α) : ofList d.entries = d :=
  ext (sortEntries_of_ascending d.ordered)

theorem insertEntry_map (f : String → α → β) (k : String) (v : α) (sorted : List (String × α)) :
    insertEntry k (f k v) (sorted.map (fun e => (e.1, f e.1 e.2)))
      = (insertEntry k v sorted).map (fun e => (e.1, f e.1 e.2)) := by
  induction sorted with
  | nil => rfl
  | cons e sorted ih =>
      rw [List.map_cons, insertEntry, insertEntry]
      split
      · rfl
      · split
        · rfl
        · rw [ih, List.map_cons]

theorem foldl_insertEntry_map (f : String → α → β) (entries sorted : List (String × α)) :
    (entries.map (fun e => (e.1, f e.1 e.2))).foldl (fun sorted e => insertEntry e.1 e.2 sorted)
        (sorted.map (fun e => (e.1, f e.1 e.2)))
      = (entries.foldl (fun sorted e => insertEntry e.1 e.2 sorted) sorted).map
        (fun e => (e.1, f e.1 e.2)) := by
  induction entries generalizing sorted with
  | nil => rfl
  | cons e entries ih => rw [List.map_cons, List.foldl_cons, List.foldl_cons, insertEntry_map, ih]

/-- Values may be converted before the bindings are sorted, or after that. -/
theorem sortEntries_map (f : String → α → β) (entries : List (String × α)) :
    sortEntries (entries.map (fun e => (e.1, f e.1 e.2)))
      = (sortEntries entries).map (fun e => (e.1, f e.1 e.2)) :=
  foldl_insertEntry_map f entries []

/-! ## Elements by name -/

/-- Where names differ, the element of a name is the one that is found by it. -/
theorem find?_name_eq_some_iff {name : α → String} {xs : List α} (h : (xs.map name).Nodup)
    {n : String} {x : α} : xs.find? (fun y => name y = n) = some x ↔ x ∈ xs ∧ name x = n := by
  constructor
  · intro hx
    exact ⟨List.mem_of_find?_eq_some hx, by simpa using List.find?_some hx⟩
  · rintro ⟨hx, rfl⟩
    induction xs with
    | nil => cases hx
    | cons y xs ih =>
        obtain ⟨hy, hrest⟩ := List.nodup_cons.mp h
        rcases List.mem_cons.mp hx with rfl | hx
        · exact List.find?_cons_of_pos (by simp)
        · have hne : ¬ name y = name x := fun heq => hy (heq ▸ List.mem_map_of_mem hx)
          rw [List.find?_cons_of_neg (by simpa using hne)]
          exact ih hrest hx

/-! ## Steps that succeed -/

@[simp] theorem ok_bind (a : α) (f : α → Except ε β) : (Except.ok a >>= f) = f a := rfl

@[simp] theorem ok_map (a : α) (f : α → β) : (Except.ok a : Except ε α).map f = .ok (f a) := rfl

/-- A list is converted if the step succeeds on all values that it holds. -/
theorem mapM_map_eq_ok {f : α → β} {step : β → Except ε γ} {g : α → γ}
    (h : ∀ a, step (f a) = .ok (g a)) (xs : List α) : (xs.map f).mapM step = .ok (xs.map g) := by
  induction xs with
  | nil => rfl
  | cons x xs ih =>
      rw [List.map_cons, List.mapM_cons, h, ih]
      rfl

namespace Dict

/-- A dictionary is converted if the step succeeds on all values that it holds. -/
theorem mapM?_map_eq_ok {f : α → β} {step : β → Except ε γ} {g : α → γ}
    (h : ∀ a, step (f a) = .ok (g a)) (d : Dict α) : (d.map f).mapM? step = .ok (d.map g) := by
  have hentry : ∀ e : String × α,
      (do return (e.1, ← step (f e.2)) : Except ε (String × γ)) = .ok (e.1, g e.2) := by
    intro e
    rw [h, ok_bind]
    rfl
  calc (d.map f).mapM? step
      = (d.entries.map (fun e => (e.1, f e.2))).mapM (fun e => do return (e.1, ← step e.2))
          >>= fun entries => .ok (ofList entries) := rfl
    _ = .ok (ofList (d.map g).entries) := by rw [mapM_map_eq_ok hentry, ok_bind]; rfl
    _ = .ok (d.map g) := by rw [ofList_entries]

theorem map_id (d : Dict α) : d.map id = d := ext (List.map_id d.entries)

theorem mapM?_eq_ok {step : α → Except ε β} {g : α → β} (h : ∀ a, step a = .ok (g a))
    (d : Dict α) : d.mapM? step = .ok (d.map g) := by
  have hmap : (d.map id).mapM? step = .ok (d.map g) := mapM?_map_eq_ok h d
  rwa [map_id] at hmap

/-- A dictionary whose values are converted and converted back is the same again. -/
theorem mapM?_map {f : α → β} {step : β → Except ε α} (h : ∀ a, step (f a) = .ok a) (d : Dict α) :
    (d.map f).mapM? step = .ok d := by
  have hmap : (d.map f).mapM? step = .ok (d.map id) := mapM?_map_eq_ok h d
  rwa [map_id] at hmap

end Dict

end SingleTable
