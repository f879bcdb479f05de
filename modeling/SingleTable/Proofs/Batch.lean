import SingleTable.Proofs.Calls

set_option autoImplicit false

/-!
# Batches

A batch is checked as a whole and then carried out table by table. We show that what passes the
checks can always be carried out, that the tables may be visited in any order, and that the outcome is
that of the single writes one after the other (`batchWrite_exact`).
-/

namespace SingleTable

namespace StoredTable

/-- A write is exactly one of a put and a delete; an item that is put has a well-typed key and
well-typed index attributes, and a delete names exactly the key attributes. -/
def ValidWrite (t : StoredTable) (w : WriteRequest) : Prop :=
  (∃ item, w.put = some item ∧ w.delete = none ∧ t.schema.Fits item ∧ t.IndexTyped item)
    ∨ (∃ key, w.put = none ∧ w.delete = some key ∧ t.schema.IsKey key)

theorem accepts_iff_validWrite {t : StoredTable} (hd : t.schema.Distinct) (w : WriteRequest) :
    t.Accepts w ↔ t.ValidWrite w := by
  obtain ⟨put, delete⟩ := w
  cases put with
  | none =>
      cases delete with
      | none => simp [Accepts, ValidWrite]
      | some key => simp [Accepts, ValidWrite, exactKey_isOk_iff hd]
  | some item => cases delete <;> simp [Accepts, ValidWrite]

end StoredTable

namespace MemoryStore

/-! ## The single writes of a batch -/

/-- Carry out one write of a batch as a call of its own. -/
def writeOne (s : MemoryStore) (e : String × WriteRequest) : Except Refusal MemoryStore :=
  match e.2.put, e.2.delete with
  | some item, _ => s.put { table := e.1, item }
  | none, some key => s.delete { table := e.1, key }
  | none, none => .ok s

/-- The writes of a batch one by one, with the tables that they go to. -/
def singleWrites (entries : List (String × List WriteRequest)) : List (String × WriteRequest) :=
  entries.flatMap (fun e => e.2.map (Prod.mk e.1))

theorem writeOne_eq {s : MemoryStore} {name : String} {t : StoredTable}
    (h : s.tables.get? name = some t) (w : WriteRequest) :
    s.writeOne (name, w) = (t.write w).map (s.setTable name) := by
  have htable := table_eq_ok_iff.mpr h
  obtain ⟨put, delete⟩ := w
  cases put with
  | some item =>
      show s.put { table := name, item } = (t.put item).map (s.setTable name)
      rw [MemoryStore.put, htable]
      rfl
  | none =>
      cases delete with
      | some key =>
          show s.delete { table := name, key } = (t.delete key).map (s.setTable name)
          rw [MemoryStore.delete, htable]
          rfl
      | none => exact congrArg Except.ok (setTable_self h).symm

/-- Single writes to one table act on this table alone, one after the other. -/
theorem foldlM_writeOne {s : MemoryStore} {name : String} {t : StoredTable}
    (h : s.tables.get? name = some t) (writes : List WriteRequest) :
    (writes.map (Prod.mk name)).foldlM writeOne s
      = (writes.foldlM StoredTable.write t).map (s.setTable name) := by
  induction writes generalizing s t with
  | nil => exact congrArg Except.ok (setTable_self h).symm
  | cons w writes ih =>
      rw [List.map_cons, List.foldlM_cons, List.foldlM_cons, writeOne_eq h]
      cases t.write w with
      | error e => rfl
      | ok u =>
          have hu : (s.setTable name u).tables.get? name = some u := by simp
          show (writes.map (Prod.mk name)).foldlM writeOne (s.setTable name u)
            = (writes.foldlM StoredTable.write u).map (s.setTable name)
          rw [ih hu]
          cases writes.foldlM StoredTable.write u with
          | error e => rfl
          | ok v => exact congrArg Except.ok (setTable_setTable s name u v)

theorem applyWrites_eq {s : MemoryStore} {name : String} {t : StoredTable}
    (h : s.tables.get? name = some t) (writes : List WriteRequest) :
    s.applyWrites (name, writes) = (writes.map (Prod.mk name)).foldlM writeOne s := by
  rw [foldlM_writeOne h, applyWrites, table_eq_ok_iff.mpr h]
  rfl

/-! ## All writes of a batch -/

/-- The writes to each table can be carried out on that table. -/
def CanWrite (s : MemoryStore) (entries : List (String × List WriteRequest)) : Prop :=
  ∀ e ∈ entries, ∃ t t', s.tables.get? e.1 = some t ∧ e.2.foldlM StoredTable.write t = .ok t'

/-- The second store is what the writes make of the first: every table that they name has taken its
writes in order, and all other tables are as before. -/
structure Written (entries : List (String × List WriteRequest)) (s s' : MemoryStore) : Prop where
  named : ∀ e ∈ entries, ∀ t t', s.tables.get? e.1 = some t →
    e.2.foldlM StoredTable.write t = .ok t' → s'.tables.get? e.1 = some t'
  others : ∀ n ∉ entries.map Prod.fst, s'.tables.get? n = s.tables.get? n
  clock : s'.clock = s.clock

theorem Written.refl (s : MemoryStore) : Written [] s s :=
  ⟨by simp, fun _ _ => rfl, rfl⟩

theorem written_setTable {s : MemoryStore} {name : String} {t t' : StoredTable}
    {writes : List WriteRequest} (ht : s.tables.get? name = some t)
    (ht' : writes.foldlM StoredTable.write t = .ok t') :
    s.CanWrite [(name, writes)] ∧ Written [(name, writes)] s (s.setTable name t') := by
  refine ⟨?_, ?_, ?_, rfl⟩
  · intro e he
    rw [List.mem_singleton.mp he]
    exact ⟨t, t', ht, ht'⟩
  · intro e he u u' hu hu'
    rw [List.mem_singleton.mp he] at hu hu' ⊢
    cases ht.symm.trans hu
    cases ht'.symm.trans hu'
    rw [get?_setTable, if_pos rfl]
  · intro n hn
    rw [get?_setTable, if_neg (by simpa using hn)]

/-- The outcome of the writes does not depend on the order in which tables are listed. -/
theorem Written.unique {entries order : List (String × List WriteRequest)}
    {s s₁ s₂ : MemoryStore} (hcan : s.CanWrite entries) (hp : order.Perm entries)
    (h₁ : Written entries s s₁) (h₂ : Written order s s₂) : s₁ = s₂ := by
  refine ext_tables (fun n => ?_) (h₁.clock.trans h₂.clock.symm)
  by_cases hn : n ∈ entries.map Prod.fst
  · obtain ⟨e, he, rfl⟩ := List.mem_map.mp hn
    obtain ⟨t, t', ht, ht'⟩ := hcan e he
    rw [h₁.named e he t t' ht ht', h₂.named e (hp.mem_iff.mpr he) t t' ht ht']
  · rw [h₁.others n hn, h₂.others n (fun h => hn ((hp.map Prod.fst).mem_iff.mp h))]

/-- Writes that can be carried out table by table are carried out, and one by one with the same
outcome. -/
theorem foldlM_applyWrites {entries : List (String × List WriteRequest)}
    (hnd : (entries.map Prod.fst).Nodup) {s : MemoryStore} (hcan : s.CanWrite entries) :
    ∃ s', entries.foldlM applyWrites s = .ok s' ∧ (singleWrites entries).foldlM writeOne s = .ok s'
      ∧ Written entries s s' := by
  induction entries generalizing s with
  | nil => exact ⟨s, rfl, rfl, Written.refl s⟩
  | cons e entries ih =>
      obtain ⟨name, writes⟩ := e
      obtain ⟨hname, hrest⟩ := List.nodup_cons.mp hnd
      obtain ⟨t, t', ht, ht'⟩ := hcan (name, writes) (by simp)
      have hone : (writes.map (Prod.mk name)).foldlM writeOne s = .ok (s.setTable name t') := by
        rw [foldlM_writeOne ht]
        exact map_eq_ok_iff.mpr ⟨t', ht', rfl⟩
      -- the tables still to be written are the same as before
      have hother : ∀ f ∈ entries, (s.setTable name t').tables.get? f.1 = s.tables.get? f.1 := by
        intro f hf
        have hne : f.1 ≠ name := fun heq => hname (List.mem_map.mpr ⟨f, hf, heq⟩)
        rw [get?_setTable, if_neg hne]
      have hcan' : (s.setTable name t').CanWrite entries := by
        intro f hf
        rw [hother f hf]
        exact hcan f (List.mem_cons_of_mem _ hf)
      obtain ⟨s', hfold, hsingle, hw⟩ := ih hrest hcan'
      refine ⟨s', ?_, ?_, ⟨?_, ?_, hw.clock⟩⟩
      · rw [List.foldlM_cons]
        exact bind_eq_ok_iff.mpr ⟨_, (applyWrites_eq ht writes).trans hone, hfold⟩
      · rw [singleWrites, List.flatMap_cons, List.foldlM_append]
        exact bind_eq_ok_iff.mpr ⟨_, hone, hsingle⟩
      · intro f hf u u' hu hu'
        rcases List.mem_cons.mp hf with rfl | hf
        · rw [hw.others name hname, get?_setTable, if_pos rfl]
          rw [ht] at hu
          cases hu
          rw [ht'] at hu'
          cases hu'
          rfl
        · exact hw.named f hf u u' (by rw [hother f hf]; exact hu) hu'
      · intro n hn
        rw [List.map_cons, List.mem_cons, not_or] at hn
        rw [hw.others n hn.2, get?_setTable, if_neg hn.1]

/-- The checks of a batch pass exactly if every table exists and accepts the writes to it. -/
theorem forM_checkWrites_iff {s : MemoryStore} {entries : List (String × List WriteRequest)} :
    entries.forM s.checkWrites = .ok ()
      ↔ ∀ e ∈ entries, ∃ t, s.tables.get? e.1 = some t ∧ ∀ w ∈ e.2, t.Accepts w := by
  rw [forM_eq_ok_iff]
  refine forall₂_congr fun e _ => ?_
  refine bind_eq_ok_iff.trans (exists_congr fun t => and_congr table_eq_ok_iff ?_)
  rw [forM_eq_ok_iff]
  exact forall₂_congr fun w _ => StoredTable.checkWrite_eq_ok_iff

/-- What passes the checks can be carried out. -/
theorem canWrite_of_checkWrites {s : MemoryStore} {entries : List (String × List WriteRequest)}
    (h : entries.forM s.checkWrites = .ok ()) : s.CanWrite entries := by
  intro e he
  obtain ⟨t, ht, hw⟩ := forM_checkWrites_iff.mp h e he
  obtain ⟨t', ht'⟩ := StoredTable.foldlM_write_of_accepts hw
  exact ⟨t, t', ht, ht'⟩

/-! ## Batches in any order -/

/-- A batch that checks and then writes its tables in the given orders. -/
def batchInOrder (s : MemoryStore) (r : BatchRequest)
    (checks writes : List (String × List WriteRequest)) : Except Refusal MemoryStore :=
  if batchTotal r = 0 ∨ batchTotal r > Refusal.maxBatch then .error (.batchSize (batchTotal r))
  else do
    checks.forM s.checkWrites
    writes.foldlM applyWrites s

theorem batchWrite_eq (s : MemoryStore) (r : BatchRequest) :
    s.batchWrite r = (s.batchInOrder r r.writes.entries r.writes.entries).map (({}, ·)) := by
  rw [batchWrite, batchInOrder]
  split
  · rfl
  · cases r.writes.entries.forM s.checkWrites with
    | error e => rfl
    | ok _ =>
        cases r.writes.entries.foldlM applyWrites s <;> rfl

/-- A batch is valid in a store: it has 1 to 25 writes, every table that it names exists, and every
write is valid for its table. -/
structure ValidBatch (s : MemoryStore) (r : BatchRequest) : Prop where
  size : 1 ≤ batchTotal r ∧ batchTotal r ≤ 25
  tables : ∀ e ∈ r.writes.entries, ∃ t, s.tables.get? e.1 = some t ∧ ∀ w ∈ e.2, t.ValidWrite w

section

variable {s : MemoryStore} {r : BatchRequest}

/-- Whether a batch passes its checks does not depend on the order of tables. -/
theorem validBatch_iff
    (hd : ∀ e ∈ r.writes.entries, ∀ t, s.tables.get? e.1 = some t → t.schema.Distinct)
    {checks : List (String × List WriteRequest)} (hc : checks.Perm r.writes.entries) :
    s.ValidBatch r
      ↔ (1 ≤ batchTotal r ∧ batchTotal r ≤ 25) ∧ checks.forM s.checkWrites = .ok () := by
  have htables : checks.forM s.checkWrites = .ok () ↔ ∀ e ∈ r.writes.entries,
      ∃ t, s.tables.get? e.1 = some t ∧ ∀ w ∈ e.2, t.ValidWrite w := by
    rw [forM_checkWrites_iff]
    constructor
    · intro h e he
      obtain ⟨t, ht, hw⟩ := h e (hc.mem_iff.mpr he)
      exact ⟨t, ht, fun w hmem => (StoredTable.accepts_iff_validWrite (hd e he t ht) w).mp (hw w hmem)⟩
    · intro h e he
      have he := hc.mem_iff.mp he
      obtain ⟨t, ht, hw⟩ := h e he
      exact ⟨t, ht, fun w hmem => (StoredTable.accepts_iff_validWrite (hd e he t ht) w).mpr (hw w hmem)⟩
  rw [htables]
  exact ⟨fun h => ⟨h.size, h.tables⟩, fun h => ⟨h.1, h.2⟩⟩

/-- A batch that passes its checks is carried out in any order of tables with one and the same
outcome, which is that of the single writes. -/
theorem batchInOrder_of_checks (hsize : 1 ≤ batchTotal r ∧ batchTotal r ≤ 25)
    (hchecks : r.writes.entries.forM s.checkWrites = .ok ()) :
    ∃ s', Written r.writes.entries s s' ∧
      ∀ checks order, checks.Perm r.writes.entries → order.Perm r.writes.entries →
        s.batchInOrder r checks order = .ok s'
          ∧ (singleWrites order).foldlM writeOne s = .ok s' := by
  have hcan := canWrite_of_checkWrites hchecks
  obtain ⟨s', -, -, hw⟩ := foldlM_applyWrites r.writes.nodup_keys hcan
  refine ⟨s', hw, fun checks order hc ho => ?_⟩
  have hnd : (order.map Prod.fst).Nodup := (ho.map Prod.fst).nodup_iff.mpr r.writes.nodup_keys
  have hcan' : s.CanWrite order := fun e he => hcan e (ho.mem_iff.mp he)
  obtain ⟨s'', hfold, hsingle, hw'⟩ := foldlM_applyWrites hnd hcan'
  obtain rfl := Written.unique hcan ho hw hw'
  refine ⟨?_, hsingle⟩
  have hsize' : ¬ (batchTotal r = 0 ∨ batchTotal r > Refusal.maxBatch) := by
    rw [Refusal.maxBatch]
    omega
  rw [batchInOrder, if_neg hsize']
  refine bind_eq_ok_iff.mpr ⟨(), ?_, hfold⟩
  exact forM_checkWrites_iff.mpr fun e he => forM_checkWrites_iff.mp hchecks e (hc.mem_iff.mp he)

/-- A batch that is carried out has passed its checks. -/
theorem checks_of_batchInOrder {checks order : List (String × List WriteRequest)} {s' : MemoryStore}
    (h : s.batchInOrder r checks order = .ok s') :
    (1 ≤ batchTotal r ∧ batchTotal r ≤ 25) ∧ checks.forM s.checkWrites = .ok () := by
  rw [batchInOrder, Refusal.maxBatch] at h
  split at h
  · cases h
  · rename_i hsize
    obtain ⟨_, hchecks, -⟩ := bind_eq_ok_iff.mp h
    exact ⟨by omega, hchecks⟩

/-- What a batch has done when it has answered: it has passed its checks, and its writes have been
carried out, with the outcome of any order of tables and of the single writes. -/
theorem written_of_batchWrite {reply : BatchReply} {s' : MemoryStore}
    (h : s.batchWrite r = .ok (reply, s')) :
    reply = {} ∧ r.writes.entries.forM s.checkWrites = .ok () ∧ Written r.writes.entries s s' ∧
      ∀ checks order, checks.Perm r.writes.entries → order.Perm r.writes.entries →
        s.batchInOrder r checks order = .ok s'
          ∧ (singleWrites order).foldlM writeOne s = .ok s' := by
  rw [batchWrite_eq] at h
  obtain ⟨u, hu, hus⟩ := map_eq_ok_iff.mp h
  cases hus
  obtain ⟨hsize, hchecks⟩ := checks_of_batchInOrder hu
  obtain ⟨u', hw, hall⟩ := batchInOrder_of_checks hsize hchecks
  -- the tables as they are listed are one of the orders
  obtain rfl : u' = s' := by
    have huu := (hall _ _ (.refl _) (.refl _)).1
    rw [hu] at huu
    exact (Except.ok.inj huu).symm
  exact ⟨rfl, hchecks, hw, hall⟩

end

/-- The call that carries out a batch. It answers exactly if the batch is valid, in whatever order the
tables are checked and written, and the writing phase itself never fails. If the call is refused,
the store is as it was. If it answers, each named table has taken its writes in list order, the other
tables are as they were, and the single puts and deletes lead to the same store. -/
theorem batchWrite_exact (s : MemoryStore) (r : BatchRequest)
    (hd : ∀ e ∈ r.writes.entries, ∀ t, s.tables.get? e.1 = some t → t.schema.Distinct)
    {checks order : List (String × List WriteRequest)} (hc : checks.Perm r.writes.entries)
    (ho : order.Perm r.writes.entries) :
    ((∃ s', ExceptT.run (Store.batchWrite r) s = (.ok {}, s')) ↔ s.ValidBatch r)
      ∧ ((∃ s', s.batchInOrder r checks order = .ok s') ↔ s.ValidBatch r)
      ∧ (checks.forM s.checkWrites = .ok () → ∃ s', order.foldlM applyWrites s = .ok s')
      ∧ (∀ e s', ExceptT.run (Store.batchWrite r) s = (.error e, s') → s' = s)
      ∧ ∀ reply s', ExceptT.run (Store.batchWrite r) s = (.ok reply, s') →
          reply = {}
            ∧ s.batchInOrder r checks order = .ok s'
            ∧ (singleWrites order).foldlM writeOne s = .ok s'
            ∧ (∀ e ∈ r.writes.entries, ∃ t t', s.tables.get? e.1 = some t
                ∧ e.2.foldlM StoredTable.write t = .ok t' ∧ s'.tables.get? e.1 = some t')
            ∧ ∀ n ∉ r.writes.keys, s'.tables.get? n = s.tables.get? n := by
  have hordered : ∀ {cs ws : List (String × List WriteRequest)},
      cs.Perm r.writes.entries → ws.Perm r.writes.entries →
      ((∃ s', s.batchInOrder r cs ws = .ok s') ↔ s.ValidBatch r) := by
    intro cs ws hcs hws
    constructor
    · rintro ⟨s', hs'⟩
      exact (validBatch_iff hd hcs).mpr (checks_of_batchInOrder hs')
    · intro hvalid
      obtain ⟨hsize, hchecks⟩ := (validBatch_iff hd (.refl _)).mp hvalid
      obtain ⟨s', -, hall⟩ := batchInOrder_of_checks hsize hchecks
      exact ⟨s', (hall cs ws hcs hws).1⟩
  have hrun : ExceptT.run (Store.batchWrite r) s = writing (·.batchWrite r) s := rfl
  rw [hrun]
  refine ⟨?_, hordered hc ho, ?_, ?_, ?_⟩
  -- the call visits the tables in the order in which they are listed
  · rw [← hordered (.refl _) (.refl _)]
    refine exists_congr fun s' => writing_eq_ok_iff.trans ?_
    rw [batchWrite_eq]
    refine map_eq_ok_iff.trans ⟨?_, fun h => ⟨s', h, rfl⟩⟩
    rintro ⟨u, hu, hus⟩
    cases hus
    exact hu
  · intro hchecks
    obtain ⟨s', hs', -⟩ := foldlM_applyWrites ((ho.map Prod.fst).nodup_iff.mpr r.writes.nodup_keys)
      (fun e he => canWrite_of_checkWrites hchecks e (hc.mem_iff.mpr (ho.mem_iff.mp he)))
    exact ⟨s', hs'⟩
  · intro e s' h
    exact (writing_eq_error h).1
  · intro reply s' h
    obtain ⟨hreply, hchecks, hw, hall⟩ := written_of_batchWrite (writing_eq_ok_iff.mp h)
    obtain ⟨hin, hsingle⟩ := hall checks order hc ho
    refine ⟨hreply, hin, hsingle, ?_, hw.others⟩
    intro e he
    obtain ⟨t, t', ht, ht'⟩ := canWrite_of_checkWrites hchecks e he
    exact ⟨t, t', ht, ht', hw.named e he t t' ht ht'⟩

/-! ## Batches of items -/

/-- Put items into a table as calls of their own, one after the other. -/
def putOneByOne (s : MemoryStore) (name : String) (items : List Item) :
    Except Refusal MemoryStore :=
  items.foldlM (fun s item => s.put { table := name, item }) s

theorem foldlM_writeOne_ofItem (s : MemoryStore) (name : String) (items : List Item) :
    ((items.map WriteRequest.ofItem).map (Prod.mk name)).foldlM writeOne s
      = s.putOneByOne name items := by
  rw [List.foldlM_map, List.foldlM_map]
  rfl

/-- Items that a table accepts can be put one after the other. -/
theorem putOneByOne_of_accepts {s : MemoryStore} {name : String} {t : StoredTable}
    (ht : s.tables.get? name = some t) {items : List Item}
    (h : ∀ item ∈ items, t.Accepts (.ofItem item)) : ∃ s', s.putOneByOne name items = .ok s' := by
  have haccepts : ∀ w ∈ items.map WriteRequest.ofItem, t.Accepts w := by simpa using h
  obtain ⟨t', ht'⟩ := StoredTable.foldlM_write_of_accepts haccepts
  refine ⟨s.setTable name t', ?_⟩
  rw [← foldlM_writeOne_ofItem, foldlM_writeOne ht, ht']
  rfl

/-- Items that can be put one after the other are all accepted by the table as it stands. -/
theorem accepts_of_putOneByOne {s s' : MemoryStore} {name : String} {items : List Item}
    (hne : items ≠ []) (h : s.putOneByOne name items = .ok s') :
    ∃ t, s.tables.get? name = some t ∧ ∀ item ∈ items, t.Accepts (.ofItem item) := by
  obtain ⟨item, rest, rfl⟩ := List.exists_cons_of_ne_nil hne
  obtain ⟨u, hput, -⟩ := bind_eq_ok_iff.mp h
  obtain ⟨t, ht, -⟩ := bind_eq_ok_iff.mp hput
  have ht := table_eq_ok_iff.mp ht
  rw [← foldlM_writeOne_ofItem, foldlM_writeOne ht] at h
  obtain ⟨t', ht', -⟩ := map_eq_ok_iff.mp h
  exact ⟨t, ht, StoredTable.accepts_of_foldlM_write ht'⟩

/-- A batch puts items into a table exactly if there are 1 to 25 of them and they can be put one after
the other; the outcome is the same. -/
theorem batchWrite_ofItems_eq_ok_iff {s s' : MemoryStore} {name : String} {items : List Item} :
    s.batchWrite ⟨Dict.ofList [(name, items.map WriteRequest.ofItem)]⟩ = .ok ({}, s')
      ↔ (1 ≤ items.length ∧ items.length ≤ 25) ∧ s.putOneByOne name items = .ok s' := by
  have hentries : (Dict.ofList [(name, items.map WriteRequest.ofItem)]).entries
      = [(name, items.map WriteRequest.ofItem)] := rfl
  have htotal : batchTotal ⟨Dict.ofList [(name, items.map WriteRequest.ofItem)]⟩ = items.length := by
    rw [batchTotal, Dict.values, hentries]
    simp
  have hsingle : singleWrites (Dict.ofList [(name, items.map WriteRequest.ofItem)]).entries
      = (items.map WriteRequest.ofItem).map (Prod.mk name) := by
    rw [hentries, singleWrites]
    simp
  rw [← foldlM_writeOne_ofItem, ← hsingle]
  constructor
  · intro h
    obtain ⟨-, -, -, hall⟩ := written_of_batchWrite h
    rw [batchWrite_eq] at h
    obtain ⟨u, hu, -⟩ := map_eq_ok_iff.mp h
    rw [← htotal]
    exact ⟨(checks_of_batchInOrder hu).1, (hall _ _ (.refl _) (.refl _)).2⟩
  · rintro ⟨hsize, h⟩
    have hchecks : (Dict.ofList [(name, items.map WriteRequest.ofItem)]).entries.forM s.checkWrites
        = .ok () := by
      rw [hsingle, foldlM_writeOne_ofItem] at h
      obtain ⟨t, ht, haccepts⟩ := accepts_of_putOneByOne (List.length_pos_iff.mp hsize.1) h
      rw [hentries, forM_checkWrites_iff]
      intro e he
      rw [List.mem_singleton.mp he]
      exact ⟨t, ht, by simpa using haccepts⟩
    obtain ⟨u, -, hall⟩ := batchInOrder_of_checks
      (r := ⟨Dict.ofList [(name, items.map WriteRequest.ofItem)]⟩) (htotal ▸ hsize) hchecks
    obtain ⟨hu, hus⟩ := hall _ _ (.refl _) (.refl _)
    obtain rfl : u = s' := Except.ok.inj (hus.symm.trans h)
    rw [batchWrite_eq, hu]
    rfl

end MemoryStore

/-! ## A table of notes -/

/-- A table of notes by author and title. -/
def notesRequest : CreateTableRequest where
  table := "notes"
  keys := [⟨"author", .hash⟩, ⟨"title", .range⟩]
  definitions := [⟨"author", .string⟩, ⟨"title", .string⟩]

/-- The empty table of notes. -/
def notes : StoredTable where
  definition := notesRequest
  indexes := []
  created := 0
  storage := { schema := ⟨⟨"author", .string⟩, some ⟨"title", .string⟩⟩ }

example : StoredTable.ofRequest notesRequest 0 = .ok notes := rfl

/-- A note with its key alone. -/
def note (author title : String) : Item :=
  (Dict.empty.insert "author" (.string author)).insert "title" (.string title)

theorem comparable_of_note {author title n : String} {v : AttributeValue}
    (h : (note author title).get? n = some v) : (SortKey.ofValueD v).Comparable := by
  rw [note, Dict.get?_insert, Dict.get?_insert] at h
  split at h
  · cases h
    trivial
  · split at h
    · cases h
      trivial
    · cases h

theorem readable_note (schema : KeySchema) (author title : String) :
    schema.Readable (note author title) :=
  KeySchema.readable_of_comparable (fun _ _ => comparable_of_note) schema

/-- A table of drafts with one draft. -/
def drafts : StoredTable :=
  { notes with
    definition := { notesRequest with table := "drafts" }
    storage :=
      { schema := notes.schema
        partitions := [(.string "ada", [(.string "b", note "ada" "b")])]
        count := 1 } }

/-- The store that holds the drafts, and the empty table of notes. -/
def draftStore : MemoryStore where
  tables := Dict.ofList [("drafts", drafts), ("notes", notes)]

/-- Make the draft a note, besides another one. -/
def publish : BatchRequest where
  writes := Dict.ofList [("drafts", [{ delete := some (note "ada" "b") }]),
    ("notes", [{ put := some (note "eve" "c") }, { put := some (note "ada" "b") }])]

namespace MemoryStore

/-- The draft goes and both notes come, also if the notes are put before the draft is deleted. -/
theorem batchWrite_publish :
    (∀ e ∈ publish.writes.entries, ∀ t, draftStore.tables.get? e.1 = some t → t.schema.Distinct)
      ∧ draftStore.ValidBatch publish
      ∧ ∃ s, ExceptT.run (Store.batchWrite publish) draftStore = (.ok {}, s)
        ∧ (singleWrites publish.writes.entries.reverse).foldlM writeOne draftStore = .ok s
        ∧ (s.tables.get? "drafts").map (fun t => t.storage.items) = some []
        ∧ (s.tables.get? "notes").map (fun t => t.storage.items)
          = some [note "eve" "c", note "ada" "b"] := by
  have hd : ∀ e ∈ publish.writes.entries, ∀ t, draftStore.tables.get? e.1 = some t →
      t.schema.Distinct := by
    intro e _ t ht
    have hmem : (e.1, t) ∈ [("drafts", drafts), ("notes", notes)] := Dict.get?_eq_some_iff.mp ht
    rcases List.mem_pair.mp hmem with heq | heq
    · rw [(Prod.mk.inj heq).2]
      decide
    · rw [(Prod.mk.inj heq).2]
      decide
  obtain ⟨s, hrun, hdrafts, hnotes⟩ : ∃ s,
      ExceptT.run (Store.batchWrite publish) draftStore = (.ok {}, s)
        ∧ (s.tables.get? "drafts").map (fun t => t.storage.items) = some []
        ∧ (s.tables.get? "notes").map (fun t => t.storage.items)
          = some [note "eve" "c", note "ada" "b"] := ⟨_, rfl, rfl, rfl⟩
  have hexact := batchWrite_exact draftStore publish hd (.refl _)
    (List.reverse_perm publish.writes.entries)
  exact ⟨hd, hexact.1.mp ⟨s, hrun⟩, s, hrun, (hexact.2.2.2.2 {} s hrun).2.2.1, hdrafts, hnotes⟩

end MemoryStore

end SingleTable
