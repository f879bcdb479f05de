import SingleTable.Proofs.Bindings
import SingleTable.Remote.Value

set_option autoImplicit false

/-!
# Values of the service and back

Attribute values, items and writes go to the service and come back as they were. Of the values of the
service, those in which a value of an unknown type occurs are refused; any other comes back with every set
in it turned into a list (`ServiceValue.toAttribute_cases`). Main statement:
`ServiceValue.conversion_exact`.
-/

namespace SingleTable

namespace ServiceValue

/-! ## There and back -/

mutual

theorem toAttribute_ofAttribute (a : AttributeValue) : toAttribute (ofAttribute a) = .ok a := by
  cases a with
  | list items => rw [ofAttribute, toAttribute, toAttributes_ofAttributes items, ok_map]
  | map entries => rw [ofAttribute, toAttribute, toEntries_ofEntries entries, ok_map]
  | _ => rfl

theorem toAttributes_ofAttributes (as : List AttributeValue) :
    toAttributes (ofAttributes as) = .ok as := by
  cases as with
  | nil => rfl
  | cons a as =>
      rw [ofAttributes, toAttributes, toAttribute_ofAttribute a, toAttributes_ofAttributes as]
      rfl

theorem toEntries_ofEntries (es : List (String × AttributeValue)) :
    toEntries (ofEntries es) = .ok es := by
  cases es with
  | nil => rfl
  | cons e es =>
      obtain ⟨k, a⟩ := e
      rw [ofEntries, toEntries, toAttribute_ofAttribute a, toEntries_ofEntries es]
      rfl

end

/-! ## What is refused and what comes back -/

/-- A value of an unknown type occurs in the value, at some depth. -/
inductive HasUnknown : ServiceValue → Prop
  | here : HasUnknown .unknown
  | item {items : List ServiceValue} {v : ServiceValue} (hv : v ∈ items) (h : HasUnknown v) :
      HasUnknown (.list items)
  | entry {entries : List (String × ServiceValue)} {k : String} {v : ServiceValue}
      (hv : (k, v) ∈ entries) (h : HasUnknown v) : HasUnknown (.map entries)

mutual

/-- The value with every set in it replaced by the list of its members. -/
def withLists : ServiceValue → ServiceValue
  | .list items => .list (itemsWithLists items)
  | .map entries => .map (entriesWithLists entries)
  | .stringSet members => .list (members.map .string)
  | .numberSet members => .list (members.map .number)
  | .binarySet members => .list (members.map .binary)
  | v => v

/-- The items of a list with every set in them replaced. -/
def itemsWithLists : List ServiceValue → List ServiceValue
  | [] => []
  | v :: vs => withLists v :: itemsWithLists vs

/-- The entries of a map with every set in them replaced. -/
def entriesWithLists : List (String × ServiceValue) → List (String × ServiceValue)
  | [] => []
  | (k, v) :: es => (k, withLists v) :: entriesWithLists es

end

theorem hasUnknown_list_iff {items : List ServiceValue} :
    HasUnknown (.list items) ↔ ∃ v ∈ items, HasUnknown v := by
  constructor
  · rintro (_ | ⟨hv, h⟩)
    exact ⟨_, hv, h⟩
  · rintro ⟨v, hv, h⟩
    exact .item hv h

theorem hasUnknown_map_iff {entries : List (String × ServiceValue)} :
    HasUnknown (.map entries) ↔ ∃ e ∈ entries, HasUnknown e.2 := by
  constructor
  · rintro (_ | _ | ⟨hv, h⟩)
    exact ⟨_, hv, h⟩
  · rintro ⟨⟨k, v⟩, hv, h⟩
    exact .entry hv h

theorem ofAttributes_map {α : Type} {f : α → AttributeValue} {g : α → ServiceValue}
    (h : ∀ x, ofAttribute (f x) = g x) (xs : List α) : ofAttributes (xs.map f) = xs.map g := by
  induction xs with
  | nil => rfl
  | cons x xs ih => rw [List.map_cons, List.map_cons, ofAttributes, h, ih]

mutual

/-- A value of the service is refused for an unknown value in it, or it comes back with lists for
sets. -/
theorem toAttribute_cases (v : ServiceValue) :
    (v.HasUnknown ∧ toAttribute v = .error unsupported)
      ∨ (¬ v.HasUnknown ∧ ∃ a, toAttribute v = .ok a ∧ ofAttribute a = v.withLists) := by
  cases v with
  | unknown => exact .inl ⟨.here, rfl⟩
  | list items =>
      rw [hasUnknown_list_iff, toAttribute, withLists]
      rcases toAttributes_cases items with ⟨hunknown, h⟩ | ⟨hknown, as, h, has⟩
      · exact .inl ⟨hunknown, by rw [h]; rfl⟩
      · refine .inr ⟨hknown, .list as, by rw [h, ok_map], ?_⟩
        rw [ofAttribute, has]
  | map entries =>
      rw [hasUnknown_map_iff, toAttribute, withLists]
      rcases toEntries_cases entries with ⟨hunknown, h⟩ | ⟨hknown, es, h, hes⟩
      · exact .inl ⟨hunknown, by rw [h]; rfl⟩
      · refine .inr ⟨hknown, .map es, by rw [h, ok_map], ?_⟩
        rw [ofAttribute, hes]
  | stringSet members =>
      refine .inr ⟨nofun, _, rfl, ?_⟩
      exact congrArg ServiceValue.list (ofAttributes_map (fun _ => rfl) members)
  | numberSet members =>
      refine .inr ⟨nofun, _, rfl, ?_⟩
      exact congrArg ServiceValue.list (ofAttributes_map (fun _ => rfl) members)
  | binarySet members =>
      refine .inr ⟨nofun, _, rfl, ?_⟩
      exact congrArg ServiceValue.list (ofAttributes_map (fun _ => rfl) members)
  | _ => exact .inr ⟨nofun, _, rfl, rfl⟩

theorem toAttributes_cases (vs : List ServiceValue) :
    ((∃ v ∈ vs, HasUnknown v) ∧ toAttributes vs = .error unsupported)
      ∨ ((¬ ∃ v ∈ vs, HasUnknown v)
        ∧ ∃ as, toAttributes vs = .ok as ∧ ofAttributes as = itemsWithLists vs) := by
  cases vs with
  | nil => exact .inr ⟨by simp, [], rfl, rfl⟩
  | cons v vs =>
      simp only [List.mem_cons, exists_eq_or_imp]
      rw [toAttributes]
      rcases toAttribute_cases v with ⟨hunknown, h⟩ | ⟨hknown, a, h, ha⟩
      · exact .inl ⟨.inl hunknown, by rw [h]; rfl⟩
      · rcases toAttributes_cases vs with ⟨hunknown, hs⟩ | ⟨hknowns, as, hs, has⟩
        · exact .inl ⟨.inr hunknown, by rw [h, hs]; rfl⟩
        · refine .inr ⟨not_or.mpr ⟨hknown, hknowns⟩, a :: as, by rw [h, hs]; rfl, ?_⟩
          rw [ofAttributes, itemsWithLists, ha, has]

theorem toEntries_cases (es : List (String × ServiceValue)) :
    ((∃ e ∈ es, HasUnknown e.2) ∧ toEntries es = .error unsupported)
      ∨ ((¬ ∃ e ∈ es, HasUnknown e.2)
        ∧ ∃ as, toEntries es = .ok as ∧ ofEntries as = entriesWithLists es) := by
  cases es with
  | nil => exact .inr ⟨by simp, [], rfl, rfl⟩
  | cons e es =>
      obtain ⟨k, v⟩ := e
      simp only [List.mem_cons, exists_eq_or_imp]
      rw [toEntries]
      rcases toAttribute_cases v with ⟨hunknown, h⟩ | ⟨hknown, a, h, ha⟩
      · exact .inl ⟨.inl hunknown, by rw [h]; rfl⟩
      · rcases toEntries_cases es with ⟨hunknown, hs⟩ | ⟨hknowns, as, hs, has⟩
        · exact .inl ⟨.inr hunknown, by rw [h, hs]; rfl⟩
        · refine .inr ⟨not_or.mpr ⟨hknown, hknowns⟩, (k, a) :: as, by rw [h, hs]; rfl, ?_⟩
          rw [ofEntries, entriesWithLists, ha, has]

end

theorem ofAttribute_injective {a b : AttributeValue} (h : ofAttribute a = ofAttribute b) : a = b := by
  have hab : toAttribute (ofAttribute a) = .ok b := by rw [h, toAttribute_ofAttribute]
  rw [toAttribute_ofAttribute] at hab
  exact Except.ok.inj hab

theorem exists_toAttribute_iff {v : ServiceValue} :
    (∃ a, toAttribute v = .ok a) ↔ ¬ v.HasUnknown := by
  rcases toAttribute_cases v with ⟨hunknown, h⟩ | ⟨hknown, a, h, -⟩
  · simp [h, hunknown]
  · exact iff_of_true ⟨a, h⟩ hknown

theorem toAttribute_eq_ok_iff {v : ServiceValue} {a : AttributeValue} :
    toAttribute v = .ok a ↔ ¬ v.HasUnknown ∧ ofAttribute a = v.withLists := by
  rcases toAttribute_cases v with ⟨hunknown, h⟩ | ⟨hknown, b, h, hb⟩
  · simp [h, hunknown]
  · rw [h, Except.ok.injEq, ← hb]
    constructor
    · rintro rfl
      exact ⟨hknown, rfl⟩
    · rintro ⟨-, hab⟩
      exact (ofAttribute_injective hab).symm

end ServiceValue

/-! ## Items and writes -/

theorem ServiceItem.toItem_ofItem (item : Item) : (ServiceItem.ofItem item).toItem = .ok item :=
  Dict.mapM?_map ServiceValue.toAttribute_ofAttribute item

namespace ServiceWrite

theorem optionalItem_map_ofItem (o : Option Item) :
    optionalItem (o.map ServiceItem.ofItem) = .ok o := by
  cases o with
  | none => rfl
  | some item => rw [Option.map_some, optionalItem, ServiceItem.toItem_ofItem, ok_map]

theorem toRequest_ofRequest (w : WriteRequest) : (ofRequest w).toRequest = .ok w := by
  rw [toRequest, ofRequest, optionalItem_map_ofItem, optionalItem_map_ofItem]
  rfl

/-- The writes to each table come back in their order. -/
theorem toRequests_ofRequests (writes : Dict (List WriteRequest)) :
    toRequests (ofRequests writes) = .ok writes := by
  have hlist : ∀ ws : List WriteRequest, (ws.map ofRequest).mapM toRequest = .ok ws := by
    intro ws
    rw [mapM_map_eq_ok toRequest_ofRequest, List.map_id']
  exact Dict.mapM?_map hlist writes

end ServiceWrite

/-! ## Builders

The client of the service makes the parts of a write by builders, which are told the members of a part one
after the other and may find that one is missing. -/

/-- Builders of the two parts of a write: each keeps the item that it is given, and may fail if it is
given none. -/
structure WriteBuilders where
  put : Option ServiceItem → Except StoreError ServiceItem
  delete : Option ServiceItem → Except StoreError ServiceItem
  put_some : ∀ item, put (some item) = .ok item
  delete_some : ∀ key, delete (some key) = .ok key

namespace WriteBuilders

/-- A part of a write, built from its item if it is there. -/
def part (build : Option ServiceItem → Except StoreError ServiceItem) :
    Option Item → Except StoreError (Option ServiceItem)
  | none => .ok none
  | some item => (build (some (ServiceItem.ofItem item))).map some

/-- The write of the service for a write, its parts made by builders. -/
def ofRequest (b : WriteBuilders) (w : WriteRequest) : Except StoreError ServiceWrite := do
  let put ← part b.put w.put
  let delete ← part b.delete w.delete
  return ⟨put, delete⟩

/-- The writes of the service for the writes to each table. -/
def ofRequests (b : WriteBuilders) (writes : Dict (List WriteRequest)) :
    Except StoreError (Dict (List ServiceWrite)) :=
  writes.mapM? (List.mapM b.ofRequest)

theorem part_eq_ok {build : Option ServiceItem → Except StoreError ServiceItem}
    (h : ∀ item, build (some item) = .ok item) (o : Option Item) :
    part build o = .ok (o.map ServiceItem.ofItem) := by
  cases o with
  | none => rfl
  | some item => rw [part, h, ok_map, Option.map_some]

theorem ofRequest_eq_ok (b : WriteBuilders) (w : WriteRequest) :
    b.ofRequest w = .ok (ServiceWrite.ofRequest w) := by
  rw [ofRequest, part_eq_ok b.put_some, part_eq_ok b.delete_some]
  rfl

/-- No builder misses a member: the writes are those that are made without builders. -/
theorem ofRequests_eq_ok (b : WriteBuilders) (writes : Dict (List WriteRequest)) :
    b.ofRequests writes = .ok (ServiceWrite.ofRequests writes) := by
  have hlist : ∀ ws : List WriteRequest,
      ws.mapM b.ofRequest = .ok (ws.map ServiceWrite.ofRequest) := by
    intro ws
    rw [← mapM_map_eq_ok (f := id) b.ofRequest_eq_ok ws, List.map_id]
  exact Dict.mapM?_eq_ok hlist writes

end WriteBuilders

namespace ServiceValue

/-- Nothing is lost on the way to the service and back: attribute values, items and the writes to each
table come back as they were. A value of the service is accepted exactly if no value of an unknown type
occurs in it, and then it comes back with the list of its members for every set in it. -/
theorem conversion_exact :
    (∀ a : AttributeValue, toAttribute (ofAttribute a) = .ok a)
      ∧ (∀ item : Item, (ServiceItem.ofItem item).toItem = .ok item)
      ∧ (∀ (b : WriteBuilders) (writes : Dict (List WriteRequest)),
        b.ofRequests writes = .ok (ServiceWrite.ofRequests writes)
          ∧ ServiceWrite.toRequests (ServiceWrite.ofRequests writes) = .ok writes)
      ∧ ∀ v : ServiceValue, ((∃ a, toAttribute v = .ok a) ↔ ¬ v.HasUnknown)
        ∧ ∀ a, toAttribute v = .ok a ↔ ¬ v.HasUnknown ∧ ofAttribute a = v.withLists := by
  refine ⟨toAttribute_ofAttribute, ServiceItem.toItem_ofItem, ?_, ?_⟩
  · intro b writes
    exact ⟨b.ofRequests_eq_ok writes, ServiceWrite.toRequests_ofRequests writes⟩
  · intro v
    exact ⟨exists_toAttribute_iff, fun a => toAttribute_eq_ok_iff⟩

/-- Builders that fail if they are given no item. -/
def strictBuilders : WriteBuilders where
  put o := o.elim (.error (.validation "the item of a put is missing")) .ok
  delete o := o.elim (.error (.validation "the key of a deletion is missing")) .ok
  put_some _ := rfl
  delete_some _ := rfl

/-- A put, a deletion, both in one write, and a write of neither, all in one table. -/
def mixedWrites : Dict (List WriteRequest) :=
  let key : Item := Dict.ofList [("pk", .string "a")]
  let item : Item := key.insert "tags" (.list [.string "x", .binary [0, 1]])
  Dict.ofList [("notes", [⟨some item, none⟩, ⟨none, some key⟩, ⟨some item, some key⟩, ⟨none, none⟩])]

/-- Writes of all kinds come back from strict builders, and so does a set within a list, as a list; an
unknown value is refused also within a map. -/
theorem mixedWrites_comeBack :
    (strictBuilders.ofRequests mixedWrites >>= ServiceWrite.toRequests) = .ok mixedWrites
      ∧ toAttribute (.list [.stringSet ["x", "y"], .null true])
        = .ok (.list [.list [.string "x", .string "y"], .null true])
      ∧ ¬ ∃ a, toAttribute (.map [("new", .list [.bool true, .unknown])]) = .ok a := by
  obtain ⟨-, -, hwrites, hvalues⟩ := conversion_exact
  obtain ⟨hbuilt, hback⟩ := hwrites strictBuilders mixedWrites
  have hknown : ¬ HasUnknown (.list [.stringSet ["x", "y"], .null true]) := by
    rw [hasUnknown_list_iff]
    rintro ⟨v, hv, h⟩
    simp only [List.mem_cons, List.not_mem_nil, or_false] at hv
    rcases hv with rfl | rfl <;> cases h
  have hunknown : HasUnknown (.map [("new", .list [.bool true, .unknown])]) :=
    .entry (List.mem_singleton_self _) (.item (v := .unknown) (by simp) .here)
  refine ⟨by rw [hbuilt, ok_bind, hback], ?_, ?_⟩
  · exact ((hvalues _).2 _).mpr ⟨hknown, rfl⟩
  · intro h
    exact (hvalues _).1.mp h hunknown

end ServiceValue

end SingleTable
