import SingleTable.Proofs.KeyOrder
import SingleTable.Proofs.Outcome

set_option autoImplicit false

/-!
# The keys of items

An item has a key under a schema exactly if it carries every key attribute with a value of the declared
type (`KeySchema.extract_eq_ok_iff`). The key is then made of those values alone.
-/

namespace SingleTable

namespace KeyAttribute

/-- The value carries the declared type of the attribute, and this is a type of keys. -/
def Admits (key : KeyAttribute) (v : AttributeValue) : Prop :=
  key.type.isKey = true ∧ key.type.holds v = true

instance (key : KeyAttribute) (v : AttributeValue) : Decidable (key.Admits v) :=
  inferInstanceAs (Decidable (_ ∧ _))

theorem check_eq_ok_iff (key : KeyAttribute) (v : AttributeValue) :
    key.check v = .ok () ↔ key.Admits v := by
  rw [check, Admits, ← Bool.and_eq_true]
  cases key.type.isKey && key.type.holds v with
  | true => exact ⟨fun _ => rfl, fun _ => rfl⟩
  | false => exact ⟨nofun, nofun⟩

theorem valueIn_eq_ok_iff (key : KeyAttribute) (item : Item) (v : AttributeValue) :
    key.valueIn item = .ok v ↔ item.get? key.name = some v ∧ key.Admits v := by
  rw [valueIn]
  cases item.get? key.name with
  | none => exact ⟨nofun, nofun⟩
  | some w =>
      rw [Option.some.injEq, ← check_eq_ok_iff]
      refine bind_eq_ok_iff.trans ⟨?_, ?_⟩
      · rintro ⟨_, hw, hv⟩
        cases hv
        exact ⟨rfl, hw⟩
      · rintro ⟨rfl, hw⟩
        exact ⟨(), hw, rfl⟩

/-- A value that a key attribute admits is a string, a number or a binary value, as its type says. -/
theorem Admits.cases {key : KeyAttribute} {v : AttributeValue} (h : key.Admits v) :
    (key.type = .string ∧ ∃ s, v = .string s) ∨ (key.type = .number ∧ ∃ text, v = .number text)
      ∨ (key.type = .binary ∧ ∃ bytes, v = .binary bytes) := by
  obtain ⟨hk, hv⟩ := h
  have hname : key.type.name = v.typeName := beq_iff_eq.mp hv
  cases ht : key.type with
  | string =>
      cases v with
      | string s => exact Or.inl ⟨rfl, s, rfl⟩
      | _ => simp [ht, AttributeType.name, AttributeValue.typeName] at hname
  | number =>
      cases v with
      | number text => exact Or.inr (Or.inl ⟨rfl, text, rfl⟩)
      | _ => simp [ht, AttributeType.name, AttributeValue.typeName] at hname
  | binary =>
      cases v with
      | binary bytes => exact Or.inr (Or.inr ⟨rfl, bytes, rfl⟩)
      | _ => simp [ht, AttributeType.name, AttributeValue.typeName] at hname
  | _ =>
      rw [ht] at hk
      cases hk

/-- Where a key attribute admits a string it admits strings only. -/
theorem Admits.exists_string {key : KeyAttribute} {s : String} {v : AttributeValue}
    (hs : key.Admits (.string s)) (hv : key.Admits v) : ∃ t, v = .string t := by
  have htype : key.type.name = "S" := beq_iff_eq.mp hs.2
  rcases hv.cases with ⟨-, h⟩ | ⟨ht, -⟩ | ⟨ht, -⟩
  · exact h
  all_goals simp [ht, AttributeType.name] at htype

theorem Admits.exists_binary {key : KeyAttribute} {bytes : Bytes} {v : AttributeValue}
    (hs : key.Admits (.binary bytes)) (hv : key.Admits v) : ∃ more, v = .binary more := by
  have htype : key.type.name = "B" := beq_iff_eq.mp hs.2
  rcases hv.cases with ⟨ht, -⟩ | ⟨ht, -⟩ | ⟨-, h⟩
  · simp [ht, AttributeType.name] at htype
  · simp [ht, AttributeType.name] at htype
  · exact h

theorem Admits.ofValue {key : KeyAttribute} {v : AttributeValue} (h : key.Admits v) (name : String) :
    SortKey.ofValue name v = .ok (SortKey.ofValueD v) := by
  rcases h.cases with ⟨-, s, rfl⟩ | ⟨-, text, rfl⟩ | ⟨-, bytes, rfl⟩
  all_goals rfl

end KeyAttribute

namespace KeySchema

/-- The place of an item within its partition, read off its attributes. -/
def placeOf (schema : KeySchema) (item : Item) : SortKey :=
  match schema.sort with
  | none => .absent
  | some key => (item.get? key.name).elim .absent SortKey.ofValueD

/-- The item carries every attribute of the schema with a value of the declared type. -/
def Fits (schema : KeySchema) (item : Item) : Prop :=
  ∀ key ∈ schema.attributes, ∃ v, item.get? key.name = some v ∧ key.Admits v

/-- If the item has a key then its place can be compared: where the sort key is a number, its text
denotes one. -/
def Readable (schema : KeySchema) (item : Item) : Prop :=
  schema.Fits item → (schema.placeOf item).Comparable

/-- An item has a key exactly if it carries the key attributes with values of their types. The key
consists of the partition value and, where the schema has a sort key, of the item's place. -/
theorem extract_eq_ok_iff {schema : KeySchema} {item : Item} {key : PrimaryKey} :
    schema.extract item = .ok key
      ↔ schema.Fits item ∧ item.get? schema.partition.name = some key.partition
        ∧ key.sort = schema.sort.map (fun _ => schema.placeOf item) := by
  obtain ⟨partition, sort⟩ := schema
  refine bind_eq_ok_iff.trans ?_
  simp only [KeyAttribute.valueIn_eq_ok_iff, Fits, attributes, List.forall_mem_cons]
  cases sort with
  | none =>
      constructor
      · rintro ⟨v, ⟨hv, hadm⟩, hkey⟩
        cases hkey
        exact ⟨⟨⟨v, hv, hadm⟩, by simp⟩, hv, rfl⟩
      · rintro ⟨⟨⟨v, hv, hadm⟩, -⟩, hp, hs⟩
        obtain ⟨kp, ks⟩ := key
        obtain rfl : v = kp := Option.some.inj (hv.symm.trans hp)
        cases hs
        exact ⟨v, ⟨hv, hadm⟩, rfl⟩
  | some sortKey =>
      have hplace : ∀ w, item.get? sortKey.name = some w →
          placeOf ⟨partition, some sortKey⟩ item = SortKey.ofValueD w := by
        intro w hw
        simp only [placeOf, hw, Option.elim]
      constructor
      · rintro ⟨v, ⟨hv, hadm⟩, hkey⟩
        obtain ⟨w, hw, hkey⟩ := bind_eq_ok_iff.mp hkey
        obtain ⟨hw, hwadm⟩ := (KeyAttribute.valueIn_eq_ok_iff sortKey item w).mp hw
        rw [hwadm.ofValue] at hkey
        cases hkey
        refine ⟨⟨⟨v, hv, hadm⟩, ?_⟩, hv, ?_⟩
        · simpa using ⟨w, hw, hwadm⟩
        · simp [hplace w hw]
      · rintro ⟨⟨⟨v, hv, hadm⟩, hrest⟩, hp, hs⟩
        obtain ⟨w, hw, hwadm⟩ := hrest sortKey (by simp)
        obtain ⟨kp, ks⟩ := key
        obtain rfl : v = kp := Option.some.inj (hv.symm.trans hp)
        simp only [hplace w hw, Option.map_some] at hs
        cases hs
        refine ⟨v, ⟨hv, hadm⟩, bind_eq_ok_iff.mpr ⟨w, ?_, ?_⟩⟩
        · exact (KeyAttribute.valueIn_eq_ok_iff sortKey item w).mpr ⟨hw, hwadm⟩
        · rw [hwadm.ofValue]
          rfl

/-- The place of an item's key is the item's place. -/
theorem place_of_extract {schema : KeySchema} {item : Item} {key : PrimaryKey}
    (h : schema.extract item = .ok key) : key.place = schema.placeOf item := by
  have hs := (extract_eq_ok_iff.mp h).2.2
  rw [PrimaryKey.place, hs, placeOf]
  cases schema.sort <;> rfl

/-- A readable item with a key has a comparable place. -/
theorem Readable.comparable {schema : KeySchema} {item : Item} {key : PrimaryKey}
    (hr : schema.Readable item) (h : schema.extract item = .ok key) : key.place.Comparable := by
  rw [place_of_extract h]
  exact hr (extract_eq_ok_iff.mp h).1

/-- An item all of whose attributes can be compared is readable under every schema. -/
theorem readable_of_comparable {item : Item}
    (h : ∀ n v, item.get? n = some v → (SortKey.ofValueD v).Comparable) (schema : KeySchema) :
    schema.Readable item := by
  intro _
  rw [placeOf]
  split
  · trivial
  · rename_i key _
    cases hv : item.get? key.name with
    | none => trivial
    | some v => exact h key.name v hv

theorem extract_isOk_iff {schema : KeySchema} {item : Item} :
    (∃ key, schema.extract item = .ok key) ↔ schema.Fits item := by
  constructor
  · rintro ⟨key, h⟩
    exact (extract_eq_ok_iff.mp h).1
  · intro h
    obtain ⟨v, hv, -⟩ := h schema.partition (by simp [attributes])
    exact ⟨⟨v, schema.sort.map (fun _ => schema.placeOf item)⟩,
      extract_eq_ok_iff.mpr ⟨h, hv, rfl⟩⟩

end KeySchema

namespace PrimaryKey

/-- Whether two keys address the same place: their partition values are equal, and so are their
places in the order of sort keys. -/
def same (a b : PrimaryKey) : Bool := a.partition = b.partition && a.place.same b.place

theorem same_iff {a b : PrimaryKey} :
    a.same b = true ↔ a.partition = b.partition ∧ compare a.place b.place = .eq := by
  rw [same, Bool.and_eq_true, decide_eq_true_eq, SortKey.same_iff]

end PrimaryKey

end SingleTable
