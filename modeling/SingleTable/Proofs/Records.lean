import SingleTable.Proofs.Bindings
import SingleTable.Wire.Request

set_option autoImplicit false

/-!
# Reading records that were written

A record is written as an object of those of its members that are present, and its fields are found there
under their names (`Record.field_ofMembers`). The lemmas `readMember_…` say what is read from a member of
each form in which members are written: always there, left out when absent, left out when empty. If every
field reads a value, no refusal is found among them (`Record.settle_ofMembers`).
-/

namespace SingleTable

namespace Wire

variable {α β : Type}

/-! ## Members -/

/-- Of members with different names, a member is found under its name exactly if it is present. -/
theorem lookup_present {members : List (String × Option Json)} (h : (members.map Prod.fst).Nodup)
    (n : String) :
    (members.filterMap (fun m => m.2.map (fun j => (m.1, j)))).lookup n
      = (members.lookup n).join := by
  induction members with
  | nil => rfl
  | cons m members ih =>
      obtain ⟨k, o⟩ := m
      obtain ⟨hk, hrest⟩ := List.nodup_cons.mp h
      rw [lookup_cons_eq_ite, List.filterMap_cons]
      cases o with
      | some j =>
          show ((k, j) :: _).lookup n = _
          rw [lookup_cons_eq_ite, ih hrest]
          split <;> rfl
      | none =>
          show (members.filterMap _).lookup n = _
          rw [ih hrest]
          split
          · rename_i hn
            have hnone : members.lookup n = none := by
              rw [← Option.not_isSome_iff_eq_none, Dict.lookup_isSome_iff, hn]
              exact hk
            rw [hnone]
            rfl
          · rfl

/-- What is read from the member of a field: no value if the member is left out. -/
def readMember (decode : Json → Decoded α) : Option Json → Decoded (Option α)
  | none => .ok none
  | some j => (decode j).map some

@[simp] theorem readMember_some (decode : Json → Decoded α) (j : Json) :
    readMember decode (some j) = (decode j).map some := rfl

/-! ## Fields -/

namespace Record

variable {typeName : String} {declared : List String} {members : List (String × Option Json)}

/-- The record that is found in an object of the given members. -/
def ofMembers (typeName : String) (declared : List String)
    (members : List (String × Option Json)) : Record :=
  ⟨typeName, declared, .named (members.filterMap (fun m => m.2.map (fun j => (m.1, j))))⟩

/-- A field reads the member that has its name. -/
@[simp] theorem field_ofMembers (h : (members.map Prod.fst).Nodup) (name : String)
    (decode : Json → Decoded α) :
    (ofMembers typeName declared members).field name decode
      = ⟨name, readMember decode (members.lookup name).join⟩ := by
  have hget : (ofMembers typeName declared members).get? name = (members.lookup name).join :=
    lookup_present h name
  rw [field, hget]
  rfl

@[simp] theorem outcome_ok (name : String) (o : Option α) :
    Slot.outcome ⟨name, .ok o⟩ = (name, .ok ()) := rfl

theorem firstRefusal_eq_ok {outcomes : List (String × Decoded Unit)}
    (h : ∀ o ∈ outcomes, o.2 = .ok ()) : firstRefusal outcomes = .ok () := by
  induction outcomes with
  | nil => rfl
  | cons o outcomes ih =>
      obtain ⟨ho, hrest⟩ := List.forall_mem_cons.mp h
      obtain ⟨name, outcome⟩ := o
      cases ho
      exact ih hrest

/-- A record in which every field reads a value is not refused. -/
@[simp] theorem settle_ofMembers {outcomes : List (String × Decoded Unit)}
    (h : ∀ o ∈ outcomes, o.2 = .ok ()) :
    (ofMembers typeName declared members).settle outcomes = .ok () :=
  firstRefusal_eq_ok fun o ho => h o (mem_of_mem_sortEntries ho)

@[simp] theorem required_ok (r : Record) (name : String) (a : α) :
    r.required ⟨name, .ok (some a)⟩ = .ok a := rfl

@[simp] theorem optional_ok (name : String) (o : Option α) :
    (ofMembers typeName declared members).optional ⟨name, .ok (o.map some)⟩ = .ok o := by
  cases o <;> rfl

@[simp] theorem orElse_ok (name : String) (o : Option α) (default : α) :
    Slot.orElse ⟨name, .ok o⟩ default = .ok (o.getD default) := rfl

end Record

@[simp] theorem record_ofMembers (typeName : String) (declared : List String)
    (members : List (String × Option Json)) :
    record typeName declared (Json.ofMembers members)
      = .ok (.ofMembers typeName declared members) := rfl

/-! ## Scalars -/

@[simp] theorem text_string (s : String) : text (.string s) = .ok s := rfl

@[simp] theorem flag_bool (b : Bool) : flag (.bool b) = .ok b := rfl

@[simp] theorem int64_toInt (n : Int64) : int64 (Json.ofInt n.toInt) = .ok n := by
  have hlow : Int64.minValue.toInt ≤ n.toInt := Int64.toInt_minValue ▸ n.le_toInt
  have hrange : integerIn Int64.minValue.toInt Int64.maxValue.toInt "i64" (Json.ofInt n.toInt)
      = .ok n.toInt := if_pos ⟨hlow, n.toInt_le⟩
  rw [int64, hrange, ok_map, Int64.ofInt_toInt]

@[simp] theorem int32_toInt (n : Int32) : int32 (Json.ofInt n.toInt) = .ok n := by
  have hlow : Int32.minValue.toInt ≤ n.toInt := Int32.toInt_minValue ▸ n.le_toInt
  have hrange : integerIn Int32.minValue.toInt Int32.maxValue.toInt "i32" (Json.ofInt n.toInt)
      = .ok n.toInt := if_pos ⟨hlow, n.toInt_le⟩
  rw [int32, hrange, ok_map, Int32.ofInt_toInt]

/-! ## Containers

`g` is what of an item comes back: the item itself, as a rule. -/

section

variable {encode : α → Json} {decode : Json → Decoded β} {g : α → β}
  (h : ∀ a, decode (encode a) = .ok (g a))

include h

/-- A value that is left out when absent is read as it was written, provided that what is there is not
written as null. -/
theorem readMember_optional (hnull : ∀ a, encode a ≠ .null) (o : Option α) :
    readMember (optional decode) (o.map encode) = .ok ((o.map g).map some) := by
  cases o with
  | none => rfl
  | some a =>
      have hoptional : optional decode (encode a) = (decode (encode a)).map some := by
        cases hj : encode a with
        | null => exact absurd hj (hnull a)
        | _ => rfl
      rw [Option.map_some, readMember_some, hoptional, h]
      rfl

theorem sequence_array (xs : List α) : sequence decode (.array (xs.map encode)) = .ok (xs.map g) :=
  mapM_map_eq_ok h xs

theorem readMember_encodeList (xs : List α) :
    readMember (sequence decode) (encodeList encode xs) = .ok (some (xs.map g)) := by
  rw [encodeList, readMember_some, sequence_array h]
  rfl

/-- A list that is left out when empty is read as its items, or not at all. -/
theorem readMember_unlessEmpty (xs : List α) :
    readMember (sequence decode) (unlessEmpty encode xs)
      = .ok (if xs = [] then none else some (xs.map g)) := by
  cases xs with
  | nil => rfl
  | cons x xs =>
      have hmember : unlessEmpty encode (x :: xs) = some (.array ((x :: xs).map encode)) := rfl
      rw [hmember, readMember_some, sequence_array h]
      rfl

end

/-- The default of a list that is left out when empty is the empty list. -/
@[simp] theorem getD_unlessEmpty {xs : List α} {ys : List β} (h : xs = [] → ys = []) :
    (if xs = [] then none else some ys).getD [] = ys := by
  split
  · rename_i hxs
    exact (h hxs).symm
  · rfl

section

variable {encode : α → Json} {decode : Json → Decoded α} (h : ∀ a, decode (encode a) = .ok a)

include h

theorem dictionary_object (d : Dict α) :
    dictionary decode (.object (d.map encode).entries) = .ok d :=
  Dict.mapM?_map h d

theorem readMember_encodeDict (d : Dict α) :
    readMember (dictionary decode) (encodeDict encode d) = .ok (some d) := by
  rw [encodeDict, readMember_some, dictionary_object h]
  rfl

/-- A dictionary that is left out when empty is read as it is, or not at all. -/
theorem readMember_unlessEmptyDict (d : Dict α) :
    readMember (dictionary decode) (unlessEmptyDict encode d)
      = .ok (if d.isEmpty then none else some d) := by
  rw [unlessEmptyDict]
  split
  · rfl
  · rw [readMember_some, dictionary_object h]
    rfl

end

/-- The default of a dictionary that is left out when empty is the empty dictionary. -/
@[simp] theorem getD_unlessEmptyDict (d : Dict α) :
    (if d.isEmpty then none else some d).getD {} = d := by
  split
  · rename_i hd
    refine Dict.ext ?_
    exact (List.isEmpty_iff.mp hd).symm
  · rfl

end Wire

end SingleTable
