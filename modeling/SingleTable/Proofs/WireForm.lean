import SingleTable.Attribute.Wire
import SingleTable.Proofs.CanonicalBase64

set_option autoImplicit false

/-!
# The wire forms of attribute values

The format in which attribute values travel, as a predicate on JSON values (`WireForm`): an object of one
member that is named by a type, with the payload of that type, at every depth. Writing and reading are
inverse to each other, and reading accepts the wire forms and nothing else (`wire_exact`).
-/

namespace SingleTable

/-! ## Payloads -/

namespace Wire

theorem text_eq_ok_iff {j : Json} {s : String} : text j = .ok s ↔ j = .string s := by
  cases j <;> simp [text]

theorem flag_eq_ok_iff {j : Json} {b : Bool} : flag j = .ok b ↔ j = .bool b := by
  cases j <;> simp [flag]

end Wire

namespace AttributeValue

/-- Binary values are read from canonical base64 only. -/
theorem decodeBytes_eq_ok_iff {j : Json} {bytes : Bytes} :
    decodeBytes j = .ok bytes ↔ j = .string (Base64.encode bytes) := by
  rw [decodeBytes, bind_eq_ok_iff]
  constructor
  · rintro ⟨text, htext, hread⟩
    have hj : j = .string text := Wire.text_eq_ok_iff.mp htext
    cases hdecode : Base64.decode text with
    | error e =>
        rw [hdecode] at hread
        cases hread
    | ok bs =>
        rw [hdecode] at hread
        cases hread
        rw [hj, Base64.decode_eq_ok_iff.mp hdecode]
  · rintro rfl
    have hdecode : Base64.decode (Base64.encode bytes) = .ok bytes := Base64.decode_eq_ok_iff.mpr rfl
    exact ⟨_, rfl, by rw [hdecode]; rfl⟩

theorem alone_eq_ok_iff {rest : List (String × Json)} {v w : AttributeValue} :
    alone rest v = .ok w ↔ rest = [] ∧ v = w := by
  cases rest <;> simp [alone]

/-! ## Reading what is written -/

mutual

/-- What is written is read back. -/
theorem decode_encode (v : AttributeValue) : decode (encode v) = .ok v := by
  cases v with
  | string s => rfl
  | number text => rfl
  | binary bytes =>
      have hbytes : decodeBytes (.string (Base64.encode bytes)) = .ok bytes :=
        decodeBytes_eq_ok_iff.mpr rfl
      show (decodeBytes (.string (Base64.encode bytes))).map .binary >>= alone [] = _
      rw [hbytes]
      rfl
  | bool b => rfl
  | null flag => rfl
  | list items =>
      show (decodeItems (encodeItems items)).map .list >>= alone [] = _
      rw [decodeItems_encodeItems items]
      rfl
  | map entries =>
      show (decodeEntries (encodeEntries entries)).map .map >>= alone [] = _
      rw [decodeEntries_encodeEntries entries]
      rfl

theorem decodeItems_encodeItems (vs : List AttributeValue) :
    decodeItems (encodeItems vs) = .ok vs := by
  cases vs with
  | nil => rfl
  | cons v vs =>
      rw [encodeItems, decodeItems, decode_encode v, decodeItems_encodeItems vs]
      rfl

theorem decodeEntries_encodeEntries (es : List (String × AttributeValue)) :
    decodeEntries (encodeEntries es) = .ok es := by
  cases es with
  | nil => rfl
  | cons e es =>
      obtain ⟨k, v⟩ := e
      rw [encodeEntries, decodeEntries, decode_encode v, decodeEntries_encodeEntries es]
      rfl

end

/-! ## Writing what is read -/

mutual

/-- What is read is written as it was. -/
theorem encode_of_decode (j : Json) (v : AttributeValue) (h : decode j = .ok v) : encode v = j := by
  cases j with
  | object members =>
      cases members with
      | nil => cases h
      | cons m rest =>
          obtain ⟨key, content⟩ := m
          rw [decode, bind_eq_ok_iff] at h
          obtain ⟨w, hcontent, halone⟩ := h
          obtain ⟨rfl, rfl⟩ := alone_eq_ok_iff.mp halone
          exact encode_of_decodeContent key content w hcontent
  | _ => cases h

theorem encode_of_decodeContent (key : String) (content : Json) (v : AttributeValue)
    (h : decodeContent key content = .ok v) : encode v = .object [(key, content)] := by
  unfold decodeContent at h
  -- one type after the other is compared with the name of the member
  split at h
  · rename_i hkey
    obtain ⟨s, hs, rfl⟩ := map_eq_ok_iff.mp h
    rw [encode, hkey, Wire.text_eq_ok_iff.mp hs]
  split at h
  · rename_i hkey
    obtain ⟨s, hs, rfl⟩ := map_eq_ok_iff.mp h
    rw [encode, hkey, Wire.text_eq_ok_iff.mp hs]
  split at h
  · rename_i hkey
    obtain ⟨bytes, hbytes, rfl⟩ := map_eq_ok_iff.mp h
    rw [encode, hkey, decodeBytes_eq_ok_iff.mp hbytes]
  split at h
  · rename_i hkey
    obtain ⟨b, hb, rfl⟩ := map_eq_ok_iff.mp h
    rw [encode, hkey, Wire.flag_eq_ok_iff.mp hb]
  split at h
  · rename_i hkey
    obtain ⟨b, hb, rfl⟩ := map_eq_ok_iff.mp h
    rw [encode, hkey, Wire.flag_eq_ok_iff.mp hb]
  split at h
  · rename_i hkey
    cases content with
    | array items =>
        obtain ⟨vs, hvs, rfl⟩ := map_eq_ok_iff.mp h
        rw [encode, hkey, encodeItems_of_decodeItems items vs hvs]
    | _ => cases h
  split at h
  · rename_i hkey
    cases content with
    | object members =>
        obtain ⟨es, hes, rfl⟩ := map_eq_ok_iff.mp h
        rw [encode, hkey, encodeEntries_of_decodeEntries members es hes]
    | _ => cases h
  · cases h

theorem encodeItems_of_decodeItems (js : List Json) (vs : List AttributeValue)
    (h : decodeItems js = .ok vs) : encodeItems vs = js := by
  cases js with
  | nil =>
      cases h
      rfl
  | cons j js =>
      simp only [decodeItems, bind_eq_ok_iff, pure_eq_ok_iff] at h
      obtain ⟨v, hv, vs', hvs, rfl⟩ := h
      rw [encodeItems, encode_of_decode j v hv, encodeItems_of_decodeItems js vs' hvs]

theorem encodeEntries_of_decodeEntries (ms : List (String × Json))
    (es : List (String × AttributeValue)) (h : decodeEntries ms = .ok es) :
    encodeEntries es = ms := by
  cases ms with
  | nil =>
      cases h
      rfl
  | cons m ms =>
      obtain ⟨k, j⟩ := m
      simp only [decodeEntries, bind_eq_ok_iff, pure_eq_ok_iff] at h
      obtain ⟨v, hv, es', hes, rfl⟩ := h
      rw [encodeEntries, encode_of_decode j v hv, encodeEntries_of_decodeEntries ms es' hes]

end

/-! ## The format -/

/-- A JSON value is the wire form of an attribute value: an object of one member that is named by a type
and has a payload of that type. The items of a list and the members of a map are wire forms themselves. -/
inductive WireForm : Json → Prop
  | string (s : String) : WireForm (.object [("S", .string s)])
  | number (text : String) : WireForm (.object [("N", .string text)])
  | binary {text : String} {bytes : Bytes} (h : Base64.Spells text.toList bytes) :
      WireForm (.object [("B", .string text)])
  | bool (b : Bool) : WireForm (.object [("BOOL", .bool b)])
  | null (flag : Bool) : WireForm (.object [("NULL", .bool flag)])
  | list {items : List Json} (h : ∀ j ∈ items, WireForm j) : WireForm (.object [("L", .array items)])
  | map {members : List (String × Json)} (h : ∀ m ∈ members, WireForm m.2) :
      WireForm (.object [("M", .object members)])

mutual

theorem wireForm_encode (v : AttributeValue) : WireForm (encode v) := by
  cases v with
  | string s => exact .string s
  | number text => exact .number text
  | binary bytes => exact .binary (Base64.decode_eq_ok_iff_spells.mp (Base64.decode_eq_ok_iff.mpr rfl))
  | bool b => exact .bool b
  | null flag => exact .null flag
  | list items => exact .list (wireForm_encodeItems items)
  | map entries => exact .map (wireForm_encodeEntries entries)

theorem wireForm_encodeItems (vs : List AttributeValue) : ∀ j ∈ encodeItems vs, WireForm j := by
  cases vs with
  | nil => simp [encodeItems]
  | cons v vs =>
      rw [encodeItems, List.forall_mem_cons]
      exact ⟨wireForm_encode v, wireForm_encodeItems vs⟩

theorem wireForm_encodeEntries (es : List (String × AttributeValue)) :
    ∀ m ∈ encodeEntries es, WireForm m.2 := by
  cases es with
  | nil => simp [encodeEntries]
  | cons e es =>
      obtain ⟨k, v⟩ := e
      rw [encodeEntries, List.forall_mem_cons]
      exact ⟨wireForm_encode v, wireForm_encodeEntries es⟩

end

theorem exists_encodeItems_eq {js : List Json} (h : ∀ j ∈ js, ∃ v, encode v = j) :
    ∃ vs, encodeItems vs = js := by
  induction js with
  | nil => exact ⟨[], rfl⟩
  | cons j js ih =>
      obtain ⟨⟨v, hv⟩, hrest⟩ := List.forall_mem_cons.mp h
      obtain ⟨vs, hvs⟩ := ih hrest
      exact ⟨v :: vs, by rw [encodeItems, hv, hvs]⟩

theorem exists_encodeEntries_eq {ms : List (String × Json)} (h : ∀ m ∈ ms, ∃ v, encode v = m.2) :
    ∃ es, encodeEntries es = ms := by
  induction ms with
  | nil => exact ⟨[], rfl⟩
  | cons m ms ih =>
      obtain ⟨k, j⟩ := m
      obtain ⟨⟨v, hv⟩, hrest⟩ := List.forall_mem_cons.mp h
      obtain ⟨es, hes⟩ := ih hrest
      exact ⟨(k, v) :: es, by rw [encodeEntries, hv, hes]⟩

/-- Every wire form is what some value is written as. -/
theorem WireForm.exists_encode_eq {j : Json} (h : WireForm j) : ∃ v, encode v = j := by
  induction h with
  | string s => exact ⟨.string s, rfl⟩
  | number text => exact ⟨.number text, rfl⟩
  | @binary text bytes h =>
      have htext : text = Base64.encode bytes :=
        Base64.decode_eq_ok_iff.mp (Base64.decode_eq_ok_iff_spells.mpr h)
      exact ⟨.binary bytes, by rw [htext]; rfl⟩
  | bool b => exact ⟨.bool b, rfl⟩
  | null flag => exact ⟨.null flag, rfl⟩
  | list _ ih =>
      obtain ⟨vs, hvs⟩ := exists_encodeItems_eq ih
      exact ⟨.list vs, by rw [encode, hvs]⟩
  | map _ ih =>
      obtain ⟨es, hes⟩ := exists_encodeEntries_eq ih
      exact ⟨.map es, by rw [encode, hes]⟩

/-- Reading accepts a value exactly from what the value is written as, and what it accepts are the wire
forms: no second member, no other spelling of bytes and no payload of another type at any depth. -/
theorem wire_exact :
    (∀ v, decode (encode v) = .ok v)
      ∧ (∀ j v, decode j = .ok v ↔ encode v = j)
      ∧ ∀ j, (∃ v, decode j = .ok v) ↔ WireForm j := by
  have hread (j : Json) (v : AttributeValue) : decode j = .ok v ↔ encode v = j := by
    constructor
    · exact encode_of_decode j v
    · rintro rfl
      exact decode_encode v
  refine ⟨decode_encode, hread, fun j => ⟨?_, ?_⟩⟩
  · rintro ⟨v, hv⟩
    rw [← (hread j v).mp hv]
    exact wireForm_encode v
  · intro h
    obtain ⟨v, hv⟩ := h.exists_encode_eq
    exact ⟨v, (hread j v).mpr hv⟩

example : decode (.object [("N", .string "1"), ("S", .string "one")])
    = .error (.invalidLength 2 "fewer elements in map") := rfl

end AttributeValue

end SingleTable
