import Mathlib.Data.List.Forall2
import SingleTable.Proofs.Outcome
import SingleTable.Validator

set_option autoImplicit false

/-!
# What validators accept

Which raw values a validator accepts, and as which attribute values (`Validator.parse_eq_ok_iff`). The
type of a field is inferred from the shape of its validator alone. It is the type of the accepted values
wherever it is a type of keys, but for literals that are no strings, which are inferred to be strings too
(`Validator.holds_iff_of_parse`).
-/

namespace SingleTable

namespace Validator

/-! ## Accepted values -/

theorem text_eq_ok_iff {expected : String} {raw : Option Json} {s : String} :
    text expected raw = .ok s ↔ raw = some (.string s) := by
  cases raw with
  | none => exact ⟨nofun, nofun⟩
  | some j => cases j <;> simp [text, present, wrongType, bind, Except.bind, pure, Except.pure]

/-- The validator accepts the raw value, or its absence, as the attribute value. -/
def Accepts : Validator → Option Json → AttributeValue → Prop
  | .string, raw, a => ∃ s, raw = some (.string s) ∧ a = .string s
  | .timestamp, raw, a =>
      ∃ s, raw = some (.string s) ∧ Timestamp.check s = .ok () ∧ a = .string s
  | .number, raw, a => ∃ n, raw = some (.number n) ∧ a = .number n.toText
  | .boolean, raw, a => ∃ b, raw = some (.bool b) ∧ a = .bool b
  | .binary, raw, a =>
      ∃ s bytes, raw = some (.string s) ∧ Base64.decode s = .ok bytes ∧ a = .binary bytes
  | .list item, raw, a =>
      ∃ js vs, raw = some (.array js) ∧ List.Forall₂ (fun j v => item.Accepts (some j) v) js vs
        ∧ a = .list vs
  | .map, raw, a => ∃ members, raw = some (.object members) ∧ a = .ofJson (.object members)
  | .optional item, raw, a =>
      ((raw = none ∨ raw = some .null) ∧ a = .null true)
        ∨ ∃ j, raw = some j ∧ j ≠ .null ∧ item.Accepts (some j) a
  | .enumeration allowed, raw, a => ∃ s ∈ allowed, raw = some (.string s) ∧ a = .string s
  | .literal value, raw, a => ∃ j, raw = some j ∧ j.same value = true ∧ a = .ofJson j
  | .custom _ parse, raw, a => parse raw = .ok a

/-- The items of an array are accepted one by one. -/
theorem parseItems_eq_ok_iff {item : Validator}
    (h : ∀ raw a, item.parse raw = .ok a ↔ item.Accepts raw a) {index : Nat} {js : List Json}
    {vs : List AttributeValue} :
    parseItems item.parse index js = .ok vs
      ↔ List.Forall₂ (fun j v => item.Accepts (some j) v) js vs := by
  induction js generalizing index vs with
  | nil => cases vs <;> simp [parseItems]
  | cons j js ih =>
      cases hj : item.parse (some j) with
      | error e =>
          simp only [parseItems, hj, reduceCtorEq, false_iff]
          rintro (_ | ⟨hv, -⟩)
          rw [← h, hj] at hv
          cases hv
      | ok w =>
          simp only [parseItems, hj, map_eq_ok_iff, ih]
          constructor
          · rintro ⟨ws, hws, rfl⟩
            exact .cons ((h _ _).mp hj) hws
          · rintro (_ | ⟨hv, hws⟩)
            rw [← h, hj] at hv
            cases hv
            exact ⟨_, hws, rfl⟩

/-- A validator returns exactly the attribute values as which it accepts a raw value. -/
theorem parse_eq_ok_iff (v : Validator) (raw : Option Json) (a : AttributeValue) :
    v.parse raw = .ok a ↔ v.Accepts raw a := by
  induction v generalizing raw a with
  | string =>
      rw [parse, Accepts, map_eq_ok_iff]
      simp only [text_eq_ok_iff, @eq_comm _ a]
  | timestamp =>
      simp only [parse, Accepts, bind_eq_ok_iff, text_eq_ok_iff]
      refine exists_congr fun s => and_congr_right fun _ => ?_
      cases Timestamp.check s with
      | ok u => simp [pure, Except.pure, @eq_comm _ a]
      | error e => simp
  | number =>
      cases raw with
      | none => exact ⟨nofun, nofun⟩
      | some j =>
          cases j <;> simp [parse, Accepts, present, bind, Except.bind, pure, Except.pure, @eq_comm _ a]
  | boolean =>
      cases raw with
      | none => exact ⟨nofun, nofun⟩
      | some j =>
          cases j <;> simp [parse, Accepts, present, bind, Except.bind, pure, Except.pure, @eq_comm _ a]
  | binary =>
      simp only [parse, Accepts, bind_eq_ok_iff, text_eq_ok_iff]
      refine exists_congr fun s => ?_
      cases Base64.decode s with
      | ok bytes => simp [pure, Except.pure, @eq_comm _ a]
      | error e => simp
  | list item ih =>
      cases raw with
      | none => exact ⟨nofun, nofun⟩
      | some j =>
          cases j <;> simp [parse, Accepts, present, bind, Except.bind, map_eq_ok_iff,
            parseItems_eq_ok_iff ih, @eq_comm _ a]
  | map =>
      cases raw with
      | none => exact ⟨nofun, nofun⟩
      | some j =>
          cases j <;> simp [parse, Accepts, present, bind, Except.bind, pure, Except.pure, @eq_comm _ a]
  | optional item ih =>
      cases raw with
      | none => simp [parse, Accepts, @eq_comm _ a]
      | some j => cases j <;> simp [parse, Accepts, ih, @eq_comm _ a]
  | enumeration allowed =>
      simp only [parse, Accepts, bind_eq_ok_iff, text_eq_ok_iff]
      refine exists_congr fun s => ?_
      by_cases hs : s ∈ allowed <;> simp [hs, pure, Except.pure, @eq_comm _ a]
  | literal value =>
      cases raw with
      | none => exact ⟨nofun, nofun⟩
      | some j =>
          cases hj : j.same value <;>
            simp [parse, Accepts, present, bind, Except.bind, pure, Except.pure, hj, @eq_comm _ a]
  | custom shape parse => rfl

/-! ## Inferred types -/

/-- The validator is made of those that the library provides. -/
def BuiltIn : Validator → Prop
  | .list item => item.BuiltIn
  | .optional item => item.BuiltIn
  | .custom _ _ => False
  | _ => True

/-- Equal JSON values have attribute values of one type. -/
theorem typeName_ofJson_of_same {i j : Json} (h : i.same j = true) :
    (AttributeValue.ofJson i).typeName = (AttributeValue.ofJson j).typeName := by
  cases i <;> cases j <;> first | rfl | cases h

/-- Only the attribute values of strings are strings. -/
theorem holds_string_ofJson {j : Json} :
    AttributeType.string.holds (.ofJson j) = true ↔ ∃ s, j = .string s := by
  cases j <;> simp [AttributeType.holds, AttributeType.name, AttributeValue.ofJson,
    AttributeValue.typeName]

/-- Where the type inferred for a validator of the library is one of keys, each accepted value carries
this type, unless the validator is a literal that is no string. The values of such a literal never do. -/
theorem holds_iff_of_parse {v : Validator} (hv : v.BuiltIn) (hkey : v.attributeType.isKey = true)
    {raw : Option Json} {a : AttributeValue} (h : v.parse raw = .ok a) :
    v.attributeType.holds a = true ↔ ∀ value, v = .literal value → ∃ s, value = .string s := by
  rw [parse_eq_ok_iff] at h
  cases v with
  | literal value =>
      obtain ⟨j, -, hsame, rfl⟩ := h
      have htype :
          AttributeType.string.holds (.ofJson j) = AttributeType.string.holds (.ofJson value) := by
        rw [AttributeType.holds, AttributeType.holds, typeName_ofJson_of_same hsame]
      show AttributeType.string.holds (.ofJson j) = true ↔ _
      rw [htype, holds_string_ofJson]
      exact ⟨fun hs value' heq => by cases heq; exact hs, fun hs => hs value rfl⟩
  | string =>
      obtain ⟨s, -, rfl⟩ := h
      exact ⟨fun _ => nofun, fun _ => rfl⟩
  | timestamp =>
      obtain ⟨s, -, -, rfl⟩ := h
      exact ⟨fun _ => nofun, fun _ => rfl⟩
  | number =>
      obtain ⟨n, -, rfl⟩ := h
      exact ⟨fun _ => nofun, fun _ => rfl⟩
  | binary =>
      obtain ⟨s, bytes, -, -, rfl⟩ := h
      exact ⟨fun _ => nofun, fun _ => rfl⟩
  | custom shape parse => exact hv.elim
  -- the others are not inferred to be keys
  | boolean => cases hkey
  | list item => cases hkey
  | map => cases hkey
  | optional item => cases hkey
  | enumeration allowed => cases hkey

theorem holds_greeting : (literal (.string "user:")).BuiltIn
    ∧ (literal (.string "user:")).parse (some (.string "user:")) = .ok (.string "user:")
    ∧ ((literal (.string "user:")).attributeType.holds (.string "user:") = true
      ↔ ∀ value, literal (.string "user:") = literal value → ∃ s, value = .string s) := by
  have hv : (literal (.string "user:")).BuiltIn := trivial
  have h : (literal (.string "user:")).parse (some (.string "user:")) = .ok (.string "user:") := rfl
  exact ⟨hv, h, holds_iff_of_parse hv rfl h⟩

/-- A literal of a number is inferred to be a string, and accepts a number. -/
theorem not_holds_literal_ofNat : (literal (.ofNat 42)).BuiltIn
    ∧ (literal (.ofNat 42)).attributeType.isKey = true
    ∧ (literal (.ofNat 42)).parse (some (.ofNat 42)) = .ok (.number "42")
    ∧ (literal (.ofNat 42)).attributeType.holds (.number "42") = false :=
  ⟨trivial, rfl, rfl, rfl⟩

end Validator

end SingleTable
