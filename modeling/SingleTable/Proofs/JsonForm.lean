import SingleTable.Proofs.CanonicalBase64
import SingleTable.Proofs.DecimalText
import SingleTable.Proofs.Making
import SingleTable.Proofs.RawValues

set_option autoImplicit false

/-!
# The JSON form of accepted values

What a validator of the library makes of a JSON value without floats has this value as its JSON form
again: no digit of an integer is lost, base64 is written as it was read, and maps keep their entries. So
the functions of a model compute from the very values that the caller has sent
(`Model.jsonForm_of_accepted`).
-/

namespace SingleTable

/-! ## Values without floats -/

namespace Json

mutual

/-- All numbers in the value are integers, of the range of JSON integers. -/
def Integral : Json → Prop
  | .number n => ∃ z, n = .integer z ∧ IsInteger z
  | .array items => IntegralItems items
  | .object members => IntegralMembers members
  | _ => True

/-- All items are integral. -/
def IntegralItems : List Json → Prop
  | [] => True
  | j :: js => Integral j ∧ IntegralItems js

/-- The values of all members are integral. -/
def IntegralMembers : List (String × Json) → Prop
  | [] => True
  | (_, j) :: ms => Integral j ∧ IntegralMembers ms

end

end Json

/-! ## Natural values -/

namespace AttributeValue

theorem toJson_number {z : Int} (h : Json.IsInteger z) :
    toJson (.number (toString z)) = .number (.integer z) := by
  rw [toJson, Json.numberOfText?_toString h]

mutual

/-- The natural value of a JSON value is turned back into it. -/
theorem toJson_ofJson {j : Json} (h : j.Integral) : toJson (ofJson j) = j := by
  cases j with
  | null => rfl
  | bool b => rfl
  | string s => rfl
  | number n =>
      obtain ⟨z, rfl, hz⟩ := h
      exact toJson_number hz
  | array items => rw [ofJson, toJson, toJsonItems_ofJsonItems h]
  | object members => rw [ofJson, toJson, toJsonMembers_ofJsonMembers h]

theorem toJsonItems_ofJsonItems {items : List Json} (h : Json.IntegralItems items) :
    toJsonItems (ofJsonItems items) = items := by
  cases items with
  | nil => rfl
  | cons j js => rw [ofJsonItems, toJsonItems, toJson_ofJson h.1, toJsonItems_ofJsonItems h.2]

theorem toJsonMembers_ofJsonMembers {members : List (String × Json)}
    (h : Json.IntegralMembers members) : toJsonMembers (ofJsonMembers members) = members := by
  cases members with
  | nil => rfl
  | cons m ms =>
      obtain ⟨k, j⟩ := m
      rw [ofJsonMembers, toJsonMembers, toJson_ofJson h.1, toJsonMembers_ofJsonMembers h.2]

end

end AttributeValue

/-! ## Accepted values -/

namespace Validator

/-- The accepted items of an array have the array as their JSON form, if each of them has its item. -/
theorem toJsonItems_of_forall₂ {item : Validator} {js : List Json} {vs : List AttributeValue}
    (h : List.Forall₂ (fun j v => item.Accepts (some j) v) js vs)
    (hitem : ∀ j v, j.Integral → item.Accepts (some j) v → v.toJson = j)
    (hjs : Json.IntegralItems js) : AttributeValue.toJsonItems vs = js := by
  induction h with
  | nil => rfl
  | cons hv _ ih => rw [AttributeValue.toJsonItems, hitem _ _ hjs.1 hv, ih hjs.2]

theorem toJson_of_accepts {v : Validator} (hv : v.BuiltIn) {raw : Option Json} {a : AttributeValue}
    (hraw : ∀ j, raw = some j → j.Integral) (h : v.Accepts raw a) : a.toJson = raw.getD .null := by
  induction v generalizing raw a with
  | string =>
      obtain ⟨s, rfl, rfl⟩ := h
      rfl
  | timestamp =>
      obtain ⟨s, rfl, -, rfl⟩ := h
      rfl
  | number =>
      obtain ⟨n, rfl, rfl⟩ := h
      exact AttributeValue.toJson_ofJson (hraw _ rfl)
  | boolean =>
      obtain ⟨b, rfl, rfl⟩ := h
      rfl
  | binary =>
      obtain ⟨s, bytes, rfl, hs, rfl⟩ := h
      rw [Base64.decode_eq_ok_iff.mp hs]
      rfl
  | list item ih =>
      obtain ⟨js, vs, rfl, hvs, rfl⟩ := h
      have hitem : ∀ j v, j.Integral → item.Accepts (some j) v → v.toJson = j := by
        intro j v hj hv'
        exact ih hv (fun k hk => Option.some.inj hk ▸ hj) hv'
      rw [AttributeValue.toJson, toJsonItems_of_forall₂ hvs hitem (hraw _ rfl)]
      rfl
  | map =>
      obtain ⟨members, rfl, rfl⟩ := h
      exact AttributeValue.toJson_ofJson (hraw _ rfl)
  | optional item ih =>
      rcases h with ⟨rfl | rfl, rfl⟩ | ⟨j, rfl, -, hitem⟩
      · rfl
      · rfl
      · exact ih hv hraw hitem
  | enumeration allowed =>
      obtain ⟨s, -, rfl, rfl⟩ := h
      rfl
  | literal value =>
      -- the value is that of the raw value, not that of the equal literal
      obtain ⟨j, rfl, -, rfl⟩ := h
      exact AttributeValue.toJson_ofJson (hraw _ rfl)
  | custom shape parse => exact hv.elim

end Validator

/-! ## What functions see -/

namespace Model

variable {m : Model} {ids : IdSource} {params known : Params} {item : Item} {f : Field}

/-- The computed fields of the item hold what their validators make of values computed from `known`. -/
def ComputedFrom (m : Model) (known : Params) (item : Item) : Prop :=
  ∀ f ∈ m.fields, ∀ value, f.kind.function? = some value →
    ∃ a, item.get? f.name = some a ∧ f.validator.parse (value known) = .ok a

/-- Under the name of a required field the functions of a new item see what the caller has sent, and
null if nothing was sent. -/
theorem Makes.known_of_required (h : m.Makes ids params none item) (hknows : m.Knows params item known)
    (hf : f ∈ m.fields) (hkind : f.kind = .required) (hv : f.validator.BuiltIn)
    (hraw : ∀ j, params.get? f.name = some j → j.Integral) :
    known.get? f.name = some ((params.get? f.name).getD .null) := by
  have hcomputed : f.kind.isComputed = false := by rw [hkind]; rfl
  obtain ⟨a, ha, hsupplied⟩ := h.supplied f hf hcomputed
  rw [hknows.supplied f hf hcomputed, ha]
  cases hsupplied with
  | kept hkept => cases hkept
  | required _ _ hparse =>
      exact congrArg some
        (Validator.toJson_of_accepts hv hraw ((Validator.parse_eq_ok_iff _ _ _).mp hparse))
  | generated _ hgenerated => exact absurd (hkind.symm.trans hgenerated) nofun

/-- A value that a validator of the library accepts, all its numbers integers, is the JSON form of what
the validator makes of it; so is every such value of its natural attribute value. The functions of a new
item therefore see under the names of required fields what the caller has sent. -/
theorem jsonForm_of_accepted :
    (∀ v : Validator, v.BuiltIn → ∀ raw a, (∀ j, raw = some j → j.Integral) →
      v.parse raw = .ok a → a.toJson = raw.getD .null)
    ∧ (∀ j : Json, j.Integral → (AttributeValue.ofJson j).toJson = j)
    ∧ ∀ (m : Model) (ids : IdSource) (params : Params) (item : Item) (n n' : Nat), m.WellFormed →
      ExceptT.run (m.materialize ids params none) n = (.ok item, n') →
      ∃ known, m.ComputedFrom known item
        ∧ ∀ f ∈ m.fields, f.kind = .required → f.validator.BuiltIn →
          (∀ j, params.get? f.name = some j → j.Integral) →
          known.get? f.name = some ((params.get? f.name).getD .null) := by
  refine ⟨fun v hv raw a hraw hparse => ?_, fun j hj => AttributeValue.toJson_ofJson hj, ?_⟩
  · exact Validator.toJson_of_accepts hv hraw ((v.parse_eq_ok_iff raw a).mp hparse)
  · intro m ids params item n n' hm hrun
    have hmakes := makes_of_materialize hm hrun
    obtain ⟨known, hknows, hcomputed⟩ := hmakes.computed
    exact ⟨known, hcomputed, fun f hf hkind hv hraw =>
      hmakes.known_of_required hknows hf hkind hv hraw⟩

end Model

/-! ## A shipment -/

/-- A shipment stands under its code; the weights that are not known are null. -/
def shipment : Model where
  name := "shipment"
  fields := [
    .partitionKey .string (.constant (.string "shipments")),
    .sortKey .string (.parameter "code"),
    { name := "code", kind := .required, validator := .string },
    { name := "weights", kind := .required, validator := .list (.optional .number) }]

/-- Weights at both ends of the range of integers. -/
def weights : Json := .array [.ofInt 18446744073709551615, .null, .ofInt (-9223372036854775808)]

theorem integral_weights : weights.Integral := by
  refine ⟨⟨_, rfl, ?_⟩, trivial, ⟨_, rfl, ?_⟩, trivial⟩
  · exact ⟨by decide, by decide⟩
  · exact ⟨by decide, by decide⟩

theorem wellFormed_shipment : shipment.WellFormed := by
  have hbuild : Model.build shipment.name shipment.fields = .ok shipment := rfl
  exact (Model.build_eq_ok_iff.mp hbuild).2

/-- The value functions of a shipment see the weights that were sent. -/
theorem weights_seen : (Validator.list (.optional .number)).BuiltIn ∧ weights.Integral
    ∧ (AttributeValue.ofJson weights).toJson = weights
    ∧ (∃ a, (Validator.list (.optional .number)).parse (some weights) = .ok a ∧ a.toJson = weights)
    ∧ ∃ (item : Item) (known : Params), ExceptT.run (shipment.materialize (fun n => toString n)
          (Dict.ofList [("code", .string "s1"), ("weights", weights)]) none) 0 = (.ok item, 0)
        ∧ shipment.ComputedFrom known item
        ∧ known.get? "code" = some (.string "s1") ∧ known.get? "weights" = some weights := by
  have hv : (Validator.list (.optional .number)).BuiltIn := trivial
  have hraw : ∀ j, some weights = some j → j.Integral := fun j hj =>
    Option.some.inj hj ▸ integral_weights
  obtain ⟨hparsed, hnatural, hmodel⟩ := Model.jsonForm_of_accepted
  have hweights : (Validator.list (.optional .number)).parse (some weights) = .ok (.list
      [.number (toString (18446744073709551615 : Int)), .null true,
        .number (toString (-9223372036854775808 : Int))]) := rfl
  have hrun : ∃ item, ExceptT.run (shipment.materialize (fun n => toString n)
      (Dict.ofList [("code", .string "s1"), ("weights", weights)]) none) 0 = (.ok item, 0) := ⟨_, rfl⟩
  obtain ⟨item, hrun⟩ := hrun
  obtain ⟨known, hcomputed, hknown⟩ := hmodel _ _ _ _ _ _ wellFormed_shipment hrun
  refine ⟨hv, integral_weights, hnatural weights integral_weights,
    ⟨_, hweights, hparsed _ hv _ _ hraw hweights⟩, item, known, hrun, hcomputed, ?_, ?_⟩
  · refine hknown { name := "code", kind := .required, validator := .string } (by simp [shipment]) rfl
      trivial fun j hj => ?_
    cases hj
    trivial
  · exact hknown { name := "weights", kind := .required, validator := .list (.optional .number) }
      (by simp [shipment]) rfl hv hraw

end SingleTable
