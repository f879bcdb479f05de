import SingleTable.Materialize
import SingleTable.Proofs.Declarations

set_option autoImplicit false

/-!
# What a model makes

Both passes over the fields of a model fill an item field by field (`Fills`). Hence an item that a
well-formed model has made has exactly the fields of the model: generated and required fields hold what
was kept or supplied, and keys and derived fields hold what is computed from those values and the
parameters (`Model.makes_of_materialize`).
-/

namespace SingleTable

/-! ## Filling an item field by field -/

section

variable {takes : Field → Prop} {gives : Field → AttributeValue → Prop}

/-- The second item is the first one with a value for every field that is taken, one after the
other. -/
inductive Fills (takes : Field → Prop) (gives : Field → AttributeValue → Prop) :
    List Field → Item → Item → Prop
  | nil (item : Item) : Fills takes gives [] item item
  | skip {f : Field} {fields : List Field} {item item' : Item} (hf : ¬ takes f)
      (h : Fills takes gives fields item item') : Fills takes gives (f :: fields) item item'
  | take {f : Field} {fields : List Field} {item item' : Item} {v : AttributeValue} (hf : takes f)
      (hv : gives f v) (h : Fills takes gives fields (item.insert f.name v) item') :
      Fills takes gives (f :: fields) item item'

namespace Fills

variable {fields : List Field} {item item' : Item}

/-- What is not taken stays as it is. -/
theorem get?_of_not_taken (h : Fills takes gives fields item item') {n : String}
    (hn : ∀ f ∈ fields, takes f → f.name ≠ n) : item'.get? n = item.get? n := by
  induction h with
  | nil item => rfl
  | skip hf h ih => exact ih (fun g hg => hn g (List.mem_cons_of_mem _ hg))
  | take hf hv h ih =>
      rw [ih (fun g hg => hn g (List.mem_cons_of_mem _ hg)), Dict.get?_insert,
        if_neg (hn _ (by simp) hf).symm]

/-- Every field that is taken has a value that is given to it, if no name is used twice. -/
theorem get?_of_taken (h : Fills takes gives fields item item')
    (hnd : (fields.map Field.name).Nodup) {f : Field} (hf : f ∈ fields) (ht : takes f) :
    ∃ v, item'.get? f.name = some v ∧ gives f v := by
  induction h with
  | nil item => cases hf
  | skip hg h ih =>
      rcases List.mem_cons.mp hf with rfl | hf
      · exact absurd ht hg
      · exact ih (List.nodup_cons.mp hnd).2 hf
  | @take g fields item item' v hg hv h ih =>
      obtain ⟨hname, hrest⟩ := List.nodup_cons.mp hnd
      rcases List.mem_cons.mp hf with rfl | hf
      · refine ⟨v, ?_, hv⟩
        -- the later fields have other names
        have hlater : ∀ k ∈ fields, takes k → k.name ≠ f.name :=
          fun k hk _ heq => hname (heq ▸ List.mem_map_of_mem hk)
        rw [h.get?_of_not_taken hlater, Dict.get?_insert, if_pos rfl]
      · exact ih hrest hf

end Fills

end

/-! ## The two passes -/

theorem Field.value_eq_ok_iff {f : Field} {model : String} {raw : Option Json} {v : AttributeValue} :
    f.value model raw = .ok v ↔ f.validator.parse raw = .ok v := by
  rw [Field.value]
  cases f.validator.parse raw with
  | ok w => rw [Except.ok.injEq, Except.ok.injEq]
  | error e => exact ⟨nofun, nofun⟩

/-- The values that may settle a generated or required field: the one that an existing item has, or
else what the validator makes of the caller's value or of a fresh id. -/
inductive Field.Supplied (ids : IdSource) (params : Params) (existing : Option Item) (f : Field) :
    AttributeValue → Prop
  | kept {v : AttributeValue} (h : Model.kept? existing f = some v) : Supplied ids params existing f v
  | required {v : AttributeValue} (hkind : f.kind = .required) (h : Model.kept? existing f = none)
      (hv : f.validator.parse (params.get? f.name) = .ok v) : Supplied ids params existing f v
  | generated {v : AttributeValue} (n : Nat) (hkind : f.kind = .generated)
      (h : Model.kept? existing f = none) (hv : f.validator.parse (some (.string (ids n))) = .ok v) :
      Supplied ids params existing f v

/-- Where no value is kept, the validator has made it. -/
theorem Field.Supplied.parsed {ids : IdSource} {params : Params} {existing : Option Item} {f : Field}
    {v : AttributeValue} (h : f.Supplied ids params existing v)
    (hnone : Model.kept? existing f = none) : ∃ raw, f.validator.parse raw = .ok v := by
  cases h with
  | kept h =>
      rw [hnone] at h
      cases h
  | required _ _ hv => exact ⟨_, hv⟩
  | generated n _ _ hv => exact ⟨_, hv⟩

/-- A value that is kept is the only one that settles the field. -/
theorem Field.Supplied.eq_of_kept {ids : IdSource} {params : Params} {existing : Option Item}
    {f : Field} {v w : AttributeValue} (h : f.Supplied ids params existing w)
    (hkept : Model.kept? existing f = some v) : w = v := by
  cases h with
  | kept hold => exact Option.some.inj (hold.symm.trans hkept)
  | required _ hnone _ =>
      rw [hkept] at hnone
      cases hnone
  | generated _ _ hnone _ =>
      rw [hkept] at hnone
      cases hnone

namespace Model

variable {ids : IdSource} {model : String} {params : Params} {existing : Option Item}
  {item item' : Item} {f : Field} {n n' : Nat}

/-- The first pass leaves computed fields out and settles every other field. -/
theorem supply_cases
    (h : ExceptT.run (supply ids model params existing item f) n = (.ok item', n')) :
    (f.kind.isComputed = true ∧ item' = item)
      ∨ (f.kind.isComputed = false ∧ ∃ v, f.Supplied ids params existing v
          ∧ item' = item.insert f.name v) := by
  -- a value that is parsed is put under the name of the field
  have hput : ∀ {raw n n'},
      ExceptT.run (do return item.insert f.name (← f.value model raw) : Drawing Item) n
        = (.ok item', n') → ∃ v, f.validator.parse raw = .ok v ∧ item' = item.insert f.name v := by
    intro raw n n' h
    obtain ⟨v, u, hvalue, hitem⟩ := run_bind_eq_ok_iff.mp h
    have hv : f.value model raw = .ok v := (Prod.mk.inj hvalue).1
    exact ⟨v, Field.value_eq_ok_iff.mp hv, (Except.ok.inj (Prod.mk.inj hitem).1).symm⟩
  unfold supply at h
  cases hkind : f.kind with
  | key value =>
      rw [hkind] at h
      cases h
      exact Or.inl ⟨rfl, rfl⟩
  | derived value =>
      rw [hkind] at h
      cases h
      exact Or.inl ⟨rfl, rfl⟩
  | required =>
      refine Or.inr ⟨rfl, ?_⟩
      rw [hkind] at h
      cases hkept : kept? existing f with
      | some v =>
          rw [hkept] at h
          cases h
          exact ⟨v, .kept hkept, rfl⟩
      | none =>
          rw [hkept] at h
          obtain ⟨v, hv, hitem⟩ := hput h
          exact ⟨v, .required hkind hkept hv, hitem⟩
  | generated =>
      refine Or.inr ⟨rfl, ?_⟩
      rw [hkind] at h
      cases hkept : kept? existing f with
      | some v =>
          rw [hkept] at h
          cases h
          exact ⟨v, .kept hkept, rfl⟩
      | none =>
          rw [hkept] at h
          obtain ⟨id, u, hid, h⟩ := run_bind_eq_ok_iff.mp h
          cases hid
          obtain ⟨v, hv, hitem⟩ := hput h
          exact ⟨v, .generated n hkind hkept hv, hitem⟩

/-- The second pass computes keys and derived fields and leaves the others alone. -/
theorem compute_cases {known : Params} (h : compute model known item f = .ok item') :
    (f.kind.isComputed = false ∧ item' = item)
      ∨ (f.kind.isComputed = true ∧ ∃ v, (∃ value, f.kind.function? = some value
          ∧ f.validator.parse (value known) = .ok v) ∧ item' = item.insert f.name v) := by
  rw [compute] at h
  rw [FieldKind.isComputed]
  cases hfun : f.kind.function? with
  | none =>
      rw [hfun] at h
      cases h
      exact Or.inl ⟨rfl, rfl⟩
  | some value =>
      rw [hfun] at h
      obtain ⟨v, hv, hitem⟩ := bind_eq_ok_iff.mp h
      cases hitem
      exact Or.inr ⟨rfl, v, ⟨value, rfl, Field.value_eq_ok_iff.mp hv⟩, rfl⟩

theorem fills_of_supply {fields : List Field}
    (h : ExceptT.run (fields.foldlM (supply ids model params existing) item) n = (.ok item', n')) :
    Fills (fun f => f.kind.isComputed = false) (Field.Supplied ids params existing) fields item
      item' := by
  induction fields generalizing item n with
  | nil =>
      cases h
      exact .nil _
  | cons f fields ih =>
      rw [List.foldlM_cons] at h
      obtain ⟨next, u, hstep, hrest⟩ := run_bind_eq_ok_iff.mp h
      rcases supply_cases hstep with ⟨hf, rfl⟩ | ⟨hf, v, hv, rfl⟩
      · exact .skip (by rw [hf]; exact Bool.noConfusion) (ih hrest)
      · exact .take hf hv (ih hrest)

theorem fills_of_compute {known : Params} {fields : List Field}
    (h : fields.foldlM (compute model known) item = .ok item') :
    Fills (fun f => f.kind.isComputed = true)
      (fun f v => ∃ value, f.kind.function? = some value ∧ f.validator.parse (value known) = .ok v)
      fields item item' := by
  induction fields generalizing item with
  | nil =>
      cases h
      exact .nil _
  | cons f fields ih =>
      rw [List.foldlM_cons] at h
      obtain ⟨next, hstep, hrest⟩ := bind_eq_ok_iff.mp h
      rcases compute_cases hstep with ⟨hf, rfl⟩ | ⟨hf, v, hv, rfl⟩
      · exact .skip (by rw [hf]; exact Bool.noConfusion) (ih hrest)
      · exact .take hf hv (ih hrest)

/-! ## Items of a model -/

/-- What the computed fields of an item are computed from: the JSON forms of the item's generated and
required fields, and the parameters under all other names. -/
structure Knows (m : Model) (params : Params) (item : Item) (known : Params) : Prop where
  supplied : ∀ f ∈ m.fields, f.kind.isComputed = false →
    known.get? f.name = (item.get? f.name).map AttributeValue.toJson
  others : ∀ n, (∀ f ∈ m.fields, f.kind.isComputed = false → f.name ≠ n) →
    known.get? n = params.get? n

/-- The item is one that the model makes of the parameters and the existing item. -/
structure Makes (m : Model) (ids : IdSource) (params : Params) (existing : Option Item)
    (item : Item) : Prop where
  names : ∀ n, (item.get? n).isSome = true ↔ n ∈ m.fields.map Field.name
  supplied : ∀ f ∈ m.fields, f.kind.isComputed = false →
    ∃ v, item.get? f.name = some v ∧ f.Supplied ids params existing v
  computed : ∃ known, m.Knows params item known ∧
    ∀ f ∈ m.fields, ∀ value, f.kind.function? = some value →
      ∃ v, item.get? f.name = some v ∧ f.validator.parse (value known) = .ok v

variable {m : Model}

theorem Knows.unique {known known' : Params} (h : m.Knows params item known)
    (h' : m.Knows params item known') : known = known' := by
  refine Dict.ext_get? fun n => ?_
  by_cases hn : ∃ f ∈ m.fields, f.kind.isComputed = false ∧ f.name = n
  · obtain ⟨f, hf, hkind, rfl⟩ := hn
    rw [h.supplied f hf hkind, h'.supplied f hf hkind]
  · have hother : ∀ f ∈ m.fields, f.kind.isComputed = false → f.name ≠ n :=
      fun f hf hkind hname => hn ⟨f, hf, hkind, hname⟩
    rw [h.others n hother, h'.others n hother]

/-- An item is made by both passes, one after the other. -/
theorem run_materialize_eq_ok
    (h : ExceptT.run (m.materialize ids params existing) n = (.ok item, n')) :
    ∃ supplied, ExceptT.run (m.fields.foldlM (supply ids m.name params existing) {}) n
        = (.ok supplied, n')
      ∧ m.fields.foldlM (compute m.name (params.overlay (Params.ofItem supplied))) supplied
        = .ok item := by
  obtain ⟨supplied, u, hsupplied, hcomputed⟩ := run_bind_eq_ok_iff.mp h
  obtain ⟨hitem, rfl⟩ := Prod.mk.inj hcomputed
  exact ⟨supplied, hsupplied, hitem⟩

/-- The parameters overlaid with the values of the first pass are what the second pass computes from. -/
theorem knows_overlay {supplied : Item}
    (hsome : ∀ f ∈ m.fields, f.kind.isComputed = false → (supplied.get? f.name).isSome = true)
    (hnone : ∀ n, (∀ f ∈ m.fields, f.kind.isComputed = false → f.name ≠ n) → supplied.get? n = none) :
    m.Knows params supplied (params.overlay (Params.ofItem supplied)) := by
  constructor
  · intro f hf hkind
    obtain ⟨v, hv⟩ := Option.isSome_iff_exists.mp (hsome f hf hkind)
    rw [Dict.get?_overlay, Params.ofItem, Dict.get?_map, hv]
    rfl
  · intro n hn
    rw [Dict.get?_overlay, Params.ofItem, Dict.get?_map, hnone n hn]
    rfl

/-- What a well-formed model makes has exactly the fields of the model, and every field holds the value
that it should. -/
theorem makes_of_materialize (hm : m.WellFormed)
    (h : ExceptT.run (m.materialize ids params existing) n = (.ok item, n')) :
    m.Makes ids params existing item := by
  obtain ⟨supplied, hsupply, hcompute⟩ := run_materialize_eq_ok h
  have hfirst := fills_of_supply hsupply
  have hsecond := fills_of_compute hcompute
  -- the second pass leaves the fields of the first one as they are
  have hkeep : ∀ f ∈ m.fields, f.kind.isComputed = false →
      item.get? f.name = supplied.get? f.name := by
    intro f hf hkind
    refine hsecond.get?_of_not_taken fun g hg hgkind hname => ?_
    obtain rfl : g = f := hm.eq_of_name hg hf hname
    rw [hkind] at hgkind
    cases hgkind
  have hsupplied : ∀ f ∈ m.fields, f.kind.isComputed = false →
      ∃ v, item.get? f.name = some v ∧ f.Supplied ids params existing v := by
    intro f hf hkind
    rw [hkeep f hf hkind]
    exact hfirst.get?_of_taken hm.distinct hf hkind
  have hcomputed : ∀ f ∈ m.fields, ∀ value, f.kind.function? = some value →
      ∃ v, item.get? f.name = some v
        ∧ f.validator.parse (value (params.overlay (Params.ofItem supplied))) = .ok v := by
    intro f hf value hvalue
    have hkind : f.kind.isComputed = true := by rw [FieldKind.isComputed, hvalue]; rfl
    obtain ⟨v, hv, value', hvalue', hparse⟩ := hsecond.get?_of_taken hm.distinct hf hkind
    obtain rfl : value = value' := Option.some.inj (hvalue.symm.trans hvalue')
    exact ⟨v, hv, hparse⟩
  have hknows : m.Knows params supplied (params.overlay (Params.ofItem supplied)) := by
    refine knows_overlay (fun f hf hkind => ?_) (fun n hn => hfirst.get?_of_not_taken hn)
    obtain ⟨v, hv, -⟩ := hfirst.get?_of_taken hm.distinct hf hkind
    rw [hv]
    rfl
  refine ⟨fun n => ⟨fun hn => ?_, fun hn => ?_⟩, hsupplied, _, ⟨?_, hknows.others⟩, hcomputed⟩
  · -- neither pass fills a name that is not a field's
    refine Decidable.byContradiction fun hnot => ?_
    have hother : ∀ f ∈ m.fields, f.name ≠ n := fun f hf heq => hnot (heq ▸ List.mem_map_of_mem hf)
    rw [hsecond.get?_of_not_taken (fun f hf _ => hother f hf),
      hfirst.get?_of_not_taken (fun f hf _ => hother f hf)] at hn
    cases hn
  · obtain ⟨f, hf, rfl⟩ := List.mem_map.mp hn
    cases hfun : f.kind.function? with
    | none =>
        obtain ⟨v, hv, -⟩ := hsupplied f hf (FieldKind.isComputed_eq_false_iff.mpr hfun)
        rw [hv]
        rfl
    | some value =>
        obtain ⟨v, hv, -⟩ := hcomputed f hf value hfun
        rw [hv]
        rfl
  · intro f hf hkind
    rw [hkeep f hf hkind]
    exact hknows.supplied f hf hkind

namespace Makes

variable (h : m.Makes ids params existing item)

include h

theorem isSome {f : Field} (hf : f ∈ m.fields) : (item.get? f.name).isSome = true :=
  (h.names f.name).mpr (List.mem_map_of_mem hf)

theorem get?_eq_none {n : String} (hn : n ∉ m.fields.map Field.name) : item.get? n = none := by
  simpa using (not_congr (h.names n)).mpr hn

/-- Under the name of a field the item holds what the validator of the field has made, or a generated or
required value of the existing item. -/
theorem parsed_or_kept {f : Field} (hf : f ∈ m.fields) :
    ∃ v, item.get? f.name = some v ∧ ((∃ raw, f.validator.parse raw = .ok v)
      ∨ f.kind.function? = none ∧ kept? existing f = some v) := by
  cases hfun : f.kind.function? with
  | none =>
      obtain ⟨v, hv, hsupplied⟩ := h.supplied f hf (FieldKind.isComputed_eq_false_iff.mpr hfun)
      refine ⟨v, hv, ?_⟩
      cases hkept : kept? existing f with
      | none => exact Or.inl (hsupplied.parsed hkept)
      | some w => exact Or.inr ⟨rfl, congrArg some (hsupplied.eq_of_kept hkept).symm⟩
  | some value =>
      obtain ⟨known, -, hcomputed⟩ := h.computed
      obtain ⟨v, hv, hparse⟩ := hcomputed f hf value hfun
      exact ⟨v, hv, Or.inl ⟨_, hparse⟩⟩

/-- A new item holds under the name of a field what the validator of the field has made. -/
theorem parsed (hexisting : existing = none) {f : Field} (hf : f ∈ m.fields) :
    ∃ raw v, f.validator.parse raw = .ok v ∧ item.get? f.name = some v := by
  obtain ⟨v, hv, ⟨raw, hraw⟩ | ⟨-, hkept⟩⟩ := h.parsed_or_kept hf
  · exact ⟨raw, v, hraw, hv⟩
  · rw [hexisting] at hkept
    cases hkept

/-- The values of an existing item are kept in generated and required fields. -/
theorem kept {old : Item} (hexisting : existing = some old) {f : Field} (hf : f ∈ m.fields)
    (hkind : f.kind.isComputed = false) {v : AttributeValue} (hv : old.get? f.name = some v) :
    item.get? f.name = some v := by
  have hkept : kept? existing f = some v := by rw [hexisting]; exact hv
  obtain ⟨w, hw, hsupplied⟩ := h.supplied f hf hkind
  rw [hw, hsupplied.eq_of_kept hkept]

end Makes

end Model

end SingleTable
