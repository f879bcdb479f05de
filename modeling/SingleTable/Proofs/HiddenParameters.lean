import SingleTable.Proofs.Making

set_option autoImplicit false

/-!
# Parameters that are hidden

A generated field, and a required field that the existing item has, is settled without the parameter of its
name. The value that settles it then hides this parameter from the functions of keys and derived fields,
even from those that look at all parameters. So parameters that differ under hidden names only make the same
item, or fail alike, and draw the same ids (`Model.run_materialize_eq_of_sameSeen`).
-/

namespace SingleTable

namespace Model

/-- The name is that of a field which is settled without parameters. -/
def Hides (m : Model) (existing : Option Item) (n : String) : Prop :=
  ∃ f ∈ m.fields, f.name = n
    ∧ (f.kind = .generated ∨ f.kind = .required ∧ (kept? existing f).isSome = true)

/-- The parameters agree under every name that is not hidden. -/
def SameSeen (m : Model) (existing : Option Item) (params params' : Params) : Prop :=
  ∀ n, ¬ m.Hides existing n → params.get? n = params'.get? n

variable {m : Model} {ids : IdSource} {params params' : Params} {existing : Option Item}

/-- The parameter of a required field is seen if the field has no value yet. -/
theorem not_hides_of_required (hm : m.WellFormed) {f : Field} (hf : f ∈ m.fields)
    (hkind : f.kind = .required) (hkept : kept? existing f = none) : ¬ m.Hides existing f.name := by
  rintro ⟨g, hg, hname, hsettled⟩
  obtain rfl : g = f := hm.eq_of_name hg hf hname
  rcases hsettled with hgenerated | ⟨-, hsome⟩
  · rw [hkind] at hgenerated
    cases hgenerated
  · rw [hkept] at hsome
    cases hsome

/-- A field is settled alike by parameters that agree where they are seen. -/
theorem supply_congr (hm : m.WellFormed) (hsame : m.SameSeen existing params params') {f : Field}
    (hf : f ∈ m.fields) (item : Item) :
    supply ids m.name params existing item f = supply ids m.name params' existing item f := by
  unfold supply
  cases hkind : f.kind with
  | key value => rfl
  | derived value => rfl
  | generated => cases kept? existing f <;> rfl
  | required =>
      cases hkept : kept? existing f with
      | some v => rfl
      | none => rw [hsame f.name (not_hides_of_required hm hf hkind hkept)]

/-- Below the values of the first pass the hidden parameters make no difference. -/
theorem overlay_eq_of_sameSeen (hsame : m.SameSeen existing params params') {supplied : Item}
    (hsome : ∀ f ∈ m.fields, f.kind.isComputed = false → (supplied.get? f.name).isSome = true) :
    params.overlay (Params.ofItem supplied) = params'.overlay (Params.ofItem supplied) := by
  refine Dict.ext_get? fun n => ?_
  rw [Dict.get?_overlay, Dict.get?_overlay, Params.ofItem, Dict.get?_map]
  by_cases hn : m.Hides existing n
  · obtain ⟨f, hf, rfl, hsettled⟩ := hn
    have hkind : f.kind.isComputed = false := by
      rcases hsettled with hkind | ⟨hkind, -⟩ <;> rw [hkind] <;> rfl
    obtain ⟨v, hv⟩ := Option.isSome_iff_exists.mp (hsome f hf hkind)
    rw [hv]
    rfl
  · rw [hsame n hn]

/-- Callers can neither forge what is generated nor what is kept. An accepted model makes the same of
parameters that agree under all names but those of its generated fields and of the required fields of the
existing item: the same item or the same failure, with the same number of ids drawn. The functions of the
model may look at all parameters, and a hidden name may be bound in one case and not in the other. -/
theorem run_materialize_eq_of_sameSeen {name : String} {fields : List Field}
    (hbuild : Model.build name fields = .ok m) (hsame : m.SameSeen existing params params') (n : Nat) :
    ExceptT.run (m.materialize ids params existing) n
      = ExceptT.run (m.materialize ids params' existing) n := by
  have hm : m.WellFormed := (build_eq_ok_iff.mp hbuild).2
  have hfirst : m.fields.foldlM (supply ids m.name params existing) {}
      = m.fields.foldlM (supply ids m.name params' existing) {} :=
    foldlM_congr (fun f hf item => supply_congr hm hsame hf item) {}
  rw [materialize, materialize, hfirst]
  obtain ⟨result, u, hsupply⟩ : ∃ result u, ExceptT.run
      (m.fields.foldlM (supply ids m.name params' existing) {}) n = (result, u) := ⟨_, _, rfl⟩
  cases result with
  | error e => rw [run_bind_of_error hsupply, run_bind_of_error hsupply]
  | ok supplied =>
      have hsome : ∀ f ∈ m.fields, f.kind.isComputed = false →
          (supplied.get? f.name).isSome = true := by
        intro f hf hkind
        obtain ⟨v, hv, -⟩ := (fills_of_supply hsupply).get?_of_taken hm.distinct hf hkind
        rw [hv]
        rfl
      rw [run_bind_of_ok hsupply, run_bind_of_ok hsupply, overlay_eq_of_sameSeen hsame hsome]

end Model

/-! ## A visit -/

/-- A visit stands under a fresh number; its record shows all that is known when it is made. -/
def visit : Model where
  name := "visit"
  fields := [
    .partitionKey .string (.constant (.string "visits")),
    .sortKey .string (.parameter "number"),
    { name := "number", kind := .generated, validator := .string },
    { name := "guest", kind := .required, validator := .string },
    { name := "record", kind := .derived fun params => some params.toJson, validator := .map }]

/-- The visit of a guest whom the existing item names, on a day that the caller names. -/
def visitOfAda : Item := Dict.ofList [
  ("number", .string "v7"), ("guest", .string "ada"), ("pk", .string "visits"), ("sk", .string "v7"),
  ("record", .map [("day", .string "monday"), ("guest", .string "ada"), ("number", .string "v7")])]

/-- A day alone. -/
def monday : Params := Dict.ofList [("day", .string "monday")]

/-- The same day with another guest and a number. -/
def mondayForged : Params :=
  Dict.ofList [("day", .string "monday"), ("guest", .string "eve"), ("number", .string "v0")]

/-- Not even the record tells that another guest and a number have been handed in. -/
theorem visitOfAda_notForged :
    Model.build visit.name visit.fields = .ok visit
      ∧ visit.SameSeen (some (Dict.ofList [("guest", .string "ada")])) mondayForged monday
      ∧ ExceptT.run (visit.materialize (fun n => "v" ++ toString n) mondayForged
            (some (Dict.ofList [("guest", .string "ada")]))) 7
          = ExceptT.run (visit.materialize (fun n => "v" ++ toString n) monday
            (some (Dict.ofList [("guest", .string "ada")]))) 7
      ∧ ExceptT.run (visit.materialize (fun n => "v" ++ toString n) monday
            (some (Dict.ofList [("guest", .string "ada")]))) 7 = (.ok visitOfAda, 8) := by
  have hbuild : Model.build visit.name visit.fields = .ok visit := rfl
  have hsame : visit.SameSeen (some (Dict.ofList [("guest", .string "ada")])) mondayForged
      monday := by
    intro n hn
    have hguest : n ≠ "guest" := by
      rintro rfl
      exact hn ⟨{ name := "guest", kind := .required, validator := .string }, by simp [visit], rfl,
        Or.inr ⟨rfl, rfl⟩⟩
    have hnumber : n ≠ "number" := by
      rintro rfl
      exact hn ⟨{ name := "number", kind := .generated, validator := .string }, by simp [visit], rfl,
        Or.inl rfl⟩
    simp [mondayForged, monday, Dict.get?_ofList, lookup_cons_eq_ite, hguest, hnumber]
  exact ⟨hbuild, hsame, Model.run_materialize_eq_of_sameSeen hbuild hsame 7, rfl⟩

end SingleTable
