import SingleTable.Proofs.Making

set_option autoImplicit false

/-!
# Making an item again

Where the computed fields of a model depend on its generated and required fields alone, making an item
again that the model has made gives the same item, whatever parameters are handed in, and draws no id
(`Model.materialize_again`).
-/

namespace SingleTable

namespace Model

/-- The functions of the computed fields give the same for all parameters that agree on the generated
and required fields. -/
def DependsOnSupplied (m : Model) : Prop :=
  ∀ f ∈ m.fields, ∀ value, f.kind.function? = some value →
    ∀ p p' : Params,
      (∀ g ∈ m.fields, g.kind.isComputed = false → p.get? g.name = p'.get? g.name) →
      value p = value p'

variable {m : Model} {ids : IdSource} {model : String} {params : Params} {item : Item} {y : Item}
  {f : Field} {n : Nat}

/-! ## The first pass over a complete item -/

/-- A field that has a value is settled without drawing an id. -/
theorem run_supply_of_kept (h : f.kind.isComputed = false → (y.get? f.name).isSome = true) :
    ∃ item', ExceptT.run (supply ids model params (some y) item f) n = (.ok item', n) := by
  have hkept : f.kind.isComputed = false → ∃ v, kept? (some y) f = some v :=
    fun hkind => Option.isSome_iff_exists.mp (h hkind)
  unfold supply
  cases hkind : f.kind with
  | key value => exact ⟨_, rfl⟩
  | derived value => exact ⟨_, rfl⟩
  | required =>
      obtain ⟨v, hv⟩ := hkept (by rw [hkind]; rfl)
      rw [hv]
      exact ⟨_, rfl⟩
  | generated =>
      obtain ⟨v, hv⟩ := hkept (by rw [hkind]; rfl)
      rw [hv]
      exact ⟨_, rfl⟩

/-- Over an item with all generated and required fields the first pass succeeds and draws no id. -/
theorem run_foldlM_supply_of_kept {fields : List Field}
    (h : ∀ f ∈ fields, f.kind.isComputed = false → (y.get? f.name).isSome = true) :
    ∃ supplied, ExceptT.run (fields.foldlM (supply ids model params (some y)) item) n
      = (.ok supplied, n) := by
  induction fields generalizing item with
  | nil => exact ⟨item, rfl⟩
  | cons f fields ih =>
      obtain ⟨item', hstep⟩ := run_supply_of_kept (h f (by simp))
      obtain ⟨supplied, hrest⟩ := ih (fun g hg => h g (List.mem_cons_of_mem _ hg))
      refine ⟨supplied, ?_⟩
      rw [List.foldlM_cons, run_bind_of_ok hstep]
      exact hrest

/-! ## The second pass -/

/-- The second pass succeeds if the validators accept all computed values. -/
theorem foldlM_compute_of_parses {known : Params}
    (h : ∀ f ∈ m.fields, ∀ value, f.kind.function? = some value →
      ∃ v, f.validator.parse (value known) = .ok v) :
    ∃ item', m.fields.foldlM (compute model known) item = .ok item' := by
  have hstep : ∀ f ∈ m.fields, ∀ item : Item, True →
      ∃ item', compute model known item f = .ok item' ∧ True := by
    intro f hf item _
    rw [compute]
    cases hfun : f.kind.function? with
    | none => exact ⟨item, rfl, trivial⟩
    | some value =>
        obtain ⟨v, hv⟩ := h f hf value hfun
        exact ⟨_, bind_eq_ok_iff.mpr ⟨v, Field.value_eq_ok_iff.mpr hv, rfl⟩, trivial⟩
  obtain ⟨item', hitem, -⟩ := foldlM_succeeds (P := fun _ => True) hstep trivial
  exact ⟨item', hitem⟩

/-- From items with the same generated and required fields the same values are computed. -/
theorem DependsOnSupplied.value_eq (h : m.DependsOnSupplied) {params params' known known' : Params}
    {item item' : Item} (hknows : m.Knows params item known) (hknows' : m.Knows params' item' known')
    (hsame : ∀ f ∈ m.fields, f.kind.isComputed = false → item.get? f.name = item'.get? f.name)
    (hf : f ∈ m.fields) {value : ValueFunction} (hvalue : f.kind.function? = some value) :
    value known = value known' := by
  refine h f hf value hvalue known known' fun g hg hkind => ?_
  rw [hknows.supplied g hg hkind, hknows'.supplied g hg hkind, hsame g hg hkind]

/-! ## Complete items -/

/-- What is known depends on the generated and required values of an item alone. -/
theorem Knows.congr {known : Params} {item' : Item} (h : m.Knows params item known)
    (hsame : ∀ f ∈ m.fields, f.kind.isComputed = false → item.get? f.name = item'.get? f.name) :
    m.Knows params item' known :=
  ⟨fun f hf hkind => hsame f hf hkind ▸ h.supplied f hf hkind, h.others⟩

/-- Over an item with all generated and required fields no id is drawn, and the second pass computes from
the values of the item. -/
theorem run_materialize_of_complete (hm : m.WellFormed)
    (hsome : ∀ f ∈ m.fields, f.kind.isComputed = false → (y.get? f.name).isSome = true)
    (ids : IdSource) (params : Params) (n : Nat) :
    ∃ supplied known, m.Knows params y known
      ∧ ExceptT.run (m.materialize ids params (some y)) n
        = (m.fields.foldlM (compute m.name known) supplied, n) := by
  obtain ⟨supplied, hsupply⟩ : ∃ supplied, ExceptT.run
      (m.fields.foldlM (supply ids m.name params (some y)) {}) n = (.ok supplied, n) :=
    run_foldlM_supply_of_kept hsome
  have hfills := fills_of_supply hsupply
  -- the first pass keeps all values
  have hsame : ∀ f ∈ m.fields, f.kind.isComputed = false → supplied.get? f.name = y.get? f.name := by
    intro f hf hkind
    obtain ⟨v, hv⟩ := Option.isSome_iff_exists.mp (hsome f hf hkind)
    obtain ⟨w, hw, hgiven⟩ := hfills.get?_of_taken hm.distinct hf hkind
    rw [hv, hw, hgiven.eq_of_kept hv]
  have hknows : m.Knows params supplied (params.overlay (Params.ofItem supplied)) := by
    refine knows_overlay (fun f hf hkind => ?_) (fun n hn => hfills.get?_of_not_taken hn)
    rw [hsame f hf hkind]
    exact hsome f hf hkind
  refine ⟨supplied, _, hknows.congr hsame, ?_⟩
  rw [materialize, run_bind_of_ok hsupply]
  rfl

/-- Over such an item an item is made if the validators accept all values that are computed. -/
theorem exists_run_materialize_of_parses (hm : m.WellFormed)
    (hsome : ∀ f ∈ m.fields, f.kind.isComputed = false → (y.get? f.name).isSome = true)
    (hparse : ∀ known, m.Knows params y known → ∀ f ∈ m.fields, ∀ value,
      f.kind.function? = some value → ∃ v, f.validator.parse (value known) = .ok v)
    (ids : IdSource) (n : Nat) :
    ∃ item', ExceptT.run (m.materialize ids params (some y)) n = (.ok item', n) := by
  obtain ⟨supplied, known, hknows, hrun⟩ := run_materialize_of_complete hm hsome ids params n
  obtain ⟨item', hitem⟩ := foldlM_compute_of_parses (hparse known hknows)
  exact ⟨item', hrun.trans (by rw [hitem])⟩

/-- What is made of such an item is computed from the values of that item. -/
theorem Makes.computed_of_complete (h : m.Makes ids params (some y) item)
    (hsome : ∀ f ∈ m.fields, f.kind.isComputed = false → (y.get? f.name).isSome = true) :
    ∃ known, m.Knows params y known ∧ ∀ f ∈ m.fields, ∀ value, f.kind.function? = some value →
      ∃ v, item.get? f.name = some v ∧ f.validator.parse (value known) = .ok v := by
  obtain ⟨known, hknows, hcomputed⟩ := h.computed
  refine ⟨known, hknows.congr fun f hf hkind => ?_, hcomputed⟩
  obtain ⟨v, hv⟩ := Option.isSome_iff_exists.mp (hsome f hf hkind)
  rw [hv, h.kept rfl hf hkind hv]

/-- Two items that the model has made are equal if their generated and required fields are. -/
theorem Makes.eq_of_same_supplied {ids' : IdSource} {params' : Params}
    {existing existing' : Option Item} {item' : Item} (hdep : m.DependsOnSupplied)
    (h : m.Makes ids params existing item) (h' : m.Makes ids' params' existing' item')
    (hsame : ∀ f ∈ m.fields, f.kind.isComputed = false → item.get? f.name = item'.get? f.name) :
    item = item' := by
  obtain ⟨known, hknows, hcomputed⟩ := h.computed
  obtain ⟨known', hknows', hcomputed'⟩ := h'.computed
  refine Dict.ext_get? fun n => ?_
  by_cases hn : n ∈ m.fields.map Field.name
  · obtain ⟨f, hf, rfl⟩ := List.mem_map.mp hn
    cases hfun : f.kind.function? with
    | none => exact hsame f hf (FieldKind.isComputed_eq_false_iff.mpr hfun)
    | some value =>
        obtain ⟨v, hv, hparse⟩ := hcomputed f hf value hfun
        obtain ⟨v', hv', hparse'⟩ := hcomputed' f hf value hfun
        rw [hdep.value_eq hknows hknows' hsame hf hfun, hparse'] at hparse
        rw [hv, hv', Except.ok.inj hparse]
  · rw [h.get?_eq_none hn, h'.get?_eq_none hn]

/-- An item that the model has made can be made again of whatever parameters, without drawing an id. -/
theorem exists_run_materialize {existing : Option Item} {ids' : IdSource} {params' : Params}
    (hm : m.WellFormed) (hdep : m.DependsOnSupplied) (h : m.Makes ids params existing y) :
    ∃ item', ExceptT.run (m.materialize ids' params' (some y)) n = (.ok item', n) := by
  obtain ⟨known, hknows, hcomputed⟩ := h.computed
  refine exists_run_materialize_of_parses hm (fun f hf _ => h.isSome hf) ?_ ids' n
  intro known' hknows' f hf value hvalue
  obtain ⟨v, -, hparse⟩ := hcomputed f hf value hvalue
  rw [hdep.value_eq hknows hknows' (fun _ _ _ => rfl) hf hvalue] at hparse
  exact ⟨v, hparse⟩

/-- Making a complete item again changes nothing: whatever parameters are handed in and whatever ids
would come next, an accepted model whose computed fields depend on its generated and required fields
alone makes the same item of it, and draws no id. -/
theorem materialize_again {name : String} {fields : List Field}
    (hbuild : Model.build name fields = .ok m) (hdep : m.DependsOnSupplied)
    {existing : Option Item} {n' : Nat}
    (h : ExceptT.run (m.materialize ids params existing) n = (.ok y, n'))
    (ids' : IdSource) (params' : Params) (k : Nat) :
    ExceptT.run (m.materialize ids' params' (some y)) k = (.ok y, k) := by
  have hm : m.WellFormed := (build_eq_ok_iff.mp hbuild).2
  have hmakes := makes_of_materialize hm h
  obtain ⟨item', hagain⟩ : ∃ item',
      ExceptT.run (m.materialize ids' params' (some y)) k = (.ok item', k) :=
    exists_run_materialize hm hdep hmakes
  have hmakes' := makes_of_materialize hm hagain
  have hsame : ∀ f ∈ m.fields, f.kind.isComputed = false → y.get? f.name = item'.get? f.name := by
    intro f hf hkind
    obtain ⟨v, hv, -⟩ := hmakes.supplied f hf hkind
    rw [hv, hmakes'.kept rfl hf hkind hv]
  rw [hagain, hmakes.eq_of_same_supplied hdep hmakes' hsame]

end Model

/-! ## A loan -/

/-- A loan stands under a fresh number; its receipt names the number and the reader. -/
def loan : Model where
  name := "loan"
  fields := [
    .partitionKey .string (.constant (.string "loans")),
    .sortKey .string (.parameter "number"),
    { name := "number", kind := .generated, validator := .string },
    { name := "reader", kind := .required, validator := .string },
    { name := "receipt", validator := .list .string
      kind := .derived fun p => return .array [← p.get? "number", ← p.get? "reader"] }]

theorem loan_dependsOnSupplied : loan.DependsOnSupplied := by
  intro f hf value hvalue p p' h
  have hnumber : p.get? "number" = p'.get? "number" :=
    h { name := "number", kind := .generated, validator := .string } (by simp [loan]) rfl
  have hreader : p.get? "reader" = p'.get? "reader" :=
    h { name := "reader", kind := .required, validator := .string } (by simp [loan]) rfl
  simp only [loan, List.mem_cons, List.not_mem_nil, or_false] at hf
  rcases hf with rfl | rfl | rfl | rfl | rfl <;> cases hvalue
  · rfl
  · exact hnumber
  · show (do return Json.array [← p.get? "number", ← p.get? "reader"])
      = (do return Json.array [← p'.get? "number", ← p'.get? "reader"])
    rw [hnumber, hreader]

/-- The loan of a reader whom the existing item names; its number has been drawn. -/
def loanOfAda : Item := Dict.ofList [
  ("number", .string "l7"), ("reader", .string "ada"), ("pk", .string "loans"), ("sk", .string "l7"),
  ("receipt", .list [.string "l7", .string "ada"])]

/-- Another reader and another receipt change nothing, neither at first nor when the loan is made
again. -/
theorem loanOfAda_again :
    Model.build loan.name loan.fields = .ok loan
      ∧ loan.DependsOnSupplied
      ∧ ExceptT.run (loan.materialize (fun _ => "l7")
          (Dict.ofList [("reader", .string "bob"), ("receipt", .null)])
          (some (Dict.ofList [("reader", .string "ada")]))) 6 = (.ok loanOfAda, 7)
      ∧ ExceptT.run (loan.materialize (fun _ => "l9")
          (Dict.ofList [("number", .string "l8"), ("reader", .string "eve")])
          (some loanOfAda)) 8 = (.ok loanOfAda, 8) := by
  have hbuild : Model.build loan.name loan.fields = .ok loan := rfl
  have hfirst : ExceptT.run (loan.materialize (fun _ => "l7")
      (Dict.ofList [("reader", .string "bob"), ("receipt", .null)])
      (some (Dict.ofList [("reader", .string "ada")]))) 6 = (.ok loanOfAda, 7) := rfl
  exact ⟨hbuild, loan_dependsOnSupplied, hfirst,
    Model.materialize_again hbuild loan_dependsOnSupplied hfirst _ _ _⟩

end SingleTable
