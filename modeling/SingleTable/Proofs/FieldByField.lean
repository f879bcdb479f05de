import Mathlib.Data.List.Induction
import SingleTable.Proofs.Making

set_option autoImplicit false

/-!
# Items field by field

What a model makes, told without its two passes (`Model.Yields`): which value settles each field, which
field is refused first, and how many ids have been drawn by then. An accepted model makes exactly this, from
whatever parameters, existing item and ids (`Model.run_materialize_iff_yields`).
-/

namespace SingleTable

namespace Model

/-! ## The value of a field -/

/-- Whether an id is drawn for a field: the field is generated, and the existing item has no value for
it. -/
def draws (existing : Option Item) (f : Field) : Bool :=
  match f.kind with
  | .generated => (kept? existing f).isNone
  | _ => false

/-- How many ids are drawn for some fields. -/
def idsFor (existing : Option Item) (fields : List Field) : Nat := fields.countP (draws existing)

/-- The value that settles a generated or required field for which id number `n` comes next: the existing
value as it is, or else what the validator makes of that id or of the caller's value. -/
def suppliedValue (ids : IdSource) (params : Params) (existing : Option Item) (n : Nat) (f : Field) :
    Validated :=
  match kept? existing f with
  | some v => .ok v
  | none =>
      if draws existing f then f.validator.parse (some (.string (ids n)))
      else f.validator.parse (params.get? f.name)

/-- The value of a key or derived field: what the validator makes of what its function gives. -/
def computedValue (known : Params) (f : Field) : Validated :=
  f.validator.parse (f.kind.function?.bind fun value => value known)

/-! ## Fields in order of declaration -/

/-- The item has the values of all fields of a kind, and for the rest what it had before. The value of a
field may depend on the fields that are declared before it. -/
structure Filled (computed : Bool) (value : List Field → Field → Validated) (fields : List Field)
    (base item : Item) : Prop where
  taken : ∀ earlier f later, fields = earlier ++ f :: later → f.kind.isComputed = computed →
    ∃ v, value earlier f = .ok v ∧ item.get? f.name = some v
  others : ∀ n, (∀ f ∈ fields, f.kind.isComputed = computed → f.name ≠ n) →
    item.get? n = base.get? n

/-- The first field of a kind that has no value, with the fields that are declared before it. -/
structure Refused (computed : Bool) (value : List Field → Field → Validated)
    (fields before : List Field) (f : Field) (cause : ValidationError) : Prop where
  declared : ∃ after, fields = before ++ f :: after
  taken : f.kind.isComputed = computed
  refused : value before f = .error cause
  accepted : ∀ earlier g later, before = earlier ++ g :: later → g.kind.isComputed = computed →
    ∃ v, value earlier g = .ok v

/-- What a model makes after `n` ids have been drawn, and how many ids have been drawn then. Generated and
required fields count before keys and derived fields, which are computed from what is known then: the JSON
forms of generated and required values, and the parameters under all other names. -/
inductive Yields (m : Model) (ids : IdSource) (params : Params) (existing : Option Item) (n : Nat) :
    Except FieldError Item → Nat → Prop
  | made {supplied item : Item} {known : Params}
      (hsupplied : Filled false
        (fun earlier => suppliedValue ids params existing (n + idsFor existing earlier))
        m.fields {} supplied)
      (hknown : m.Knows params supplied known)
      (hcomputed : Filled true (fun _ => computedValue known) m.fields supplied item)
      (hnames : ∀ k, (item.get? k).isSome = true ↔ k ∈ m.fields.map Field.name) :
      Yields m ids params existing n (.ok item) (n + idsFor existing m.fields)
  | refusedSupplied {before : List Field} {f : Field} {cause : ValidationError}
      (hrefused : Refused false
        (fun earlier => suppliedValue ids params existing (n + idsFor existing earlier))
        m.fields before f cause) :
      Yields m ids params existing n (.error ⟨m.name, f.name, cause⟩)
        (n + idsFor existing (before ++ [f]))
  | refusedComputed {supplied : Item} {known : Params} {before : List Field} {f : Field}
      {cause : ValidationError}
      (hsupplied : Filled false
        (fun earlier => suppliedValue ids params existing (n + idsFor existing earlier))
        m.fields {} supplied)
      (hknown : m.Knows params supplied known)
      (hrefused : Refused true (fun _ => computedValue known) m.fields before f cause) :
      Yields m ids params existing n (.error ⟨m.name, f.name, cause⟩) (n + idsFor existing m.fields)

/-! ## One pass -/

section

variable {computed : Bool} {value : List Field → Field → Validated} {fields : List Field}
  {base item : Item} {f : Field}

/-- A field of a longer list is the last one or a field of the shorter list. -/
theorem snoc_eq_iff {earlier later : List Field} {g : Field} :
    fields ++ [f] = earlier ++ g :: later
      ↔ (later = [] ∧ earlier = fields ∧ g = f)
        ∨ ∃ rest, later = rest ++ [f] ∧ fields = earlier ++ g :: rest := by
  constructor
  · intro h
    induction later using List.reverseRecOn with
    | nil =>
        obtain ⟨rfl, hg⟩ := List.append_inj' h rfl
        exact Or.inl ⟨rfl, rfl, (List.head_eq_of_cons_eq hg).symm⟩
    | append_singleton rest last _ =>
        rw [← List.cons_append, ← List.append_assoc] at h
        obtain ⟨rfl, hlast⟩ := List.append_inj' h rfl
        rw [List.head_eq_of_cons_eq hlast]
        exact Or.inr ⟨rest, rfl, rfl⟩
  · rintro (⟨rfl, rfl, rfl⟩ | ⟨rest, rfl, rfl⟩) <;> simp

theorem nodup_of_snoc (h : ((fields ++ [f]).map Field.name).Nodup) :
    (fields.map Field.name).Nodup ∧ f.name ∉ fields.map Field.name := by
  rw [List.map_append, List.nodup_append] at h
  exact ⟨h.1, fun hmem => h.2.2 f.name hmem f.name (by simp) rfl⟩

theorem Filled.nil (base : Item) : Filled computed value [] base base :=
  ⟨fun _ _ _ h => by simp at h, fun _ _ => rfl⟩

/-- A field of the other kind changes nothing. -/
theorem Filled.skip (h : Filled computed value fields base item) (hf : f.kind.isComputed ≠ computed) :
    Filled computed value (fields ++ [f]) base item := by
  constructor
  · intro earlier g later hsplit hg
    rcases snoc_eq_iff.mp hsplit with ⟨-, -, rfl⟩ | ⟨rest, -, hfields⟩
    · exact absurd hg hf
    · exact h.taken earlier g rest hfields hg
  · intro n hn
    exact h.others n fun g hg => hn g (List.mem_append_left _ hg)

/-- A field of the kind gets its value, and the earlier ones keep theirs. -/
theorem Filled.take (h : Filled computed value fields base item) (hf : f.kind.isComputed = computed)
    (hname : f.name ∉ fields.map Field.name) {v : AttributeValue} (hv : value fields f = .ok v) :
    Filled computed value (fields ++ [f]) base (item.insert f.name v) := by
  constructor
  · intro earlier g later hsplit hg
    rcases snoc_eq_iff.mp hsplit with ⟨-, rfl, rfl⟩ | ⟨rest, -, rfl⟩
    · exact ⟨v, hv, by simp⟩
    · obtain ⟨w, hw, hget⟩ := h.taken earlier g rest rfl hg
      have hne : g.name ≠ f.name := by
        intro heq
        exact hname (heq ▸ List.mem_map_of_mem (by simp))
      exact ⟨w, hw, by rw [Dict.get?_insert, if_neg hne, hget]⟩
  · intro n hn
    have hne : n ≠ f.name := fun heq => hn f (by simp) hf heq.symm
    rw [Dict.get?_insert, if_neg hne]
    exact h.others n fun g hg => hn g (List.mem_append_left _ hg)

/-- The fields of a kind and what was there before decide the item. -/
theorem Filled.unique {item' : Item} (h : Filled computed value fields base item)
    (h' : Filled computed value fields base item') : item = item' := by
  refine Dict.ext_get? fun n => ?_
  -- a name belongs to a field of the kind, or its value is that of the item before
  by_cases hn : ∃ f ∈ fields, f.kind.isComputed = computed ∧ f.name = n
  · obtain ⟨f, hf, hkind, rfl⟩ := hn
    obtain ⟨earlier, later, hsplit⟩ := List.append_of_mem hf
    obtain ⟨v, hv, hget⟩ := h.taken earlier f later hsplit hkind
    obtain ⟨v', hv', hget'⟩ := h'.taken earlier f later hsplit hkind
    rw [hget, hget', Except.ok.inj (hv.symm.trans hv')]
  · have hother : ∀ f ∈ fields, f.kind.isComputed = computed → f.name ≠ n :=
      fun f hf hkind hname => hn ⟨f, hf, hkind, hname⟩
    rw [h.others n hother, h'.others n hother]

/-- The item has the names of the fields of the kind and those that were there before. -/
theorem Filled.isSome_iff (h : Filled computed value fields base item) {n : String} :
    (item.get? n).isSome = true
      ↔ (∃ f ∈ fields, f.kind.isComputed = computed ∧ f.name = n) ∨ (base.get? n).isSome = true := by
  by_cases hn : ∃ f ∈ fields, f.kind.isComputed = computed ∧ f.name = n
  · obtain ⟨f, hf, hkind, rfl⟩ := hn
    obtain ⟨earlier, later, hsplit⟩ := List.append_of_mem hf
    obtain ⟨v, -, hget⟩ := h.taken earlier f later hsplit hkind
    simp only [hget, Option.isSome_some, true_iff]
    exact Or.inl ⟨f, hf, hkind, rfl⟩
  · rw [h.others n fun f hf hkind hname => hn ⟨f, hf, hkind, hname⟩]
    simp [hn]

/-- No field that is met after the first refused one is refused first. -/
theorem Refused.not_after {before before' rest : List Field} {g : Field}
    {cause cause' : ValidationError} (h : Refused computed value fields before f cause)
    (h' : Refused computed value fields before' g cause') : before' ≠ before ++ f :: rest := by
  intro heq
  obtain ⟨v, hv⟩ := h'.accepted before f rest heq h.taken
  rw [h.refused] at hv
  cases hv

/-- Only one field is refused first. -/
theorem Refused.unique {before before' : List Field} {f' : Field} {cause cause' : ValidationError}
    (h : Refused computed value fields before f cause)
    (h' : Refused computed value fields before' f' cause') :
    before = before' ∧ f = f' ∧ cause = cause' := by
  obtain ⟨after, hfields⟩ := h.declared
  obtain ⟨after', hfields'⟩ := h'.declared
  -- both lists begin the list of all fields, so one of them begins the other
  obtain ⟨rfl, rfl⟩ : before = before' ∧ f = f' := by
    rcases List.append_eq_append_iff.mp (hfields.symm.trans hfields') with
      ⟨c, hbefore, hc⟩ | ⟨c, hbefore, hc⟩
    · cases c with
      | nil => exact ⟨by simpa using hbefore.symm, List.head_eq_of_cons_eq hc⟩
      | cons g rest =>
          obtain rfl : f = g := List.head_eq_of_cons_eq hc
          exact absurd hbefore (h.not_after h')
    · cases c with
      | nil => exact ⟨by simpa using hbefore, (List.head_eq_of_cons_eq hc).symm⟩
      | cons g rest =>
          obtain rfl : f' = g := List.head_eq_of_cons_eq hc
          exact absurd hbefore (h'.not_after h)
  have hcause : Except.error cause = Except.error cause' := h.refused.symm.trans h'.refused
  exact ⟨rfl, rfl, Except.error.inj hcause⟩

/-- A field that is refused first has no value. -/
theorem Filled.not_refused {before : List Field} {cause : ValidationError}
    (h : Filled computed value fields base item)
    (h' : Refused computed value fields before f cause) : False := by
  obtain ⟨after, hfields⟩ := h'.declared
  obtain ⟨v, hv, -⟩ := h.taken before f after hfields h'.taken
  rw [h'.refused] at hv
  cases hv

/-- A pass over fields of a kind ends with an item or with a refusal, after the fields that it has met. -/
inductive Pass (computed : Bool) (value : List Field → Field → Validated) (model : String)
    (fields : List Field) (base : Item) : Except FieldError Item → List Field → Prop
  | filled {item : Item} (h : Filled computed value fields base item) :
      Pass computed value model fields base (.ok item) fields
  | refused {before : List Field} {f : Field} {cause : ValidationError}
      (h : Refused computed value fields before f cause) :
      Pass computed value model fields base (.error ⟨model, f.name, cause⟩) (before ++ [f])

/-- Put the value of a field into an item, if it has one. -/
def put (model : String) (item : Item) (f : Field) (value : Validated) : Except FieldError Item :=
  match value with
  | .ok v => .ok (item.insert f.name v)
  | .error cause => .error ⟨model, f.name, cause⟩

theorem put_parse (model : String) (item : Item) (f : Field) (raw : Option Json) :
    put model item f (f.validator.parse raw) = (f.value model raw).map (item.insert f.name) := by
  rw [Field.value]
  cases f.validator.parse raw <;> rfl

namespace Pass

variable {model : String} {result result' : Except FieldError Item} {met met' : List Field}

theorem unique (h : Pass computed value model fields base result met)
    (h' : Pass computed value model fields base result' met') : result = result' ∧ met = met' := by
  cases h with
  | filled h =>
      cases h' with
      | filled h' => exact ⟨by rw [h.unique h'], rfl⟩
      | refused h' => exact (h.not_refused h').elim
  | refused h =>
      cases h' with
      | filled h' => exact (h'.not_refused h).elim
      | refused h' =>
          obtain ⟨rfl, rfl, rfl⟩ := h.unique h'
          exact ⟨rfl, rfl⟩

/-- After a refusal no further field is met. -/
theorem snoc_of_error {e : FieldError} (h : Pass computed value model fields base (.error e) met)
    (f : Field) : Pass computed value model (fields ++ [f]) base (.error e) met := by
  cases h with
  | refused h =>
      obtain ⟨after, hfields⟩ := h.declared
      exact .refused ⟨⟨after ++ [f], by rw [hfields]; simp⟩, h.taken, h.refused, h.accepted⟩

/-- The next field of the kind is filled or refused. -/
theorem snoc_of_ok (h : Pass computed value model fields base (.ok item) met)
    (hf : f.kind.isComputed = computed) (hname : f.name ∉ fields.map Field.name) :
    Pass computed value model (fields ++ [f]) base (put model item f (value fields f))
      (fields ++ [f]) := by
  cases h with
  | filled h =>
      cases hvalue : value fields f with
      | ok v => exact .filled (h.take hf hname hvalue)
      | error cause =>
          refine .refused ⟨⟨[], rfl⟩, hf, hvalue, ?_⟩
          intro earlier g later hsplit hg
          obtain ⟨v, hv, -⟩ := h.taken earlier g later hsplit hg
          exact ⟨v, hv⟩

/-- A field of the other kind is passed over. -/
theorem snoc_of_ne (h : Pass computed value model fields base (.ok item) met)
    (hf : f.kind.isComputed ≠ computed) :
    Pass computed value model (fields ++ [f]) base (.ok item) (fields ++ [f]) := by
  cases h with
  | filled h => exact .filled (h.skip hf)

theorem met_of_ok (h : Pass computed value model fields base (.ok item) met) : met = fields := by
  cases h with
  | filled h => rfl

end Pass

end

/-! ## The first pass -/

variable {ids : IdSource} {model : String} {params : Params} {existing : Option Item}
  {item : Item} {f : Field} {n : Nat}

theorem draws_eq_false (hkind : f.kind ≠ .generated) : draws existing f = false := by
  unfold draws
  cases h : f.kind with
  | generated => exact absurd h hkind
  | _ => rfl

theorem draws_of_generated (hkind : f.kind = .generated) :
    draws existing f = (kept? existing f).isNone := by
  rw [draws, hkind]

theorem idsFor_singleton : idsFor existing [f] = if draws existing f then 1 else 0 := by
  simp [idsFor, List.countP_cons]

theorem idsFor_append (fields fields' : List Field) :
    idsFor existing (fields ++ fields') = idsFor existing fields + idsFor existing fields' :=
  List.countP_append

/-- What the validator accepts is put into the item. -/
theorem run_insert_value (raw : Option Json) :
    ExceptT.run (do return item.insert f.name (← f.value model raw) : Drawing Item) n
      = (put model item f (f.validator.parse raw), n) := by
  rw [put_parse]
  cases f.value model raw <;> rfl

/-- The first pass leaves a computed field out, without drawing an id. -/
theorem run_supply_of_computed (hf : f.kind.isComputed = true) :
    ExceptT.run (supply ids model params existing item f) n
      = (.ok item, n + idsFor existing [f]) := by
  have hnone : idsFor existing [f] = 0 := by
    rw [idsFor_singleton, draws_eq_false, if_neg Bool.false_ne_true]
    intro hkind
    rw [hkind] at hf
    cases hf
  rw [hnone]
  unfold supply
  cases hkind : f.kind with
  | key value => rfl
  | derived value => rfl
  | generated =>
      rw [hkind] at hf
      cases hf
  | required =>
      rw [hkind] at hf
      cases hf

/-- The first pass puts the value of a generated or required field, and draws an id only where no value is
kept in a generated field. -/
theorem run_supply (hf : f.kind.isComputed = false) :
    ExceptT.run (supply ids model params existing item f) n
      = (put model item f (suppliedValue ids params existing n f), n + idsFor existing [f]) := by
  rw [idsFor_singleton, suppliedValue]
  unfold supply
  cases hkind : f.kind with
  | key value =>
      rw [hkind] at hf
      cases hf
  | derived value =>
      rw [hkind] at hf
      cases hf
  | required =>
      rw [draws_eq_false (by rw [hkind]; nofun)]
      cases hkept : kept? existing f with
      | some v => rfl
      | none => exact run_insert_value _
  | generated =>
      rw [draws_of_generated hkind]
      cases hkept : kept? existing f with
      | some v => rfl
      | none =>
          have hdraw : ExceptT.run (drawId ids) n = (.ok (ids n), n + 1) := rfl
          simp only [Option.isNone_none, if_true]
          rw [run_bind_of_ok hdraw]
          exact run_insert_value _

/-- The first pass ends as it should, with an id for every field that it has met and that draws one. -/
theorem exists_run_foldlM_supply {fields : List Field} (hnd : (fields.map Field.name).Nodup) :
    ∃ result met,
      ExceptT.run (fields.foldlM (supply ids model params existing) item) n
        = (result, n + idsFor existing met)
      ∧ Pass false (fun earlier => suppliedValue ids params existing (n + idsFor existing earlier))
          model fields item result met := by
  -- the ids of a field are counted over the fields before it, so the list grows at its end
  induction fields using List.reverseRecOn with
  | nil => exact ⟨_, [], rfl, .filled (.nil item)⟩
  | append_singleton fields f ih =>
      obtain ⟨hrest, hname⟩ := nodup_of_snoc hnd
      obtain ⟨result, met, hrun, hpass⟩ := ih hrest
      rw [List.foldlM_append]
      cases result with
      | error e => exact ⟨_, met, run_bind_of_error hrun, hpass.snoc_of_error f⟩
      | ok item' =>
          obtain rfl : met = fields := hpass.met_of_ok
          rw [run_bind_of_ok hrun, List.foldlM_cons]
          simp only [List.foldlM_nil, bind_pure]
          cases hf : f.kind.isComputed with
          | true =>
              refine ⟨_, met ++ [f], ?_, hpass.snoc_of_ne (by rw [hf]; decide)⟩
              rw [run_supply_of_computed hf, idsFor_append, Nat.add_assoc]
          | false =>
              refine ⟨_, met ++ [f], ?_, hpass.snoc_of_ok hf hname⟩
              rw [run_supply hf, idsFor_append, Nat.add_assoc]

theorem run_foldlM_supply_of_pass {fields : List Field} (hnd : (fields.map Field.name).Nodup)
    {result : Except FieldError Item} {met : List Field}
    (h : Pass false (fun earlier => suppliedValue ids params existing (n + idsFor existing earlier))
      model fields item result met) :
    ExceptT.run (fields.foldlM (supply ids model params existing) item) n
      = (result, n + idsFor existing met) := by
  obtain ⟨result', met', hrun, hpass⟩ := exists_run_foldlM_supply hnd
  obtain ⟨rfl, rfl⟩ := h.unique hpass
  exact hrun

/-! ## The second pass -/

theorem compute_of_supplied {known : Params} (hf : f.kind.isComputed = false) :
    compute model known item f = .ok item := by
  rw [compute, FieldKind.isComputed_eq_false_iff.mp hf]
  rfl

theorem compute_of_computed {known : Params} (hf : f.kind.isComputed = true) :
    compute model known item f = put model item f (computedValue known f) := by
  obtain ⟨value, hvalue⟩ := Option.isSome_iff_exists.mp hf
  rw [compute, computedValue, hvalue]
  exact (put_parse model item f (value known)).symm

/-- The second pass ends as it should. -/
theorem exists_foldlM_compute {known : Params} {fields : List Field}
    (hnd : (fields.map Field.name).Nodup) :
    ∃ result met, fields.foldlM (compute model known) item = result
      ∧ Pass true (fun _ => computedValue known) model fields item result met := by
  induction fields using List.reverseRecOn with
  | nil => exact ⟨_, [], rfl, .filled (.nil item)⟩
  | append_singleton fields f ih =>
      obtain ⟨hrest, hname⟩ := nodup_of_snoc hnd
      obtain ⟨result, met, hrun, hpass⟩ := ih hrest
      rw [List.foldlM_append, hrun]
      cases result with
      | error e => exact ⟨_, met, rfl, hpass.snoc_of_error f⟩
      | ok item' =>
          have hlast : [f].foldlM (compute model known) item' = compute model known item' f := by
            rw [List.foldlM_cons]
            simp only [List.foldlM_nil, bind_pure]
          show ∃ result met, [f].foldlM (compute model known) item' = result ∧ _
          rw [hlast]
          cases hf : f.kind.isComputed with
          | true => exact ⟨_, _, compute_of_computed hf, hpass.snoc_of_ok hf hname⟩
          | false =>
              refine ⟨_, _, compute_of_supplied hf, hpass.snoc_of_ne ?_⟩
              rw [hf]
              decide

theorem foldlM_compute_of_pass {known : Params} {fields : List Field}
    (hnd : (fields.map Field.name).Nodup) {result : Except FieldError Item} {met : List Field}
    (h : Pass true (fun _ => computedValue known) model fields item result met) :
    fields.foldlM (compute model known) item = result := by
  obtain ⟨result', met', hrun, hpass⟩ := exists_foldlM_compute hnd
  obtain ⟨rfl, -⟩ := h.unique hpass
  exact hrun

/-! ## Both passes -/

variable {m : Model}

/-- The fields of both passes are all fields. -/
theorem isSome_iff_of_filled {value value' : List Field → Field → Validated} {fields : List Field}
    {supplied : Item} (hsupplied : Filled false value fields {} supplied)
    (hcomputed : Filled true value' fields supplied item) {k : String} :
    (item.get? k).isSome = true ↔ k ∈ fields.map Field.name := by
  rw [hcomputed.isSome_iff, hsupplied.isSome_iff, List.mem_map]
  constructor
  · rintro (⟨f, hf, -, hname⟩ | ⟨f, hf, -, hname⟩ | hbase)
    · exact ⟨f, hf, hname⟩
    · exact ⟨f, hf, hname⟩
    · cases hbase
  · rintro ⟨f, hf, hname⟩
    cases hkind : f.kind.isComputed with
    | true => exact Or.inl ⟨f, hf, hkind, hname⟩
    | false => exact Or.inr (Or.inl ⟨f, hf, hkind, hname⟩)

/-- What the first pass has supplied is known to the functions of the second one. -/
theorem knows_of_filled {value : List Field → Field → Validated} {supplied : Item}
    (h : Filled false value m.fields {} supplied) :
    m.Knows params supplied (params.overlay (Params.ofItem supplied)) := by
  refine knows_overlay (fun f hf hkind => ?_) h.others
  exact h.isSome_iff.mpr (Or.inl ⟨f, hf, hkind, rfl⟩)

/-- After the first pass the second one decides. -/
theorem run_materialize_of_ok {supplied : Item} {n' : Nat}
    (h : ExceptT.run (m.fields.foldlM (supply ids m.name params existing) {}) n
      = (.ok supplied, n')) :
    ExceptT.run (m.materialize ids params existing) n
      = (m.fields.foldlM (compute m.name (params.overlay (Params.ofItem supplied))) supplied, n') := by
  rw [materialize, run_bind_of_ok h]
  rfl

/-- Both passes make what the fields say, if no name is used twice. -/
theorem yields_of_run (hnd : (m.fields.map Field.name).Nodup) {result : Except FieldError Item}
    {n' : Nat} (h : ExceptT.run (m.materialize ids params existing) n = (result, n')) :
    m.Yields ids params existing n result n' := by
  obtain ⟨first, met, hfirst, hpass⟩ :
      ∃ first met, ExceptT.run (m.fields.foldlM (supply ids m.name params existing) {}) n
          = (first, n + idsFor existing met)
        ∧ Pass false _ m.name m.fields {} first met := exists_run_foldlM_supply hnd
  cases hpass with
  | refused hrefused =>
      rw [materialize, run_bind_of_error hfirst] at h
      cases h
      exact .refusedSupplied hrefused
  | @filled supplied hsupplied =>
      rw [run_materialize_of_ok hfirst] at h
      obtain ⟨second, met, hsecond, hpass⟩ :
          ∃ second met, m.fields.foldlM
              (compute m.name (params.overlay (Params.ofItem supplied))) supplied = second
            ∧ Pass true _ m.name m.fields supplied second met := exists_foldlM_compute hnd
      rw [hsecond] at h
      cases h
      cases hpass with
      | filled hcomputed =>
          exact .made hsupplied (knows_of_filled hsupplied) hcomputed
            fun k => isSome_iff_of_filled hsupplied hcomputed
      | refused hrefused => exact .refusedComputed hsupplied (knows_of_filled hsupplied) hrefused

/-- An accepted model makes exactly what its fields say one by one: the item, or the refusal of the first
field that has no value, and the ids that are drawn. -/
theorem run_materialize_iff_yields {name : String} {fields : List Field}
    (hbuild : Model.build name fields = .ok m) (ids : IdSource) (params : Params)
    (existing : Option Item) (n : Nat) (result : Except FieldError Item) (n' : Nat) :
    ExceptT.run (m.materialize ids params existing) n = (result, n')
      ↔ m.Yields ids params existing n result n' := by
  have hnd : (m.fields.map Field.name).Nodup := (build_eq_ok_iff.mp hbuild).2.distinct
  constructor
  · exact yields_of_run hnd
  · intro h
    cases h with
    | made hsupplied hknown hcomputed hnames =>
        obtain rfl := hknown.unique (knows_of_filled hsupplied)
        rw [run_materialize_of_ok (run_foldlM_supply_of_pass hnd (.filled hsupplied)),
          foldlM_compute_of_pass hnd (.filled hcomputed)]
    | refusedSupplied hrefused =>
        rw [materialize, run_bind_of_error (run_foldlM_supply_of_pass hnd (.refused hrefused))]
    | refusedComputed hsupplied hknown hrefused =>
        obtain rfl := hknown.unique (knows_of_filled hsupplied)
        rw [run_materialize_of_ok (run_foldlM_supply_of_pass hnd (.filled hsupplied)),
          foldlM_compute_of_pass hnd (.refused hrefused)]

end Model

/-! ## A ticket -/

/-- A ticket stands under its code, and its stub shows all that is known when it is made. Both are declared
before fields that they are computed from. -/
def ticket : Model where
  name := "ticket"
  fields := [
    .sortKey .string (.parameter "code"),
    { name := "code", kind := .generated, validator := .string },
    { name := "row", kind := .required, validator := .string },
    { name := "stub", kind := .derived fun params => some params.toJson, validator := .map },
    { name := "mark", kind := .generated, validator := .string },
    .partitionKey .string (.constant (.string "tickets"))]

/-- A row and a seat, with a code that is not the caller's to give. -/
def seat : Params :=
  Dict.ofList [("code", .string "t0"), ("row", .string "f"), ("seat", .string "9")]

/-- A ticket whose code cannot be a sort key. -/
def brokenTicket : Item := Dict.ofList [("code", .bool true)]

/-- A new ticket takes two ids. Its stub shows the code that is drawn and not the caller's, and the seat,
which is no field. Of the broken ticket the missing row is refused first, and no mark is drawn for it; with
a row, a mark is drawn and the sort key is refused. -/
theorem ticket_yields :
    Model.build ticket.name ticket.fields = .ok ticket
      ∧ ticket.Yields (fun n => "t" ++ toString n) seat none 7
          (.ok (Dict.ofList [("sk", .string "t7"), ("code", .string "t7"), ("row", .string "f"),
            ("stub", .map [("code", .string "t7"), ("mark", .string "t8"), ("row", .string "f"),
              ("seat", .string "9")]),
            ("mark", .string "t8"), ("pk", .string "tickets")])) 9
      ∧ ticket.Yields (fun n => "t" ++ toString n) {} (some brokenTicket) 7
          (.error ⟨"ticket", "row", .missing⟩) 7
      ∧ ticket.Yields (fun n => "t" ++ toString n) seat (some brokenTicket) 7
          (.error ⟨"ticket", "sk", .wrongType "string" "boolean"⟩) 8 := by
  have hbuild : Model.build ticket.name ticket.fields = .ok ticket := rfl
  exact ⟨hbuild, (Model.run_materialize_iff_yields hbuild _ _ _ _ _ _).mp rfl,
    (Model.run_materialize_iff_yields hbuild _ _ _ _ _ _).mp rfl,
    (Model.run_materialize_iff_yields hbuild _ _ _ _ _ _).mp rfl⟩

end SingleTable
