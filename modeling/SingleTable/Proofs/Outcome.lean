set_option autoImplicit false

/-!
# Outcomes of steps that may fail

What is known when a sequence of steps that may fail has succeeded: each step has (`bind_eq_ok_iff`,
`forM_eq_ok_iff`), and what every step keeps holds at the end (`foldlM_keeps`). A sequence of steps
succeeds if each one does where its turn comes (`foldlM_succeeds`). Steps that also change a state go on
from the state that the earlier ones have left (`run_bind_eq_ok_iff`, `run_bind_eq_error_iff`).
-/

namespace SingleTable

variable {ε α β : Type}

theorem bind_eq_ok_iff {x : Except ε α} {f : α → Except ε β} {b : β} :
    (x >>= f) = .ok b ↔ ∃ a, x = .ok a ∧ f a = .ok b := by
  cases x with
  | error e => exact ⟨nofun, fun ⟨_, h, _⟩ => nomatch h⟩
  | ok a => exact ⟨fun h => ⟨a, rfl, h⟩, fun ⟨_, ha, hf⟩ => by cases ha; exact hf⟩

theorem pure_eq_ok_iff {a b : α} : (pure a : Except ε α) = .ok b ↔ a = b :=
  ⟨fun h => Except.ok.inj h, congrArg Except.ok⟩

theorem map_eq_ok_iff {x : Except ε α} {f : α → β} {b : β} :
    x.map f = .ok b ↔ ∃ a, x = .ok a ∧ f a = b := by
  cases x with
  | error e => exact ⟨nofun, fun ⟨_, h, _⟩ => nomatch h⟩
  | ok a => exact ⟨fun h => ⟨a, rfl, by cases h; rfl⟩, fun ⟨_, ha, hf⟩ => by cases ha; cases hf; rfl⟩

/-- All checks of a list pass exactly if each one does. -/
theorem forM_eq_ok_iff {check : α → Except ε Unit} {xs : List α} :
    xs.forM check = .ok () ↔ ∀ x ∈ xs, check x = .ok () := by
  induction xs with
  | nil => exact ⟨fun _ _ h => (nomatch h), fun _ => rfl⟩
  | cons x xs ih =>
      rw [List.forall_mem_cons, ← ih]
      exact bind_eq_ok_iff.trans ⟨fun ⟨_, h, hs⟩ => ⟨h, hs⟩, fun ⟨h, hs⟩ => ⟨(), h, hs⟩⟩

/-- What every step of a fold keeps, the whole fold keeps. -/
theorem foldlM_keeps {step : β → α → Except ε β} {P : β → Prop} {xs : List α}
    (keeps : ∀ a ∈ xs, ∀ b b', P b → step b a = .ok b' → P b') {b b' : β} (hb : P b)
    (h : xs.foldlM step b = .ok b') : P b' := by
  induction xs generalizing b with
  | nil =>
      cases h
      exact hb
  | cons a xs ih =>
      rw [List.foldlM_cons] at h
      obtain ⟨c, hc, h⟩ := bind_eq_ok_iff.mp h
      exact ih (fun a ha => keeps a (List.mem_cons_of_mem _ ha)) (keeps a (by simp) b c hb hc) h

/-- A fold succeeds if every step succeeds from where the earlier ones may lead. -/
theorem foldlM_succeeds {step : β → α → Except ε β} {P : β → Prop} {xs : List α}
    (succeeds : ∀ a ∈ xs, ∀ b, P b → ∃ b', step b a = .ok b' ∧ P b') {b : β} (hb : P b) :
    ∃ b', xs.foldlM step b = .ok b' ∧ P b' := by
  induction xs generalizing b with
  | nil => exact ⟨b, rfl, hb⟩
  | cons a xs ih =>
      obtain ⟨c, hc, hPc⟩ := succeeds a (by simp) b hb
      obtain ⟨b', hb', hPb'⟩ := ih (fun a ha => succeeds a (List.mem_cons_of_mem _ ha)) hPc
      refine ⟨b', ?_, hPb'⟩
      rw [List.foldlM_cons]
      exact bind_eq_ok_iff.mpr ⟨c, hc, hb'⟩

/-- Folds of steps that do the same with every element of the list do the same. -/
theorem foldlM_congr {m : Type → Type} [Monad m] {step step' : β → α → m β} {xs : List α}
    (h : ∀ a ∈ xs, ∀ b, step b a = step' b a) (b : β) : xs.foldlM step b = xs.foldlM step' b := by
  induction xs generalizing b with
  | nil => rfl
  | cons a xs ih =>
      rw [List.foldlM_cons, List.foldlM_cons, h a (by simp)]
      exact congrArg _ (funext (ih fun c hc => h c (List.mem_cons_of_mem _ hc)))

/-! ## Steps that change a state -/

section

variable {σ : Type} {x : ExceptT ε (StateM σ) α} {f : α → ExceptT ε (StateM σ) β} {s s' : σ}

theorem run_bind_of_ok {a : α} (h : ExceptT.run x s = (.ok a, s')) :
    ExceptT.run (x >>= f) s = ExceptT.run (f a) s' := by
  show ExceptT.bindCont f (ExceptT.run x s).1 (ExceptT.run x s).2 = _
  rw [h]
  rfl

theorem run_bind_of_error {e : ε} (h : ExceptT.run x s = (.error e, s')) :
    ExceptT.run (x >>= f) s = (.error e, s') := by
  show ExceptT.bindCont f (ExceptT.run x s).1 (ExceptT.run x s).2 = _
  rw [h]
  rfl

theorem run_bind_eq_ok_iff {b : β} :
    ExceptT.run (x >>= f) s = (.ok b, s')
      ↔ ∃ a u, ExceptT.run x s = (.ok a, u) ∧ ExceptT.run (f a) u = (.ok b, s') := by
  obtain ⟨result, u, h⟩ : ∃ result u, ExceptT.run x s = (result, u) := ⟨_, _, rfl⟩
  cases result with
  | ok a =>
      rw [run_bind_of_ok h, h]
      constructor
      · intro hf
        exact ⟨a, u, rfl, hf⟩
      · rintro ⟨_, _, heq, hf⟩
        cases heq
        exact hf
  | error e =>
      rw [run_bind_of_error h, h]
      exact ⟨nofun, fun ⟨_, _, heq, _⟩ => nomatch heq⟩

theorem run_bind_eq_error_iff {e : ε} :
    ExceptT.run (x >>= f) s = (.error e, s')
      ↔ ExceptT.run x s = (.error e, s')
        ∨ ∃ a u, ExceptT.run x s = (.ok a, u) ∧ ExceptT.run (f a) u = (.error e, s') := by
  obtain ⟨result, u, h⟩ : ∃ result u, ExceptT.run x s = (result, u) := ⟨_, _, rfl⟩
  cases result with
  | ok a =>
      rw [run_bind_of_ok h, h]
      constructor
      · intro hf
        exact Or.inr ⟨a, u, rfl, hf⟩
      · rintro (heq | ⟨_, _, heq, hf⟩)
        · cases heq
        · cases heq
          exact hf
  | error e' =>
      rw [run_bind_of_error h, h]
      constructor
      · intro heq
        cases heq
        exact Or.inl rfl
      · rintro (heq | ⟨_, _, heq, -⟩)
        · cases heq
          rfl
        · cases heq

theorem run_mapM_cons_eq_ok_iff {f : α → ExceptT ε (StateM σ) β} {a : α} {xs : List α}
    {ys : List β} :
    ExceptT.run ((a :: xs).mapM f) s = (.ok ys, s')
      ↔ ∃ y u rest, ExceptT.run (f a) s = (.ok y, u) ∧ ExceptT.run (xs.mapM f) u = (.ok rest, s')
        ∧ ys = y :: rest := by
  rw [List.mapM_cons, run_bind_eq_ok_iff]
  constructor
  · rintro ⟨y, u, hy, h⟩
    obtain ⟨rest, v, hrest, h⟩ := run_bind_eq_ok_iff.mp h
    cases h
    exact ⟨y, u, rest, hy, hrest, rfl⟩
  · rintro ⟨y, u, rest, hy, hrest, rfl⟩
    exact ⟨y, u, hy, run_bind_eq_ok_iff.mpr ⟨rest, s', hrest, rfl⟩⟩

/-- What a list of calls has answered comes from the calls one by one. -/
theorem run_mapM_eq_ok {f : α → ExceptT ε (StateM σ) β} {xs : List α} {ys : List β} {s s' : σ}
    (h : ExceptT.run (xs.mapM f) s = (.ok ys, s')) :
    ys.length = xs.length ∧ ∀ y ∈ ys, ∃ x ∈ xs, ∃ u u', ExceptT.run (f x) u = (.ok y, u') := by
  induction xs generalizing ys s with
  | nil =>
      cases h
      exact ⟨rfl, nofun⟩
  | cons x xs ih =>
      obtain ⟨y, u, rest, hy, hrest, rfl⟩ := run_mapM_cons_eq_ok_iff.mp h
      obtain ⟨hlen, hall⟩ := ih hrest
      refine ⟨congrArg (· + 1) hlen, ?_⟩
      rintro z (_ | ⟨_, hz⟩)
      · exact ⟨x, by simp, s, u, hy⟩
      · obtain ⟨w, hw, hz⟩ := hall z hz
        exact ⟨w, List.mem_cons_of_mem x hw, hz⟩

/-- Replacing the answer of a call leaves alone what the call does. -/
theorem snd_run_bind_pure (x : ExceptT ε (StateM σ) α) (g : α → β) (s : σ) :
    (ExceptT.run (x >>= fun a => pure (g a)) s : Except ε β × σ).2
      = (ExceptT.run x s : Except ε α × σ).2 := by
  obtain ⟨result, s', h⟩ : ∃ result s', ExceptT.run x s = (result, s') := ⟨_, _, rfl⟩
  cases result with
  | ok a =>
      rw [run_bind_of_ok h, h]
      rfl
  | error e => rw [run_bind_of_error h, h]

theorem discard_eq_bind (x : ExceptT ε (StateM σ) α) : discard x = x >>= fun _ => pure () := by
  rw [Functor.discard, LawfulFunctor.map_const]
  exact map_eq_pure_bind _ x

theorem snd_run_discard (x : ExceptT ε (StateM σ) α) (s : σ) :
    (ExceptT.run (discard x) s : Except ε Unit × σ).2 = (ExceptT.run x s : Except ε α × σ).2 := by
  rw [discard_eq_bind, snd_run_bind_pure]

theorem run_discard_eq_ok_iff :
    ExceptT.run (discard x) s = (.ok (), s') ↔ ∃ a, ExceptT.run x s = (.ok a, s') := by
  rw [discard_eq_bind, run_bind_eq_ok_iff]
  constructor
  · rintro ⟨a, u, ha, h⟩
    cases h
    exact ⟨a, ha⟩
  · rintro ⟨a, ha⟩
    exact ⟨a, s', ha, rfl⟩

end

end SingleTable
