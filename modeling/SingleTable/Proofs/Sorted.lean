import Mathlib.Data.List.Chain
import SingleTable.Proofs.KeyOrder
import SingleTable.Sorting

set_option autoImplicit false

/-!
# Sorting by a comparison

What stable sorting gives when `before` is the strict part of a comparison. Neighbours are in order as
soon as the comparison is antisymmetric (`isChain_sortStably`). If it is also transitive, on the
elements that are sorted, then the list ascends (`pairwise_sortStably_compare`).
-/

namespace SingleTable

variable {α : Type}

section

variable {before : α → α → Bool} (asymm : ∀ a b, before a b = true → before b a = false)

include asymm

theorem isChain_insertDescending {x : α} {ys : List α}
    (h : ys.IsChain (fun a b => before a b = false)) :
    (insertDescending before x ys).IsChain (fun a b => before a b = false) := by
  induction ys with
  | nil => exact List.isChain_singleton x
  | cons y ys ih =>
      rw [insertDescending]
      split
      · rename_i hxy
        obtain ⟨hhead, htail⟩ := List.isChain_cons.mp h
        refine List.isChain_cons.mpr ⟨?_, ih htail⟩
        -- the next element is the inserted one, or the one that followed before
        intro z hz
        cases ys with
        | nil =>
            rw [insertDescending, List.head?_cons, Option.mem_some_iff] at hz
            rw [← hz]
            exact asymm x y hxy
        | cons w ys =>
            rw [insertDescending] at hz
            split at hz
            · exact hhead z hz
            · rw [List.head?_cons, Option.mem_some_iff] at hz
              rw [← hz]
              exact asymm x y hxy
      · rename_i hxy
        refine List.isChain_cons.mpr ⟨?_, h⟩
        intro z hz
        rw [List.head?_cons, Option.mem_some_iff] at hz
        rw [← hz]
        simpa using hxy

theorem isChain_sortDescending {done xs : List α}
    (h : done.IsChain (fun a b => before a b = false)) :
    (sortDescending before done xs).IsChain (fun a b => before a b = false) := by
  induction xs generalizing done with
  | nil => exact h
  | cons x xs ih => exact ih (isChain_insertDescending asymm h)

/-- Neighbours in a sorted list are in order as soon as `before` is asymmetric; it need not be
transitive. -/
theorem isChain_sortStably (xs : List α) :
    (sortStably before xs).IsChain (fun a b => before b a = false) :=
  List.isChain_reverse.mpr (isChain_sortDescending asymm List.isChain_nil)

end

/-- Sorting by a comparison that is a total preorder on the elements makes them ascend. -/
theorem pairwise_sortStably_compare {cmp : α → α → Ordering} [Std.OrientedCmp cmp] {P : α → Prop}
    (trans : ∀ {a b c}, P a → P b → P c → (cmp a b).isLE → (cmp b c).isLE → (cmp a c).isLE)
    {xs : List α} (hxs : ∀ x ∈ xs, P x) :
    (sortStably (fun a b => cmp a b == .lt) xs).Pairwise (fun a b => (cmp a b).isLE) := by
  have hle : ∀ a b, (cmp a b == .lt) = false ↔ (cmp b a).isLE = true := by
    intro a b
    have hswap : cmp b a = (cmp a b).swap := Std.OrientedCmp.eq_swap
    rw [hswap]
    cases cmp a b <;> decide
  have hsorted := @pairwise_sortStably _ (fun a b => cmp a b == .lt) P ?_ ?_ xs hxs
  · exact hsorted.imp (hle _ _).mp
  · intro a b _ _ hab
    rw [hle, Ordering.isLE_iff_eq_lt_or_eq_eq]
    exact Or.inl (eq_of_beq hab)
  · intro a b c ha hb hc hab hbc
    rw [hle] at hab hbc ⊢
    exact trans hc hb ha hbc hab

namespace SortKey

theorem before_eq_false_iff {a b : SortKey} : a.before b = false ↔ (compare b a).isLE = true := by
  rw [before, compare_swap b a]
  cases compare a b <;> decide

theorem before_asymm {a b : SortKey} (h : a.before b = true) : b.before a = false := by
  rw [before_eq_false_iff, before_iff.mp h]
  rfl

end SortKey

end SingleTable
