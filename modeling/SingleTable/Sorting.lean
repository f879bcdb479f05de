set_option autoImplicit false

/-!
# Stable sorting

Sorting by insertion: elements are taken from the left, and each one is put behind the elements so
far that do not come after it, looked at from the end. Elements of which neither comes before the
other keep their order. The result is determined also where `before` is no order at all; where it is
one, the result ascends (`pairwise_sortStably`).
-/

namespace SingleTable

variable {α : Type}

/-- Put an element into a descending list, after those that it comes before. -/
def insertDescending (before : α → α → Bool) (x : α) : List α → List α
  | [] => [x]
  | y :: ys => if before x y then y :: insertDescending before x ys else x :: y :: ys

/-- The elements of a list in descending order, after those in `done`. -/
def sortDescending (before : α → α → Bool) (done : List α) : List α → List α
  | [] => done
  | x :: xs => sortDescending before (insertDescending before x done) xs

/-- The elements of a list in ascending order. -/
def sortStably (before : α → α → Bool) (xs : List α) : List α :=
  (sortDescending before [] xs).reverse

theorem perm_insertDescending (before : α → α → Bool) (x : α) (ys : List α) :
    (insertDescending before x ys).Perm (x :: ys) := by
  induction ys with
  | nil => exact .refl _
  | cons y ys ih =>
      rw [insertDescending]
      split
      · exact (ih.cons y).trans (.swap x y ys)
      · exact .refl _

theorem perm_sortDescending (before : α → α → Bool) (done xs : List α) :
    (sortDescending before done xs).Perm (done ++ xs) := by
  induction xs generalizing done with
  | nil => simp [sortDescending]
  | cons x xs ih =>
      refine (ih _).trans (((perm_insertDescending before x done).append_right xs).trans ?_)
      exact List.perm_middle.symm

/-- Sorting keeps every element. -/
theorem perm_sortStably (before : α → α → Bool) (xs : List α) :
    (sortStably before xs).Perm xs :=
  (List.reverse_perm _).trans (perm_sortDescending before [] xs)

section

/-! ## Sorting where the comparison is an order

The elements only have to be ordered among themselves: `P` holds of all of them, and `before` is a
strict weak order where `P` holds. -/

variable {before : α → α → Bool} {P : α → Prop}
  (asymm : ∀ a b, P a → P b → before a b = true → before b a = false)
  (trans : ∀ a b c, P a → P b → P c → before a b = false → before b c = false →
    before a c = false)

include asymm trans

/-- What is inserted into a descending list leaves it descending. -/
theorem pairwise_insertDescending {x : α} {ys : List α} (hx : P x) (hys : ∀ y ∈ ys, P y)
    (h : ys.Pairwise (fun a b => before a b = false)) :
    (insertDescending before x ys).Pairwise (fun a b => before a b = false) := by
  induction ys with
  | nil => simp [insertDescending]
  | cons y ys ih =>
      obtain ⟨hyz, hrest⟩ := List.pairwise_cons.1 h
      have hy : P y := hys y (by simp)
      have hP : ∀ z ∈ ys, P z := fun z hz => hys z (List.mem_cons_of_mem y hz)
      rw [insertDescending]
      split
      · rename_i hxy
        refine List.pairwise_cons.2 ⟨fun z hz => ?_, ih hP hrest⟩
        rcases List.mem_cons.1 ((perm_insertDescending before x ys).mem_iff.1 hz) with rfl | hz
        · exact asymm _ _ hx hy hxy
        · exact hyz z hz
      · rename_i hxy
        have hxy : before x y = false := by simpa using hxy
        refine List.pairwise_cons.2 ⟨fun z hz => ?_, h⟩
        rcases List.mem_cons.1 hz with rfl | hz
        · exact hxy
        · exact trans _ _ _ hx hy (hP z hz) hxy (hyz z hz)

theorem pairwise_sortDescending {done xs : List α} (hdone : ∀ y ∈ done, P y) (hxs : ∀ x ∈ xs, P x)
    (h : done.Pairwise (fun a b => before a b = false)) :
    (sortDescending before done xs).Pairwise (fun a b => before a b = false) := by
  induction xs generalizing done with
  | nil => exact h
  | cons x xs ih =>
      have hx : P x := hxs x (by simp)
      refine ih ?_ (fun z hz => hxs z (List.mem_cons_of_mem x hz))
        (pairwise_insertDescending asymm trans hx hdone h)
      intro z hz
      rcases List.mem_cons.1 ((perm_insertDescending before x done).mem_iff.1 hz) with rfl | hz
      · exact hx
      · exact hdone z hz

/-- Where `before` is a strict weak order, no element of a sorted list comes before an earlier
one. -/
theorem pairwise_sortStably {xs : List α} (hxs : ∀ x ∈ xs, P x) :
    (sortStably before xs).Pairwise (fun a b => before b a = false) :=
  List.pairwise_reverse.2 (pairwise_sortDescending asymm trans (by simp) hxs .nil)

end

end SingleTable
