import Mathlib.Data.List.Nodup
import Mathlib.Order.Defs.Unbundled
import UniqueId.Uuid.Sorting

/-!
# Sorting without repeats, under a strict total order

What `sortDistinct` makes of a list is determined by its elements alone: under a strict total order
it is the one ascending list of them (`eq_sortDistinct_iff`). Neither the order of arrival nor the
way of sorting leaves a trace.

Sorting looks at elements through its comparison only. So it commutes with any view of the elements
that the comparison factors through (`map_sortDistinct`): sorting views and viewing the sorted list
give the same.
-/

namespace UniqueId

section StrictTotalOrder

variable {α : Type} {r : α → α → Prop} [DecidableRel r] [IsStrictTotalOrder α r] {x z : α}
  {xs ys : List α}

/-! ### Insertion -/

/-- Inserting adds exactly the one element: what is already there is only the element itself. -/
theorem mem_insertDistinct :
    z ∈ insertDistinct (fun x y => decide (r x y)) x ys ↔ z = x ∨ z ∈ ys := by
  refine ⟨mem_of_mem_insertDistinct, fun h => ?_⟩
  induction ys with
  | nil => simpa [insertDistinct] using h
  | cons y ys ih =>
    rw [insertDistinct]
    simp only [decide_eq_true_eq]
    split
    · exact List.mem_cons.mpr h
    · next hxy =>
      split
      · rw [List.mem_cons]
        obtain rfl | h := h
        · exact .inr (ih (.inl rfl))
        · exact (List.mem_cons.mp h).imp_right fun hz => ih (.inr hz)
      · next hyx =>
        -- neither comes first, so the element is there already
        obtain rfl : x = y := Std.Trichotomous.trichotomous x y hxy hyx
        exact List.mem_cons.mpr (h.elim .inl List.mem_cons.mp)

/-- Inserting keeps a list ascending. -/
theorem pairwise_insertDistinct (h : ys.Pairwise r) :
    (insertDistinct (fun x y => decide (r x y)) x ys).Pairwise r := by
  induction ys with
  | nil => simp [insertDistinct]
  | cons y ys ih =>
    obtain ⟨hy, hys⟩ := List.pairwise_cons.mp h
    rw [insertDistinct]
    simp only [decide_eq_true_eq]
    split
    · next hxy =>
      refine List.pairwise_cons.mpr ⟨?_, h⟩
      exact List.forall_mem_cons.mpr ⟨hxy, fun z hz => IsTrans.trans x y z hxy (hy z hz)⟩
    · split
      · next hyx =>
        refine List.pairwise_cons.mpr ⟨fun z hz => ?_, ih hys⟩
        obtain rfl | hz := mem_of_mem_insertDistinct hz
        · exact hyx
        · exact hy z hz
      · exact h

/-! ### The sorted list -/

private theorem foldl_insertDistinct (hys : ys.Pairwise r) :
    (xs.foldl (fun sorted x => insertDistinct (fun x y => decide (r x y)) x sorted) ys).Pairwise r ∧
      ∀ z, z ∈ xs.foldl (fun sorted x => insertDistinct (fun x y => decide (r x y)) x sorted) ys ↔
        z ∈ xs ∨ z ∈ ys := by
  induction xs generalizing ys with
  | nil => exact ⟨hys, fun z => by simp⟩
  | cons x xs ih =>
    obtain ⟨hsorted, hmem⟩ := ih (pairwise_insertDistinct hys)
    refine ⟨hsorted, fun z => ?_⟩
    rw [List.foldl_cons, hmem, mem_insertDistinct, List.mem_cons]
    tauto

theorem pairwise_sortDistinct (xs : List α) :
    (sortDistinct (fun x y => decide (r x y)) xs).Pairwise r :=
  (foldl_insertDistinct List.Pairwise.nil).1

@[simp] theorem mem_sortDistinct :
    z ∈ sortDistinct (fun x y => decide (r x y)) xs ↔ z ∈ xs := by
  rw [sortDistinct, (foldl_insertDistinct (r := r) List.Pairwise.nil).2]
  simp

omit [DecidableRel r] in
/-- Ascending lists with the same elements are the same list. -/
theorem eq_of_pairwise_of_mem_iff (hxs : xs.Pairwise r) (hys : ys.Pairwise r)
    (h : ∀ z, z ∈ xs ↔ z ∈ ys) : xs = ys := by
  have hasymm : ∀ a b, r a b → r b a → a = b := fun a b hab hba =>
    absurd (IsTrans.trans a b a hab hba) (irrefl a)
  have hperm : xs.Perm ys :=
    (List.perm_ext_iff_of_nodup (hxs.imp ne_of_irrefl) (hys.imp ne_of_irrefl)).mpr h
  exact hperm.eq_of_pairwise (fun a b _ _ => hasymm a b) hxs hys

/-- **The sorted list** is the one ascending list of the elements. -/
theorem eq_sortDistinct_iff :
    ys = sortDistinct (fun x y => decide (r x y)) xs ↔
      ys.Pairwise r ∧ ∀ z, z ∈ ys ↔ z ∈ xs := by
  constructor
  · rintro rfl
    exact ⟨pairwise_sortDistinct xs, fun z => mem_sortDistinct⟩
  · rintro ⟨hys, hmem⟩
    exact eq_of_pairwise_of_mem_iff hys (pairwise_sortDistinct xs) fun z => by
      rw [hmem, mem_sortDistinct]

end StrictTotalOrder

/-! ### Views of the elements -/

variable {α β : Type}

theorem map_insertDistinct (f : α → β) (before : β → β → Bool) (x : α) (ys : List α) :
    (insertDistinct (fun x y => before (f x) (f y)) x ys).map f =
      insertDistinct before (f x) (ys.map f) := by
  induction ys with
  | nil => rfl
  | cons y ys ih =>
    rw [insertDistinct, List.map_cons, insertDistinct]
    split
    · rfl
    · split
      · rw [List.map_cons, ih]
      · rfl

/-- **Views commute with sorting**, if the comparison looks at the views only. -/
theorem map_sortDistinct (f : α → β) (before : β → β → Bool) (xs : List α) :
    (sortDistinct (fun x y => before (f x) (f y)) xs).map f = sortDistinct before (xs.map f) := by
  have hfold : ∀ ys : List α,
      (xs.foldl (fun sorted x => insertDistinct (fun x y => before (f x) (f y)) x sorted) ys).map f =
        (xs.map f).foldl (fun sorted x => insertDistinct before x sorted) (ys.map f) := by
    induction xs with
    | nil => exact fun ys => rfl
    | cons x xs ih =>
      intro ys
      rw [List.foldl_cons, ih, List.map_cons, List.foldl_cons, map_insertDistinct]
  exact hfold []

end UniqueId
