import UniqueId.Uuid.Basic

/-!
# Sorting without repeats

A list is sorted by ordered insertion under any comparison; of elements that compare neither way
the first to arrive stays. Under a strict total order the result is the ascending list of the
distinct elements.
-/

namespace UniqueId

/-- The ascending list with one more element in its place, unless an equivalent one is there. -/
def insertDistinct {α : Type} (before : α → α → Bool) (x : α) : List α → List α
  | [] => [x]
  | y :: ys =>
    if before x y then x :: y :: ys
    else if before y x then y :: insertDistinct before x ys
    else y :: ys

/-- The elements of a list in ascending order, equivalent ones once. -/
def sortDistinct {α : Type} (before : α → α → Bool) (xs : List α) : List α :=
  xs.foldl (fun sorted x => insertDistinct before x sorted) []

/-- The identifiers of a list in ascending order, each once. -/
def Uuid.sortDistinct (us : List Uuid) : List Uuid :=
  UniqueId.sortDistinct (fun u v => decide (u < v)) us

/-- Insertion adds the element itself at most. -/
theorem mem_of_mem_insertDistinct {α : Type} {before : α → α → Bool} {x z : α} {ys : List α}
    (h : z ∈ insertDistinct before x ys) : z = x ∨ z ∈ ys := by
  induction ys with
  | nil => simpa [insertDistinct] using h
  | cons y ys ih =>
    rw [insertDistinct] at h
    split at h
    · simpa using h
    · split at h
      · rcases List.mem_cons.mp h with rfl | h
        · simp
        · rcases ih h with rfl | h <;> simp [*]
      · exact .inr h

end UniqueId
