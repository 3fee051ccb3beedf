/-!
# Sorted lists without repetition

`sortedDistinct` lists the members of a list once each, in ascending order of their code points.
-/

namespace RouteAudit.Text

/-- Inserts a key into an ascending list unless it is already there. -/
def insertKey (k : String) : List String → List String
  | [] => [k]
  | x :: xs => if k < x then k :: x :: xs else if k = x then x :: xs else x :: insertKey k xs

/-- The distinct members in ascending order. -/
def sortedDistinct (xs : List String) : List String :=
  xs.foldr insertKey []

theorem mem_insertKey {k a : String} {xs : List String} :
    a ∈ insertKey k xs ↔ a = k ∨ a ∈ xs := by
  induction xs with
  | nil => simp [insertKey]
  | cons x xs ih => unfold insertKey; grind

@[simp]
theorem mem_sortedDistinct {a : String} {xs : List String} : a ∈ sortedDistinct xs ↔ a ∈ xs := by
  induction xs with
  | nil => simp [sortedDistinct]
  | cons x xs ih =>
    simp only [sortedDistinct, List.foldr_cons, mem_insertKey, List.mem_cons]
    exact or_congr Iff.rfl ih

end RouteAudit.Text
