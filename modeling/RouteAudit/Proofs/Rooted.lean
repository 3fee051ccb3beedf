import Mathlib.Data.List.Basic
import RouteAudit.Proofs.Split

/-!
# Paths from the root

`rooted names` is a slash and the names with a slash between every two of them, so `/` alone for no
names. Names that are neither empty nor hold a slash can be read back from it (`split_rooted`).
-/

namespace RouteAudit.Text

/-- A slash and the names, joined by slashes. -/
def rooted (names : List (List Char)) : List Char :=
  '/' :: ['/'].intercalate names

@[simp]
theorem rooted_singleton (name : List Char) : rooted [name] = '/' :: name := by
  simp [rooted]

@[simp]
theorem rooted_cons_cons (a b : List Char) (names : List (List Char)) :
    rooted (a :: b :: names) = '/' :: a ++ rooted (b :: names) := by
  simp [rooted, List.intercalate_cons_cons]

/-- Names have a slash before each of them. -/
theorem rooted_eq_flatMap {names : List (List Char)} (h : names ≠ []) :
    rooted names = names.flatMap ('/' :: ·) := by
  induction names with
  | nil => exact absurd rfl h
  | cons a names ih =>
    cases names with
    | nil => simp
    | cons b names =>
      rw [rooted_cons_cons, ih (List.cons_ne_nil b names)]
      rfl

/-- A name that can be read back: it is not empty and holds no slash. -/
def IsName (name : List Char) : Prop :=
  name ≠ [] ∧ '/' ∉ name

theorem split_rooted {names : List (List Char)} (hne : names ≠ [])
    (h : ∀ name ∈ names, '/' ∉ name) : split '/' (rooted names) = [] :: names := by
  rw [rooted, split_cons_sep, split_eq_splitOn, List.splitOn_intercalate '/' h hne]

/-- The pieces of a rooted path that are not empty are its names. -/
theorem filter_split_rooted {names : List (List Char)} (h : ∀ name ∈ names, IsName name) :
    (split '/' (rooted names)).filter (· ≠ []) = names := by
  cases names with
  | nil => rfl
  | cons a names =>
    rw [split_rooted (List.cons_ne_nil a names) fun name hname => (h name hname).2,
      List.filter_cons_of_neg (by simp), List.filter_eq_self]
    intro name hname
    simpa using (h name hname).1

/-- A rooted path does not end in a slash, unless it is `/`. -/
theorem getLast?_rooted {names : List (List Char)} (hne : names ≠ [])
    (h : ∀ name ∈ names, name ≠ [] ∧ name.getLast? ≠ some '/') :
    (rooted names).getLast? ≠ some '/' := by
  induction names with
  | nil => exact absurd rfl hne
  | cons a names ih =>
    cases names with
    | nil =>
      obtain ⟨ha, hlast⟩ := h a List.mem_cons_self
      rw [rooted_singleton, ← List.singleton_append, List.getLast?_append_of_ne_nil _ ha]
      exact hlast
    | cons b names =>
      rw [rooted_cons_cons, List.getLast?_append_of_ne_nil _ (by simp [rooted])]
      exact ih (List.cons_ne_nil b names) fun name hname => h name (List.mem_cons_of_mem _ hname)

end RouteAudit.Text
