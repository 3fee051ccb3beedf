import Mathlib.Data.String.Basic
import RouteAudit.Proofs.Way

/-!
# Paths with a directory in front

To put a directory in front of a path is to put a text in front of it, the same for all paths
(`child_eq_lead_append`): nothing for the empty path, and else the directory with a slash at its end.
So it goes before the names that follow (`below_child`), keeps the order of the paths
(`child_lt_child_iff`), and can be replaced by another one (`rebase_child`). The names to follow are those
of the directory and then those of the path (`route_child`).
-/

namespace RouteAudit.Path

/-- What stands in front of the paths in a directory. -/
def lead (dir : String) : String :=
  child dir ""

theorem child_eq_lead_append (dir path : String) : child dir path = lead dir ++ path := by
  unfold lead child
  split_ifs <;> simp

theorem lead_cases (dir : String) : lead dir = "" ∨ (lead dir).toList.getLast? = some '/' := by
  unfold lead child
  split_ifs with h
  · rw [Bool.or_eq_true, String.isEmpty_iff, decide_eq_true_iff] at h
    exact h.imp (fun h => by simp [h]) fun h => by simpa using h
  · exact Or.inr (by simp)

/-- A path that is not empty ends as it does without the directory. -/
theorem getLast?_child {path : String} (h : path ≠ "") (dir : String) :
    (child dir path).toList.getLast? = path.toList.getLast? := by
  rw [child_eq_lead_append, String.toList_append, List.getLast?_append_of_ne_nil]
  exact fun hnil => h (String.toList_inj.mp hnil)

theorem child_child (dir path name : String) :
    child dir (child path name) = child (child dir path) name := by
  have hchild := child_eq_lead_append dir
  by_cases hpath : path = ""
  · subst hpath
    have hname : child "" name = name := by simp [child]
    rw [hname]
    change child dir name = child (lead dir) name
    rcases lead_cases dir with hlead | hlead
    · rw [hchild, hlead]
      rfl
    · rw [hchild, child, hlead]
      simp
  · have hne : child dir path ≠ "" := by
      rw [hchild, Ne, String.append_eq_empty_iff]
      exact fun h => hpath h.2
    have hlast := getLast?_child hpath dir
    rw [hchild, child, child, hlast, hchild]
    rw [hchild] at hne
    simp only [Bool.or_eq_true, String.isEmpty_iff, hpath, hne]
    split_ifs <;> simp [String.append_assoc]

theorem below_child (dir path : String) (names : List String) :
    below (child dir path) names = child dir (below path names) := by
  induction names generalizing path with
  | nil => rfl
  | cons name names ih => rw [below_cons, below_cons, ← child_child, ih]

theorem append_lt_append_iff (front a b : String) : front ++ a < front ++ b ↔ a < b := by
  rw [String.lt_iff_toList_lt, String.lt_iff_toList_lt, String.toList_append, String.toList_append]
  induction front.toList with
  | nil => rfl
  | cons c front ih => simp [ih]

theorem child_lt_child_iff (dir a b : String) : child dir a < child dir b ↔ a < b := by
  rw [child_eq_lead_append, child_eq_lead_append, append_lt_append_iff]

theorem utf8ByteSize_le_child (dir path : String) :
    path.utf8ByteSize ≤ (child dir path).utf8ByteSize := by
  rw [child_eq_lead_append, String.utf8ByteSize_append]
  exact Nat.le_add_left _ _

/-- The path with one directory in the place of another one in front of it. -/
def rebase (src dst path : String) : String :=
  if (lead src).toList <+: path.toList then
    child dst (String.ofList (path.toList.drop (lead src).toList.length))
  else path

theorem rebase_child (src dst path : String) : rebase src dst (child src path) = child dst path := by
  rw [rebase, child_eq_lead_append src, String.toList_append, if_pos (List.prefix_append _ _),
    List.drop_left, String.ofList_toList]

/-! ## The names to follow -/

theorem steps_child (dir path : String) : steps (child dir path) = steps (lead dir) ++ steps path := by
  rw [child_eq_lead_append]
  rcases lead_cases dir with hlead | hlead
  · rw [hlead]
    simp [steps]
  · obtain ⟨front, hfront⟩ := List.getLast?_eq_some_iff.mp hlead
    have hdir : lead dir = String.ofList (front ++ '/' :: []) := by rw [← hfront, String.ofList_toList]
    have hpath : lead dir ++ path = String.ofList (front ++ '/' :: path.toList) := by
      rw [← String.toList_inj, String.toList_append, hfront, String.toList_ofList]
      simp
    have hnone : steps (String.ofList []) = [] := by decide
    rw [hpath, hdir, steps_append_sep, steps_append_sep, hnone, String.ofList_toList, List.append_nil]

theorem route_child {path : String} (h : path ≠ "") (dir : String) :
    route (child dir path) = steps (lead dir) ++ route path := by
  rw [route, route, hasTrailingSlash, hasTrailingSlash, getLast?_child h, steps_child]
  split_ifs
  · rw [List.append_assoc]
  · rfl

theorem route_lead {dir : String} (h : lead dir ≠ "") : route (lead dir) = steps (lead dir) ++ [""] := by
  have hslash := (lead_cases dir).resolve_left h
  rw [route, hasTrailingSlash, hslash]
  rfl

theorem isAbsolute_child {path : String} (h : isAbsolute path = false) (dir : String) :
    isAbsolute (child dir path) = isAbsolute (lead dir) := by
  rw [child_eq_lead_append]
  by_cases hlead : lead dir = ""
  · rw [hlead, String.empty_append, h]
    rfl
  · have hne : (lead dir).toList ≠ [] := fun hnil => hlead (String.toList_inj.mp hnil)
    rw [isAbsolute, isAbsolute, String.toList_append, List.head?_append_of_ne_nil _ hne]

end RouteAudit.Path
