import Mathlib.Data.List.Basic
import Mathlib.Data.List.TakeWhile
import RouteAudit.Text.Split

/-!
# Splitting at a separator

`Text.split` is the `List.splitOn` of the standard library, so its pieces hold no separator, joining
them gives the text back, and a separator in the text is a cut between the pieces before it and those
after it.
-/

namespace RouteAudit.Text

theorem consFirst_eq_modifyHead (c : Char) {ps : List (List Char)} (h : ps ≠ []) :
    consFirst c ps = ps.modifyHead (c :: ·) := by
  cases ps with
  | nil => exact absurd rfl h
  | cons p ps => rfl

theorem split_eq_splitOn (sep : Char) (s : List Char) : split sep s = s.splitOn sep := by
  induction s with
  | nil => simp [split]
  | cons c r ih =>
    rw [split, List.splitOn_cons_eq_if_modifyHead, consFirst_eq_modifyHead c (split_ne_nil sep r), ih]
    simp only [beq_iff_eq]

@[simp]
theorem split_nil (sep : Char) : split sep [] = [[]] := rfl

@[simp]
theorem split_cons_sep (sep : Char) (s : List Char) : split sep (sep :: s) = [] :: split sep s := by
  simp [split]

theorem split_of_notMem {sep : Char} {s : List Char} (h : sep ∉ s) : split sep s = [s] := by
  rw [split_eq_splitOn, List.splitOn_eq_singleton h]

/-- A separator is a cut between the pieces before it and the pieces after it. -/
theorem split_append_sep (sep : Char) (a b : List Char) :
    split sep (a ++ sep :: b) = split sep a ++ split sep b := by
  simp only [split_eq_splitOn, List.splitOn_append_cons_self]

theorem split_append_sep_of_notMem {sep : Char} {a : List Char} (h : sep ∉ a) (b : List Char) :
    split sep (a ++ sep :: b) = a :: split sep b := by
  rw [split_append_sep, split_of_notMem h, List.singleton_append]

/-- Pieces with a separator behind each of them are read back, with an empty text behind the last one. -/
theorem split_flatMap_concat {sep : Char} {ps : List (List Char)} (h : ∀ p ∈ ps, sep ∉ p) :
    split sep (ps.flatMap (· ++ [sep])) = ps ++ [[]] := by
  induction ps with
  | nil => rfl
  | cons p ps ih =>
    obtain ⟨hp, hps⟩ := List.forall_mem_cons.mp h
    rw [List.flatMap_cons, List.append_assoc, List.singleton_append, split_append_sep_of_notMem hp, ih hps,
      List.cons_append]

/-- What holds no separator goes to the front of the first piece. -/
theorem split_append_of_notMem {sep : Char} {a : List Char} (h : sep ∉ a) (b : List Char) :
    split sep (a ++ b) = (split sep b).modifyHead (a ++ ·) := by
  induction a with
  | nil => cases hb : split sep b <;> simp [hb]
  | cons c a ih =>
    rw [List.mem_cons, not_or] at h
    obtain ⟨hc, ha⟩ := h
    rw [List.cons_append, split, if_neg (Ne.symm hc), ih ha,
      consFirst_eq_modifyHead c (by simpa using split_ne_nil sep b), List.modifyHead_modifyHead]
    rfl

theorem intercalate_split (sep : Char) (s : List Char) : [sep].intercalate (split sep s) = s := by
  rw [split_eq_splitOn, List.intercalate_splitOn]

theorem split_injective (sep : Char) : Function.Injective (split sep) := by
  intro s s' h
  rw [← intercalate_split sep s, h, intercalate_split]

/-- A piece holds no separator, only characters of the text. -/
theorem of_mem_split {sep : Char} {s p : List Char} (h : p ∈ split sep s) : sep ∉ p ∧ p ⊆ s := by
  induction s generalizing p with
  | nil => simp_all
  | cons c r ih =>
    obtain ⟨q, qs, hr⟩ := List.exists_cons_of_ne_nil (split_ne_nil sep r)
    rw [split] at h
    split_ifs at h with hc
    · rcases List.mem_cons.mp h with rfl | h
      · simp
      · exact ⟨(ih h).1, List.subset_cons_of_subset c (ih h).2⟩
    · rw [hr, consFirst] at h
      rw [hr] at ih
      rcases List.mem_cons.mp h with rfl | h
      · have hq := ih List.mem_cons_self
        exact ⟨by simp [Ne.symm hc, hq.1], List.cons_subset_cons c hq.2⟩
      · have hp := ih (List.mem_cons_of_mem _ h)
        exact ⟨hp.1, List.subset_cons_of_subset c hp.2⟩

theorem exists_mem_split {sep c : Char} {s : List Char} (h : c ∈ s) (hc : c ≠ sep) :
    ∃ p ∈ split sep s, c ∈ p := by
  induction s with
  | nil => cases h
  | cons d r ih =>
    obtain ⟨q, qs, hr⟩ := List.exists_cons_of_ne_nil (split_ne_nil sep r)
    rw [split]
    rcases List.mem_cons.mp h with rfl | h
    · rw [if_neg hc, hr]
      exact ⟨c :: q, List.mem_cons_self, List.mem_cons_self⟩
    · obtain ⟨p, hp, hcp⟩ := ih h
      split_ifs
      · exact ⟨p, List.mem_cons_of_mem _ hp, hcp⟩
      · rw [hr] at hp ⊢
        rcases List.mem_cons.mp hp with rfl | hp
        · exact ⟨d :: p, List.mem_cons_self, List.mem_cons_of_mem _ hcp⟩
        · exact ⟨p, List.mem_cons_of_mem _ hp, hcp⟩

/-- A text has no separator, or it has a first one. -/
theorem notMem_or_exists_first (sep : Char) (s : List Char) :
    sep ∉ s ∨ ∃ a b, s = a ++ sep :: b ∧ sep ∉ a := by
  induction s with
  | nil => simp
  | cons c r ih =>
    by_cases hc : c = sep
    · exact Or.inr ⟨[], r, by simp [hc], by simp⟩
    · rcases ih with hr | ⟨a, b, rfl, ha⟩
      · exact Or.inl (by simp [Ne.symm hc, hr])
      · exact Or.inr ⟨c :: a, b, by simp, by simp [Ne.symm hc, ha]⟩

theorem takeWhile_ne_of_notMem {sep : Char} {s : List Char} (h : sep ∉ s) :
    s.takeWhile (· ≠ sep) = s := by
  rw [List.takeWhile_eq_self_iff]
  intro c hc
  simpa using fun hcs : c = sep => h (hcs ▸ hc)

theorem dropWhile_ne_of_notMem {sep : Char} {s : List Char} (h : sep ∉ s) :
    s.dropWhile (· ≠ sep) = [] := by
  rw [List.dropWhile_eq_nil_iff]
  intro c hc
  simpa using fun hcs : c = sep => h (hcs ▸ hc)

theorem takeWhile_ne_append_sep {sep : Char} {a : List Char} (h : sep ∉ a) (b : List Char) :
    (a ++ sep :: b).takeWhile (· ≠ sep) = a := by
  rw [List.takeWhile_append_of_pos]
  · simp
  · intro c hc
    simpa using fun hcs : c = sep => h (hcs ▸ hc)

theorem dropWhile_ne_append_sep {sep : Char} {a : List Char} (h : sep ∉ a) (b : List Char) :
    (a ++ sep :: b).dropWhile (· ≠ sep) = sep :: b := by
  rw [List.dropWhile_append_of_pos]
  · simp
  · intro c hc
    simpa using fun hcs : c = sep => h (hcs ▸ hc)

/-- What begins a text without holding its separator ends before it. -/
theorem eq_append_of_append_sep_eq {sep : Char} {a b w r : List Char} (hw : sep ∉ w)
    (h : a ++ sep :: b = w ++ r) : ∃ u, a = w ++ u ∧ r = u ++ sep :: b := by
  rcases List.append_eq_append_iff.mp h with ⟨u, rfl, hu⟩ | ⟨u, rfl, hu⟩
  · cases u with
    | nil => exact ⟨[], by simp, hu.symm⟩
    | cons c u =>
      obtain ⟨rfl, -⟩ := List.cons.inj hu
      simp at hw
  · exact ⟨u, rfl, hu⟩

/-- What ends a text without holding its separator begins behind it. -/
theorem eq_append_of_append_sep_eq' {sep : Char} {a b w r : List Char} (hw : sep ∉ w)
    (h : a ++ sep :: b = r ++ w) : ∃ u, b = u ++ w ∧ r = a ++ sep :: u := by
  rcases List.append_eq_append_iff.mp h with ⟨u, rfl, hu⟩ | ⟨u, rfl, rfl⟩
  · cases u with
    | nil =>
      obtain rfl : sep :: b = w := hu
      simp at hw
    | cons c u =>
      obtain ⟨rfl, rfl⟩ := List.cons.inj hu
      exact ⟨u, rfl, rfl⟩
  · simp at hw

/-! ## The last separator -/

/-- A text has no separator, or it has a last one. -/
theorem notMem_or_exists_last (sep : Char) (s : List Char) :
    sep ∉ s ∨ ∃ a b, s = a ++ sep :: b ∧ sep ∉ b := by
  induction s with
  | nil => simp
  | cons c r ih =>
    rcases ih with hr | ⟨a, b, rfl, hb⟩
    · by_cases hc : c = sep
      · exact Or.inr ⟨[], r, by simp [hc], hr⟩
      · exact Or.inl (by simp [Ne.symm hc, hr])
    · exact Or.inr ⟨c :: a, b, rfl, hb⟩

theorem splitLast?_of_notMem {sep : Char} {s : List Char} (h : sep ∉ s) :
    splitLast? sep s = none := by
  induction s with
  | nil => rfl
  | cons c r ih =>
    rw [List.mem_cons, not_or] at h
    rw [splitLast?, ih h.2]
    exact if_neg (Ne.symm h.1)

theorem splitLast?_append_sep {sep : Char} {b : List Char} (h : sep ∉ b) (a : List Char) :
    splitLast? sep (a ++ sep :: b) = some (a, b) := by
  induction a with
  | nil =>
    rw [List.nil_append, splitLast?, splitLast?_of_notMem h]
    exact if_pos rfl
  | cons c a ih => rw [List.cons_append, splitLast?, ih]

/-! ## A trailing slash -/

theorem dropTrailingSlash_isPrefix (s : List Char) : dropTrailingSlash s <+: s := by
  unfold dropTrailingSlash
  split_ifs
  · exact List.dropLast_prefix s
  · exact List.prefix_refl s

/-- In front of other characters nothing is a trailing slash. -/
theorem dropTrailingSlash_cons {s : List Char} (h : s ≠ []) (c : Char) :
    dropTrailingSlash (c :: s) = c :: dropTrailingSlash s := by
  unfold dropTrailingSlash
  rw [List.getLast?_cons_of_ne_nil h, List.dropLast_cons_of_ne_nil h]
  split_ifs <;> rfl

/-- The end of a text from another character on decides whether it has a trailing slash. -/
theorem dropTrailingSlash_append_cons {c : Char} (hc : c ≠ '/') (a s : List Char) :
    dropTrailingSlash (a ++ c :: s) = a ++ c :: dropTrailingSlash s := by
  unfold dropTrailingSlash
  rw [List.getLast?_append_of_ne_nil a (List.cons_ne_nil c s),
    List.dropLast_append_of_ne_nil (List.cons_ne_nil c s)]
  cases s with
  | nil => simp [hc]
  | cons d s =>
    rw [List.getLast?_cons_cons, List.dropLast_cons_of_ne_nil (List.cons_ne_nil d s)]
    split_ifs <;> rfl

theorem dropTrailingSlash_concat (t : List Char) : dropTrailingSlash (t ++ ['/']) = t := by
  simp [dropTrailingSlash]

theorem dropTrailingSlash_eq_iff {t : List Char} (h : t.getLast? ≠ some '/') (x : List Char) :
    dropTrailingSlash x = t ↔ x = t ∨ x = t ++ ['/'] := by
  constructor
  · intro hx
    rw [dropTrailingSlash] at hx
    split_ifs at hx with hlast
    · exact Or.inr (by rw [← hx, List.dropLast_append_getLast? '/' hlast])
    · exact Or.inl hx
  · rintro (rfl | rfl)
    · rw [dropTrailingSlash, if_neg h]
    · exact dropTrailingSlash_concat t

end RouteAudit.Text
