import Mathlib.Data.List.Sort
import RouteAudit.Proofs.FilePath
import RouteAudit.Report.Basic
import RouteAudit.Scan
import RouteAudit.Text.Sorted

/-!
# Sorting

The lists of an analysis are sorted by keys, one after the other (`SortOrder.lex`). A sort that keeps
the order of equal members puts the first member of a list behind all that are less and before the
others (`mergeSort_cons_eq`). So to leave members out before or after sorting is the same
(`filter_mergeSort`), and of a part of a list it gives a part (`sublist_mergeSort`).
-/

namespace RouteAudit

/-- A Boolean order in which any two are comparable; different members may be equal in it. -/
structure SortOrder {α : Type} (le : α → α → Bool) : Prop where
  trans : ∀ a b c, le a b = true → le b c = true → le a c = true
  total : ∀ a b, (le a b || le b a) = true

/-- A Boolean order of keys: of two different keys one is less. -/
structure KeyOrder {κ : Type} (lt : κ → κ → Bool) : Prop where
  irrefl : ∀ a, lt a a = false
  trans : ∀ a b c, lt a b = true → lt b c = true → lt a c = true
  connected : ∀ a b, a ≠ b → (lt a b || lt b a) = true

namespace SortOrder

variable {α κ : Type}

theorem ofKey [LE κ] [DecidableLE κ] [Std.IsLinearOrder κ] (key : α → κ) :
    SortOrder fun a b => decide (key a ≤ key b) := by
  constructor
  · intro a b c hab hbc
    rw [decide_eq_true_iff] at hab hbc ⊢
    exact Std.le_trans hab hbc
  · intro a b
    have htotal : key a ≤ key b ∨ key b ≤ key a := Std.le_total
    simpa using htotal

/-- First by a key, and by another order where the keys are the same. -/
theorem lex [DecidableEq κ] {lt : κ → κ → Bool} (hlt : KeyOrder lt) (key : α → κ)
    {le : α → α → Bool} (hle : SortOrder le) :
    SortOrder fun a b => if key a ≠ key b then lt (key a) (key b) else le a b := by
  constructor
  · intro a b c hab hbc
    by_cases hkab : key a = key b
    · rw [if_neg (not_not.mpr hkab)] at hab
      rw [hkab]
      by_cases hkbc : key b = key c
      · rw [if_neg (not_not.mpr hkbc)] at hbc ⊢
        exact hle.trans a b c hab hbc
      · rwa [if_pos hkbc] at hbc ⊢
    · rw [if_pos hkab] at hab
      by_cases hkbc : key b = key c
      · rwa [← hkbc, if_pos hkab]
      · rw [if_pos hkbc] at hbc
        have hac := hlt.trans _ _ _ hab hbc
        have hne : key a ≠ key c := by
          intro heq
          rw [heq, hlt.irrefl] at hac
          cases hac
        rwa [if_pos hne]
  · intro a b
    by_cases hk : key a = key b
    · simpa [hk] using hle.total a b
    · simpa [hk, Ne.symm hk] using hlt.connected _ _ hk

variable {le : α → α → Bool}

/-- The first member goes behind those that are less and before the others. -/
theorem mergeSort_cons_eq (h : SortOrder le) (a : α) (l : List α) :
    (a :: l).mergeSort le =
        (l.mergeSort le).filter (fun b => !le a b) ++ a :: (l.mergeSort le).filter (le a) ∧
      l.mergeSort le = (l.mergeSort le).filter (fun b => !le a b) ++ (l.mergeSort le).filter (le a) := by
  obtain ⟨before, after, hcons, hl, hbefore⟩ := List.mergeSort_cons h.trans h.total a l
  have hsorted := List.pairwise_mergeSort h.trans h.total (a :: l)
  rw [hcons] at hsorted
  have hafter : ∀ b ∈ after, le a b = true :=
    (List.pairwise_cons.mp (List.pairwise_append.mp hsorted).2.1).1
  have hless : (before ++ after).filter (fun b => !le a b) = before := by
    rw [List.filter_append, List.filter_eq_self.mpr hbefore, List.filter_eq_nil_iff.mpr, List.append_nil]
    intro b hb
    simp [hafter b hb]
  have hrest : (before ++ after).filter (le a) = after := by
    rw [List.filter_append, List.filter_eq_self.mpr hafter, List.filter_eq_nil_iff.mpr, List.nil_append]
    intro b hb
    simpa using hbefore b hb
  rw [hl, hless, hrest]
  exact ⟨hcons, rfl⟩

/-- **To leave members out before or after sorting is the same.** -/
theorem filter_mergeSort (h : SortOrder le) (p : α → Bool) (l : List α) :
    (l.filter p).mergeSort le = (l.mergeSort le).filter p := by
  induction l with
  | nil => simp
  | cons a l ih =>
    obtain ⟨hcons, hl⟩ := h.mergeSort_cons_eq a l
    rw [hcons, List.filter_append]
    by_cases ha : p a = true
    · rw [List.filter_cons_of_pos ha, List.filter_cons_of_pos ha, (h.mergeSort_cons_eq a _).1, ih,
        List.filter_comm, List.filter_comm (le a)]
    · rw [List.filter_cons_of_neg ha, List.filter_cons_of_neg ha, ih, ← List.filter_append, ← hl]

/-- A part of a list stays a part when both are sorted. -/
theorem sublist_mergeSort (h : SortOrder le) {l l' : List α} (hsub : l.Sublist l') :
    (l.mergeSort le).Sublist (l'.mergeSort le) := by
  induction hsub with
  | slnil => exact List.Sublist.refl _
  | @cons l l' a hsub ih =>
    obtain ⟨hcons, hl⟩ := h.mergeSort_cons_eq a l'
    rw [hcons]
    refine ih.trans ?_
    conv_lhs => rw [hl]
    exact (List.Sublist.refl _).append (List.sublist_cons_self a _)
  | cons_cons a hsub ih =>
    rw [(h.mergeSort_cons_eq a _).1, (h.mergeSort_cons_eq a _).1]
    exact (ih.filter _).append ((ih.filter _).cons_cons a)

/-- **A list behind another one, all of whose members are less, is sorted on its own.** -/
theorem mergeSort_append (h : SortOrder le) {l l' : List α}
    (hlt : ∀ a ∈ l, ∀ b ∈ l', le a b = true ∧ le b a = false) :
    (l ++ l').mergeSort le = l.mergeSort le ++ l'.mergeSort le := by
  induction l with
  | nil => simp
  | cons a l ih =>
    rw [List.forall_mem_cons] at hlt
    obtain ⟨hfirst, hrest⟩ := hlt
    have hnone : (l'.mergeSort le).filter (fun b => !le a b) = [] := by
      rw [List.filter_eq_nil_iff]
      intro b hb
      simp [(hfirst b (List.mem_mergeSort.mp hb)).1]
    have hall : (l'.mergeSort le).filter (le a) = l'.mergeSort le :=
      List.filter_eq_self.mpr fun b hb => (hfirst b (List.mem_mergeSort.mp hb)).1
    rw [List.cons_append, (h.mergeSort_cons_eq a _).1, (h.mergeSort_cons_eq a _).1, ih hrest,
      List.filter_append, List.filter_append, hnone, hall, List.append_nil, List.append_assoc,
      List.cons_append]

/-- Blocks that stand in strict order are sorted block by block. -/
theorem mergeSort_flatMap {β : Type} (h : SortOrder le) {g : β → List α} {blocks : List β}
    (hlt : blocks.Pairwise fun x y => ∀ a ∈ g x, ∀ b ∈ g y, le a b = true ∧ le b a = false) :
    (blocks.flatMap g).mergeSort le = blocks.flatMap fun x => (g x).mergeSort le := by
  induction blocks with
  | nil => simp
  | cons x blocks ih =>
    obtain ⟨hfirst, hrest⟩ := List.pairwise_cons.mp hlt
    rw [List.flatMap_cons, List.flatMap_cons, h.mergeSort_append, ih hrest]
    intro a ha b hb
    obtain ⟨y, hy, hb⟩ := List.mem_flatMap.mp hb
    exact hfirst y hy a ha b hb

/-- Sorting does not move members that are equal in the order. -/
theorem filter_mergeSort_eq (h : SortOrder le) {p : α → Bool} {l : List α}
    (hp : ∀ a b, p a = true → p b = true → le a b = true) : (l.mergeSort le).filter p = l.filter p := by
  rw [← h.filter_mergeSort, List.mergeSort_of_pairwise]
  refine List.pairwise_of_forall_mem_list fun a ha b hb => ?_
  exact hp a b (List.mem_filter.mp ha).2 (List.mem_filter.mp hb).2

/-- Where only equal members are equal in the order, a list with the same members sorts to the same
list. -/
theorem mergeSort_eq_of_perm (h : SortOrder le)
    (hantisymm : ∀ a b, le a b = true → le b a = true → a = b) {l l' : List α} (hperm : l.Perm l') :
    l.mergeSort le = l'.mergeSort le := by
  have hsorted := (List.mergeSort_perm l le).trans (hperm.trans (List.mergeSort_perm l' le).symm)
  exact hsorted.eq_of_pairwise (fun a b _ _ => hantisymm a b)
    (List.pairwise_mergeSort h.trans h.total l) (List.pairwise_mergeSort h.trans h.total l')

end SortOrder

/-! ## The orders of the analysis -/

theorem KeyOrder.ofLinear {κ : Type} [LE κ] [LT κ] [DecidableLT κ] [Std.IsLinearOrder κ]
    [Std.LawfulOrderLT κ] : KeyOrder fun a b : κ => decide (a < b) := by
  constructor
  · intro a
    exact decide_eq_false Std.lt_irrefl
  · intro a b c hab hbc
    rw [decide_eq_true_iff] at hab hbc ⊢
    exact Std.lt_trans hab hbc
  · intro a b hne
    rw [Bool.or_eq_true, decide_eq_true_iff, decide_eq_true_iff]
    by_cases hab : a < b
    · exact Or.inl hab
    · exact Or.inr (Std.lt_of_le_of_ne (Std.not_lt.mp hab) (Ne.symm hne))

/-- An order of keys is one of what has different keys. -/
theorem KeyOrder.comap {κ ι : Type} {lt : κ → κ → Bool} (h : KeyOrder lt) {f : ι → κ}
    (hf : Function.Injective f) : KeyOrder fun a b => lt (f a) (f b) where
  irrefl a := h.irrefl (f a)
  trans a b c := h.trans (f a) (f b) (f c)
  connected a b hne := h.connected (f a) (f b) (hf.ne hne)

namespace Path

/-- A component is less by its kind, or both are names and the one is less. -/
theorem Component.less_iff {a b : Component} : a.less b = true ↔
    a.rank < b.rank ∨ ∃ s t, a = .name s ∧ b = .name t ∧ s < t := by
  cases a <;> cases b <;> simp [Component.less, Component.rank]

theorem Component.keyOrder_less : KeyOrder Component.less := by
  constructor
  · exact Component.less_irrefl
  · intro a b c hab hbc
    rw [Component.less_iff] at hab hbc ⊢
    rcases hab with hab | ⟨s, t, rfl, rfl, hst⟩
    · rcases hbc with hbc | ⟨t, u, rfl, rfl, -⟩
      · exact Or.inl (hab.trans hbc)
      · exact Or.inl hab
    · rcases hbc with hbc | ⟨t', u, ht, rfl, htu⟩
      · exact Or.inl hbc
      · obtain rfl := Component.name.inj ht
        exact Or.inr ⟨s, u, rfl, rfl, String.lt_trans hst htu⟩
  · intro a b hne
    rw [Bool.or_eq_true, Component.less_iff, Component.less_iff]
    rcases Nat.lt_trichotomy a.rank b.rank with hlt | heq | hgt
    · exact Or.inl (Or.inl hlt)
    · -- components of one kind that differ are names
      obtain ⟨s, t, rfl, rfl⟩ : ∃ s t, a = .name s ∧ b = .name t := by
        cases a <;> cases b <;> simp_all [Component.rank]
      have hst : s ≠ t := fun h => hne (by rw [h])
      rcases String.le_total s t with hle | hle
      · exact Or.inl (Or.inr ⟨s, t, rfl, rfl, Std.lt_of_le_of_ne hle hst⟩)
      · exact Or.inr (Or.inr ⟨t, s, rfl, rfl, Std.lt_of_le_of_ne hle hst.symm⟩)
    · exact Or.inr (Or.inl hgt)

theorem keyOrder_componentsLess : KeyOrder componentsLess := by
  have hname := Component.keyOrder_less
  constructor
  · exact componentsLess_irrefl
  · intro a
    induction a with
    | nil =>
      intro b c hab hbc
      cases c with
      | nil => cases b <;> cases hbc
      | cons z c => rfl
    | cons x a ih =>
      intro b c hab hbc
      cases b with
      | nil => cases hab
      | cons y b =>
        cases c with
        | nil => cases hbc
        | cons z c =>
          simp only [componentsLess, Bool.or_eq_true, Bool.and_eq_true, beq_iff_eq] at hab hbc ⊢
          rcases hab with hxy | ⟨rfl, hab⟩
          · rcases hbc with hyz | ⟨rfl, -⟩
            · exact Or.inl (hname.trans x y z hxy hyz)
            · exact Or.inl hxy
          · exact hbc.imp_right fun hyz => ⟨hyz.1, ih b c hab hyz.2⟩
  · intro a
    induction a with
    | nil =>
      intro b hne
      cases b with
      | nil => exact absurd rfl hne
      | cons y b => rfl
    | cons x a ih =>
      intro b hne
      cases b with
      | nil => rfl
      | cons y b =>
        by_cases hxy : x = y
        · subst hxy
          have hab := ih b fun heq => hne (by rw [heq])
          simpa [componentsLess, hname.irrefl] using hab
        · have hless := hname.connected x y hxy
          simp only [Bool.or_eq_true] at hless
          simp only [componentsLess, Bool.or_eq_true]
          exact hless.imp Or.inl Or.inl

end Path

theorem Scan.sortOrder_referenceLe : SortOrder Scan.referenceLe := by
  have hfile := Path.keyOrder_componentsLess
  have hline : KeyOrder fun a b : Nat => decide (a < b) := .ofLinear
  have hle := SortOrder.lex hfile (fun r : Reference => Path.components r.file)
    (SortOrder.lex hline (fun r : Reference => r.line) (SortOrder.ofKey fun r => r.kind.rank))
  refine Eq.mp (congrArg SortOrder (funext₂ fun a b => ?_)) hle
  unfold referenceLe Path.less
  by_cases hfiles : Path.components a.file = Path.components b.file
  · rw [if_neg (not_not.mpr hfiles), hfiles, hfile.irrefl]
    rfl
  · rw [if_pos hfiles]
    cases hab : Path.componentsLess (Path.components a.file) (Path.components b.file) with
    | true => rfl
    | false =>
      have hba := hfile.connected _ _ hfiles
      rw [hab, Bool.false_or] at hba
      rw [hba]
      rfl

theorem Issue.sortOrder_le : SortOrder Issue.le := by
  have hrank : Function.Injective IssueKind.rank := by
    intro a b h
    cases a <;> cases b <;> first | rfl | cases h
  have hkind : KeyOrder fun a b : IssueKind => decide (a.rank < b.rank) := KeyOrder.ofLinear.comap hrank
  have hpath : KeyOrder fun a b : String => decide (a < b) := .ofLinear
  exact SortOrder.lex hkind (fun i : Issue => i.kind)
    (SortOrder.lex hpath (fun i : Issue => i.path) (SortOrder.ofKey fun i : Issue => i.message))

theorem UnusedRoute.sortOrder_le : SortOrder UnusedRoute.le := by
  have hpath : KeyOrder fun a b : String => decide (a < b) := .ofLinear
  exact SortOrder.lex hpath (fun r : UnusedRoute => r.path) (SortOrder.ofKey fun r : UnusedRoute => r.file)

theorem Issue.le_antisymm (a b : Issue) (hab : a.le b = true) (hba : b.le a = true) : a = b := by
  obtain ⟨kind, path, message⟩ := a
  obtain ⟨kind', path', message'⟩ := b
  have hkind : kind = kind' := by
    by_contra hne
    simp only [le, hne, Ne.symm hne, ne_eq, not_false_eq_true, if_true, decide_eq_true_iff] at hab hba
    exact Nat.lt_asymm hab hba
  subst hkind
  have hpath : path = path' := by
    by_contra hne
    simp only [le, hne, Ne.symm hne, ne_eq, not_true_eq_false, not_false_eq_true, if_true, if_false,
      decide_eq_true_iff] at hab hba
    exact String.lt_asymm hab hba
  subst hpath
  simp only [le, ne_eq, not_true_eq_false, if_false, decide_eq_true_iff] at hab hba
  rw [Std.le_antisymm hab hba]

namespace Text

/-! ## Distinct members in ascending order -/

theorem pairwise_insertKey {k : String} {xs : List String} (h : xs.Pairwise (· < ·)) :
    (insertKey k xs).Pairwise (· < ·) := by
  induction xs with
  | nil => exact List.pairwise_singleton _ _
  | cons x xs ih =>
    obtain ⟨hx, hxs⟩ := List.pairwise_cons.mp h
    unfold insertKey
    split_ifs with hlt heq
    · refine List.pairwise_cons.mpr ⟨fun y hy => ?_, h⟩
      rcases List.mem_cons.mp hy with rfl | hy
      · exact hlt
      · exact String.lt_trans hlt (hx y hy)
    · exact h
    · refine List.pairwise_cons.mpr ⟨fun y hy => ?_, ih hxs⟩
      rcases mem_insertKey.mp hy with rfl | hy
      · exact Std.lt_of_le_of_ne (Std.not_lt.mp hlt) (Ne.symm heq)
      · exact hx y hy

theorem pairwise_sortedDistinct (xs : List String) : (sortedDistinct xs).Pairwise (· < ·) := by
  induction xs with
  | nil => exact List.Pairwise.nil
  | cons x xs ih => exact pairwise_insertKey ih

/-- An ascending list with the same members is the list of the distinct members. -/
theorem eq_sortedDistinct {xs ys : List String} (hys : ys.Pairwise (· < ·))
    (h : ∀ a, a ∈ ys ↔ a ∈ xs) : ys = sortedDistinct xs := by
  refine hys.eq_of_mem_iff (pairwise_sortedDistinct xs) fun a => ?_
  rw [h, mem_sortedDistinct]

theorem sortedDistinct_congr {xs ys : List String} (h : ∀ a, a ∈ xs ↔ a ∈ ys) :
    sortedDistinct xs = sortedDistinct ys :=
  eq_sortedDistinct (pairwise_sortedDistinct xs) fun a => by rw [mem_sortedDistinct, h]

/-- The distinct members of a part of a list are a part of its distinct members. -/
theorem sortedDistinct_sublist {xs ys : List String} (h : xs ⊆ ys) :
    (sortedDistinct xs).Sublist (sortedDistinct ys) := by
  have hfilter : (sortedDistinct ys).filter (· ∈ xs) = sortedDistinct xs := by
    refine eq_sortedDistinct ((pairwise_sortedDistinct ys).filter _) fun a => ?_
    rw [List.mem_filter, mem_sortedDistinct, decide_eq_true_iff, and_iff_right_iff_imp]
    exact fun ha => h ha
  rw [← hfilter]
  exact List.filter_sublist

end Text

end RouteAudit
