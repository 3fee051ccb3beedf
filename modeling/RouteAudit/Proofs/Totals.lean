import Mathlib.Algebra.Ring.Nat
import Mathlib.Data.List.Infix
import RouteAudit.Proofs.Face
import RouteAudit.Proofs.Interpolated

/-!
# The totals and the lists of a report

The totals of a report are the lengths of its lists, and its lists are parts of each other: broken and
interpolated paths of the used ones, unused pages of the declared routes (`Report.IsConsistent`). Every
analysis gives such a report (`analyze_isConsistent`).

Proof. Every verdict counts in one total and in one only (`size_eq_add`). Every reference is in the group
of its path and in no other (`perm_flatMap_occurrences`). The lists of broken and of interpolated paths
are made from some of the groups, all used paths from all of them, so it is enough that an entry made
from a group can be had from the used path made from it.
-/

namespace RouteAudit

/-! ## Verdicts and groups -/

/-- **Every verdict counts in exactly one total.** -/
theorem Classification.size_eq_add (c : Classification) :
    c.size = c.validCount + c.count .broken + c.count .external + c.count .special := by
  simp only [size, validCount, count, withVerdict, ← List.countP_eq_length_filter]
  induction c.groups with
  | nil => rfl
  | cons g groups ih =>
    simp only [List.length_cons, List.countP_cons, ih]
    cases g.verdict <;> simp [Verdict.isValid] <;> omega

/-- The members with one of some distinct keys are those with the first key, with the second, and so
on. -/
theorem perm_flatMap_filter {α κ : Type} [DecidableEq κ] (key : α → κ) (l : List α) {keys : List κ}
    (hkeys : keys.Nodup) :
    (keys.flatMap fun k => l.filter (key · = k)).Perm (l.filter (key · ∈ keys)) := by
  induction keys with
  | nil => simp
  | cons k keys ih =>
    obtain ⟨hk, hkeys⟩ := List.nodup_cons.mp hkeys
    have hfirst : (l.filter (key · ∈ k :: keys)).filter (key · = k) = l.filter (key · = k) := by
      rw [List.filter_filter]
      refine List.filter_congr fun a _ => ?_
      by_cases ha : key a = k <;> simp [ha]
    have hrest : (l.filter (key · ∈ k :: keys)).filter (fun a => !decide (key a = k)) =
        l.filter (key · ∈ keys) := by
      rw [List.filter_filter]
      refine List.filter_congr fun a _ => ?_
      by_cases ha : key a = k <;> simp [ha, hk]
    have hparts := List.filter_append_perm (key · = k) (l.filter (key · ∈ k :: keys))
    rw [hfirst, hrest] at hparts
    exact ((ih hkeys).append_left _).trans hparts

namespace UsageGroup

variable {references : List Reference}

/-- The groups stand in strictly ascending order of their paths. -/
theorem pairwise_path_ofReferences (references : List Reference) :
    ((ofReferences references).map (·.path)).Pairwise (· < ·) := by
  have hkeys : (ofReferences references).map (·.path) =
      Text.sortedDistinct (references.map (·.path)) := by
    rw [ofReferences, List.map_map]
    exact List.map_id _
  rw [hkeys]
  exact Text.pairwise_sortedDistinct _

/-- **The occurrences of the groups are the references**, each of them once. -/
theorem perm_flatMap_occurrences (references : List Reference) :
    ((ofReferences references).flatMap (·.occurrences)).Perm references := by
  have hnodup : (Text.sortedDistinct (references.map (·.path))).Nodup :=
    (Text.pairwise_sortedDistinct _).imp fun hlt => Std.ne_of_lt hlt
  have hall : references.filter (·.path ∈ Text.sortedDistinct (references.map (·.path))) = references := by
    refine List.filter_eq_self.mpr fun r hr => ?_
    simpa using ⟨r, hr, rfl⟩
  rw [ofReferences, List.flatMap_map]
  exact (perm_flatMap_filter (·.path) references hnodup).trans (List.Perm.of_eq hall)

theorem sum_usageCount (references : List Reference) :
    ((ofReferences references).map usageCount).sum = references.length := by
  rw [← (perm_flatMap_occurrences references).length_eq, List.length_flatMap]
  rfl

end UsageGroup

/-! ## Entries of the lists -/

/-- The used path that is broken. -/
def BrokenRoute.used (r : BrokenRoute) : UsedRoute :=
  { path := r.path, cleanPath := r.cleanPath, isDynamic := r.isDynamic, usageCount := r.usages.length
    files := Text.sortedDistinct (r.usages.map (·.file)) }

theorem BrokenRoute.used_ofGroup (g : UsageGroup) : (BrokenRoute.ofGroup g).used = .ofGroup g := by
  rw [used, ofGroup, List.length_map, List.map_map]
  rfl

/-- The entry of a used path in the list of the interpolated ones. -/
def UsedRoute.dynamic (r : UsedRoute) : DynamicRoute :=
  { path := r.path, cleanPath := r.cleanPath, usages := r.usageCount }

/-- The entry of an unused page in the list of the declared routes. -/
def UnusedRoute.route (r : UnusedRoute) : AppRoute :=
  { path := r.path, file := r.file, hasParams := r.hasParams }

theorem UnusedRoute.le_iff {a b : UnusedRoute} :
    a.le b = true ↔ a.path < b.path ∨ a.path = b.path ∧ a.file ≤ b.file := by
  rw [le]
  by_cases hpath : a.path = b.path
  · have hirrefl : ¬ a.path < b.path := hpath ▸ Std.lt_irrefl
    rw [if_neg fun hne => hne hpath, decide_eq_true_iff]
    exact ⟨fun h => .inr ⟨hpath, h⟩, fun h => (h.resolve_left hirrefl).2⟩
  · simp [hpath]

theorem Issue.le_iff {a b : Issue} : a.le b = true ↔ a.kind.rank < b.kind.rank ∨
    a.kind = b.kind ∧ (a.path < b.path ∨ a.path = b.path ∧ a.message ≤ b.message) := by
  rw [le]
  by_cases hkind : a.kind = b.kind
  · by_cases hpath : a.path = b.path
    · have hirrefl : ¬ a.path < b.path := hpath ▸ Std.lt_irrefl
      have hrank : ¬ a.kind.rank < b.kind.rank := hkind ▸ Nat.lt_irrefl _
      rw [if_neg fun hne => hne hkind, if_neg fun hne => hne hpath, decide_eq_true_iff]
      exact ⟨fun h => .inr ⟨hkind, .inr ⟨hpath, h⟩⟩,
        fun h => ((h.resolve_left hrank).2.resolve_left hirrefl).2⟩
    · simp [hkind, hpath]
  · simp [hkind]

/-! ## Reports -/

/-- The totals and the lists of a report agree with each other, with the references of the scan and with
the issues that were met. -/
structure Report.IsConsistent (r : Report) (references : List Reference) (issues : List Issue) :
    Prop where
  totalUsed : r.summary.totalUsedRoutes = r.allUsedRoutes.length
  /-- Every used path counts in one of four totals. -/
  verdicts : r.summary.totalUsedRoutes = r.summary.validRoutes + r.summary.brokenRoutes +
    r.summary.externalRoutes + r.summary.specialRoutes
  totalBroken : r.summary.brokenRoutes = r.brokenRoutes.length
  totalUnused : r.summary.unusedRoutes = r.unusedRoutes.length
  totalDynamic : r.summary.dynamicRoutes = r.dynamicRoutes.length
  totalApp : r.summary.totalAppRoutes = r.allAppRoutes.length
  /-- The broken paths are used paths, in their order, with as many usages. -/
  broken : (r.brokenRoutes.map BrokenRoute.used).Sublist r.allUsedRoutes
  /-- The interpolated paths are the used paths with `${` in them, in their order. -/
  dynamic : r.dynamicRoutes =
    (r.allUsedRoutes.filter fun u => decide (['$', '{'] <:+: u.path.toList)).map UsedRoute.dynamic
  isDynamic : ∀ u ∈ r.allUsedRoutes, u.isDynamic = true ↔ ['$', '{'] <:+: u.path.toList
  ascending : (r.allUsedRoutes.map (·.path)).Pairwise (· < ·)
  /-- Every reference is a usage of one path. -/
  usages : (r.allUsedRoutes.map (·.usageCount)).sum = references.length
  unusedSorted :
    r.unusedRoutes.Pairwise fun a b => a.path < b.path ∨ a.path = b.path ∧ a.file ≤ b.file
  /-- The unused pages are declared routes, no one more often than it is declared. -/
  unused : (r.unusedRoutes.map UnusedRoute.route).Subperm r.allAppRoutes
  unusedPages : r.unusedRoutes.length ≤ r.summary.totalPageRoutes
  errorsSorted : r.errors.Pairwise fun a b => a.kind.rank < b.kind.rank ∨
    a.kind = b.kind ∧ (a.path < b.path ∨ a.path = b.path ∧ a.message ≤ b.message)
  errors : r.errors.Perm issues

namespace Config

/-- **The totals and the lists of an analysis agree.** -/
theorem analyze_isConsistent (c : Config) (collection : Collection) {scan : Scan}
    (hraw : ∀ r ∈ scan.references, r.OfRaw) (time : Timestamp) :
    (c.analyze collection scan time).IsConsistent scan.references
      (collection.issues ++ scan.issues) := by
  let groups := (classify collection scan).groups
  let unused := unusedRoutes collection.table.pages groups c.report.unusedExclusions c.roots.appDir
  have hused : (c.analyze collection scan time).allUsedRoutes =
      (UsageGroup.ofReferences scan.references).map UsedRoute.ofGroup := List.map_map
  have hinterpolated : ∀ g ∈ UsageGroup.ofReferences scan.references,
      (g.isDynamic = true ↔ ['$', '{'] <:+: g.path.toList) := by
    intro g hg
    rw [UsageGroup.isDynamic_eq hraw hg, Address.hasInterpolation_iff_isInfix]
  have hunused : unused.Sublist collection.table.pages.entries := List.filter_sublist
  constructor
  case totalUsed => exact (List.length_map _).symm
  case verdicts => exact Classification.size_eq_add _
  case totalBroken => exact (List.length_map _).symm
  case totalUnused =>
    change unused.length = ((unused.map UnusedRoute.ofEntry).mergeSort _).length
    rw [List.length_mergeSort, List.length_map]
  case totalDynamic => exact (List.length_map _).symm
  case totalApp => exact (List.length_map _).symm
  case broken =>
    change (((groups.filter (·.verdict = .broken)).map fun c => BrokenRoute.ofGroup c.group).map
      BrokenRoute.used).Sublist (groups.map fun c => UsedRoute.ofGroup c.group)
    rw [List.map_map]
    have hentry : BrokenRoute.used ∘ (fun c : ClassifiedGroup => BrokenRoute.ofGroup c.group) =
        fun c => UsedRoute.ofGroup c.group := funext fun c => BrokenRoute.used_ofGroup c.group
    rw [hentry]
    exact List.filter_sublist.map _
  case dynamic =>
    have hlist : (c.analyze collection scan time).dynamicRoutes =
        ((UsageGroup.ofReferences scan.references).filter (·.isDynamic)).map DynamicRoute.ofGroup := by
      change (((UsageGroup.ofReferences scan.references).map _).filter _).map _ = _
      rw [List.filter_map, List.map_map]
      rfl
    rw [hlist, hused, List.filter_map, List.map_map]
    refine congrArg (List.map DynamicRoute.ofGroup) (List.filter_congr fun g hg => ?_)
    rw [Bool.eq_iff_iff, hinterpolated g hg, Function.comp_apply, decide_eq_true_iff]
    rfl
  case isDynamic =>
    rw [hused]
    intro u hu
    obtain ⟨g, hg, rfl⟩ := List.mem_map.mp hu
    exact hinterpolated g hg
  case ascending =>
    rw [hused, List.map_map]
    exact UsageGroup.pairwise_path_ofReferences _
  case usages =>
    rw [hused, List.map_map]
    exact UsageGroup.sum_usageCount _
  case unusedSorted =>
    exact (List.pairwise_mergeSort UnusedRoute.sortOrder_le.trans UnusedRoute.sortOrder_le.total _).imp
      UnusedRoute.le_iff.mp
  case unused =>
    have hsorted := (List.mergeSort_perm (unused.map UnusedRoute.ofEntry) UnusedRoute.le).map
      UnusedRoute.route
    rw [List.map_map] at hsorted
    exact hsorted.subperm.trans ((hunused.trans List.filter_sublist).map AppRoute.ofEntry).subperm
  case unusedPages =>
    change ((unused.map UnusedRoute.ofEntry).mergeSort _).length ≤ collection.table.pageCount
    rw [List.length_mergeSort, List.length_map, RouteTable.pageCount, List.countP_eq_length_filter]
    exact hunused.length_le
  case errorsSorted =>
    exact (List.pairwise_mergeSort Issue.sortOrder_le.trans Issue.sortOrder_le.total _).imp
      Issue.le_iff.mp
  case errors => exact List.mergeSort_perm _ _

/-- One path of every verdict, two of them interpolated. -/
theorem analyze_isConsistent_verdicts :
    let page path file := RouteEntry.ofPath path file .page
    let collection : Collection :=
      ⟨⟨[page "/" "app/page.tsx", .ofPath "/" "app/layout.tsx" .layout,
        page "/search" "app/search/page.tsx", page "/legal" "app/legal/page.tsx"]⟩, []⟩
    let reference raw := Reference.ofRaw raw .link "src/a.tsx" 1 ""
    let scan : Scan :=
      { references := ["/", "/?tab=1", "/search/${q}", "/u/${id}", "#top", "tel:1"].map reference }
    (∀ r ∈ scan.references, r.OfRaw) ∧
      (analyze {} collection scan .epoch).IsConsistent scan.references [] ∧
      (analyze {} collection scan .epoch).summary = ⟨4, 3, 5, 2, 1, 2, 1, 2, 1⟩ := by
  intro page collection reference scan
  have hraw : ∀ r ∈ scan.references, r.OfRaw := by decide
  exact ⟨hraw, analyze_isConsistent {} collection hraw .epoch, by decide⟩

end Config

end RouteAudit
