import RouteAudit.Proofs.Face
import RouteAudit.Proofs.Unused

/-!
# More references clear unused pages

With more references there are more used paths, each with the verdict it had (`usageRows_sublist`), and
so more internal paths. The pages that are still unused are therefore those of the unused ones that no
internal path reaches now (`unusedRoutes_analyze_eq_filter`): no page becomes unused, and one leaves the
list exactly if a path reaches it (`analyze_of_references_subset`).

Proof. The rows of the used paths are in the order of the paths, so those of some of the paths are a part
of those of all. To leave pages out before they are sorted or after is the same.
-/

namespace RouteAudit

/-! ## Used paths -/

/-- **With more paths, those that were used keep their rows.** -/
theorem usageRows_sublist {paths paths' : List String} (h : paths ⊆ paths') (pages : RouteTable) :
    (usageRows paths pages).Sublist (usageRows paths' pages) :=
  (Text.sortedDistinct_sublist h).map _

namespace Classification

/-- Whether an internal path reaches the entry. -/
def reaches (groups : List ClassifiedGroup) (e : RouteEntry) : Bool :=
  (internalPaths groups).any fun path => (e.accepts? path).isSome

theorem reaches_iff {groups : List ClassifiedGroup} {e : RouteEntry} : reaches groups e = true ↔
    ∃ g ∈ groups, g.verdict.isInternal = true ∧ (e.accepts? g.group.path).isSome = true := by
  simp only [reaches, internalPaths, List.any_map, List.any_filter, List.any_eq_true, Bool.and_eq_true,
    Function.comp_apply]

/-- The verdict on a group of references follows from its path. -/
theorem verdict_eq_of_mem {references : List Reference} (hraw : ∀ r ∈ references, r.OfRaw)
    {pages : RouteTable} {g : ClassifiedGroup}
    (hg : g ∈ (ofGroups (UsageGroup.ofReferences references) pages).groups) :
    g.verdict = verdictOn g.group.path (Address.hasInterpolation g.group.path.toList) pages := by
  obtain ⟨group, hgroup, rfl⟩ := mem_ofGroups.mp hg
  dsimp only
  rw [UsageGroup.verdict, UsageGroup.isDynamic_eq hraw hgroup]

end Classification

/-! ## Unused pages -/

/-- With more internal paths, the unused pages are those of them that are not reached. -/
theorem unusedRoutes_eq_filter_reaches {groups groups' : List ClassifiedGroup}
    (h : Classification.internalPaths groups ⊆ Classification.internalPaths groups')
    (pages : RouteTable) (exclusions : List String) (appRoot : String) :
    unusedRoutes pages groups' exclusions appRoot =
      (unusedRoutes pages groups exclusions appRoot).filter
        fun e => !Classification.reaches groups' e := by
  rw [unusedRoutes, unusedRoutes, List.filter_filter]
  refine List.filter_congr fun e _ => ?_
  change (e.isPage && !e.isExcluded exclusions appRoot && !Classification.reaches groups' e) =
    (!Classification.reaches groups' e &&
      (e.isPage && !e.isExcluded exclusions appRoot && !Classification.reaches groups e))
  cases hreaches : Classification.reaches groups' e with
  | true => simp
  | false =>
    have hbefore : Classification.reaches groups e = false := by
      rw [Classification.reaches, List.any_eq_false] at hreaches ⊢
      exact fun path hpath => hreaches path (h hpath)
    simp [hbefore]

/-- The page that is unused. -/
def UnusedRoute.page (r : UnusedRoute) : RouteEntry :=
  { declaredPath := r.path, file := r.file, kind := .page, hasParameters := r.hasParams }

theorem UnusedRoute.page_ofEntry {e : RouteEntry} (he : e.isPage = true) :
    (UnusedRoute.ofEntry e).page = e := by
  have hkind : e.kind = .page := of_decide_eq_true he
  rw [page, ofEntry, ← hkind]

theorem isPage_of_mem_unusedRoutes {pages : RouteTable} {groups : List ClassifiedGroup}
    {exclusions : List String} {appRoot : String} {e : RouteEntry}
    (he : e ∈ unusedRoutes pages groups exclusions appRoot) : e.isPage = true := by
  have htests := (List.mem_filter.mp he).2
  rw [Bool.and_eq_true, Bool.and_eq_true] at htests
  exact htests.1.1

/-! ## Two analyses -/

namespace Config

variable {scan scan' : Scan}

theorem rows_sublist_of_subset (collection : Collection)
    (hraw : ∀ r ∈ scan'.references, r.OfRaw) (hsub : scan.references ⊆ scan'.references) :
    ((classify collection scan).groups.map ClassifiedGroup.row).Sublist
      ((classify collection scan').groups.map ClassifiedGroup.row) := by
  rw [classify, classify, rows_ofGroups hraw, rows_ofGroups fun r hr => hraw r (hsub hr)]
  exact usageRows_sublist (List.map_subset _ hsub) _

theorem internalPaths_subset (collection : Collection) (hraw : ∀ r ∈ scan'.references, r.OfRaw)
    (hsub : scan.references ⊆ scan'.references) :
    Classification.internalPaths (classify collection scan).groups ⊆
      Classification.internalPaths (classify collection scan').groups := by
  rw [Classification.internalPaths_eq, Classification.internalPaths_eq]
  exact (((rows_sublist_of_subset collection hraw hsub).filter _).map _).subset

/-- Of the unused pages, those are left that no internal path reaches. -/
theorem unusedRoutes_analyze_eq_filter (c : Config) (collection : Collection)
    (hraw : ∀ r ∈ scan'.references, r.OfRaw) (hsub : scan.references ⊆ scan'.references)
    (time time' : Timestamp) :
    (c.analyze collection scan' time').unusedRoutes =
      (c.analyze collection scan time).unusedRoutes.filter
        fun r => !Classification.reaches (classify collection scan').groups r.page := by
  let unused := unusedRoutes collection.table.pages (classify collection scan).groups
    c.report.unusedExclusions c.roots.appDir
  have hunused := unusedRoutes_eq_filter_reaches (internalPaths_subset collection hraw hsub)
    collection.table.pages c.report.unusedExclusions c.roots.appDir
  change ((unusedRoutes _ (classify collection scan').groups _ _).map UnusedRoute.ofEntry).mergeSort _ =
    ((unused.map UnusedRoute.ofEntry).mergeSort _).filter _
  rw [hunused, ← UnusedRoute.sortOrder_le.filter_mergeSort, List.filter_map]
  refine congrArg (fun l : List RouteEntry => (l.map _).mergeSort _) (List.filter_congr fun e he => ?_)
  rw [Function.comp_apply, UnusedRoute.page_ofEntry (isPage_of_mem_unusedRoutes he)]

/-- **More references only clear unused pages.** The unused pages of an analysis with more references are
a part of those with fewer. A page leaves the list exactly if it accepts the path of an internal group.
And every path that was used is used, with the verdict it had. -/
theorem analyze_of_references_subset (c : Config) (collection : Collection) {scan scan' : Scan}
    (hraw : ∀ r ∈ scan'.references, r.OfRaw) (hsub : scan.references ⊆ scan'.references)
    (time time' : Timestamp) :
    let before := (c.analyze collection scan time).unusedRoutes
    let after := (c.analyze collection scan' time').unusedRoutes
    let pages := collection.table.pages
    let groups := (classify collection scan).groups
    let groups' := (classify collection scan').groups
    after.Sublist before ∧
      (∀ r ∈ before, ∃ i e, pages.get? i = some e ∧ UnusedRoute.ofEntry e = r) ∧
      (∀ i e, pages.get? i = some e → .ofEntry e ∈ before →
        (.ofEntry e ∉ after ↔ ∃ g ∈ groups',
          g.verdict.isInternal = true ∧ (pages.accepts? i g.group.path).isSome = true)) ∧
      ∀ g ∈ groups, (∃ g' ∈ groups', g'.group.path = g.group.path) ∧
        ∀ g' ∈ groups', g'.group.path = g.group.path → g'.verdict = g.verdict := by
  intro before after pages groups groups'
  have hafter : after = before.filter fun r => !Classification.reaches groups' r.page :=
    unusedRoutes_analyze_eq_filter c collection hraw hsub time time'
  refine ⟨?_, fun r hr => ?_, fun i e hi he => ?_, fun g hg => ⟨?_, fun g' hg' hpath => ?_⟩⟩
  · rw [hafter]
    exact List.filter_sublist
  · obtain ⟨e, he, rfl⟩ := List.mem_map.mp (List.mem_mergeSort.mp hr)
    obtain ⟨i, hi⟩ := List.mem_iff_getElem?.mp (List.mem_of_mem_filter he)
    exact ⟨i, e, hi, rfl⟩
  · have hpage : e.isPage = true :=
      (List.mem_filter.mp (List.mem_of_getElem? hi)).2
    have haccepts : ∀ path, pages.accepts? i path = e.accepts? path := by
      intro path
      rw [RouteTable.accepts?, hi]
      rfl
    simp only [haccepts]
    rw [← Classification.reaches_iff, hafter, List.mem_filter, UnusedRoute.page_ofEntry hpage]
    simp [he]
  · have hrow := (rows_sublist_of_subset collection hraw hsub).subset (List.mem_map_of_mem hg)
    obtain ⟨g', hg', hrow⟩ := List.mem_map.mp hrow
    exact ⟨g', hg', congrArg UsageRow.path hrow⟩
  · rw [Classification.verdict_eq_of_mem hraw hg', hpath,
      Classification.verdict_eq_of_mem (fun r hr => hraw r (hsub hr)) hg]

/-- The first reference to a page with a parameter takes it from the list. -/
theorem analyze_of_references_subset_course :
    let course : RouteEntry := .ofPath "/course/[id]" "app/course/[id]/page.tsx" .page
    let collection : Collection := ⟨⟨[.ofPath "/" "app/page.tsx" .page, course]⟩, []⟩
    let reference raw := Reference.ofRaw raw .link "src/a.tsx" 1 ""
    let scan : Scan := { references := [reference "/"] }
    let scan' : Scan := { references := [reference "/course/${c.id}?tab=1", reference "/"] }
    (∀ r ∈ scan'.references, r.OfRaw) ∧ scan.references ⊆ scan'.references ∧
      .ofEntry course ∈ (analyze {} collection scan .epoch).unusedRoutes ∧
      .ofEntry course ∉ (analyze {} collection scan' .epoch).unusedRoutes := by
  intro course collection reference scan scan'
  have hraw : ∀ r ∈ scan'.references, r.OfRaw := by decide
  have hsub : scan.references ⊆ scan'.references := by decide
  have hunused : .ofEntry course ∈ (analyze {} collection scan .epoch).unusedRoutes := by
    refine List.mem_mergeSort.mpr (List.mem_map_of_mem ?_)
    decide
  obtain ⟨-, -, hmissing, -⟩ := analyze_of_references_subset {} collection hraw hsub .epoch .epoch
  refine ⟨hraw, hsub, hunused, (hmissing 1 course rfl hunused).mpr ?_⟩
  decide

end Config

end RouteAudit
