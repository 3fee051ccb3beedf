import RouteAudit.Proofs.Verdict
import RouteAudit.Unused

/-!
# Unused pages and valid groups

The search for unused pages looks at every group that points into the application, whatever its
verdict. Only the valid ones matter: a broken group and one that is valid by its base route alone are
accepted by no page, and a valid one is accepted by some page. So the unused pages are those that no
valid group reaches (`unusedRoutes_eq_filter`).
-/

namespace RouteAudit

namespace Classification

theorem mem_ofGroups {groups : List UsageGroup} {pages : RouteTable} {c : ClassifiedGroup} :
    c ∈ (ofGroups groups pages).groups ↔ ∃ g ∈ groups, ⟨g, g.verdict pages⟩ = c := by
  rw [ofGroups, List.mem_map]

variable {pages : RouteTable} {groups : List UsageGroup} {c : ClassifiedGroup}

/-- A classified group is valid exactly if it is internal and some page accepts its path. -/
theorem verdict_eq_valid_iff (hpages : pages.OfPages) (hc : c ∈ (ofGroups groups pages).groups) :
    c.verdict = .valid ↔
      c.verdict.isInternal = true ∧ ∃ e ∈ pages.entries, (e.accepts? c.group.path).isSome = true := by
  obtain ⟨g, -, rfl⟩ := mem_ofGroups.mp hc
  exact verdictOn_eq_valid_iff hpages

/-- No page accepts the path of an internal group that is not valid. -/
theorem accepts?_eq_none_of_not_valid (hpages : pages.OfPages)
    (hc : c ∈ (ofGroups groups pages).groups) (hinternal : c.verdict.isInternal = true)
    (hvalid : c.verdict ≠ .valid) : ∀ e ∈ pages.entries, e.accepts? c.group.path = none := by
  intro e he
  by_contra haccepts
  rw [← Ne, Option.ne_none_iff_isSome] at haccepts
  exact hvalid ((verdict_eq_valid_iff hpages hc).mpr ⟨hinternal, e, he, haccepts⟩)

/-- For a page, being reached by an internal group and by a valid one is the same. -/
theorem any_internalPaths_accepts (hpages : pages.OfPages) {e : RouteEntry}
    (he : e ∈ pages.entries) :
    ((internalPaths (ofGroups groups pages).groups).any fun path => (e.accepts? path).isSome) =
      (ofGroups groups pages).groups.any fun c =>
        decide (c.verdict = .valid) && (e.accepts? c.group.path).isSome := by
  rw [Bool.eq_iff_iff, List.any_eq_true, List.any_eq_true]
  constructor
  · rintro ⟨path, hpath, haccepts⟩
    obtain ⟨c, hc, rfl⟩ := List.mem_map.mp hpath
    obtain ⟨hmem, hinternal⟩ := List.mem_filter.mp hc
    have hvalid := (verdict_eq_valid_iff hpages hmem).mpr ⟨hinternal, e, he, haccepts⟩
    exact ⟨c, hmem, by simp [hvalid, haccepts]⟩
  · rintro ⟨c, hc, haccepts⟩
    rw [Bool.and_eq_true, decide_eq_true_iff] at haccepts
    obtain ⟨hvalid, haccepts⟩ := haccepts
    refine ⟨c.group.path, List.mem_map.mpr ⟨c, List.mem_filter.mpr ⟨hc, ?_⟩, rfl⟩, haccepts⟩
    rw [hvalid]
    rfl

/-- The internal paths among the valid groups are the paths of the valid groups. -/
theorem any_internalPaths_filter_valid (gs : List ClassifiedGroup) (f : String → Bool) :
    (internalPaths (gs.filter (·.verdict = .valid))).any f =
      gs.any fun c => decide (c.verdict = .valid) && f c.group.path := by
  induction gs with
  | nil => rfl
  | cons c gs ih =>
    by_cases hvalid : c.verdict = .valid
    · have hinternal : c.verdict.isInternal = true := by rw [hvalid]; rfl
      simp only [internalPaths, List.filter_cons, hvalid, decide_true, if_true,
        List.any_cons, Bool.true_and] at ih ⊢
      rw [if_pos (by rfl), List.map_cons, List.any_cons, ih]
    · simp only [List.filter_cons, hvalid, decide_false, Bool.false_eq_true, if_false,
        List.any_cons, Bool.false_and, Bool.false_or]
      exact ih

end Classification

/-- Against a table of pages, being a page asks for nothing. -/
theorem unusedRoutes_of_pages {pages : RouteTable} (hpages : pages.OfPages)
    (groups : List ClassifiedGroup) (exclusions : List String) (appRoot : String) :
    unusedRoutes pages groups exclusions appRoot =
      pages.entries.filter fun e => !e.isExcluded exclusions appRoot &&
        !(Classification.internalPaths groups).any fun path => (e.accepts? path).isSome := by
  unfold unusedRoutes
  refine List.filter_congr fun e he => ?_
  obtain ⟨path, file, rfl⟩ := hpages.eq_ofPath he
  rw [show (RouteEntry.ofPath path file .page).isPage = true from rfl, Bool.true_and]

open Classification

/-- **The unused pages are those that no valid group reaches**, in the order of the table. Every valid
group is accepted by some page, no group that is broken or valid by its base route alone is accepted
by any, and leaving out all groups that are not valid leaves the unused pages as they are. -/
theorem unusedRoutes_eq_filter {pages : RouteTable} (hpages : pages.OfPages)
    (groups : List UsageGroup) (exclusions : List String) (appRoot : String) :
    let classified := (ofGroups groups pages).groups
    unusedRoutes pages classified exclusions appRoot =
        (pages.entries.filter fun e => !e.isExcluded exclusions appRoot &&
          !classified.any fun c =>
            decide (c.verdict = .valid) && (e.accepts? c.group.path).isSome) ∧
      (∀ c ∈ classified, c.verdict = .valid →
        ∃ e ∈ pages.entries, (e.accepts? c.group.path).isSome = true) ∧
      (∀ c ∈ classified, c.verdict = .broken ∨ c.verdict = .dynamicValid →
        ∀ e ∈ pages.entries, e.accepts? c.group.path = none) ∧
      unusedRoutes pages (classified.filter (·.verdict = .valid)) exclusions appRoot =
        unusedRoutes pages classified exclusions appRoot := by
  intro classified
  have hany : ∀ e ∈ pages.entries,
      ((internalPaths classified).any fun path => (e.accepts? path).isSome) =
        classified.any fun c => decide (c.verdict = .valid) && (e.accepts? c.group.path).isSome :=
    fun e he => any_internalPaths_accepts hpages he
  have hunused : unusedRoutes pages classified exclusions appRoot =
      pages.entries.filter fun e => !e.isExcluded exclusions appRoot &&
        !classified.any fun c => decide (c.verdict = .valid) && (e.accepts? c.group.path).isSome := by
    rw [unusedRoutes_of_pages hpages]
    exact List.filter_congr fun e he => by rw [hany e he]
  refine ⟨hunused, fun c hc hvalid => ((verdict_eq_valid_iff hpages hc).mp hvalid).2,
    fun c hc hverdict => ?_, ?_⟩
  · rcases hverdict with h | h <;>
      exact accepts?_eq_none_of_not_valid hpages hc (by rw [h]; rfl) (by rw [h]; decide)
  · rw [hunused, unusedRoutes_of_pages hpages]
    exact List.filter_congr fun e he => by rw [any_internalPaths_filter_valid]

/-- A reference below `/search` is valid by the base route alone and does not use the page. -/
theorem unusedRoutes_eq_filter_search :
    let pages : RouteTable :=
      ⟨[.ofPath "/" "app/page.tsx" .page, .ofPath "/search" "app/search/page.tsx" .page,
        .ofPath "/course/[id]" "app/course/[id]/page.tsx" .page]⟩
    let groups := UsageGroup.ofReferences
      (["/", "/search/${q}", "/course/${c.id}", "/gone", "https://x.dev"].map
        fun raw => .ofRaw raw .link "src/a.tsx" 1 "")
    pages.OfPages ∧
      (unusedRoutes pages (ofGroups groups pages).groups [] "app").map (·.declaredPath) =
        ["/search"] := by
  intro pages groups
  have hpages : pages.OfPages := by decide
  refine ⟨hpages, ?_⟩
  rw [(unusedRoutes_eq_filter hpages groups [] "app").1]
  decide

end RouteAudit
