import RouteAudit.Proofs.Group
import RouteAudit.Proofs.Sorting

/-!
# Leaving references out

What a group says of its path follows from the path (`gather_eq`); only its occurrences come from the
references. So to leave references out, before they are grouped, leaves the occurrences out of their
groups, and the groups that keep none out of the list (`ofReferences_filter`). The verdicts of
the others stay (`ofGroups_filterMap_keeping?`), and unused pages stay unused (`unusedRoutes_sublist`).
-/

namespace RouteAudit

theorem Reference.OfRaw.wildcardPath_eq {r : Reference} (h : r.OfRaw) : r.wildcardPath =
    if Address.hasInterpolation r.path.toList then
      some (String.ofList (Address.wildcard r.path.toList)) else none := by
  rw [h, ofRaw, String.toList_ofList]

namespace UsageGroup

variable {references : List Reference}

/-- A group is its path and the references with this path. -/
theorem gather_eq (hreferences : ∀ r ∈ references, r.OfRaw) {r : Reference} (hr : r ∈ references) :
    gather references r.path =
      { path := r.path
        cleanPath := if Address.hasInterpolation r.path.toList then
          some (String.ofList (Address.wildcard r.path.toList)) else none
        isDynamic := Address.hasInterpolation r.path.toList
        occurrences := references.filter (·.path = r.path) } := by
  have hgroup : gather references r.path ∈ ofReferences references :=
    mem_ofReferences_iff.mpr ⟨r, hr, rfl⟩
  have hdynamic : (gather references r.path).isDynamic = Address.hasInterpolation r.path.toList :=
    isDynamic_eq hreferences hgroup
  have hsame : ∀ q ∈ references.filter (·.path = r.path),
      q.isDynamic = Address.hasInterpolation r.path.toList ∧
      q.wildcardPath = if Address.hasInterpolation r.path.toList then
        some (String.ofList (Address.wildcard r.path.toList)) else none := by
    intro q hq
    obtain ⟨hmem, hpath⟩ := List.mem_filter.mp hq
    rw [decide_eq_true_iff] at hpath
    rw [← hpath]
    exact ⟨(hreferences q hmem).isDynamic_eq, (hreferences q hmem).wildcardPath_eq⟩
  have hclean : (gather references r.path).cleanPath =
      if Address.hasInterpolation r.path.toList then
        some (String.ofList (Address.wildcard r.path.toList)) else none := by
    change ((references.filter (·.path = r.path)).filter (·.isDynamic)).findSome? (·.wildcardPath) = _
    have hmem : r ∈ references.filter (·.path = r.path) := by simp [hr]
    cases hinterpolated : Address.hasInterpolation r.path.toList with
    | true =>
      have hall : (references.filter (·.path = r.path)).filter (·.isDynamic) =
          references.filter (·.path = r.path) :=
        List.filter_eq_self.mpr fun q hq => (hsame q hq).1.trans hinterpolated
      obtain ⟨q, rest, hcons⟩ := List.exists_cons_of_ne_nil (List.ne_nil_of_mem hmem)
      have hq := (hsame q (by rw [hcons]; exact List.mem_cons_self)).2
      rw [hinterpolated, if_pos rfl] at hq
      rw [hall, hcons, List.findSome?_cons, hq]
      rfl
    | false =>
      have hnone : (references.filter (·.path = r.path)).filter (·.isDynamic) = [] :=
        List.filter_eq_nil_iff.mpr fun q hq => by rw [(hsame q hq).1, hinterpolated]; decide
      rw [hnone]
      rfl
  have heta : gather references r.path = ⟨(gather references r.path).path,
    (gather references r.path).cleanPath, (gather references r.path).isDynamic,
    (gather references r.path).occurrences⟩ := rfl
  rw [heta, hdynamic, hclean]
  rfl

variable {p : Reference → Bool}

/-- The group without the references that are left out, unless it keeps none. -/
def keeping? (p : Reference → Bool) (g : UsageGroup) : Option UsageGroup :=
  if g.occurrences.filter p = [] then none else some { g with occurrences := g.occurrences.filter p }

theorem keeping?_gather (hreferences : ∀ r ∈ references, r.OfRaw) {r : Reference} (hr : r ∈ references) :
    (gather references r.path).keeping? p =
      if (references.filter p).any (·.path = r.path) then
        some (gather (references.filter p) r.path) else none := by
  have hocc : ((gather references r.path).occurrences.filter p) =
      (references.filter p).filter (·.path = r.path) := List.filter_comm _ _ _
  rw [keeping?, hocc]
  by_cases hany : (references.filter p).any (·.path = r.path) = true
  · obtain ⟨q, hq, hpath⟩ := List.any_eq_true.mp hany
    rw [decide_eq_true_iff] at hpath
    have hne : (references.filter p).filter (·.path = r.path) ≠ [] :=
      List.ne_nil_of_mem (List.mem_filter.mpr ⟨hq, by simpa using hpath⟩)
    rw [if_neg hne, if_pos hany, gather_eq hreferences hr, ← hpath,
      gather_eq (fun r hr => hreferences r (List.mem_of_mem_filter hr)) hq]
  · have hnil : (references.filter p).filter (·.path = r.path) = [] := by
      rw [List.filter_eq_nil_iff]
      intro q hq hpath
      exact hany (List.any_eq_true.mpr ⟨q, hq, hpath⟩)
    rw [if_pos hnil, if_neg hany]

/-- **To leave references out leaves them out of their groups.** -/
theorem ofReferences_filter (hreferences : ∀ r ∈ references, r.OfRaw) :
    ofReferences (references.filter p) = (ofReferences references).filterMap (keeping? p) := by
  have hkeys : Text.sortedDistinct ((references.filter p).map (·.path)) =
      (Text.sortedDistinct (references.map (·.path))).filter
        fun path => (references.filter p).any (·.path = path) := by
    refine (Text.eq_sortedDistinct ((Text.pairwise_sortedDistinct _).filter _) fun path => ?_).symm
    rw [List.mem_filter, Text.mem_sortedDistinct, List.mem_map, List.mem_map]
    simp only [List.any_eq_true, decide_eq_true_iff]
    constructor
    · rintro ⟨-, r, hr, rfl⟩
      exact ⟨r, hr, rfl⟩
    · rintro ⟨r, hr, rfl⟩
      exact ⟨⟨r, List.mem_of_mem_filter hr, rfl⟩, r, hr, rfl⟩
  rw [ofReferences, hkeys, ofReferences, List.filterMap_map, ← List.filterMap_eq_map,
    List.filterMap_filter]
  refine List.filterMap_congr fun path hpath => ?_
  obtain ⟨r, hr, rfl⟩ := List.mem_map.mp (Text.mem_sortedDistinct.mp hpath)
  exact (keeping?_gather hreferences hr).symm

end UsageGroup

/-- The classified group without the references that are left out, unless it keeps none. -/
def ClassifiedGroup.keeping? (p : Reference → Bool) (c : ClassifiedGroup) : Option ClassifiedGroup :=
  (c.group.keeping? p).map fun g => { c with group := g }

namespace Classification

/-- Groups that keep a reference keep their verdict. -/
theorem ofGroups_filterMap_keeping? (groups : List UsageGroup) (pages : RouteTable)
    (p : Reference → Bool) :
    (ofGroups (groups.filterMap (UsageGroup.keeping? p)) pages).groups =
      (ofGroups groups pages).groups.filterMap (ClassifiedGroup.keeping? p) := by
  rw [ofGroups, ofGroups, List.map_filterMap, List.filterMap_map]
  refine List.filterMap_congr fun g _ => ?_
  rw [Function.comp_apply, ClassifiedGroup.keeping?, UsageGroup.keeping?]
  split_ifs <;> rfl

theorem internalPaths_keeping?_subset (groups : List ClassifiedGroup) (p : Reference → Bool) :
    internalPaths (groups.filterMap (ClassifiedGroup.keeping? p)) ⊆ internalPaths groups := by
  intro path hpath
  obtain ⟨c', hc', rfl⟩ := List.mem_map.mp hpath
  obtain ⟨hmem, hinternal⟩ := List.mem_filter.mp hc'
  obtain ⟨c, hc, hkeeping⟩ := List.mem_filterMap.mp hmem
  obtain ⟨g, hg, rfl⟩ := Option.map_eq_some_iff.mp hkeeping
  unfold UsageGroup.keeping? at hg
  split_ifs at hg
  obtain rfl := Option.some.inj hg
  exact List.mem_map.mpr ⟨c, List.mem_filter.mpr ⟨hc, hinternal⟩, rfl⟩

end Classification

/-- With fewer internal paths, more pages are unused. -/
theorem unusedRoutes_sublist (pages : RouteTable) {groups groups' : List ClassifiedGroup}
    (h : Classification.internalPaths groups' ⊆ Classification.internalPaths groups)
    (exclusions : List String) (appRoot : String) :
    (unusedRoutes pages groups exclusions appRoot).Sublist
      (unusedRoutes pages groups' exclusions appRoot) := by
  refine List.monotone_filter_right _ fun e he => ?_
  rw [Bool.and_eq_true, Bool.not_eq_true', List.any_eq_false] at he ⊢
  exact ⟨he.1, fun path hpath => he.2 path (h hpath)⟩

end RouteAudit
