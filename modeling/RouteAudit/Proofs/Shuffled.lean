import RouteAudit.Proofs.Face

/-!
# References in another order

A report does not depend on the order in which references and issues were gathered, but for the usages of
a broken path, which keep that order (`analyze_perm`).

Proof. What a group says of its path follows from the path, so groups of the same references in another
order are the same but for the order of their occurrences (`ofReferences_perm`), and so are the classified
ones. The number of the occurrences and their distinct files do not depend on the order, and issues that
stand at one place of their order are the same.
-/

namespace RouteAudit

/-- Lists that match member by member agree in what matching members agree in. -/
theorem map_eq_of_forall₂ {α β γ : Type} {R : α → β → Prop} {f : α → γ} {g : β → γ} {l : List α}
    {l' : List β} (h : List.Forall₂ R l l') (hfg : ∀ a b, R a b → f a = g b) : l.map f = l'.map g := by
  induction h with
  | nil => rfl
  | cons hab _ ih => rw [List.map_cons, List.map_cons, hfg _ _ hab, ih]

/-! ## Groups -/

/-- The same group but for the order of its references. -/
structure UsageGroup.SameButOrder (g g' : UsageGroup) : Prop where
  path : g.path = g'.path
  cleanPath : g.cleanPath = g'.cleanPath
  isDynamic : g.isDynamic = g'.isDynamic
  occurrences : g.occurrences.Perm g'.occurrences

namespace UsageGroup

variable {references references' : List Reference} {g g' : UsageGroup}

theorem SameButOrder.usageCount_eq (h : g.SameButOrder g') : g.usageCount = g'.usageCount :=
  h.occurrences.length_eq

theorem SameButOrder.files_eq (h : g.SameButOrder g') : g.files = g'.files :=
  Text.sortedDistinct_congr fun _ => (h.occurrences.map _).mem_iff

theorem SameButOrder.verdict_eq (h : g.SameButOrder g') (pages : RouteTable) :
    g.verdict pages = g'.verdict pages := by
  rw [verdict, verdict, h.path, h.isDynamic]

/-- **The groups of the same references in another order** are the same but for the order. -/
theorem ofReferences_perm (hraw : ∀ r ∈ references, r.OfRaw) (h : references'.Perm references) :
    List.Forall₂ SameButOrder (ofReferences references') (ofReferences references) := by
  have hkeys : Text.sortedDistinct (references'.map (·.path)) =
      Text.sortedDistinct (references.map (·.path)) :=
    Text.sortedDistinct_congr fun _ => (h.map _).mem_iff
  rw [ofReferences, ofReferences, hkeys, List.forall₂_map_left_iff, List.forall₂_map_right_iff,
    List.forall₂_same]
  intro path hpath
  obtain ⟨r, hr, rfl⟩ := List.mem_map.mp (Text.mem_sortedDistinct.mp hpath)
  rw [gather_eq hraw hr, gather_eq (fun r hr => hraw r (h.subset hr)) (h.symm.subset hr)]
  exact ⟨rfl, rfl, rfl, h.filter _⟩

end UsageGroup

/-- The same classified group but for the order of its references. -/
structure ClassifiedGroup.SameButOrder (c c' : ClassifiedGroup) : Prop where
  group : c.group.SameButOrder c'.group
  verdict : c.verdict = c'.verdict

theorem ClassifiedGroup.SameButOrder.row_eq {c c' : ClassifiedGroup} (h : c.SameButOrder c') :
    c.row = c'.row := by
  rw [row, row, h.group.path, h.group.cleanPath, h.group.isDynamic, h.verdict]

namespace Classification

variable {groups groups' : List UsageGroup} {classification classification' : Classification}

theorem ofGroups_perm (h : List.Forall₂ UsageGroup.SameButOrder groups' groups) (pages : RouteTable) :
    List.Forall₂ ClassifiedGroup.SameButOrder (ofGroups groups' pages).groups
      (ofGroups groups pages).groups := by
  rw [ofGroups, ofGroups, List.forall₂_map_left_iff, List.forall₂_map_right_iff]
  exact h.imp fun _ _ hg => ⟨hg, hg.verdict_eq pages⟩

theorem withVerdict_perm
    (h : List.Forall₂ ClassifiedGroup.SameButOrder classification'.groups classification.groups)
    (v : Verdict) : List.Forall₂ ClassifiedGroup.SameButOrder (classification'.withVerdict v)
      (classification.withVerdict v) :=
  List.rel_filter (fun _ _ hc => by simp only [hc.verdict]) h

theorem dynamic_perm
    (h : List.Forall₂ ClassifiedGroup.SameButOrder classification'.groups classification.groups) :
    List.Forall₂ ClassifiedGroup.SameButOrder classification'.dynamic classification.dynamic :=
  List.rel_filter (fun _ _ hc => by simp only [hc.group.isDynamic]) h

end Classification

/-! ## Reports -/

/-- The same broken path but for the order of its usages. -/
structure BrokenRoute.SameButOrder (r r' : BrokenRoute) : Prop where
  path : r.path = r'.path
  cleanPath : r.cleanPath = r'.cleanPath
  isDynamic : r.isDynamic = r'.isDynamic
  usages : r.usages.Perm r'.usages
  issue : r.issue = r'.issue

theorem BrokenRoute.ofGroup_perm {g g' : UsageGroup} (h : g.SameButOrder g') :
    (ofGroup g).SameButOrder (ofGroup g') :=
  ⟨h.path, h.cleanPath, h.isDynamic, h.occurrences.map _, rfl⟩

theorem DynamicRoute.ofGroup_perm {g g' : UsageGroup} (h : g.SameButOrder g') : ofGroup g = ofGroup g' := by
  rw [ofGroup, ofGroup, h.path, h.cleanPath, h.usageCount_eq]

theorem UsedRoute.ofGroup_perm {g g' : UsageGroup} (h : g.SameButOrder g') : ofGroup g = ofGroup g' := by
  rw [ofGroup, ofGroup, h.path, h.cleanPath, h.isDynamic, h.usageCount_eq, h.files_eq]

/-- **The order in which references and issues were gathered does not matter**: the report is the same
but for the order of the usages of each broken path. -/
theorem Config.analyze_perm (c : Config) (collection : Collection) {scan scan' : Scan}
    (hraw : ∀ r ∈ scan.references, r.OfRaw) (hreferences : scan'.references.Perm scan.references)
    (hissues : scan'.issues.Perm scan.issues) (time : Timestamp) :
    let r := c.analyze collection scan time
    let r' := c.analyze collection scan' time
    r'.generatedAt = r.generatedAt ∧ r'.summary = r.summary ∧ r'.unusedRoutes = r.unusedRoutes ∧
      r'.dynamicRoutes = r.dynamicRoutes ∧ r'.allAppRoutes = r.allAppRoutes ∧
      r'.allUsedRoutes = r.allUsedRoutes ∧ r'.errors = r.errors ∧
      List.Forall₂ BrokenRoute.SameButOrder r'.brokenRoutes r.brokenRoutes := by
  intro r r'
  have hgroups : List.Forall₂ ClassifiedGroup.SameButOrder (classify collection scan').groups
      (classify collection scan).groups :=
    Classification.ofGroups_perm (UsageGroup.ofReferences_perm hraw hreferences) _
  have hrows : (classify collection scan').groups.map ClassifiedGroup.row =
      (classify collection scan).groups.map ClassifiedGroup.row :=
    map_eq_of_forall₂ hgroups fun _ _ hc => hc.row_eq
  have hunused : unusedRoutes collection.table.pages (classify collection scan').groups
        c.report.unusedExclusions c.roots.appDir =
      unusedRoutes collection.table.pages (classify collection scan).groups
        c.report.unusedExclusions c.roots.appDir := by
    rw [unusedRoutes, unusedRoutes, Classification.internalPaths_eq, Classification.internalPaths_eq, hrows]
  refine ⟨rfl, ?summary, ?unused, ?dynamic, rfl, ?used, ?errors, ?broken⟩
  case summary =>
    exact (Summary.of_congr hrows _ _).trans (congrArg (Summary.of _ _) hunused)
  case unused =>
    exact congrArg (fun l : List RouteEntry => (l.map UnusedRoute.ofEntry).mergeSort UnusedRoute.le) hunused
  case dynamic =>
    exact map_eq_of_forall₂ (Classification.dynamic_perm hgroups)
      fun _ _ hc => DynamicRoute.ofGroup_perm hc.group
  case used =>
    exact map_eq_of_forall₂ hgroups fun _ _ hc => UsedRoute.ofGroup_perm hc.group
  case errors =>
    exact Issue.sortOrder_le.mergeSort_eq_of_perm Issue.le_antisymm (hissues.append_left _)
  case broken =>
    refine List.forall₂_map_left_iff.mpr (List.forall₂_map_right_iff.mpr ?_)
    exact (Classification.withVerdict_perm hgroups .broken).imp
      fun _ _ hc => BrokenRoute.ofGroup_perm hc.group

/-- Two files that refer to one missing page are read in another order, as are two unreadable ones. -/
theorem Config.analyze_perm_gone :
    let reference raw file := Reference.ofRaw raw .link file 1 ""
    let issue path := Issue.unreadableFile path .notUtf8
    let scan : Scan :=
      { references := [reference "/gone/${id}" "src/a.tsx", reference "/gone/${id}?tab=1" "src/b.tsx"]
        issues := [issue "src/c.tsx", issue "src/d.tsx"] }
    let scan' : Scan :=
      { references := [reference "/gone/${id}?tab=1" "src/b.tsx", reference "/gone/${id}" "src/a.tsx"]
        issues := [issue "src/d.tsx", issue "src/c.tsx"] }
    (∀ r ∈ scan.references, r.OfRaw) ∧ scan'.references.Perm scan.references ∧
      scan'.issues.Perm scan.issues ∧ scan' ≠ scan ∧
      (analyze {} {} scan' .epoch).errors = (analyze {} {} scan .epoch).errors ∧
      List.Forall₂ BrokenRoute.SameButOrder (analyze {} {} scan' .epoch).brokenRoutes
        (analyze {} {} scan .epoch).brokenRoutes := by
  intro reference issue scan scan'
  have hraw : ∀ r ∈ scan.references, r.OfRaw := by decide
  have hreferences : scan'.references.Perm scan.references := by decide
  have hissues : scan'.issues.Perm scan.issues := by decide
  have hne : scan' ≠ scan := by decide
  obtain ⟨-, -, -, -, -, -, herrors, hbroken⟩ := analyze_perm {} {} hraw hreferences hissues .epoch
  exact ⟨hraw, hreferences, hissues, hne, herrors, hbroken⟩

end RouteAudit
