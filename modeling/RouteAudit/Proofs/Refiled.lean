import RouteAudit.Proofs.Face

/-!
# An analysis of the same files in other places

If a map of paths keeps their order, an analysis of which all files are mapped gives the report of which
all files are mapped (`analyze_mapFiles`): groups, verdicts and totals are the same, and every list of
files or by files stands in the same order. The words of issues and the time are left aside
(`Report.unworded`).
-/

namespace RouteAudit

/-- The map keeps the order of paths. -/
def KeepsOrder (g : String → String) : Prop :=
  ∀ a b, g a < g b ↔ a < b

namespace KeepsOrder

variable {g : String → String}

theorem le_iff (hg : KeepsOrder g) (a b : String) : g a ≤ g b ↔ a ≤ b := by
  rw [← String.not_lt, ← String.not_lt, hg]

theorem eq_iff (hg : KeepsOrder g) (a b : String) : g a = g b ↔ a = b := by
  refine ⟨fun h => ?_, congrArg g⟩
  exact Std.le_antisymm ((hg.le_iff a b).mp (h ▸ Std.le_refl _)) ((hg.le_iff b a).mp (h ▸ Std.le_refl _))

/-- To map distinct members in ascending order gives the distinct images in ascending order. -/
theorem sortedDistinct_map (hg : KeepsOrder g) (xs : List String) :
    Text.sortedDistinct (xs.map g) = (Text.sortedDistinct xs).map g := by
  refine (Text.eq_sortedDistinct ?_ fun a => ?_).symm
  · rw [List.pairwise_map]
    exact (Text.pairwise_sortedDistinct xs).imp fun {a b} h => (hg a b).mpr h
  · simp only [List.mem_map, Text.mem_sortedDistinct]

end KeepsOrder

/-! ## Maps of files -/

def Reference.mapFile (g : String → String) (r : Reference) : Reference :=
  { r with file := g r.file }

def RouteEntry.mapFile (g : String → String) (e : RouteEntry) : RouteEntry :=
  { e with file := g e.file }

def RouteTable.mapFiles (g : String → String) (t : RouteTable) : RouteTable :=
  ⟨t.entries.map (RouteEntry.mapFile g)⟩

def UsageGroup.mapFiles (g : String → String) (u : UsageGroup) : UsageGroup :=
  { u with occurrences := u.occurrences.map (Reference.mapFile g) }

def ClassifiedGroup.mapFiles (g : String → String) (c : ClassifiedGroup) : ClassifiedGroup :=
  { c with group := c.group.mapFiles g }

def Classification.mapFiles (g : String → String) (c : Classification) : Classification :=
  ⟨c.groups.map (ClassifiedGroup.mapFiles g)⟩

def Issue.mapPath (g : String → String) (i : Issue) : Issue :=
  { i with path := g i.path }

def UsageSite.mapFile (g : String → String) (u : UsageSite) : UsageSite :=
  { u with file := g u.file }

def BrokenRoute.mapFiles (g : String → String) (r : BrokenRoute) : BrokenRoute :=
  { r with usages := r.usages.map (UsageSite.mapFile g) }

def UnusedRoute.mapFile (g : String → String) (r : UnusedRoute) : UnusedRoute :=
  { r with file := g r.file }

def AppRoute.mapFile (g : String → String) (r : AppRoute) : AppRoute :=
  { r with file := g r.file }

def UsedRoute.mapFiles (g : String → String) (r : UsedRoute) : UsedRoute :=
  { r with files := r.files.map g }

/-- The report with every file and every path of an issue mapped. -/
def Report.mapFiles (g : String → String) (r : Report) : Report :=
  { r with
    brokenRoutes := r.brokenRoutes.map (BrokenRoute.mapFiles g)
    unusedRoutes := r.unusedRoutes.map (UnusedRoute.mapFile g)
    allAppRoutes := r.allAppRoutes.map (AppRoute.mapFile g)
    allUsedRoutes := r.allUsedRoutes.map (UsedRoute.mapFiles g)
    errors := r.errors.map (Issue.mapPath g) }

/-- The issue without its message. -/
def Issue.unworded (i : Issue) : Issue :=
  { i with message := "" }

/-- What is left of an issue without its message does not depend on the message. -/
theorem Issue.unworded_congr {i j : Issue} (hkind : i.kind = j.kind) (hpath : i.path = j.path) :
    i.unworded = j.unworded := by
  rw [unworded, unworded, hkind, hpath]

/-- The report without its time and without the messages of the issues. -/
def Report.unworded (r : Report) : Report :=
  { r with generatedAt := "", errors := r.errors.map Issue.unworded }

theorem BrokenRoute.mapFiles_comp (f g : String → String) : mapFiles f ∘ mapFiles g = mapFiles (f ∘ g) := by
  funext r
  rw [Function.comp_apply, mapFiles, mapFiles, List.map_map]
  rfl

theorem UsedRoute.mapFiles_comp (f g : String → String) : mapFiles f ∘ mapFiles g = mapFiles (f ∘ g) := by
  funext r
  rw [Function.comp_apply, mapFiles, mapFiles, List.map_map]
  rfl

theorem Report.mapFiles_mapFiles (f g : String → String) (r : Report) :
    (r.mapFiles g).mapFiles f = r.mapFiles (f ∘ g) := by
  simp only [mapFiles, List.map_map, BrokenRoute.mapFiles_comp, UsedRoute.mapFiles_comp]
  rfl

theorem Report.unworded_mapFiles (g : String → String) (r : Report) :
    (r.mapFiles g).unworded = r.unworded.mapFiles g := by
  simp only [mapFiles, unworded, List.map_map]
  rfl

/-! ## Groups and verdicts -/

variable {g : String → String}

namespace UsageGroup

theorem gather_mapFile (references : List Reference) (path : String) :
    gather (references.map (Reference.mapFile g)) path = (gather references path).mapFiles g := by
  have hpath : ((fun r : Reference => decide (r.path = path)) ∘ Reference.mapFile g) =
    fun r => decide (r.path = path) := rfl
  simp only [gather, mapFiles, List.filter_map, List.any_map, List.findSome?_map]
  rfl

theorem ofReferences_mapFile (references : List Reference) :
    ofReferences (references.map (Reference.mapFile g)) = (ofReferences references).map (mapFiles g) := by
  have hpaths : (references.map (Reference.mapFile g)).map (·.path) = references.map (·.path) :=
    List.map_map
  rw [ofReferences, ofReferences, hpaths, List.map_map]
  exact List.map_congr_left fun path _ => gather_mapFile references path

theorem files_mapFiles (hg : KeepsOrder g) (u : UsageGroup) : (u.mapFiles g).files = u.files.map g := by
  rw [files, files, ← hg.sortedDistinct_map, mapFiles, List.map_map, List.map_map]
  rfl

end UsageGroup

theorem RouteTable.pages_mapFiles (t : RouteTable) : (t.mapFiles g).pages = t.pages.mapFiles g := by
  rw [pages, pages, mapFiles, mapFiles, List.filter_map]
  rfl

theorem verdictOn_mapFiles (path : String) (isDynamic : Bool) (t : RouteTable) :
    verdictOn path isDynamic (t.mapFiles g) = verdictOn path isDynamic t := by
  have hany : ∀ p : RouteEntry → Bool, (∀ e, p (e.mapFile g) = p e) →
      (t.mapFiles g).entries.any p = t.entries.any p := by
    intro p hp
    rw [RouteTable.mapFiles, List.any_map]
    exact congrArg _ (funext hp)
  exact verdictOn_eq_of (hany _ fun _ => rfl) (fun _ => hany _ fun _ => rfl) (fun _ => hany _ fun _ => rfl)
    path isDynamic

namespace Classification

theorem ofGroups_mapFiles (groups : List UsageGroup) (pages : RouteTable) :
    ofGroups (groups.map (UsageGroup.mapFiles g)) (pages.mapFiles g) = (ofGroups groups pages).mapFiles g := by
  rw [ofGroups, ofGroups, mapFiles, List.map_map, List.map_map]
  refine congrArg mk (List.map_congr_left fun u _ => ?_)
  rw [Function.comp_apply, UsageGroup.verdict, verdictOn_mapFiles]
  rfl

variable (c : Classification)

theorem withVerdict_mapFiles (v : Verdict) :
    (c.mapFiles g).withVerdict v = (c.withVerdict v).map (ClassifiedGroup.mapFiles g) := by
  rw [withVerdict, withVerdict, mapFiles, List.filter_map]
  rfl

theorem dynamic_mapFiles : (c.mapFiles g).dynamic = c.dynamic.map (ClassifiedGroup.mapFiles g) := by
  rw [dynamic, dynamic, mapFiles, List.filter_map]
  rfl

theorem internalPaths_mapFiles : internalPaths (c.mapFiles g).groups = internalPaths c.groups := by
  rw [internalPaths, internalPaths, mapFiles, List.filter_map, List.map_map]
  rfl

end Classification

/-! ## Issues -/

namespace Issue

theorem le_unworded {a b : Issue} (h : a.le b = true) : a.unworded.le b.unworded = true := by
  unfold le unworded at *
  dsimp only at *
  split_ifs at h ⊢ <;> simp_all

/-- Issues that are sorted by their messages too are sorted without them. -/
theorem map_unworded_sorted (issues : List Issue) :
    (sorted issues).map unworded = sorted (issues.map unworded) := by
  have hperm : ((sorted issues).map unworded).Perm (sorted (issues.map unworded)) :=
    ((List.mergeSort_perm issues le).map unworded).trans (List.mergeSort_perm _ le).symm
  refine hperm.eq_of_pairwise (fun a b _ _ => le_antisymm a b) ?_
    (List.pairwise_mergeSort sortOrder_le.trans sortOrder_le.total _)
  rw [List.pairwise_map]
  exact (List.pairwise_mergeSort sortOrder_le.trans sortOrder_le.total issues).imp le_unworded

theorem sorted_mapPath (hg : KeepsOrder g) (issues : List Issue) :
    sorted (issues.map (mapPath g)) = (sorted issues).map (mapPath g) := by
  refine (List.map_mergeSort fun a _ b _ => ?_).symm
  simp only [le, mapPath, ne_eq, hg.eq_iff, hg a.path b.path]
  split_ifs <;> rfl

/-- Issues that are the same but for their messages are the same in order. -/
theorem map_unworded_sorted_congr {issues issues' : List Issue}
    (h : issues'.map unworded = issues.map unworded) :
    (sorted issues').map unworded = (sorted issues).map unworded := by
  rw [map_unworded_sorted, map_unworded_sorted, h]

end Issue

/-! ## Reports -/

theorem Summary.of_mapFiles (table : RouteTable) (classification : Classification)
    (unused : List RouteEntry) :
    Summary.of (table.mapFiles g) (classification.mapFiles g) (unused.map (RouteEntry.mapFile g)) =
      Summary.of table classification unused := by
  have hcount : ∀ v, (classification.mapFiles g).count v = classification.count v := by
    intro v
    rw [Classification.count, Classification.withVerdict_mapFiles, List.length_map, Classification.count]
  have hpages : (table.mapFiles g).pageCount = table.pageCount := List.countP_map ..
  have hvalid : (classification.mapFiles g).validCount = classification.validCount := List.countP_map ..
  have hdynamic : (classification.mapFiles g).dynamicCount = classification.dynamicCount := by
    rw [Classification.dynamicCount, Classification.dynamic_mapFiles, List.length_map]
    rfl
  have hsize : (table.mapFiles g).size = table.size := List.length_map ..
  have hused : (classification.mapFiles g).size = classification.size := List.length_map ..
  rw [Summary.of, Summary.of, hsize, hpages, hused, hvalid, hcount, hcount, hcount, hdynamic,
    List.length_map]

theorem BrokenRoute.ofGroup_mapFiles (u : UsageGroup) :
    ofGroup (u.mapFiles g) = (ofGroup u).mapFiles g := by
  simp only [ofGroup, mapFiles, UsageGroup.mapFiles, List.map_map]
  rfl

theorem UsedRoute.ofGroup_mapFiles (hg : KeepsOrder g) (u : UsageGroup) :
    ofGroup (u.mapFiles g) = (ofGroup u).mapFiles g := by
  rw [ofGroup, u.files_mapFiles hg]
  simp only [mapFiles, ofGroup, UsageGroup.usageCount, UsageGroup.mapFiles, List.length_map]

theorem UnusedRoute.sorted_mapFile (hg : KeepsOrder g) (entries : List RouteEntry) :
    ((entries.map (RouteEntry.mapFile g)).map ofEntry).mergeSort le =
      ((entries.map ofEntry).mergeSort le).map (mapFile g) := by
  have hmap : (entries.map (RouteEntry.mapFile g)).map ofEntry = (entries.map ofEntry).map (mapFile g) := by
    rw [List.map_map, List.map_map]
    rfl
  rw [hmap]
  refine (List.map_mergeSort fun a _ b _ => ?_).symm
  simp only [le, mapFile, hg.le_iff]
  split_ifs <;> rfl

/-- **A report on mapped files** is the mapped report. -/
theorem Report.build_mapFiles (hg : KeepsOrder g) (time time' : Timestamp) (table : RouteTable)
    (classification : Classification) (unused : List RouteEntry) {errors errors' : List Issue}
    (herrors : errors'.map Issue.unworded = (errors.map (Issue.mapPath g)).map Issue.unworded) :
    (Report.build time' (table.mapFiles g) (classification.mapFiles g)
        (unused.map (RouteEntry.mapFile g)) errors').unworded =
      ((Report.build time table classification unused errors).mapFiles g).unworded := by
  have hbroken : ((classification.mapFiles g).withVerdict .broken).map (fun c => BrokenRoute.ofGroup c.group) =
      ((classification.withVerdict .broken).map fun c => BrokenRoute.ofGroup c.group).map
        (BrokenRoute.mapFiles g) := by
    rw [Classification.withVerdict_mapFiles, List.map_map, List.map_map]
    exact List.map_congr_left fun c _ => BrokenRoute.ofGroup_mapFiles c.group
  have hdynamic : (classification.mapFiles g).dynamic.map (fun c => DynamicRoute.ofGroup c.group) =
      classification.dynamic.map fun c => DynamicRoute.ofGroup c.group := by
    rw [Classification.dynamic_mapFiles, List.map_map]
    refine List.map_congr_left fun c _ => ?_
    rw [Function.comp_apply, DynamicRoute.ofGroup, UsageGroup.usageCount, ClassifiedGroup.mapFiles,
      UsageGroup.mapFiles, List.length_map]
    rfl
  have hused : (classification.mapFiles g).groups.map (fun c => UsedRoute.ofGroup c.group) =
      (classification.groups.map fun c => UsedRoute.ofGroup c.group).map (UsedRoute.mapFiles g) := by
    rw [Classification.mapFiles, List.map_map, List.map_map]
    exact List.map_congr_left fun c _ => UsedRoute.ofGroup_mapFiles hg c.group
  have hroutes : (table.mapFiles g).entries.map AppRoute.ofEntry =
      (table.entries.map AppRoute.ofEntry).map (AppRoute.mapFile g) := by
    rw [RouteTable.mapFiles, List.map_map, List.map_map]
    rfl
  have hsorted : (Issue.sorted errors').map Issue.unworded =
      ((Issue.sorted errors).map (Issue.mapPath g)).map Issue.unworded := by
    rw [← Issue.sorted_mapPath hg]
    exact Issue.map_unworded_sorted_congr herrors
  simp only [Report.build, Report.unworded, Report.mapFiles, Summary.of_mapFiles, hbroken, hdynamic, hused,
    hroutes, hsorted, UnusedRoute.sorted_mapFile hg]

/-! ## Analyses -/

/-- The files of a collection are mapped, and those of the entries lie under the same directories below
the new root as they did below the old one. -/
structure Collection.IsMapped (g : String → String) (root root' : String) (c c' : Collection) : Prop where
  table : c'.table = c.table.mapFiles g
  issues : c'.issues.map Issue.unworded = (c.issues.map (Issue.mapPath g)).map Issue.unworded
  isUnder : ∀ e ∈ c.table.entries, ∀ dir, (e.mapFile g).isUnder root' dir = e.isUnder root dir

/-- The files of a scan are mapped. -/
structure Scan.IsMapped (g : String → String) (s s' : Scan) : Prop where
  references : s'.references = s.references.map (Reference.mapFile g)
  issues : s'.issues.map Issue.unworded = (s.issues.map (Issue.mapPath g)).map Issue.unworded

theorem unusedRoutes_mapFile {pages : RouteTable} {root root' : String}
    (hunder : ∀ e ∈ pages.entries, ∀ dir, (e.mapFile g).isUnder root' dir = e.isUnder root dir)
    (classification : Classification) (exclusions : List String) :
    unusedRoutes (pages.mapFiles g) (classification.mapFiles g).groups exclusions root' =
      (unusedRoutes pages classification.groups exclusions root).map (RouteEntry.mapFile g) := by
  rw [unusedRoutes, unusedRoutes, Classification.internalPaths_mapFiles, RouteTable.mapFiles,
    List.filter_map]
  refine congrArg _ (List.filter_congr fun e he => ?_)
  have hexcluded : (e.mapFile g).isExcluded exclusions root' = e.isExcluded exclusions root := by
    simp only [RouteEntry.isExcluded, RouteEntry.isCalled, hunder e he]
    rfl
  rw [Function.comp_apply, hexcluded]
  rfl

theorem Config.classify_mapped {collection collection' : Collection} {scan scan' : Scan} {root root' : String}
    (hcollection : collection.IsMapped g root root' collection') (hscan : scan.IsMapped g scan') :
    classify collection' scan' = (classify collection scan).mapFiles g := by
  rw [classify, classify, hcollection.table, hscan.references, UsageGroup.ofReferences_mapFile,
    RouteTable.pages_mapFiles, Classification.ofGroups_mapFiles]

theorem Classification.rows_mapFiles (c : Classification) :
    (c.mapFiles g).groups.map ClassifiedGroup.row = c.groups.map ClassifiedGroup.row := by
  rw [mapFiles, List.map_map]
  rfl

/-- **An analysis of mapped files** gives the mapped report. -/
theorem Config.analyze_mapped (hg : KeepsOrder g) (c c' : Config) (hreport : c'.report = c.report)
    {collection collection' : Collection} {scan scan' : Scan}
    (hcollection : collection.IsMapped g c.roots.appDir c'.roots.appDir collection')
    (hscan : scan.IsMapped g scan') (time time' : Timestamp) :
    (c'.analyze collection' scan' time').unworded =
      ((c.analyze collection scan time).mapFiles g).unworded := by
  have hclassify : Classification.ofGroups (UsageGroup.ofReferences scan'.references)
      collection'.table.pages = (classify collection scan).mapFiles g :=
    classify_mapped hcollection hscan
  have hunder : ∀ e ∈ collection.table.pages.entries, ∀ dir,
      (e.mapFile g).isUnder c'.roots.appDir dir = e.isUnder c.roots.appDir dir :=
    fun e he => hcollection.isUnder e (List.mem_of_mem_filter he)
  rw [analyze, analyze, hclassify, hcollection.table, RouteTable.pages_mapFiles, hreport,
    unusedRoutes_mapFile hunder (classify collection scan)]
  refine Report.build_mapFiles hg time time' _ _ _ ?_
  simp only [List.map_append, hcollection.issues, hscan.issues]

end RouteAudit
