import RouteAudit.Proofs.Scanned
import RouteAudit.Proofs.Verdict
import RouteAudit.Proofs.Without

/-!
# What an analysis says apart from files

Of an entry, the analysis asks for the declared path, the kind, and whether the page is excluded
(`RouteFace`), and of a used path for its references. So two analyses whose entries have the same faces
and whose references are the same but for their files, in whatever order, agree but for places:
in the declared paths, the verdicts, the unused pages and the summary
(`AgreeButPlaces.of_perm`).

Proof. The used paths stand in the order of their paths, and a verdict depends on the set of the
declared paths (`verdictOn_congr`), so the rows of the used paths are the same (`usageRows_congr`). The
unused pages and the totals can be had from faces and rows (`map_face_unusedRoutes`, `of_eq_ofFaces`).
-/

namespace RouteAudit

/-! ## Entries -/

/-- An entry apart from its file. -/
structure RouteFace where
  declaredPath : String
  kind : LeafKind
  isExcluded : Bool

def RouteEntry.face (exclusions : List String) (appRoot : String) (e : RouteEntry) : RouteFace :=
  ⟨e.declaredPath, e.kind, e.isExcluded exclusions appRoot⟩

/-- Every entry is made from its declared path. -/
def RouteTable.OfPaths (t : RouteTable) : Prop :=
  ∀ e ∈ t.entries, e = .ofPath e.declaredPath e.file e.kind

namespace RouteFace

def isPage (r : RouteFace) : Bool :=
  r.kind = .page

/-- Whether the entry accepts the address; its file does not matter. -/
def accepts (r : RouteFace) (address : String) : Bool :=
  ((RouteEntry.ofPath r.declaredPath "" r.kind).accepts? address).isSome

/-- The kind of the issue if the declared path does not compile. -/
def issueKind? (r : RouteFace) : Option IssueKind :=
  match (RouteEntry.ofPath r.declaredPath "" r.kind).matcher with
  | .malformed _ => some .malformedPattern
  | _ => none

end RouteFace

namespace RouteTable.OfPaths

variable {t t' : RouteTable} {exclusions : List String} {appRoot : String}

theorem pages (h : t.OfPaths) : t.pages.OfPages := by
  intro e he
  obtain ⟨hmem, hpage⟩ := List.mem_filter.mp he
  have hkind : e.kind = .page := of_decide_eq_true hpage
  rw [← hkind]
  exact h e hmem

theorem isSome_accepts?_eq (h : t.OfPaths) {e : RouteEntry} (he : e ∈ t.entries) (address : String) :
    (e.accepts? address).isSome = (e.face exclusions appRoot).accepts address := by
  rw [h e he]
  rfl

/-- Which entries do not compile can be told from the faces. -/
theorem issueKinds_malformed (h : t.OfPaths) (exclusions : List String) (appRoot : String) :
    (t.malformed.map fun _ => IssueKind.malformedPattern) =
      (t.entries.map (RouteEntry.face exclusions appRoot)).filterMap RouteFace.issueKind? := by
  rw [malformed, List.map_filterMap, List.filterMap_map]
  refine List.filterMap_congr fun e he => ?_
  have hmatcher : e.matcher = (RouteEntry.ofPath e.declaredPath "" e.kind).matcher := by
    rw [h e he]
    rfl
  rw [Function.comp_apply, RouteFace.issueKind?, RouteEntry.face, hmatcher]
  dsimp only
  cases (RouteEntry.ofPath e.declaredPath "" e.kind).matcher <;> rfl

end RouteTable.OfPaths

/-- Tables with the same faces have pages with the same declared paths. -/
theorem RouteTable.exists_page_of_faces {t t' : RouteTable} {exclusions : List String}
    {appRoot : String} (hfaces : t.entries.map (RouteEntry.face exclusions appRoot) ⊆
      t'.entries.map (RouteEntry.face exclusions appRoot)) :
    ∀ e ∈ t.pages.entries, ∃ e' ∈ t'.pages.entries, e'.declaredPath = e.declaredPath := by
  intro e he
  obtain ⟨hmem, hpage⟩ := List.mem_filter.mp he
  obtain ⟨e', he', hface⟩ := List.mem_map.mp (hfaces (List.mem_map_of_mem hmem))
  have hpath : e'.declaredPath = e.declaredPath := congrArg RouteFace.declaredPath hface
  have hkind : e'.kind = e.kind := congrArg RouteFace.kind hface
  have hpage' : e'.isPage = true := by
    rw [RouteEntry.isPage, hkind]
    exact hpage
  exact ⟨e', List.mem_filter.mpr ⟨he', hpage'⟩, hpath⟩

/-! ## Verdicts -/

/-- Whether some entry of the declared path accepts the address does not depend on files. -/
theorem any_ofPages_congr {t t' : RouteTable} (ht : t.OfPages) (ht' : t'.OfPages)
    (hsame : ∀ e ∈ t.entries, ∃ e' ∈ t'.entries, e'.declaredPath = e.declaredPath)
    {p : RouteEntry → Bool}
    (hp : ∀ path file file', p (.ofPath path file .page) = p (.ofPath path file' .page))
    (h : t.entries.any p = true) : t'.entries.any p = true := by
  obtain ⟨e, he, hpe⟩ := List.any_eq_true.mp h
  obtain ⟨e', he', hpath⟩ := hsame e he
  rw [ht e he] at hpe
  refine List.any_eq_true.mpr ⟨e', he', ?_⟩
  rw [ht' e' he', hpath, hp _ _ e.file]
  exact hpe

/-- A verdict depends on three questions to the table. -/
theorem verdictOn_eq_of {t t' : RouteTable} (hroot : t.hasRootPage = t'.hasRootPage)
    (hdeclares : ∀ base, t.declares base = t'.declares base)
    (haccepts : ∀ path, (t.entries.any fun e => (e.accepts? path).isSome) =
      t'.entries.any fun e => (e.accepts? path).isSome)
    (path : String) (isDynamic : Bool) : verdictOn path isDynamic t = verdictOn path isDynamic t' := by
  have hresolves : t.resolves path = t'.resolves path := by
    rw [Bool.eq_iff_iff, RouteTable.resolves_iff, RouteTable.resolves_iff, ← List.any_eq_true,
      ← List.any_eq_true, haccepts]
  have hbase : hasBaseRoute path t = hasBaseRoute path t' := by
    unfold hasBaseRoute
    simp only [hroot, hdeclares]
  unfold verdictOn
  rw [hroot, hresolves, hbase]

/-- **A verdict depends on the set of the declared paths of the pages.** -/
theorem verdictOn_congr {t t' : RouteTable} (ht : t.OfPages) (ht' : t'.OfPages)
    (hsame : ∀ e ∈ t.entries, ∃ e' ∈ t'.entries, e'.declaredPath = e.declaredPath)
    (hsame' : ∀ e' ∈ t'.entries, ∃ e ∈ t.entries, e.declaredPath = e'.declaredPath)
    (path : String) (isDynamic : Bool) : verdictOn path isDynamic t = verdictOn path isDynamic t' := by
  have hany : ∀ p : RouteEntry → Bool,
      (∀ path file file', p (.ofPath path file .page) = p (.ofPath path file' .page)) →
      t.entries.any p = t'.entries.any p := fun p hp =>
    Bool.eq_iff_iff.mpr ⟨any_ofPages_congr ht ht' hsame hp, any_ofPages_congr ht' ht hsame' hp⟩
  exact verdictOn_eq_of (hany _ fun _ _ _ => rfl) (fun _ => hany _ fun _ _ _ => rfl)
    (fun _ => hany _ fun _ _ _ => rfl) path isDynamic

/-! ## Used paths -/

/-- A used path apart from its occurrences. -/
structure UsageRow where
  path : String
  cleanPath : Option String
  isDynamic : Bool
  verdict : Verdict

def ClassifiedGroup.row (c : ClassifiedGroup) : UsageRow :=
  ⟨c.group.path, c.group.cleanPath, c.group.isDynamic, c.verdict⟩

/-- The rows of the used paths, in the order of the paths. -/
def usageRows (paths : List String) (pages : RouteTable) : List UsageRow :=
  (Text.sortedDistinct paths).map fun path =>
    let isDynamic := Address.hasInterpolation path.toList
    let wildcard := String.ofList (Address.wildcard path.toList)
    ⟨path, if isDynamic then some wildcard else none, isDynamic, verdictOn path isDynamic pages⟩

theorem rows_ofGroups {references : List Reference} (hreferences : ∀ r ∈ references, r.OfRaw)
    (pages : RouteTable) :
    (Classification.ofGroups (UsageGroup.ofReferences references) pages).groups.map ClassifiedGroup.row =
      usageRows (references.map (·.path)) pages := by
  rw [Classification.ofGroups, UsageGroup.ofReferences, usageRows, List.map_map, List.map_map]
  refine List.map_congr_left fun path hpath => ?_
  obtain ⟨r, hr, rfl⟩ := List.mem_map.mp (Text.mem_sortedDistinct.mp hpath)
  rw [Function.comp_apply, Function.comp_apply, UsageGroup.gather_eq hreferences hr]
  rfl

/-- The rows of the used paths depend on the sets of the paths and of the declared paths. -/
theorem usageRows_congr {paths paths' : List String} {t t' : RouteTable}
    (hpaths : ∀ path, path ∈ paths' ↔ path ∈ paths)
    (hverdict : ∀ path isDynamic, verdictOn path isDynamic t' = verdictOn path isDynamic t) :
    usageRows paths' t' = usageRows paths t := by
  simp only [usageRows, Text.sortedDistinct_congr hpaths, hverdict]

/-- The internal paths can be told from the rows. -/
theorem Classification.internalPaths_eq (groups : List ClassifiedGroup) : internalPaths groups =
    ((groups.map ClassifiedGroup.row).filter (·.verdict.isInternal)).map (·.path) := by
  rw [List.filter_map, List.map_map]
  rfl

/-! ## Unused pages and totals -/

/-- Whether the entry is a page that is not excluded and that no internal row reaches. -/
def RouteFace.isUnused (rows : List UsageRow) (r : RouteFace) : Bool :=
  r.isPage && !r.isExcluded && !(rows.filter (·.verdict.isInternal)).any fun row => r.accepts row.path

variable {table : RouteTable} {classification : Classification}

/-- The faces of the unused pages are those of the entries that no row reaches. -/
theorem map_face_unusedRoutes (htable : table.OfPaths) (exclusions : List String) (appRoot : String) :
    (unusedRoutes table.pages classification.groups exclusions appRoot).map
        (RouteEntry.face exclusions appRoot) =
      (table.entries.map (RouteEntry.face exclusions appRoot)).filter
        (RouteFace.isUnused (classification.groups.map ClassifiedGroup.row)) := by
  rw [unusedRoutes, RouteTable.pages, List.filter_filter, List.filter_map]
  refine congrArg (List.map _) (List.filter_congr fun e he => ?_)
  have haccepts : ∀ path, (e.accepts? path).isSome = (e.face exclusions appRoot).accepts path :=
    htable.isSome_accepts?_eq he
  have hused : ((Classification.internalPaths classification.groups).any
        fun path => (e.accepts? path).isSome) =
      ((classification.groups.map ClassifiedGroup.row).filter (·.verdict.isInternal)).any
        fun row => (e.face exclusions appRoot).accepts row.path := by
    rw [Classification.internalPaths_eq, List.any_map]
    simp only [Function.comp_def, haccepts]
  have hpage : (e.face exclusions appRoot).isPage = e.isPage := rfl
  have hexcluded : (e.face exclusions appRoot).isExcluded = e.isExcluded exclusions appRoot := rfl
  rw [hused, Function.comp_apply, RouteFace.isUnused, hpage, hexcluded]
  cases e.isPage <;> simp

namespace Summary

/-- The totals, counted without files. -/
def ofFaces (faces : List RouteFace) (rows : List UsageRow) : Summary :=
  { totalAppRoutes := faces.length
    totalPageRoutes := faces.countP (·.isPage)
    totalUsedRoutes := rows.length
    validRoutes := rows.countP (·.verdict.isValid)
    brokenRoutes := rows.countP (·.verdict = .broken)
    unusedRoutes := faces.countP (RouteFace.isUnused rows)
    externalRoutes := rows.countP (·.verdict = .external)
    dynamicRoutes := rows.countP (·.isDynamic)
    specialRoutes := rows.countP (·.verdict = .special) }

theorem ofFaces_eq_of_perm {faces faces' : List RouteFace} (h : faces.Perm faces')
    (rows : List UsageRow) : ofFaces faces rows = ofFaces faces' rows := by
  unfold ofFaces
  rw [h.length_eq, h.countP_eq, h.countP_eq]

theorem count_eq (v : Verdict) :
    classification.count v = (classification.groups.map ClassifiedGroup.row).countP (·.verdict = v) := by
  rw [Classification.count, Classification.withVerdict, ← List.countP_eq_length_filter, List.countP_map]
  rfl

theorem validCount_eq : classification.validCount =
    (classification.groups.map ClassifiedGroup.row).countP (·.verdict.isValid) := by
  rw [Classification.validCount, List.countP_map]
  rfl

theorem dynamicCount_eq : classification.dynamicCount =
    (classification.groups.map ClassifiedGroup.row).countP (·.isDynamic) := by
  rw [Classification.dynamicCount, Classification.dynamic, ← List.countP_eq_length_filter, List.countP_map]
  rfl

theorem of_eq_ofFaces (htable : table.OfPaths) (exclusions : List String) (appRoot : String) :
    Summary.of table classification
        (RouteAudit.unusedRoutes table.pages classification.groups exclusions appRoot) =
      ofFaces (table.entries.map (RouteEntry.face exclusions appRoot))
        (classification.groups.map ClassifiedGroup.row) := by
  have hpages : table.pageCount =
      (table.entries.map (RouteEntry.face exclusions appRoot)).countP (·.isPage) := by
    rw [RouteTable.pageCount, List.countP_map]
    rfl
  have hunused : (RouteAudit.unusedRoutes table.pages classification.groups exclusions
      appRoot).length = (table.entries.map (RouteEntry.face exclusions appRoot)).countP
        (RouteFace.isUnused (classification.groups.map ClassifiedGroup.row)) := by
    rw [List.countP_eq_length_filter, ← map_face_unusedRoutes htable, List.length_map]
  rw [Summary.of, ofFaces, RouteTable.size, Classification.size, hpages, validCount_eq, dynamicCount_eq,
    hunused, count_eq, count_eq, count_eq, List.length_map, List.length_map]

/-- The totals depend on the rows of the used paths. -/
theorem of_congr {classification' : Classification}
    (h : classification'.groups.map ClassifiedGroup.row = classification.groups.map ClassifiedGroup.row)
    (table : RouteTable) (unused : List RouteEntry) :
    Summary.of table classification' unused = Summary.of table classification unused := by
  have hsize : classification'.size = classification.size := by
    have hlength := congrArg List.length h
    rwa [List.length_map, List.length_map] at hlength
  rw [Summary.of, hsize, validCount_eq, dynamicCount_eq, count_eq, count_eq, count_eq, h, ← validCount_eq,
    ← dynamicCount_eq, ← count_eq, ← count_eq, ← count_eq]
  rfl

end Summary

/-! ## Two analyses -/

/-- The reference apart from its file. -/
def Reference.unfiled (r : Reference) : Reference :=
  { r with file := "" }

/-- What two analyses share if the files of the one are in other places than those of the other: what
is left of the lists without the places is the same up to the order, and the used paths and the
summary are the same. -/
structure AgreeButPlaces (c : Config) (time : Timestamp) (collection collection' : Collection)
    (scan scan' : Scan) : Prop where
  routes : (collection'.table.entries.map fun e => (e.declaredPath, e.kind)).Perm
    (collection.table.entries.map fun e => (e.declaredPath, e.kind))
  usedPaths : (Config.classify collection' scan').groups.map ClassifiedGroup.row =
    (Config.classify collection scan).groups.map ClassifiedGroup.row
  references : (scan'.references.map Reference.unfiled).Perm (scan.references.map Reference.unfiled)
  unused : ((c.analyze collection' scan' time).unusedRoutes.map (·.path)).Perm
    ((c.analyze collection scan time).unusedRoutes.map (·.path))
  errors : ((c.analyze collection' scan' time).errors.map (·.kind)).Perm
    ((c.analyze collection scan time).errors.map (·.kind))
  summary : (c.analyze collection' scan' time).summary = (c.analyze collection scan time).summary

theorem perm_unusedPaths (c : Config) {collection : Collection} (htable : collection.table.OfPaths)
    (scan : Scan) (time : Timestamp) : ((c.analyze collection scan time).unusedRoutes.map (·.path)).Perm
      (((collection.table.entries.map
          (RouteEntry.face c.report.unusedExclusions c.roots.appDir)).filter
        (RouteFace.isUnused ((Config.classify collection scan).groups.map ClassifiedGroup.row))).map
          (·.declaredPath)) := by
  rw [← map_face_unusedRoutes htable, List.map_map]
  let unused := unusedRoutes collection.table.pages (Config.classify collection scan).groups
    c.report.unusedExclusions c.roots.appDir
  have hsorted :=
    (List.mergeSort_perm (unused.map UnusedRoute.ofEntry) UnusedRoute.le).map (·.path)
  rwa [List.map_map] at hsorted

/-- **Two analyses agree but for places** if their entries have the same faces, their references are the
same but for their files, and their issues are of the same kinds. -/
theorem AgreeButPlaces.of_perm {c : Config} {collection collection' : Collection} {scan scan' : Scan}
    (htable : collection.table.OfPaths) (htable' : collection'.table.OfPaths)
    (hraw : ∀ r ∈ scan.references, r.OfRaw) (hraw' : ∀ r ∈ scan'.references, r.OfRaw)
    (hfaces : (collection'.table.entries.map
        (RouteEntry.face c.report.unusedExclusions c.roots.appDir)).Perm
      (collection.table.entries.map (RouteEntry.face c.report.unusedExclusions c.roots.appDir)))
    (hreferences :
      (scan'.references.map Reference.unfiled).Perm (scan.references.map Reference.unfiled))
    (hissues : (collection'.issues.map (·.kind)).Perm (collection.issues.map (·.kind)))
    (hissues' : (scan'.issues.map (·.kind)).Perm (scan.issues.map (·.kind))) (time : Timestamp) :
    AgreeButPlaces c time collection collection' scan scan' := by
  let face := RouteEntry.face c.report.unusedExclusions c.roots.appDir
  have hpaths : (scan'.references.map (·.path)).Perm (scan.references.map (·.path)) := by
    have hmap := hreferences.map fun r : Reference => r.path
    rwa [List.map_map, List.map_map] at hmap
  have hrows : (Config.classify collection' scan').groups.map ClassifiedGroup.row =
      (Config.classify collection scan).groups.map ClassifiedGroup.row := by
    rw [Config.classify, Config.classify, rows_ofGroups hraw, rows_ofGroups hraw']
    refine usageRows_congr (fun path => hpaths.mem_iff) fun path isDynamic => ?_
    exact verdictOn_congr htable'.pages htable.pages (RouteTable.exists_page_of_faces hfaces.subset)
      (RouteTable.exists_page_of_faces hfaces.symm.subset) path isDynamic
  constructor
  · have hmap := hfaces.map fun face : RouteFace => (face.declaredPath, face.kind)
    rwa [List.map_map, List.map_map] at hmap
  · exact hrows
  · exact hreferences
  · refine (perm_unusedPaths c htable' scan' time).trans ?_
    rw [hrows]
    exact ((hfaces.filter _).map _).trans (perm_unusedPaths c htable scan time).symm
  · have hsorted := fun issues : List Issue => (List.mergeSort_perm issues Issue.le).map (·.kind)
    refine (hsorted _).trans (List.Perm.trans ?_ (hsorted _).symm)
    rw [List.map_append, List.map_append]
    exact hissues.append hissues'
  · calc (c.analyze collection' scan' time).summary
        = Summary.ofFaces (collection'.table.entries.map face)
            ((Config.classify collection' scan').groups.map ClassifiedGroup.row) :=
          Summary.of_eq_ofFaces htable' _ _
      _ = Summary.ofFaces (collection.table.entries.map face)
            ((Config.classify collection scan).groups.map ClassifiedGroup.row) := by
          rw [hrows, Summary.ofFaces_eq_of_perm hfaces]
      _ = (c.analyze collection scan time).summary := (Summary.of_eq_ofFaces htable _ _).symm

end RouteAudit
