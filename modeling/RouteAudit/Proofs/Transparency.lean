import RouteAudit.Proofs.Collected
import RouteAudit.Proofs.Face
import RouteAudit.Proofs.Regroup

/-!
# Route groups are transparent

To move children of a directory into a new group `(…)` beside the others changes where the files of
the declared routes and of the references are, and so the order of some lists. All that is said of them
otherwise is as before (`run_regroup`).

Proof. What a file is apart from the group (`FoundFile.but`) decides the face of its entry (`face?_but`)
and, but for their file, its references (`scanFile_but`), and the two walks come to the same files
apart from the group. Two analyses of which this holds agree but for places.
-/

namespace RouteAudit

open DirectoryKind

/-! ## The entries of a walk -/

/-- Whether the page is left out for a name in its path or on the way to its file. -/
def FoundFile.isExcluded (exclusions : List String) (f : FoundFile) : Bool :=
  exclusions.any fun name =>
    (Text.split '/' (Collection.declaredPath f.dirs).toList).any (· = name.toList) ||
      decide (name ∈ f.dirs)

/-- What the entry of a file is apart from the file. -/
def FoundFile.face? (config : CollectorConfig) (exclusions : List String) (f : FoundFile) :
    Option RouteFace :=
  (Collection.leafKind? config f.name).map fun kind =>
    ⟨Collection.declaredPath f.dirs, kind, f.isExcluded exclusions⟩

namespace Collection

variable {config : CollectorConfig} {exclusions : List String} {group : String}

theorem declaredPath_filter (hgroup : IsGroup group) (dirs : List String) :
    declaredPath (dirs.filter (· ≠ group)) = declaredPath dirs := by
  have hsegments : (dirs.filter (· ≠ group)).filterMap (fun name => (ofName name).segment?) =
      dirs.filterMap fun name => (ofName name).segment? := by
    rw [List.filterMap_filter]
    refine List.filterMap_congr fun d _ => ?_
    by_cases hd : d = group
    · rw [hd, ofName, if_pos (isGroupName_iff.mpr hgroup)]
      simp [segment?]
    · simp [hd]
  rw [declaredPath, hsegments, declaredPath]

theorem face?_but (hgroup : IsGroup group) (hnot : group ∉ exclusions) (f : FoundFile) :
    (f.but group).face? config exclusions = f.face? config exclusions := by
  have hdeclared : declaredPath (f.but group).dirs = declaredPath f.dirs :=
    declaredPath_filter hgroup f.dirs
  have hexcluded : (f.but group).isExcluded exclusions = f.isExcluded exclusions := by
    unfold FoundFile.isExcluded
    rw [hdeclared, Bool.eq_iff_iff, List.any_eq_true, List.any_eq_true]
    refine exists_congr fun name => and_congr_right fun hname => ?_
    have hne : name ≠ group := fun heq => hnot (heq ▸ hname)
    have hdirs : name ∈ (f.but group).dirs ↔ name ∈ f.dirs := by simp [FoundFile.but, hne]
    simp only [hdirs]
  rw [FoundFile.face?, FoundFile.face?, hexcluded, hdeclared]
  rfl

variable {children : List (String × Node)} {root : String}

theorem face_entryOf? (hwell : (Node.dir children).WellFormed) {enter : String → Bool} {f : FoundFile}
    (h : .file f ∈ walk root children enter) :
    (entryOf? config f).map (RouteEntry.face exclusions root) = f.face? config exclusions := by
  have hnames := Node.isFileName_of_mem_walk hwell h
  have hdirs : ∀ d ∈ f.dirs, Path.IsFileName d := fun d hd => hnames d (List.mem_append_left _ hd)
  have hname : Path.IsFileName f.name := hnames f.name (List.mem_append_right _ List.mem_cons_self)
  have hpath := ((Node.mem_walk_iff hwell).mp h).1
  rw [entryOf?, FoundFile.face?, Option.map_map]
  refine congrArg (Option.map · _) (funext fun kind => ?_)
  have hunder : ∀ dir, (RouteEntry.ofPath (declaredPath f.dirs) f.path kind).isUnder root dir =
      decide (dir ∈ f.dirs) := RouteEntry.isUnder_below hdirs hname hpath
  rw [Function.comp_apply, RouteEntry.face, RouteEntry.isExcluded]
  simp only [RouteEntry.isCalled, hunder]
  rfl

/-- The entries of a walk apart from their files. -/
theorem faces_ofVisits (hwell : (Node.dir children).WellFormed) {enter : String → Bool}
    (hgroup : IsGroup group) (hnot : group ∉ exclusions) :
    (ofVisits config (walk root children enter)).table.entries.map (RouteEntry.face exclusions root) =
      (filesBut group (walk root children enter)).filterMap (FoundFile.face? config exclusions) := by
  change (((walk root children enter).filterMap Visit.file?).filterMap (entryOf? config)).map _ = _
  rw [List.map_filterMap, filesBut, List.filterMap_map]
  refine List.filterMap_congr fun f hf => ?_
  rw [face_entryOf? hwell (mem_files_iff.mp hf), Function.comp_apply, face?_but hgroup hnot]

end Collection

/-! ## The references of a walk -/

namespace Scan

variable {config : ScannerConfig} {f : FoundFile} {group : String} {visits visits' : List Visit}

/-- A file gives the same in any place, but for the place. -/
theorem scanFile_but (group : String) (hshort : f.path.utf8ByteSize ≤ Path.maxBytes)
    (forms : List Form) :
    (scanFile config forms (f.but group)).references =
        (scanFile config forms f).references.map Reference.unfiled ∧
      (scanFile config forms (f.but group)).issue?.map (·.kind) =
        (scanFile config forms f).issue?.map (·.kind) := by
  have hcontent : contentOf f = FileSystem.textOf f.bytes := if_neg (Nat.not_lt.mpr hshort)
  have hempty : ¬ Path.maxBytes < "".utf8ByteSize := by decide
  have hcontent' : contentOf (f.but group) = FileSystem.textOf f.bytes := if_neg hempty
  rw [scanFile, scanFile, hcontent, hcontent']
  cases FileSystem.textOf f.bytes with
  | error fault => exact ⟨rfl, rfl⟩
  | ok content =>
    dsimp only
    split_ifs
    · exact ⟨(map_extractReferences fun _ _ _ _ => rfl).symm, rfl⟩
    · exact ⟨rfl, rfl⟩

theorem perm_candidateFiles (config : ScannerConfig)
    (h : (filesBut group visits').Perm (filesBut group visits)) :
    ((candidateFiles config visits').map (FoundFile.but group)).Perm
      ((candidateFiles config visits).map (FoundFile.but group)) := by
  have hfiles : ∀ visits : List Visit, (candidateFiles config visits).map (FoundFile.but group) =
      (filesBut group visits).filter fun f => Path.hasEnding config.extensions f.name := by
    intro visits
    rw [filesBut, List.filter_map]
    rfl
  rw [hfiles, hfiles]
  exact h.filter _

theorem perm_references_ofVisits (group : String)
    (hshort : ∀ f ∈ candidateFiles config visits, f.path.utf8ByteSize ≤ Path.maxBytes) :
    ((ofVisits config visits).references.map Reference.unfiled).Perm
      (readAll config ((candidateFiles config visits).map (FoundFile.but group))) := by
  rw [references_ofVisits]
  refine ((List.mergeSort_perm _ _).map _).trans (List.Perm.of_eq ?_)
  rw [readAll, readAll, List.map_flatMap, List.flatMap_map]
  exact List.flatMap_congr fun f hf => (scanFile_but group (hshort f hf) _).1.symm

theorem issueKinds_ofVisits (group : String) (hopen : Unhindered visits)
    (hshort : ∀ f ∈ candidateFiles config visits, f.path.utf8ByteSize ≤ Path.maxBytes) :
    (ofVisits config visits).issues.map (·.kind) =
      ((candidateFiles config visits).map (FoundFile.but group)).filterMap fun f =>
        (fileIssue? config f).map (·.kind) := by
  rw [issues_ofVisits, hopen.filterMap_issue?, List.nil_append, List.map_filterMap,
    List.filterMap_map]
  exact List.filterMap_congr fun f hf => (scanFile_but group (hshort f hf) _).2.symm

end Scan

/-! ## Two runs -/

/-- No directory that is entered, and no file that is read, has a path that is too long. -/
structure Config.MeetsNoLimit (c : Config) (fs : FileSystem) : Prop where
  app : ∀ children, fs.stat c.roots.appDir = .ok (.dir children) →
    Unhindered (walk c.roots.appDir children (Collection.enters c.collector))
  source : ∀ children, fs.stat c.roots.sourceDir = .ok (.dir children) →
    Unhindered (walk c.roots.sourceDir children c.scanner.enters)
  files : ∀ children, fs.stat c.roots.sourceDir = .ok (.dir children) →
    ∀ f ∈ Scan.candidateFiles c.scanner (walk c.roots.sourceDir children c.scanner.enters),
      f.path.utf8ByteSize ≤ Path.maxBytes

theorem Config.MeetsNoLimit.of_stat {c : Config} {fs : FileSystem} {a s : List (String × Node)}
    (happ : fs.stat c.roots.appDir = .ok (.dir a)) (hsource : fs.stat c.roots.sourceDir = .ok (.dir s))
    (hopen : Unhindered (walk c.roots.appDir a (Collection.enters c.collector)))
    (hopen' : Unhindered (walk c.roots.sourceDir s c.scanner.enters))
    (hshort : ∀ f ∈ Scan.candidateFiles c.scanner (walk c.roots.sourceDir s c.scanner.enters),
      f.path.utf8ByteSize ≤ Path.maxBytes) : c.MeetsNoLimit fs := by
  constructor
  · intro children hstat
    rw [happ] at hstat
    cases hstat
    exact hopen
  · intro children hstat
    rw [hsource] at hstat
    cases hstat
    exact hopen'
  · intro children hstat
    rw [hsource] at hstat
    cases hstat
    exact hshort

/-- The new directory is a route group that no configured list names, the roots are directories and
found without what moves, and no path is too long, neither before nor after. -/
structure Regrouping.IsTransparent {fs : FileSystem} (m : Regrouping fs) (c : Config) : Prop where
  isGroup : IsGroup m.group
  notInCollector : m.group ∉ c.collector.skipDirs
  notInScanner : m.group ∉ c.scanner.skipDirs
  notInExclusions : m.group ∉ c.report.unusedExclusions
  appDir : m.rest.isDir c.roots.appDir = true
  sourceDir : m.rest.isDir c.roots.sourceDir = true
  before : c.MeetsNoLimit fs
  after : c.MeetsNoLimit m.result

namespace Regrouping.IsTransparent

variable {fs : FileSystem} {m : Regrouping fs} {c : Config}

theorem head?_group (h : m.IsTransparent c) : m.group.toList.head? = some '(' := by
  obtain ⟨inner, -, hname⟩ := h.isGroup
  rw [hname]
  rfl

theorem enters_collector (h : m.IsTransparent c) : Collection.enters c.collector m.group = true := by
  have hhead := h.head?_group
  refine (Collection.enters_iff m.isFileName).mpr ⟨h.notInCollector, ?_, ?_⟩
  · rw [hhead]
    decide
  · rintro ⟨hprivate, -⟩
    rw [hhead] at hprivate
    cases hprivate

theorem enters_scanner (h : m.IsTransparent c) : c.scanner.enters m.group = true := by
  simp [isSkippedDir, h.head?_group, h.notInScanner]

end Regrouping.IsTransparent

namespace Collection

variable {config : CollectorConfig} {visits : List Visit}

theorem ofPaths_ofVisits : (ofVisits config visits).table.OfPaths := by
  intro e he
  obtain ⟨f, -, hf⟩ := List.mem_filterMap.mp he
  obtain ⟨kind, -, rfl⟩ := Option.map_eq_some_iff.mp hf
  rfl

theorem issueKinds_ofVisits (hopen : Unhindered visits) (exclusions : List String) (appRoot : String) :
    (ofVisits config visits).issues.map (·.kind) =
      ((ofVisits config visits).table.entries.map
        (RouteEntry.face exclusions appRoot)).filterMap RouteFace.issueKind? := by
  rw [← ofPaths_ofVisits.issueKinds_malformed, ofVisits, hopen.filterMap_issue?, List.nil_append,
    List.map_map]
  rfl

end Collection

namespace Regrouping.IsTransparent

variable {fs : FileSystem} {m : Regrouping fs} {c : Config}

/-- Before and after, the collector finds entries with the same faces. -/
theorem exists_collections (hwell : fs.top.WellFormed) (h : m.IsTransparent c) :
    ∃ collection collection', c.collect fs = .ok collection ∧ c.collect m.result = .ok collection' ∧
      collection.table.OfPaths ∧ collection'.table.OfPaths ∧
      (collection'.table.entries.map
          (RouteEntry.face c.report.unusedExclusions c.roots.appDir)).Perm
        (collection.table.entries.map
          (RouteEntry.face c.report.unusedExclusions c.roots.appDir)) ∧
      (collection'.issues.map (·.kind)).Perm (collection.issues.map (·.kind)) := by
  obtain ⟨a, b, ha, hb, hwella, hwellb, hperm⟩ := m.perm_filesBut_walk hwell h.appDir
  have hopen := h.before.app a ha
  have hopen' := h.after.app b hb
  let collection := Collection.ofVisits c.collector
    (walk c.roots.appDir a (Collection.enters c.collector))
  let collection' := Collection.ofVisits c.collector
    (walk c.roots.appDir b (Collection.enters c.collector))
  have hfaces : (collection'.table.entries.map
        (RouteEntry.face c.report.unusedExclusions c.roots.appDir)).Perm
      (collection.table.entries.map (RouteEntry.face c.report.unusedExclusions c.roots.appDir)) := by
    rw [Collection.faces_ofVisits hwella h.isGroup h.notInExclusions,
      Collection.faces_ofVisits hwellb h.isGroup h.notInExclusions]
    exact (hperm _ h.enters_collector hopen hopen').filterMap _
  refine ⟨collection, collection', ?_, ?_, Collection.ofPaths_ofVisits, Collection.ofPaths_ofVisits,
    hfaces, ?_⟩
  · rw [Config.collect, FileSystem.collect, FileSystem.openRoot_of_stat ha]
  · rw [Config.collect, FileSystem.collect, FileSystem.openRoot_of_stat hb]
  · rw [Collection.issueKinds_ofVisits hopen c.report.unusedExclusions c.roots.appDir,
      Collection.issueKinds_ofVisits hopen' c.report.unusedExclusions c.roots.appDir]
    exact hfaces.filterMap _

/-- Before and after, the scanner finds the same references but for their files. -/
theorem exists_scans (hwell : fs.top.WellFormed) (h : m.IsTransparent c) :
    ∃ scan scan', c.scan fs = .ok scan ∧ c.scan m.result = .ok scan' ∧
      (∀ r ∈ scan.references, r.OfRaw) ∧ (∀ r ∈ scan'.references, r.OfRaw) ∧
      (scan'.references.map Reference.unfiled).Perm (scan.references.map Reference.unfiled) ∧
      (scan'.issues.map (·.kind)).Perm (scan.issues.map (·.kind)) := by
  obtain ⟨a, b, ha, hb, -, -, hperm⟩ := m.perm_filesBut_walk hwell h.sourceDir
  have hopen := h.before.source a ha
  have hopen' := h.after.source b hb
  have hshort := h.before.files a ha
  have hshort' := h.after.files b hb
  have hcandidates := Scan.perm_candidateFiles c.scanner
    (hperm c.scanner.enters h.enters_scanner hopen hopen')
  refine ⟨.ofVisits c.scanner (walk c.roots.sourceDir a c.scanner.enters),
    .ofVisits c.scanner (walk c.roots.sourceDir b c.scanner.enters), ?_, ?_,
    fun r => Scan.ofRaw_of_mem_ofVisits, fun r => Scan.ofRaw_of_mem_ofVisits, ?_, ?_⟩
  · rw [Config.scan, FileSystem.scan, FileSystem.openRoot_of_stat ha]
  · rw [Config.scan, FileSystem.scan, FileSystem.openRoot_of_stat hb]
  · refine (Scan.perm_references_ofVisits m.group hshort').trans ?_
    refine List.Perm.trans ?_ (Scan.perm_references_ofVisits m.group hshort).symm
    exact hcandidates.flatMap_right _
  · rw [Scan.issueKinds_ofVisits m.group hopen' hshort', Scan.issueKinds_ofVisits m.group hopen hshort]
    exact hcandidates.filterMap _

end Regrouping.IsTransparent

namespace Config

/-- **Route groups are transparent.** Both runs succeed, and they agree but for places. -/
theorem run_regroup {c : Config} {fs : FileSystem} (hwell : fs.top.WellFormed) (m : Regrouping fs)
    (h : m.IsTransparent c) (time : Timestamp) :
    ∃ collection collection' scan scan',
      c.collect fs = .ok collection ∧ c.collect m.result = .ok collection' ∧
      c.scan fs = .ok scan ∧ c.scan m.result = .ok scan' ∧
      c.run fs time = .ok (c.analyze collection scan time) ∧
      c.run m.result time = .ok (c.analyze collection' scan' time) ∧
      AgreeButPlaces c time collection collection' scan scan' := by
  obtain ⟨collection, collection', hcollect, hcollect', htable, htable', hfaces, hissues⟩ :=
    h.exists_collections hwell
  obtain ⟨scan, scan', hscan, hscan', hraw, hraw', hreferences, hissues'⟩ := h.exists_scans hwell
  exact ⟨collection, collection', scan, scan', hcollect, hcollect', hscan, hscan',
    run_eq_ok hcollect hscan time, run_eq_ok hcollect' hscan' time,
    .of_perm htable htable' hraw hraw' hfaces hreferences hissues hissues' time⟩

/-- The page of a directory that moves into `(site)` is still found and still used. -/
theorem run_regroup_site :
    let time : Timestamp := ⟨1714564800, 0⟩
    let project (app : List (String × Node)) : FileSystem :=
      ⟨.dir [("src", .dir [("app", .dir app), ("nav.ts", .ofText "router.push('/about');")])], []⟩
    ∃ r r', run {} (project [("about", .dir [("page.tsx", .file .empty)]), ("layout.tsx", .file .empty)])
        time = .ok r ∧
      run {} (project [("(site)", .dir [("about", .dir [("page.tsx", .file .empty)])]),
        ("layout.tsx", .file .empty)]) time = .ok r' ∧
      r'.summary = r.summary := by
  intro time project
  let fs := project [("about", .dir [("page.tsx", .file .empty)]), ("layout.tsx", .file .empty)]
  let fs' := project [("(site)", .dir [("about", .dir [("page.tsx", .file .empty)])]),
    ("layout.tsx", .file .empty)]
  have hwell : fs.top.WellFormed := by decide
  let m : Regrouping fs :=
    { place := ["src", "app"]
      children := [("about", .dir [("page.tsx", .file .empty)]), ("layout.tsx", .file .empty)]
      hasDir := by rfl
      moves := fun name => name = "about"
      group := "(site)"
      isFileName := by decide
      isNew := by decide }
  have hresult : m.result = fs' := by
    simp only [m, fs, fs', Regrouping.result]
    rfl
  have hbefore : MeetsNoLimit {} fs :=
    .of_stat (by rfl) (by rfl) (by decide) (by decide) (by decide)
  have hafter : MeetsNoLimit {} fs' :=
    .of_stat (by rfl) (by rfl) (by decide) (by decide) (by decide)
  have h : m.IsTransparent {} :=
    { isGroup := ⟨"site".toList, by decide, by decide⟩
      notInCollector := by decide
      notInScanner := by decide
      notInExclusions := by decide
      appDir := by rfl
      sourceDir := by rfl
      before := hbefore
      after := hresult ▸ hafter }
  obtain ⟨_, _, _, _, -, -, -, -, hrun, hrun', hagree⟩ := run_regroup hwell m h time
  rw [hresult] at hrun'
  exact ⟨_, _, hrun, hrun', hagree.summary⟩

end Config

end RouteAudit
