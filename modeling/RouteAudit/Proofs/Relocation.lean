import RouteAudit.Proofs.FileByFile
import RouteAudit.Proofs.Malformed
import RouteAudit.Proofs.Refiled
import RouteAudit.Proofs.Storage
import RouteAudit.Proofs.Transparency

/-!
# A project says the same wherever it is checked out

A project tree below one directory and the same tree below another one give the same report but for the
directory in front of the files (`run_relocate`), whatever the directories are called.

Proof. In both places the roots name the same directories of the tree, or nothing, or both runs fail
(`Stores.stat_child`). A walk comes to the same files with another directory in front of their paths
(`walk_child`), so the collections and the scans are those of the tree with the files mapped by
`Path.child`, which keeps the order of paths, and so are the reports (`analyze_mapped`).
-/

namespace RouteAudit

/-! ## Walks -/

def FoundFile.mapPath (g : String → String) (f : FoundFile) : FoundFile :=
  { f with path := g f.path }

def Visit.mapPath (g : String → String) : Visit → Visit
  | file f => file (f.mapPath g)
  | fault path => fault (g path)

theorem Visit.filterMap_file?_mapPath (g : String → String) (visits : List Visit) :
    (visits.map (mapPath g)).filterMap file? = (visits.filterMap file?).map (FoundFile.mapPath g) := by
  rw [List.filterMap_map, List.map_filterMap]
  refine List.filterMap_congr fun v _ => ?_
  cases v <;> rfl

theorem Unhindered.of_map {g : String → String} {visits : List Visit}
    (h : Unhindered (visits.map (Visit.mapPath g))) : Unhindered visits :=
  fun path hmem => h (g path) (List.mem_map.mpr ⟨_, hmem, rfl⟩)

namespace Node

variable {enter : String → Bool}

/-- **A walk with another directory in front** comes to the same files. -/
theorem visitsBelow_child (dir : String) (node : Node) (path : String) (dirs : List String)
    (hopen : Unhindered (visitsBelow enter (Path.child dir path) dirs node.children)) :
    visitsBelow enter (Path.child dir path) dirs node.children =
      (visitsBelow enter path dirs node.children).map (Visit.mapPath (Path.child dir)) := by
  induction node using Node.induction generalizing path dirs with
  | file bytes => rfl
  | link target => rfl
  | dir children ih =>
    rw [Node.children] at hopen ⊢
    rw [visitsBelow_eq_flatMap, visitsBelow_eq_flatMap, List.map_flatMap]
    refine List.flatMap_congr fun c hc => ?_
    have hvisits : Unhindered (visits enter (Path.child (Path.child dir path) c.1) dirs c.1 c.2) :=
      fun p hp => hopen p (mem_visitsBelow.mpr ⟨c.1, c.2, hc, hp⟩)
    rw [← Path.child_child] at hvisits ⊢
    obtain ⟨name, child⟩ := c
    cases child with
    | file bytes => rfl
    | link target => rfl
    | dir below =>
      dsimp only at hvisits ⊢
      rw [visits_dir] at hvisits
      rw [visits_dir, visits_dir]
      split_ifs at hvisits ⊢ with henter hlong hshort
      · exact ih _ hc _ _ hvisits
      · exact absurd ((Path.utf8ByteSize_le_child dir _).trans hlong) hshort
      · exact absurd List.mem_cons_self (hvisits _)
      · exact absurd List.mem_cons_self (hvisits _)
      · rfl

end Node

theorem walk_child {dir root : String} {children : List (String × Node)} {enter : String → Bool}
    (hopen : Unhindered (walk (Path.child dir root) children enter)) :
    walk (Path.child dir root) children enter =
      (walk root children enter).map (Visit.mapPath (Path.child dir)) :=
  Node.visitsBelow_child dir (.dir children) root [] hopen

theorem Path.keepsOrder_child (dir : String) : KeepsOrder (Path.child dir) :=
  Path.child_lt_child_iff dir

/-! ## Collections -/

variable {dir root : String} {children : List (String × Node)}

theorem RouteEntry.unworded_issue?_mapFile (g : String → String) (e : RouteEntry) :
    (e.mapFile g).issue?.map Issue.unworded = (e.issue?.map (Issue.mapPath g)).map Issue.unworded := by
  unfold issue? mapFile
  dsimp only
  split_ifs
  · cases RoutePattern.ofDeclared e.declaredPath with
    | ok pattern => rfl
    | error error => exact congrArg some (Issue.unworded_congr rfl rfl)
  · rfl

theorem Collection.isMapped_ofVisits {config : CollectorConfig} (hwell : (Node.dir children).WellFormed)
    {enter : String → Bool} (hopen : Unhindered (walk (Path.child dir root) children enter)) :
    (ofVisits config (walk root children enter)).IsMapped (Path.child dir) root (Path.child dir root)
      (ofVisits config (walk (Path.child dir root) children enter)) := by
  have hwalk := walk_child hopen
  have htable : (ofVisits config (walk (Path.child dir root) children enter)).table =
      (ofVisits config (walk root children enter)).table.mapFiles (Path.child dir) := by
    rw [ofVisits, ofVisits, RouteTable.mapFiles, hwalk, Visit.filterMap_file?_mapPath,
      List.filterMap_map, List.map_filterMap]
    refine congrArg RouteTable.mk (List.filterMap_congr fun f _ => ?_)
    rw [Function.comp_apply, entryOf?, entryOf?, Option.map_map]
    rfl
  refine ⟨htable, ?_, fun e he name => ?_⟩
  · rw [issues_ofVisits, issues_ofVisits, hopen.filterMap_issue?, htable]
    rw [hwalk] at hopen
    rw [hopen.of_map.filterMap_issue?, List.nil_append, List.nil_append, RouteTable.mapFiles,
      List.filterMap_map, List.map_filterMap, List.map_filterMap, List.map_filterMap]
    refine List.filterMap_congr fun e _ => ?_
    exact e.unworded_issue?_mapFile (Path.child dir)
  · obtain ⟨f, kind, hf, -, rfl⟩ := mem_entries_iff.mp he
    have hnames := Node.isFileName_of_mem_walk hwell hf
    have hdirs : ∀ d ∈ f.dirs, Path.IsFileName d := fun d hd => hnames d (List.mem_append_left _ hd)
    have hname : Path.IsFileName f.name := hnames f.name (List.mem_append_right _ List.mem_cons_self)
    have hpath := ((Node.mem_walk_iff hwell).mp hf).1
    have hpath' : (Path.child dir f.path) = Path.below (Path.child dir root) f.place := by
      rw [Path.below_child, hpath]
    exact (RouteEntry.isUnder_below hdirs hname hpath' name).trans
      (RouteEntry.isUnder_below hdirs hname hpath name).symm

/-! ## Scans -/

namespace Scan

variable {config : ScannerConfig} {f : FoundFile}

theorem candidateFiles_map (config : ScannerConfig) (g : String → String) (visits : List Visit) :
    candidateFiles config (visits.map (Visit.mapPath g)) =
      (candidateFiles config visits).map (FoundFile.mapPath g) := by
  rw [candidateFiles, candidateFiles, Visit.filterMap_file?_mapPath, List.filter_map]
  rfl

/-- The bytes of a file are read in another directory as they are without it. -/
theorem contentOf_child (hshort : (Path.child dir f.path).utf8ByteSize ≤ Path.maxBytes) :
    contentOf (f.mapPath (Path.child dir)) = contentOf f := by
  rw [contentOf, contentOf, if_neg, if_neg]
  · rfl
  · exact Nat.not_lt.mpr ((Path.utf8ByteSize_le_child dir f.path).trans hshort)
  · exact Nat.not_lt.mpr hshort

theorem ownReferences_child (hshort : (Path.child dir f.path).utf8ByteSize ≤ Path.maxBytes) :
    ownReferences config (f.mapPath (Path.child dir)) =
      (ownReferences config f).map (Reference.mapFile (Path.child dir)) := by
  rw [ownReferences, ownReferences, contentOf_child hshort]
  cases contentOf f with
  | error fault => rfl
  | ok content =>
    dsimp only
    split_ifs
    · exact (map_extractReferences fun _ _ _ _ => rfl).symm
    · rfl

theorem isMapped_ofVisits (hwell : (Node.dir children).WellFormed) {enter : String → Bool}
    (hopen : Unhindered (walk (Path.child dir root) children enter))
    (hshort : ∀ f ∈ candidateFiles config (walk (Path.child dir root) children enter),
      f.path.utf8ByteSize ≤ Path.maxBytes) :
    (ofVisits config (walk root children enter)).IsMapped (Path.child dir)
      (ofVisits config (walk (Path.child dir root) children enter)) := by
  have hwalk := walk_child hopen
  have hfiles : candidateFiles config (walk (Path.child dir root) children enter) =
      (candidateFiles config (walk root children enter)).map (FoundFile.mapPath (Path.child dir)) := by
    rw [hwalk, candidateFiles_map]
  rw [hfiles, List.forall_mem_map] at hshort
  constructor
  · rw [references_ofVisits_eq_flatMap hwell, references_ofVisits_eq_flatMap hwell, hfiles,
      List.flatMap_map, List.map_flatMap]
    refine List.flatMap_congr fun f hf => ?_
    rw [ownReferences_child (hshort f hf)]
    have hsorted : ((ownReferences config f).mergeSort lineKindLe).map (Reference.mapFile (Path.child dir)) =
        ((ownReferences config f).map (Reference.mapFile (Path.child dir))).mergeSort lineKindLe :=
      List.map_mergeSort fun _ _ _ _ => rfl
    exact hsorted.symm
  · rw [issues_ofVisits, issues_ofVisits, hopen.filterMap_issue?, hfiles]
    rw [hwalk] at hopen
    rw [hopen.of_map.filterMap_issue?, List.nil_append, List.nil_append, List.filterMap_map,
      List.map_filterMap, List.map_filterMap, List.map_filterMap]
    refine List.filterMap_congr fun f hf => ?_
    rw [Function.comp_apply, fileIssue?_eq, fileIssue?_eq, readFault?, contentOf_child (hshort f hf),
      readFault?]
    cases contentOf f with
    | ok content => rfl
    | error fault => exact congrArg some (Issue.unworded_congr rfl rfl)

end Scan

/-! ## The analysis of a tree -/

namespace Config

/-- The configuration with its roots in a directory. -/
def inDir (c : Config) (dir : String) : Config :=
  { c with
    roots.appDir := Path.child dir c.roots.appDir
    roots.sourceDir := Path.child dir c.roots.sourceDir }

/-- What the collector finds in a tree, unless it fails. -/
def collectIn (c : Config) (tree : List (String × Node)) : Option Collection :=
  (FileSystem.rootIn tree c.roots.strict c.roots.appDir).map fun
    | some children =>
      .ofVisits c.collector (walk c.roots.appDir children (Collection.enters c.collector))
    | none => { issues := [.missingRoot .app c.roots.appDir] }

/-- What the scanner finds in a tree, unless it fails. -/
def scanIn (c : Config) (tree : List (String × Node)) : Option Scan :=
  (FileSystem.rootIn tree c.roots.strict c.roots.sourceDir).map fun
    | some children => .ofVisits c.scanner (walk c.roots.sourceDir children c.scanner.enters)
    | none => { issues := [.missingRoot .source c.roots.sourceDir] }

/-- The directory holds the tree, and no path that the analysis comes to is too long. A root in it is not the
empty path, as it would be if both the directory and the root were. -/
structure FitsIn (c : Config) (fs : FileSystem) (dir : String) (tree : List (String × Node)) : Prop where
  stores : fs.Stores dir tree
  appDir_ne : Path.child dir c.roots.appDir ≠ ""
  appDir_short : (Path.child dir c.roots.appDir).utf8ByteSize ≤ Path.maxBytes
  sourceDir_ne : Path.child dir c.roots.sourceDir ≠ ""
  sourceDir_short : (Path.child dir c.roots.sourceDir).utf8ByteSize ≤ Path.maxBytes
  limit : (c.inDir dir).MeetsNoLimit fs

variable {c : Config} {fs fs' : FileSystem} {dir' : String} {tree : List (String × Node)}

theorem FitsIn.collect_cases (h : c.FitsIn fs dir tree) (hwell : (Node.dir tree).WellFormed)
    (hroot : FileSystem.StaysIn tree c.roots.appDir) :
    (c.collectIn tree = none ∧ ∃ e, (c.inDir dir).collect fs = .error e) ∨
      ∃ collection collection', c.collectIn tree = some collection ∧
        (c.inDir dir).collect fs = .ok collection' ∧ collection.IsMapped (Path.child dir)
          c.roots.appDir (c.inDir dir).roots.appDir collection' := by
  have hcollect : (c.inDir dir).collect fs =
      fs.collect c.collector c.roots.strict (Path.child dir c.roots.appDir) := rfl
  rw [hcollect, FileSystem.collect, collectIn]
  rcases h.stores.openRoot_cases hwell hroot h.appDir_ne h.appDir_short .app c.roots.strict with
    ⟨hnone, e, hopen⟩ | ⟨hmissing, hopen⟩ | ⟨children, hchildren, hstat, hdir⟩
  · rw [hnone, hopen]
    exact Or.inl ⟨rfl, e, rfl⟩
  · rw [hmissing, hopen]
    refine Or.inr ⟨_, _, rfl, rfl, rfl, ?_, fun e he => absurd he List.not_mem_nil⟩
    exact congrArg (fun i => [i]) (Issue.unworded_congr rfl rfl)
  · rw [hchildren, FileSystem.openRoot_of_stat hstat]
    exact Or.inr ⟨_, _, rfl, rfl, Collection.isMapped_ofVisits hdir (h.limit.app children hstat)⟩

theorem FitsIn.scan_cases (h : c.FitsIn fs dir tree) (hwell : (Node.dir tree).WellFormed)
    (hroot : FileSystem.StaysIn tree c.roots.sourceDir) :
    (c.scanIn tree = none ∧ ∃ e, (c.inDir dir).scan fs = .error e) ∨
      ∃ scan scan', c.scanIn tree = some scan ∧ (c.inDir dir).scan fs = .ok scan' ∧
        scan.IsMapped (Path.child dir) scan' := by
  have hscan : (c.inDir dir).scan fs =
      fs.scan c.scanner c.roots.strict (Path.child dir c.roots.sourceDir) := rfl
  rw [hscan, FileSystem.scan, scanIn]
  rcases h.stores.openRoot_cases hwell hroot h.sourceDir_ne h.sourceDir_short .source c.roots.strict with
    ⟨hnone, e, hopen⟩ | ⟨hmissing, hopen⟩ | ⟨children, hchildren, hstat, hdir⟩
  · rw [hnone, hopen]
    exact Or.inl ⟨rfl, e, rfl⟩
  · rw [hmissing, hopen]
    refine Or.inr ⟨_, _, rfl, rfl, rfl, ?_⟩
    exact congrArg (fun i => [i]) (Issue.unworded_congr rfl rfl)
  · rw [hchildren, FileSystem.openRoot_of_stat hstat]
    exact Or.inr ⟨_, _, rfl, rfl,
      Scan.isMapped_ofVisits hdir (h.limit.source children hstat) (h.limit.files children hstat)⟩

/-- A run in a directory fails if the tree does not let it succeed; else it is the analysis of the
tree with its files mapped. -/
theorem FitsIn.run_cases (h : c.FitsIn fs dir tree) (hwell : (Node.dir tree).WellFormed)
    (happ : FileSystem.StaysIn tree c.roots.appDir) (hsource : FileSystem.StaysIn tree c.roots.sourceDir)
    (time time' : Timestamp) :
    ((c.collectIn tree = none ∨ c.scanIn tree = none) ∧ ∃ e, (c.inDir dir).run fs time' = .error e) ∨
      ∃ collection scan collection' scan', c.collectIn tree = some collection ∧
        c.scanIn tree = some scan ∧ (c.inDir dir).collect fs = .ok collection' ∧
        (c.inDir dir).scan fs = .ok scan' ∧
        classify collection' scan' = (classify collection scan).mapFiles (Path.child dir) ∧
        ((c.inDir dir).analyze collection' scan' time').unworded =
          ((c.analyze collection scan time).mapFiles (Path.child dir)).unworded := by
  rcases h.collect_cases hwell happ with ⟨hnone, e, herror⟩ |
    ⟨collection, collection', hsome, hcollect, hcollection⟩
  · exact Or.inl ⟨Or.inl hnone, e, by rw [run, herror]⟩
  rcases h.scan_cases hwell hsource with ⟨hnone, e, herror⟩ | ⟨scan, scan', hsome', hscan, hmapped⟩
  · exact Or.inl ⟨Or.inr hnone, e, by rw [run, hcollect, herror]⟩
  exact Or.inr ⟨collection, scan, collection', scan', hsome, hsome', hcollect, hscan,
    classify_mapped hcollection hmapped,
    analyze_mapped (Path.keepsOrder_child dir) c (c.inDir dir) rfl hcollection hmapped time time'⟩

/-- **A project says the same wherever it is checked out.** With both roots below one directory, and below
another one that holds the same tree, either both runs fail, or both succeed, with the same verdicts on the
same used paths, and with reports that are the same, in the order of all lists, once the one directory takes
the place of the other in every file and every path of an issue. -/
theorem run_relocate (hwell : (Node.dir tree).WellFormed)
    (happ : FileSystem.StaysIn tree c.roots.appDir) (hsource : FileSystem.StaysIn tree c.roots.sourceDir)
    (h : c.FitsIn fs dir tree) (h' : c.FitsIn fs' dir' tree) (time time' : Timestamp) :
    ((∃ e, (c.inDir dir).run fs time = .error e) ∧ ∃ e, (c.inDir dir').run fs' time' = .error e) ∨
      ∃ collection scan collection' scan' r r',
        (c.inDir dir).collect fs = .ok collection ∧ (c.inDir dir').collect fs' = .ok collection' ∧
        (c.inDir dir).scan fs = .ok scan ∧ (c.inDir dir').scan fs' = .ok scan' ∧
        (c.inDir dir).run fs time = .ok r ∧ (c.inDir dir').run fs' time' = .ok r' ∧
        (classify collection' scan').groups.map ClassifiedGroup.row =
          (classify collection scan).groups.map ClassifiedGroup.row ∧
        r'.unworded = (r.mapFiles (Path.rebase dir dir')).unworded := by
  have hcase := h.run_cases hwell happ hsource time time
  have hcase' := h'.run_cases hwell happ hsource time time'
  rcases hcase with ⟨hnone, e, herror⟩ |
    ⟨collection, scan, collection₁, scan₁, hsome, hsome', hcollect, hscan, hclassify, hreport⟩
  · rcases hcase' with ⟨-, e', herror'⟩ | ⟨_, _, _, _, hsome, hsome', -⟩
    · exact Or.inl ⟨⟨e, herror⟩, e', herror'⟩
    · rw [hsome, hsome'] at hnone
      simp at hnone
  · rcases hcase' with ⟨hnone, -⟩ |
      ⟨collection', scan', collection₂, scan₂, hsame, hsame', hcollect', hscan', hclassify', hreport'⟩
    · rw [hsome, hsome'] at hnone
      simp at hnone
    · obtain rfl : collection = collection' := Option.some.inj (hsome.symm.trans hsame)
      obtain rfl : scan = scan' := Option.some.inj (hsome'.symm.trans hsame')
      refine Or.inr ⟨_, _, _, _, _, _, hcollect, hcollect', hscan, hscan', run_eq_ok hcollect hscan time,
        run_eq_ok hcollect' hscan' time', ?_, ?_⟩
      · rw [hclassify, hclassify', Classification.rows_mapFiles, Classification.rows_mapFiles]
      · have hrebase : Path.rebase dir dir' ∘ Path.child dir = Path.child dir' :=
          funext (Path.rebase_child dir dir')
        rw [Report.unworded_mapFiles, hreport, ← Report.unworded_mapFiles, Report.mapFiles_mapFiles,
          hrebase, hreport']

/-- A checkout below `error` does not make its pages error pages. -/
theorem run_relocate_error :
    let app : List (String × Node) := [("about", .dir [("page.tsx", .file .empty)])]
    let src : List (String × Node) := [("app", .dir app), ("nav.ts", .ofText "router.push('/about');")]
    let project (dir : String) : FileSystem := ⟨.dir [(dir, .dir [("src", .dir src)])], []⟩
    let c : Config := {}
    ∃ r r', (c.inDir "shop").run (project "shop") ⟨0, 0⟩ = .ok r ∧
      (c.inDir "error").run (project "error") ⟨60, 0⟩ = .ok r' ∧
      r'.unworded = (r.mapFiles (Path.rebase "shop" "error")).unworded ∧
      Path.rebase "shop" "error" "shop/src/nav.ts" = "error/src/nav.ts" := by
  intro app src project c
  have hwell : (Node.dir [("src", .dir src)]).WellFormed := by decide
  have happ : FileSystem.StaysIn [("src", .dir src)] "src/app" := ⟨by decide, by decide, by decide⟩
  have hsource : FileSystem.StaysIn [("src", .dir src)] "src" := ⟨by decide, by decide, by decide⟩
  have stores : ∀ dir, dir = "shop" ∨ dir = "error" → (project dir).Stores dir [("src", .dir src)] := by
    rintro dir (rfl | rfl) <;> rfl
  have fits : ∀ dir, dir = "shop" ∨ dir = "error" → c.FitsIn (project dir) dir [("src", .dir src)] := by
    intro dir hdir
    have hdir' := stores dir hdir
    rcases hdir with rfl | rfl
    all_goals
      refine ⟨hdir', by decide, by decide, by decide, by decide, ?_⟩
      have hstatApp := hdir'.stat_child happ (by decide) (by decide)
      have hstatSource := hdir'.stat_child hsource (by decide) (by decide)
      refine .of_stat (hstatApp.trans (by rfl)) (hstatSource.trans (by rfl)) ?_ ?_ ?_
      · change Unhindered (walk (Path.child _ "src/app") app (Collection.enters {}))
        exact of_decide_eq_true (by rfl)
      · change Unhindered (walk (Path.child _ "src") src (ScannerConfig.enters {}))
        exact of_decide_eq_true (by rfl)
      · change ∀ f ∈ Scan.candidateFiles {} (walk (Path.child _ "src") src (ScannerConfig.enters {})), _
        decide +kernel
  have hroot : FileSystem.rootIn [("src", .dir src)] false "src/app" = some (some app) := by rfl
  have hroot' : FileSystem.rootIn [("src", .dir src)] false "src" = some (some src) := by rfl
  have hcollect : c.collectIn [("src", .dir src)] ≠ none := by simp [collectIn, c, hroot]
  have hscan : c.scanIn [("src", .dir src)] ≠ none := by simp [scanIn, c, hroot']
  rcases run_relocate hwell happ hsource (fits "shop" (.inl rfl)) (fits "error" (.inr rfl)) ⟨0, 0⟩ ⟨60, 0⟩ with
    ⟨⟨e, herror⟩, -⟩ | ⟨_, _, _, _, r, r', -, -, -, -, hrun, hrun', -, hreport⟩
  · rcases (fits "shop" (.inl rfl)).run_cases hwell happ hsource ⟨0, 0⟩ ⟨0, 0⟩ with
      ⟨hnone, -⟩ | ⟨_, _, _, _, -, -, hcollect, hscan, -⟩
    · exact absurd hnone (not_or.mpr ⟨hcollect, hscan⟩)
    · rw [run_eq_ok hcollect hscan] at herror
      cases herror
  · exact ⟨r, r', hrun, hrun', hreport, by decide⟩

end Config

end RouteAudit
