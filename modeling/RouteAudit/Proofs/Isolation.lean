import RouteAudit.Proofs.Located
import RouteAudit.Proofs.Scanned
import RouteAudit.Proofs.Without

/-!
# One unreadable file

Of a run that succeeds, other bytes in one source file change only what comes from this file. If they
are no text, the references of the file are gone and one issue is there instead (`run_unreadable`).

Proof. The routing root is walked as before, but for the bytes of a file that may stand below it, and
the collector does not look at bytes (`collect_put_file`). The walk of the sources is the same before
the file and after it (`walk_putAt_file`). So the references that are left are those of other files,
in their order (`ofVisits_unreadable`); what this does to the groups, to the verdicts and to the
unused pages is known from leaving references out.
-/

namespace RouteAudit

/-! ## Bytes in a walk -/

/-- The visit without the bytes of its file. -/
def Visit.erase : Visit → Visit
  | file f => file { f with bytes := .empty }
  | fault path => fault path

namespace Node

variable {enter : String → Bool}

/-- Other bytes in one file change nothing else in a walk. -/
theorem erase_visitsBelow_putAt {node : Node} (hwell : node.WellFormed) {place : List String}
    {old : ByteArray} (hat : at? place node = some (.file old)) (hne : place ≠ []) (new : ByteArray)
    (path : String) :
    (visitsBelow enter path [] (putAt (.file new) place node).children).map Visit.erase =
      (visitsBelow enter path [] node.children).map Visit.erase := by
  obtain ⟨ds, name, rfl⟩ := (List.eq_nil_or_concat' place).resolve_left hne
  by_cases hentered : Entered enter path ds
  · obtain ⟨before, after, hput⟩ := visitsBelow_putAt_of_entered hwell hat path [] hentered
    have hold := hput (.file old)
    rw [putAt_at? hwell hat] at hold
    rw [hput, hold]
    simp [visits, Visit.erase]
  · rw [visitsBelow_putAt_of_not_entered hwell hat path [] hentered]

/-- The walk before a file and after it does not depend on the bytes of the file. -/
theorem walk_putAt_file {children : List (String × Node)} (hwell : (dir children).WellFormed)
    {root : String} {f : FoundFile} (hf : .file f ∈ walk root children enter) :
    ∃ before after, walk root children enter = before ++ .file f :: after ∧
      ∀ bytes, walk root (putAt (.file bytes) f.place (dir children)).children enter =
        before ++ .file { f with bytes } :: after := by
  obtain ⟨hpath, hat, hentered⟩ := (mem_walk_iff hwell).mp hf
  obtain ⟨before, after, hput⟩ := visitsBelow_putAt_of_entered hwell hat root [] hentered
  have hfile : ∀ bytes, visits enter (Path.below root (f.dirs ++ [f.name])) ([] ++ f.dirs) f.name
      (.file bytes) = [.file { f with bytes }] := by
    intro bytes
    rw [visits, List.nil_append, hpath, FoundFile.place]
  have hwalk : ∀ bytes, walk root (putAt (.file bytes) f.place (dir children)).children enter =
      before ++ .file { f with bytes } :: after := by
    intro bytes
    have h := hput (.file bytes)
    rw [hfile, List.append_assoc] at h
    exact h
  have hsame := hwalk f.bytes
  rw [putAt_at? hwell hat] at hsame
  exact ⟨before, after, hsame, hwalk⟩

end Node

namespace Collection

/-- The collector does not look at the bytes of the files. -/
theorem ofVisits_congr (config : CollectorConfig) {a b : List Visit}
    (h : a.map Visit.erase = b.map Visit.erase) : ofVisits config a = ofVisits config b := by
  have herase : ∀ visits : List Visit, ofVisits config (visits.map Visit.erase) = ofVisits config visits := by
    intro visits
    have hfiles : ((visits.map Visit.erase).filterMap Visit.file?).filterMap (entryOf? config) =
        (visits.filterMap Visit.file?).filterMap (entryOf? config) := by
      rw [List.filterMap_map, List.filterMap_filterMap, List.filterMap_filterMap]
      refine List.filterMap_congr fun v _ => ?_
      cases v <;> rfl
    have hissues : (visits.map Visit.erase).filterMap Visit.issue? = visits.filterMap Visit.issue? := by
      rw [List.filterMap_map]
      refine List.filterMap_congr fun v _ => ?_
      cases v <;> rfl
    rw [ofVisits, hfiles, hissues]
    rfl
  rw [← herase a, h, herase]

end Collection

namespace FileSystem

variable {fs : FileSystem} {place : List String} {old : ByteArray}

theorem keeps_put_file (hwell : fs.top.WellFormed) (hat : fs.at? place = some (.file old))
    (new : ByteArray) : Keeps fs (fs.put place (.file new)) ∧ Keeps (fs.put place (.file new)) fs := by
  have hsame := put_at? hwell hat
  have hkeeps := Keeps.put (.file old new) fs place
  have hkeeps' := Keeps.put (.file new old) fs place
  rw [hsame] at hkeeps hkeeps'
  exact ⟨hkeeps, hkeeps'⟩

/-- Below a directory that holds the file there are the old nodes but for the file, and elsewhere all
of them. -/
theorem at?_put_file (hat : fs.at? place = some (.file old)) {dirPlace : List String}
    {children : List (String × Node)} (hdir : fs.at? dirPlace = some (.dir children)) (new : ByteArray) :
    (∃ rest, rest ≠ [] ∧ Node.at? rest (.dir children) = some (.file old) ∧
        (fs.put place (.file new)).at? dirPlace = some (Node.putAt (.file new) rest (.dir children))) ∨
      (fs.put place (.file new)).at? dirPlace = some (.dir children) := by
  by_cases habove : dirPlace <+: place
  · obtain ⟨rest, rfl⟩ := habove
    have hrest : Node.at? rest (.dir children) = some (.file old) := by
      rwa [at?_append hdir] at hat
    refine Or.inl ⟨rest, ?_, hrest, Node.at?_putAt_above hdir _ rest⟩
    rintro rfl
    cases hrest
  · have hbelow : ¬ place <+: dirPlace := by
      rintro ⟨rest, rfl⟩
      rw [at?_append hat] at hdir
      cases rest <;> cases hdir
    exact Or.inr ((Node.at?_putAt_apart hbelow habove _ _).trans hdir)

/-- **Other bytes in one file do not change what is collected.** -/
theorem collect_put_file (hwell : fs.top.WellFormed) (hat : fs.at? place = some (.file old))
    (new : ByteArray) (config : CollectorConfig) (strict : Bool) (root : String) :
    (fs.put place (.file new)).collect config strict root = fs.collect config strict root := by
  obtain ⟨hkeeps, hkeeps'⟩ := keeps_put_file hwell hat new
  rcases hkeeps.stat_cases hkeeps' root with
    ⟨fault, hstat, hstat'⟩ | ⟨rootPlace, node, node', hlocate, hlocate', hkind⟩
  · rw [collect, collect, openRoot, openRoot, hstat, hstat']
  · have hstat := stat_eq_ok_iff.mpr ⟨rootPlace, hlocate⟩
    have hstat' := stat_eq_ok_iff.mpr ⟨rootPlace, hlocate'⟩
    cases hkind with
    | file a b => rw [collect, collect, openRoot, openRoot, hstat, hstat']
    | link target => rw [collect, collect, openRoot, openRoot, hstat, hstat']
    | dir children children' =>
      have hdir := at?_of_locate hlocate
      have hdir' := at?_of_locate hlocate'
      rw [collect, collect, openRoot_of_stat hstat, openRoot_of_stat hstat']
      refine congrArg Except.ok (Collection.ofVisits_congr config ?_)
      rcases at?_put_file hat hdir new with ⟨rest, hne, hrest, hput⟩ | hput
      · rw [hput] at hdir'
        have hchildren : children' = (Node.putAt (.file new) rest (.dir children)).children := by
          rw [Option.some.inj hdir']
          rfl
        rw [hchildren]
        exact Node.erase_visitsBelow_putAt (hwell.at? hdir) hrest hne new root
      · rw [hput] at hdir'
        cases hdir'
        rfl

end FileSystem

/-! ## The scan of an unreadable file -/

namespace Scan

variable {config : ScannerConfig} {f : FoundFile}

theorem scanFile_of_not_text {content : String} (h : contentOf f = .ok content) {bad : ByteArray}
    (hbad : String.fromUTF8? bad = none) (forms : List Form) :
    scanFile config forms { f with bytes := bad } =
      .unreadable (.unreadableFile f.path .notUtf8) := by
  have hshort : ¬ Path.maxBytes < f.path.utf8ByteSize := by
    intro hlong
    rw [contentOf, if_pos hlong] at h
    cases h
  have hcontent : contentOf { f with bytes := bad } = .error .notUtf8 := by
    rw [contentOf, if_neg hshort, FileSystem.textOf, hbad]
  rw [scanFile, hcontent]

theorem candidateFiles_append_cons (hf : Path.hasEnding config.extensions f.name = true)
    (before after : List Visit) : candidateFiles config (before ++ .file f :: after) =
      candidateFiles config before ++ f :: candidateFiles config after := by
  simp [candidateFiles, Visit.file?, hf]

theorem fileIssue?_eq_none {content : String} (h : contentOf f = .ok content) :
    fileIssue? config f = none := by
  rw [fileIssue?, scanFile, h]
  dsimp only
  split_ifs <;> rfl

theorem readAll_filter_self {files : List FoundFile} {path : String}
    (h : ∀ g ∈ files, g.path ≠ path) :
    (readAll config files).filter (·.file ≠ path) = readAll config files := by
  rw [List.filter_eq_self]
  intro r hr
  obtain ⟨g, hg, hr⟩ := List.mem_flatMap.mp hr
  rw [decide_eq_true_iff, (of_mem_scanFile hr).2]
  exact h g hg

/-- To leave out the references of a file leaves those of the others. -/
theorem readAll_filter_append_cons {before after : List FoundFile}
    (hother : ∀ g ∈ before ++ after, g.path ≠ f.path) :
    (readAll config (before ++ f :: after)).filter (·.file ≠ f.path) =
      readAll config before ++ readAll config after := by
  have hown : (scanFile config (Form.ofConfig config) f).references.filter (·.file ≠ f.path) = [] := by
    rw [List.filter_eq_nil_iff]
    intro r hr
    simp [(of_mem_scanFile hr).2]
  have hsplit : readAll config (before ++ f :: after) = readAll config before ++
      ((scanFile config (Form.ofConfig config) f).references ++ readAll config after) := by
    rw [readAll, List.flatMap_append, List.flatMap_cons]
    rfl
  rw [hsplit, List.filter_append, List.filter_append, hown, List.nil_append,
    readAll_filter_self fun g hg => hother g (List.mem_append_left _ hg),
    readAll_filter_self fun g hg => hother g (List.mem_append_right _ hg)]

/-- **A scan in which one file is no text** has an issue in the place of the references of the
file. -/
theorem ofVisits_unreadable (hf : Path.hasEnding config.extensions f.name = true) {content : String}
    (hreadable : contentOf f = .ok content) {bad : ByteArray} (hbad : String.fromUTF8? bad = none)
    {before after : List Visit} (hother : ∀ g, .file g ∈ before ++ after → g.path ≠ f.path) :
    let scan := ofVisits config (before ++ .file f :: after)
    let scan' := ofVisits config (before ++ .file { f with bytes := bad } :: after)
    scan'.candidates = scan.candidates ∧
      scan'.references = scan.references.filter (·.file ≠ f.path) ∧
      scan'.issues.Perm (.unreadableFile f.path .notUtf8 :: scan.issues) := by
  intro scan scan'
  let g : FoundFile := { f with bytes := bad }
  have hg : Path.hasEnding config.extensions g.name = true := hf
  have hfiles := candidateFiles_append_cons hf before after
  have hfiles' := candidateFiles_append_cons hg before after
  have hscan : scanFile config (Form.ofConfig config) g = .unreadable (.unreadableFile f.path .notUtf8) :=
    scanFile_of_not_text hreadable hbad _
  refine ⟨?_, ?_, ?_⟩
  · change (candidateFiles config (before ++ .file g :: after)).length =
      (candidateFiles config (before ++ .file f :: after)).length
    rw [hfiles, hfiles']
    simp
  · have hothers : ∀ g ∈ candidateFiles config before ++ candidateFiles config after,
        g.path ≠ f.path := by
      intro g hg
      refine hother g (List.mem_append.mpr ?_)
      exact (List.mem_append.mp hg).imp (fun h => mem_files_iff.mp (List.mem_of_mem_filter h))
        fun h => mem_files_iff.mp (List.mem_of_mem_filter h)
    have hread : readAll config (candidateFiles config before ++ g :: candidateFiles config after) =
        readAll config (candidateFiles config before) ++ readAll config (candidateFiles config after) := by
      rw [readAll, List.flatMap_append, List.flatMap_cons, hscan]
      rfl
    rw [references_ofVisits, references_ofVisits, hfiles, hfiles',
      ← sortOrder_referenceLe.filter_mergeSort, readAll_filter_append_cons hothers, hread]
  · have hnone : fileIssue? config f = none := fileIssue?_eq_none hreadable
    have hsome : fileIssue? config g = some (.unreadableFile f.path .notUtf8) := by
      rw [fileIssue?, hscan]
      rfl
    have hvisits : ∀ f, (before ++ .file f :: after).filterMap Visit.issue? =
        (before ++ after).filterMap Visit.issue? := by
      intro f
      rw [List.filterMap_append, List.filterMap_append]
      rfl
    rw [issues_ofVisits, issues_ofVisits, hvisits f, hvisits g, hfiles, hfiles',
      List.filterMap_append (f := fileIssue? config), List.filterMap_append (f := fileIssue? config),
      List.filterMap_cons_some hsome, List.filterMap_cons_none hnone,
      ← List.append_assoc, ← List.append_assoc]
    exact List.perm_middle

end Scan

/-! ## Two runs -/

namespace FileSystem

variable {fs : FileSystem} {config : ScannerConfig} {root : String} {source : List String}
  {children : List (String × Node)} {f : FoundFile}

theorem at?_of_mem_walk (hwell : fs.top.WellFormed) {enter : String → Bool}
    (hsource : fs.locate .target root = .ok ⟨source, some (.dir children)⟩)
    (hf : .file f ∈ walk root children enter) : fs.at? (source ++ f.place) = some (.file f.bytes) := by
  have hdir := at?_of_locate hsource
  rw [at?_append hdir]
  exact ((Node.mem_walk_iff (hwell.at? hdir)).mp hf).2.1

/-- A scan after a candidate file was made unreadable. -/
theorem scan_put_unreadable (hwell : fs.top.WellFormed)
    (hsource : fs.locate .target root = .ok ⟨source, some (.dir children)⟩)
    (hf : f ∈ Scan.candidateFiles config (walk root children config.enters)) {content : String}
    (hreadable : Scan.contentOf f = .ok content) {bad : ByteArray}
    (hbad : String.fromUTF8? bad = none) (strict : Bool) :
    ∃ scan scan', fs.scan config strict root = .ok scan ∧
      (fs.put (source ++ f.place) (.file bad)).scan config strict root = .ok scan' ∧
      scan'.candidates = scan.candidates ∧
      scan'.references = scan.references.filter (·.file ≠ f.path) ∧
      scan'.issues.Perm (.unreadableFile f.path .notUtf8 :: scan.issues) ∧
      ∀ r ∈ scan.references, r.OfRaw := by
  obtain ⟨hwalked, hending⟩ := List.mem_filter.mp hf
  rw [mem_files_iff] at hwalked
  have hdir := at?_of_locate hsource
  have hchildren : (Node.dir children).WellFormed := hwell.at? hdir
  obtain ⟨before, after, hwalk, hput⟩ := Node.walk_putAt_file hchildren hwalked
  have hother : ∀ g, .file g ∈ before ++ after → g.path ≠ f.path :=
    fun g => Node.path_ne_of_walk_eq hchildren hwalk
  have hsource' : (fs.put (source ++ f.place) (.file bad)).locate .target root =
      .ok ⟨source, some (Node.putAt (.file bad) f.place (.dir children))⟩ := by
    have hkeeps := (keeps_put_file hwell (at?_of_mem_walk hwell hsource hwalked) bad).1
    rw [hkeeps.locate_of_some hsource]
    exact congrArg (fun node => Except.ok (Found.mk source node)) (Node.at?_putAt_above hdir _ _)
  obtain ⟨children', hchildren'⟩ :=
    Node.exists_dir_of_putAt_append (.file bad) f.dirs f.name (.dir children)
  change Node.putAt _ f.place _ = _ at hchildren'
  have hwalk' := hput bad
  rw [hchildren'] at hsource' hwalk'
  have hscan : fs.scan config strict root = .ok (.ofVisits config (before ++ .file f :: after)) := by
    rw [scan, openRoot_of_stat (stat_eq_ok_iff.mpr ⟨source, hsource⟩), ← hwalk]
  have hscan' : (fs.put (source ++ f.place) (.file bad)).scan config strict root =
      .ok (.ofVisits config (before ++ .file { f with bytes := bad } :: after)) := by
    rw [scan, openRoot_of_stat (stat_eq_ok_iff.mpr ⟨source, hsource'⟩), ← hwalk']
    rfl
  obtain ⟨hcandidates, hreferences, hissues⟩ := Scan.ofVisits_unreadable hending hreadable hbad hother
  exact ⟨_, _, hscan, hscan', hcandidates, hreferences, hissues, fun r => Scan.ofRaw_of_mem_ofVisits⟩

end FileSystem

/-- An issue more takes its place in the sorted list. -/
theorem Issue.exists_sorted_cons {issues issues' : List Issue} {issue : Issue}
    (h : issues'.Perm (issue :: issues)) : ∃ before after, sorted issues = before ++ after ∧
      sorted issues' = before ++ issue :: after ∧ (sorted issues').Pairwise fun a b => a.le b = true := by
  obtain ⟨hcons, hsplit⟩ := sortOrder_le.mergeSort_cons_eq issue issues
  refine ⟨_, _, hsplit, ?_, List.pairwise_mergeSort sortOrder_le.trans sortOrder_le.total _⟩
  rw [sorted, sortOrder_le.mergeSort_eq_of_perm le_antisymm h, hcons]

namespace Config

/-- **One unreadable file is isolated.** Where a run succeeds, it also succeeds after the bytes of a
readable source file were replaced by bytes that are no text. The routes and the number of candidates
are the same; the errors have one more, in its place; the used paths lose their occurrences in the file,
and those that have no others are gone, while the rest of what is said of them stays; and the
unused pages are still unused. -/
theorem run_unreadable {c : Config} {fs : FileSystem} {time : Timestamp} {r : Report}
    (hwell : fs.top.WellFormed) (hrun : c.run fs time = .ok r) {source : List String}
    {children : List (String × Node)}
    (hsource : fs.locate .target c.roots.sourceDir = .ok ⟨source, some (.dir children)⟩)
    {f : FoundFile}
    (hf : f ∈ Scan.candidateFiles c.scanner (walk c.roots.sourceDir children c.scanner.enters))
    {content : String} (hreadable : Scan.contentOf f = .ok content) {bad : ByteArray}
    (hbad : String.fromUTF8? bad = none) :
    let fs' := fs.put (source ++ f.place) (.file bad)
    ∃ collection scan scan' r', c.collect fs = .ok collection ∧ c.scan fs = .ok scan ∧
      r = c.analyze collection scan time ∧
      c.run fs' time = .ok r' ∧ c.collect fs' = .ok collection ∧ c.scan fs' = .ok scan' ∧
      r' = c.analyze collection scan' time ∧
      scan'.candidates = scan.candidates ∧ r'.allAppRoutes = r.allAppRoutes ∧
      (∃ before after, r.errors = before ++ after ∧
        r'.errors = before ++ .unreadableFile f.path .notUtf8 :: after ∧
        r'.errors.Pairwise fun a b => a.le b = true) ∧
      (classify collection scan').groups =
        (classify collection scan).groups.filterMap (ClassifiedGroup.keeping? (·.file ≠ f.path)) ∧
      r.unusedRoutes.Sublist r'.unusedRoutes := by
  intro fs'
  have hwalked := mem_files_iff.mp (List.mem_of_mem_filter hf)
  have hat := FileSystem.at?_of_mem_walk hwell hsource hwalked
  obtain ⟨scan, scan', hscan, hscan', hcandidates, hreferences, hissues, hraw⟩ :=
    FileSystem.scan_put_unreadable hwell hsource hf hreadable hbad c.roots.strict
  obtain ⟨collection, scan₀, hcollect, hscan₀, rfl⟩ := exists_of_run_eq_ok hrun
  obtain rfl : scan₀ = scan := Except.ok.inj (hscan₀.symm.trans hscan)
  have hcollect' : c.collect fs' = .ok collection :=
    (FileSystem.collect_put_file hwell hat bad c.collector c.roots.strict c.roots.appDir).trans hcollect
  have hrun' : c.run fs' time = .ok (c.analyze collection scan' time) := run_eq_ok hcollect' hscan' time
  have hgroups : (classify collection scan').groups =
      (classify collection scan₀).groups.filterMap (ClassifiedGroup.keeping? (·.file ≠ f.path)) := by
    rw [classify, classify, hreferences, UsageGroup.ofReferences_filter hraw,
      Classification.ofGroups_filterMap_keeping?]
  refine ⟨collection, scan₀, scan', _, hcollect, hscan₀, rfl, hrun', hcollect', hscan', rfl,
    hcandidates, rfl, ?_, hgroups, ?_⟩
  · exact Issue.exists_sorted_cons ((hissues.append_left collection.issues).trans List.perm_middle)
  · refine UnusedRoute.sortOrder_le.sublist_mergeSort (List.Sublist.map _ (unusedRoutes_sublist _ ?_ _ _))
    change Classification.internalPaths (classify collection scan').groups ⊆
      Classification.internalPaths (classify collection scan₀).groups
    rw [hgroups]
    exact Classification.internalPaths_keeping?_subset _ _

/-- The file with the only reference to the page is lost, and the run goes on. -/
theorem run_unreadable_navigation :
    let time : Timestamp := ⟨1714564800, 0⟩
    let children : List (String × Node) :=
      [("app", .dir [("page.tsx", .file .empty)]), ("nav.ts", .ofText "router.push('/');")]
    let fs : FileSystem := ⟨.dir [("src", .dir children)], []⟩
    ∃ r r', run {} fs time = .ok r ∧ run {} (fs.put ["src", "nav.ts"] (.file ⟨#[0xff]⟩)) time = .ok r' ∧
      r'.allAppRoutes = r.allAppRoutes ∧ r.unusedRoutes.Sublist r'.unusedRoutes ∧
      .unreadableFile "src/nav.ts" .notUtf8 ∈ r'.errors := by
  intro time children fs
  let f : FoundFile := ⟨"src/nav.ts", [], "nav.ts", "router.push('/');".toUTF8⟩
  have hwell : fs.top.WellFormed := by decide
  have hchildren : (Node.dir children).WellFormed := by decide
  obtain ⟨r, hrun⟩ : ∃ r, run {} fs time = .ok r := ⟨_, rfl⟩
  have hsource : fs.locate .target "src" = .ok ⟨["src"], some (.dir children)⟩ := by rfl
  have hf : f ∈ Scan.candidateFiles {} (walk "src" children (ScannerConfig.enters {})) := by
    refine List.mem_filter.mpr ⟨mem_files_iff.mpr ?_, by decide⟩
    exact (Node.mem_walk_iff hchildren).mpr ⟨by decide, rfl, trivial⟩
  have hreadable : Scan.contentOf f = .ok "router.push('/');" := by
    rw [Scan.contentOf, if_neg (by decide)]
    exact FileSystem.textOf_toUTF8 "router.push('/');"
  have hbad : String.fromUTF8? ⟨#[0xff]⟩ = none := by decide
  obtain ⟨-, -, -, r', -, -, -, hrun', -, -, -, -, hroutes, ⟨before, after, -, herrors, -⟩, -, hunused⟩ :=
    run_unreadable hwell hrun hsource hf hreadable hbad
  refine ⟨r, r', hrun, hrun', hroutes, hunused, ?_⟩
  rw [herrors]
  exact List.mem_append_right _ List.mem_cons_self

end Config

end RouteAudit
