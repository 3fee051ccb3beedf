import RouteAudit.Proofs.Located
import RouteAudit.Proofs.Scanned

/-!
# A scan is the files, one after the other

The references of a scan are those that each file gives on its own, sorted by line and kind, in the
order of the files (`references_ofVisits_eq_flatMap`). So the order by file, line and kind of all of them
moves no reference to another file and keeps the order of those of one file, line and kind
(`filter_references_ofVisits`). Every candidate is searched, has no marker, or is an issue
(`scan_eq_flatMap`).

Proof. A walk comes to the files in strictly ascending order of their paths, which is the order that
comes first when references are sorted. So the references of the files are blocks in strict order, and
such blocks are sorted one by one (`SortOrder.mergeSort_flatMap`).
-/

namespace RouteAudit

namespace Scan

variable {config : ScannerConfig} {f : FoundFile}

/-! ## What one file gives -/

/-- The references that a file gives on its own, if it can be read and has a marker. -/
def ownReferences (config : ScannerConfig) (f : FoundFile) : List Reference :=
  match contentOf f with
  | .ok content =>
    if hasMarker config.markers content then
      extractReferences (Form.ofConfig config) content f.path
    else []
  | .error _ => []

/-- Why a file cannot be read, if it cannot. -/
def readFault? (f : FoundFile) : Option FileFault :=
  match contentOf f with
  | .ok _ => none
  | .error fault => some fault

/-- Whether a file can be read but has no marker. -/
def lacksMarker (config : ScannerConfig) (f : FoundFile) : Bool :=
  match contentOf f with
  | .ok content => !hasMarker config.markers content
  | .error _ => false

theorem references_scanFile_eq (config : ScannerConfig) (f : FoundFile) :
    (scanFile config (Form.ofConfig config) f).references = ownReferences config f := by
  unfold scanFile ownReferences
  cases contentOf f with
  | error fault => rfl
  | ok content =>
    dsimp only
    split_ifs <;> rfl

theorem fileIssue?_eq (config : ScannerConfig) (f : FoundFile) :
    fileIssue? config f = (readFault? f).map (.unreadableFile f.path) := by
  unfold fileIssue? scanFile readFault?
  cases contentOf f with
  | error fault => rfl
  | ok content =>
    dsimp only
    split_ifs <;> rfl

/-- A file is searched, cannot be read, or has no marker, and only one of these. -/
theorem outcomes_eq_one (config : ScannerConfig) (f : FoundFile) :
    (if (scanFile config (Form.ofConfig config) f).isExtracted = true then 1 else 0) +
      (if (readFault? f).isSome = true then 1 else 0) +
      (if lacksMarker config f = true then 1 else 0) = 1 := by
  unfold scanFile readFault? lacksMarker
  cases contentOf f with
  | error fault => rfl
  | ok content =>
    cases hmarker : hasMarker config.markers content <;> simp [hmarker, FileScan.isExtracted]

/-- The candidates are counted by what they give. -/
theorem length_eq_add_countP (config : ScannerConfig) (files : List FoundFile) :
    files.length = (files.map (scanFile config (Form.ofConfig config))).countP FileScan.isExtracted +
      files.countP (fun f => (readFault? f).isSome) + files.countP (lacksMarker config) := by
  induction files with
  | nil => rfl
  | cons f files ih =>
    have hone := outcomes_eq_one config f
    rw [List.length_cons, List.map_cons, List.countP_cons, List.countP_cons, List.countP_cons]
    omega

/-! ## The order of references -/

/-- Whether the first reference of a file does not come after the second: by line, then kind. -/
def lineKindLe (a b : Reference) : Bool :=
  if a.line ≠ b.line then a.line < b.line else a.kind.rank ≤ b.kind.rank

theorem referenceLe_of_file_eq {a b : Reference} (h : a.file = b.file) :
    referenceLe a b = lineKindLe a b := by
  rw [referenceLe, h, Path.less_irrefl]
  rfl

theorem referenceLe_of_less {a b : Reference} (h : Path.less a.file b.file = true) :
    referenceLe a b = true ∧ referenceLe b a = false := by
  have hback : Path.less b.file a.file = false := by
    by_contra hless
    have hloop := Path.keyOrder_componentsLess.trans _ _ _ h (Bool.eq_true_of_not_eq_false hless)
    rw [Path.componentsLess_irrefl] at hloop
    cases hloop
  constructor
  · rw [referenceLe, if_pos h]
  · rw [referenceLe, hback, if_neg Bool.false_ne_true, if_pos h]

/-! ## The references of a walk -/

variable {root : String} {children : List (String × Node)}

theorem file_of_mem_ownReferences {r : Reference} (h : r ∈ ownReferences config f) : r.file = f.path := by
  rw [← references_scanFile_eq] at h
  exact (of_mem_scanFile h).2

theorem mem_candidateFiles_iff {visits : List Visit} :
    f ∈ candidateFiles config visits ↔
      .file f ∈ visits ∧ Path.hasEnding config.extensions f.name = true := by
  rw [candidateFiles, List.mem_filter, mem_files_iff]

/-- The candidates stand in strictly ascending order of their paths. -/
theorem pairwise_candidateFiles (hwell : (Node.dir children).WellFormed) (enter : String → Bool) :
    (candidateFiles config (walk root children enter)).Pairwise
      fun f g => Path.less f.path g.path = true :=
  (Node.pairwise_files_walk hwell).filter _

theorem readAll_eq (config : ScannerConfig) (files : List FoundFile) :
    readAll config files = files.flatMap (ownReferences config) :=
  List.flatMap_congr fun f _ => references_scanFile_eq config f

/-- **The references of a scan, file by file**: each file gives its own, sorted by line and kind. -/
theorem references_ofVisits_eq_flatMap (hwell : (Node.dir children).WellFormed)
    (config : ScannerConfig) (enter : String → Bool) :
    (ofVisits config (walk root children enter)).references =
      (candidateFiles config (walk root children enter)).flatMap
        fun f => (ownReferences config f).mergeSort lineKindLe := by
  have hblocks : (candidateFiles config (walk root children enter)).Pairwise fun f g =>
      ∀ a ∈ ownReferences config f, ∀ b ∈ ownReferences config g,
        referenceLe a b = true ∧ referenceLe b a = false := by
    refine (pairwise_candidateFiles hwell enter).imp fun {f g} hless a ha b hb => ?_
    refine referenceLe_of_less ?_
    rwa [file_of_mem_ownReferences ha, file_of_mem_ownReferences hb]
  rw [references_ofVisits, readAll_eq, sortOrder_referenceLe.mergeSort_flatMap hblocks]
  refine List.flatMap_congr fun f _ => ?_
  have hsame := List.map_mergeSort (r := referenceLe) (s := lineKindLe) (f := id)
    (l := ownReferences config f) fun a ha b hb => referenceLe_of_file_eq <| by
      rw [file_of_mem_ownReferences ha, file_of_mem_ownReferences hb]
  simpa using hsame

/-- The references of one file, line and kind stand in the order in which they were extracted. -/
theorem filter_references_ofVisits (hwell : (Node.dir children).WellFormed) {enter : String → Bool}
    (hf : f ∈ candidateFiles config (walk root children enter)) (line : Nat) (kind : ReferenceKind) :
    ((ofVisits config (walk root children enter)).references.filter
        fun r => r.file = f.path ∧ r.line = line ∧ r.kind = kind) =
      (ownReferences config f).filter fun r => r.line = line ∧ r.kind = kind := by
  have hsorted : (candidateFiles config (walk root children enter)).Pairwise
      fun f g => Path.less f.path g.path = true := pairwise_candidateFiles hwell enter
  obtain ⟨before, after, hfiles⟩ := List.append_of_mem hf
  rw [hfiles] at hsorted
  obtain ⟨-, hafter, hbefore⟩ := List.pairwise_append.mp hsorted
  have hother : ∀ g ∈ before ++ after, g.path ≠ f.path := by
    intro g hg heq
    have hless : Path.less g.path f.path = true ∨ Path.less f.path g.path = true :=
      (List.mem_append.mp hg).imp (fun hg => hbefore g hg f List.mem_cons_self)
        fun hg => (List.pairwise_cons.mp hafter).1 g hg
    rw [heq, Path.less_irrefl, or_self] at hless
    cases hless
  have hnone : ∀ g ∈ before ++ after, (ownReferences config g).filter
      (fun r => r.file = f.path ∧ r.line = line ∧ r.kind = kind) = [] := by
    intro g hg
    rw [List.filter_eq_nil_iff]
    intro r hr
    simp [file_of_mem_ownReferences hr, hother g hg]
  rw [references_ofVisits, readAll_eq, sortOrder_referenceLe.filter_mergeSort_eq, hfiles,
    List.filter_flatMap, List.flatMap_append, List.flatMap_cons,
    List.flatMap_eq_nil_iff.mpr fun g hg => hnone g (List.mem_append_left _ hg),
    List.flatMap_eq_nil_iff.mpr fun g hg => hnone g (List.mem_append_right _ hg),
    List.nil_append, List.append_nil]
  · refine List.filter_congr fun r hr => ?_
    simp [file_of_mem_ownReferences hr]
  · intro a b ha hb
    simp only [decide_eq_true_iff] at ha hb
    rw [referenceLe_of_file_eq (ha.1.trans hb.1.symm), lineKindLe, ha.2.1, hb.2.1, ha.2.2, hb.2.2]
    simp

end Scan

/-! ## The scan of a tree -/

/-- **A scan is the files, one after the other.** The candidates are the files with a configured ending
in the directories that are entered, in strictly ascending order of their paths, and the references are
those that each of them gives on its own, sorted by line and kind; sorting keeps the order of those of one
file, line and kind. Every candidate is searched, unreadable or without a marker. The issues are those of
the walk and then one for each unreadable candidate. Whether files may be searched at the same time makes
no difference. -/
theorem FileSystem.scan_eq_flatMap (fs : FileSystem) (config : ScannerConfig) (strict : Bool)
    {root : String} {children : List (String × Node)} (hwell : fs.top.WellFormed)
    (hroot : fs.stat root = .ok (.dir children)) :
    let visits := walk root children config.enters
    let files := Scan.candidateFiles config visits
    ∃ scan, (∀ parallel, fs.scan { config with parallel } strict root = .ok scan) ∧
      (∀ f, f ∈ files ↔ f.path = Path.below root f.place ∧
        Node.at? f.place (.dir children) = some (.file f.bytes) ∧
        Node.Entered config.enters root f.dirs ∧ Path.hasEnding config.extensions f.name = true) ∧
      (files.Pairwise fun f g => Path.less f.path g.path = true) ∧
      scan.references =
        files.flatMap (fun f => (Scan.ownReferences config f).mergeSort Scan.lineKindLe) ∧
      (∀ f ∈ files, ∀ line kind,
        (scan.references.filter fun r => r.file = f.path ∧ r.line = line ∧ r.kind = kind) =
          (Scan.ownReferences config f).filter fun r => r.line = line ∧ r.kind = kind) ∧
      scan.candidates = files.length ∧
      scan.candidates = scan.filesScanned + files.countP (fun f => (Scan.readFault? f).isSome) +
        files.countP (Scan.lacksMarker config) ∧
      scan.issues = visits.filterMap Visit.issue? ++
        files.filterMap fun f => (Scan.readFault? f).map (.unreadableFile f.path) := by
  intro visits files
  obtain ⟨place, hplace⟩ := FileSystem.stat_eq_ok_iff.mp hroot
  have hdir : (Node.dir children).WellFormed := hwell.at? (FileSystem.at?_of_locate hplace)
  refine ⟨.ofVisits config visits, fun parallel => ?_, fun f => ?_, ?_, ?_, fun f hf line kind => ?_, rfl,
    Scan.length_eq_add_countP config files, ?_⟩
  · rw [FileSystem.scan, FileSystem.openRoot_of_stat hroot]
    rfl
  · rw [Scan.mem_candidateFiles_iff, Node.mem_walk_iff hdir, and_assoc, and_assoc]
  · exact Scan.pairwise_candidateFiles hdir _
  · exact Scan.references_ofVisits_eq_flatMap hdir config _
  · exact Scan.filter_references_ofVisits hdir hf line kind
  · rw [Scan.issues_ofVisits]
    simp only [Scan.fileIssue?_eq]
    rfl

/-- A directory stands before a file whose name goes on with a hyphen, though a slash is the greater
character. -/
theorem FileSystem.scan_eq_flatMap_hyphen :
    let children : List (String × Node) :=
      [("a", .dir [("z.ts", .ofText "router.push('/z');")]), ("a-b.ts", .ofText "router.push('/b');")]
    let fs : FileSystem := ⟨.dir [("src", .dir children)], []⟩
    ∃ scan, fs.scan {} false "src" = .ok scan ∧
      scan.references.map (fun r => (r.file, r.path)) = [("src/a/z.ts", "/z"), ("src/a-b.ts", "/b")] := by
  intro children fs
  have hwell : fs.top.WellFormed := by decide
  have hroot : fs.stat "src" = .ok (.dir children) := by rfl
  have hread : ∀ path dirs name text, path.utf8ByteSize ≤ Path.maxBytes →
      Scan.contentOf ⟨path, dirs, name, text.toUTF8⟩ = .ok text := by
    intro path dirs name text hshort
    rw [Scan.contentOf, if_neg (Nat.not_lt.mpr hshort)]
    exact FileSystem.textOf_toUTF8 text
  obtain ⟨scan, hscan, -, -, hreferences, -⟩ := fs.scan_eq_flatMap {} false hwell hroot
  refine ⟨scan, hscan true, ?_⟩
  have hfiles : Scan.candidateFiles {} (walk "src" children (ScannerConfig.enters {})) =
      [⟨"src/a/z.ts", ["a"], "z.ts", "router.push('/z');".toUTF8⟩,
        ⟨"src/a-b.ts", [], "a-b.ts", "router.push('/b');".toUTF8⟩] := by rfl
  have hz : Scan.ownReferences {} ⟨"src/a/z.ts", ["a"], "z.ts", "router.push('/z');".toUTF8⟩ =
      [.ofRaw "/z" .navigation "src/a/z.ts" 1 "router.push('/z');"] := by
    rw [Scan.ownReferences, hread _ _ _ _ (by decide)]
    decide
  have hb : Scan.ownReferences {} ⟨"src/a-b.ts", [], "a-b.ts", "router.push('/b');".toUTF8⟩ =
      [.ofRaw "/b" .navigation "src/a-b.ts" 1 "router.push('/b');"] := by
    rw [Scan.ownReferences, hread _ _ _ _ (by decide)]
    decide
  rw [hreferences, hfiles]
  simp only [List.flatMap_cons, List.flatMap_nil, hz, hb, List.mergeSort_singleton]
  decide

end RouteAudit
