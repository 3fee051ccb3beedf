import RouteAudit.Analysis
import RouteAudit.Proofs.Group
import RouteAudit.Proofs.Sorting
import RouteAudit.Proofs.Walk

/-!
# What a scan is made of

The references of a scan are those of the candidate files, file by file, in the order of
`Scan.referenceLe` (`references_ofVisits`); each is made from its address and belongs to the file it
was found in (`of_mem_scanFile`). A run that can collect and scan succeeds (`run_eq_ok`).
-/

namespace RouteAudit

theorem of_mem_extractReferences {forms : List Form} {content file : String} {r : Reference}
    (h : r ∈ extractReferences forms content file) : r.OfRaw ∧ r.file = file := by
  obtain ⟨form, -, hr⟩ := List.mem_flatMap.mp h
  obtain ⟨m, -, hm⟩ := List.mem_filterMap.mp hr
  obtain ⟨value, -, rfl⟩ := Option.map_eq_some_iff.mp hm
  exact ⟨rfl, rfl⟩

/-- The references of a text are the same in any file, but for the file. -/
theorem map_extractReferences {forms : List Form} {content file file' : String}
    {change : Reference → Reference} (hchange : ∀ raw kind line context,
      change (.ofRaw raw kind file line context) = .ofRaw raw kind file' line context) :
    (extractReferences forms content file).map change = extractReferences forms content file' := by
  rw [extractReferences, extractReferences, List.map_flatMap]
  refine List.flatMap_congr fun form _ => ?_
  rw [Form.references, Form.references, List.map_filterMap]
  refine List.filterMap_congr fun m _ => ?_
  rw [Form.referenceOf?, Form.referenceOf?, Option.map_map]
  exact congrArg (Option.map · _) (funext fun _ => hchange _ _ _ _)

/-- The bytes of a text are read as the text. -/
theorem FileSystem.textOf_toUTF8 (text : String) : textOf text.toUTF8 = .ok text := by
  have hread : String.fromUTF8? text.toUTF8 = some text := by
    simp only [String.fromUTF8?, String.toUTF8_eq_toByteArray]
    exact dif_pos text.isValidUTF8
  rw [textOf, hread]

namespace Scan

variable {config : ScannerConfig} {f : FoundFile}

theorem of_mem_scanFile {forms : List Form} {r : Reference}
    (h : r ∈ (scanFile config forms f).references) : r.OfRaw ∧ r.file = f.path := by
  unfold scanFile at h
  split at h
  · cases h
  · split_ifs at h
    · exact of_mem_extractReferences h
    · cases h

theorem ofRaw_of_mem_ofVisits {visits : List Visit} {r : Reference}
    (h : r ∈ (ofVisits config visits).references) : r.OfRaw := by
  obtain ⟨scan, hscan, hr⟩ := List.mem_flatMap.mp ((List.mergeSort_perm _ _).mem_iff.mp h)
  obtain ⟨f, -, rfl⟩ := List.mem_map.mp hscan
  exact (of_mem_scanFile hr).1

/-- The references of files, file by file. -/
def readAll (config : ScannerConfig) (files : List FoundFile) : List Reference :=
  files.flatMap fun f => (scanFile config (Form.ofConfig config) f).references

theorem references_ofVisits (visits : List Visit) : (ofVisits config visits).references =
    (readAll config (candidateFiles config visits)).mergeSort referenceLe := by
  rw [ofVisits, List.flatMap_map]
  rfl

/-- The issue of a file. -/
def fileIssue? (config : ScannerConfig) (f : FoundFile) : Option Issue :=
  (scanFile config (Form.ofConfig config) f).issue?

theorem issues_ofVisits (visits : List Visit) : (ofVisits config visits).issues =
    visits.filterMap Visit.issue? ++ (candidateFiles config visits).filterMap (fileIssue? config) := by
  rw [ofVisits, List.filterMap_map]
  rfl

end Scan

/-! ## A run -/

/-- Which directories of the sources are entered. -/
abbrev ScannerConfig.enters (config : ScannerConfig) (name : String) : Bool :=
  !isSkippedDir config.skipDirs name

namespace Config

/-- The used paths of a collection and a scan with their verdicts. -/
def classify (collection : Collection) (scan : Scan) : Classification :=
  .ofGroups (UsageGroup.ofReferences scan.references) collection.table.pages

theorem run_eq_ok {c : Config} {fs : FileSystem} {collection : Collection} {scan : Scan}
    (hcollect : c.collect fs = .ok collection) (hscan : c.scan fs = .ok scan) (time : Timestamp) :
    c.run fs time = .ok (c.analyze collection scan time) := by
  rw [run, hcollect, hscan]

theorem exists_of_run_eq_ok {c : Config} {fs : FileSystem} {time : Timestamp} {r : Report}
    (h : c.run fs time = .ok r) : ∃ collection scan, c.collect fs = .ok collection ∧
      c.scan fs = .ok scan ∧ r = c.analyze collection scan time := by
  rw [run] at h
  cases hcollect : c.collect fs with
  | error e =>
    rw [hcollect] at h
    cases h
  | ok collection =>
    cases hscan : c.scan fs with
    | error e =>
      rw [hcollect, hscan] at h
      cases h
    | ok scan =>
      rw [hcollect, hscan] at h
      exact ⟨collection, scan, rfl, rfl, (Except.ok.inj h).symm⟩

end Config

end RouteAudit
