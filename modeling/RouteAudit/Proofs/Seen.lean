import RouteAudit.Proofs.Addition
import RouteAudit.Proofs.Scanned

/-!
# What a reader of a root sees

The collector and the scanner walk from their root and go by the files with an ending of theirs and the
faults alone (`View`, `Config.collect_of_view`, `Config.scan_of_view`). So a file without such an ending
is not seen wherever it is added (`Addition.visits?_of_file`), nor is an empty directory that can be opened
(`Addition.visits?_of_dir`).
-/

namespace RouteAudit

/-- Whether the visit is a fault or a file with one of the endings. -/
def Visit.isSeen (endings : List String) : Visit → Bool
  | file f => Path.hasEnding endings f.name
  | fault _ => true

theorem Unhindered.filter_isSeen_iff {endings : List String} {visits : List Visit} :
    Unhindered (visits.filter (Visit.isSeen endings)) ↔ Unhindered visits := by
  refine forall_congr' fun path => not_congr ?_
  rw [List.mem_filter]
  exact and_iff_left rfl

theorem filterMap_issue?_filter_isSeen (endings : List String) (visits : List Visit) :
    (visits.filter (Visit.isSeen endings)).filterMap Visit.issue? = visits.filterMap Visit.issue? := by
  rw [List.filterMap_filter]
  refine List.filterMap_congr fun v _ => ?_
  cases v with
  | file f => exact ite_self none
  | fault path => rfl

theorem filterMap_file?_filter_isSeen (endings : List String) (visits : List Visit) :
    (visits.filter (Visit.isSeen endings)).filterMap Visit.file? =
      (visits.filterMap Visit.file?).filter fun f => Path.hasEnding endings f.name := by
  rw [List.filter_filterMap, List.filterMap_filter]
  refine List.filterMap_congr fun v _ => ?_
  cases v with
  | file f => rfl
  | fault path => rfl

theorem Collection.ofVisits_filter_isSeen (config : CollectorConfig) (visits : List Visit) :
    ofVisits config (visits.filter (Visit.isSeen config.routeExtensions)) = ofVisits config visits := by
  have hentries : ((visits.filterMap Visit.file?).filter fun f =>
      Path.hasEnding config.routeExtensions f.name).filterMap (entryOf? config) =
        (visits.filterMap Visit.file?).filterMap (entryOf? config) := by
    rw [List.filterMap_filter]
    refine List.filterMap_congr fun f _ => ?_
    unfold entryOf? leafKind?
    split_ifs <;> rfl
  rw [ofVisits, ofVisits, filterMap_issue?_filter_isSeen, filterMap_file?_filter_isSeen, hentries]

theorem Scan.ofVisits_filter_isSeen (config : ScannerConfig) (visits : List Visit) :
    ofVisits config (visits.filter (Visit.isSeen config.extensions)) = ofVisits config visits := by
  have hfiles : candidateFiles config (visits.filter (Visit.isSeen config.extensions)) =
      candidateFiles config visits := by
    rw [candidateFiles, filterMap_file?_filter_isSeen, List.filter_filter]
    simp only [Bool.and_self, candidateFiles]
  rw [ofVisits, ofVisits, hfiles, filterMap_issue?_filter_isSeen]

/-- A root, the directories that are entered below it, and the endings of the files that count. -/
structure View where
  root : String
  enter : String → Bool
  endings : List String

/-- What is seen from the root, if it is a directory. -/
def View.visits? (v : View) (fs : FileSystem) : Option (List Visit) :=
  match fs.stat v.root with
  | .ok (.dir children) => some ((walk v.root children v.enter).filter (Visit.isSeen v.endings))
  | _ => none

namespace View

variable {v : View} {fs : FileSystem}

theorem visits?_of_stat {children : List (String × Node)} (h : fs.stat v.root = .ok (.dir children)) :
    v.visits? fs = some ((walk v.root children v.enter).filter (Visit.isSeen v.endings)) := by
  rw [visits?, h]

theorem exists_stat_of_visits? {visits : List Visit} (h : v.visits? fs = some visits) :
    ∃ children, fs.stat v.root = .ok (.dir children) ∧
      visits = (walk v.root children v.enter).filter (Visit.isSeen v.endings) := by
  unfold visits? at h
  split at h
  · exact ⟨_, by assumption, (Option.some.inj h).symm⟩
  · cases h

theorem exists_visits? (h : fs.isDir v.root = true) : ∃ visits, v.visits? fs = some visits := by
  obtain ⟨children, hstat⟩ := FileSystem.exists_of_isDir h
  exact ⟨_, visits?_of_stat hstat⟩

theorem unhindered_of_visits? {visits : List Visit} (h : v.visits? fs = some visits)
    (hopen : ∀ children, fs.stat v.root = .ok (.dir children) →
      Unhindered (walk v.root children v.enter)) : Unhindered visits := by
  obtain ⟨children, hstat, rfl⟩ := exists_stat_of_visits? h
  exact Unhindered.filter_isSeen_iff.mpr (hopen children hstat)

end View

namespace Config

/-- What the collector sees. -/
def appView (c : Config) : View :=
  ⟨c.roots.appDir, Collection.enters c.collector, c.collector.routeExtensions⟩

/-- What the scanner sees. -/
def sourceView (c : Config) : View :=
  ⟨c.roots.sourceDir, c.scanner.enters, c.scanner.extensions⟩

variable {c : Config} {fs : FileSystem} {visits : List Visit}

theorem collect_of_view (h : c.appView.visits? fs = some visits) :
    c.collect fs = .ok (.ofVisits c.collector visits) := by
  obtain ⟨children, hstat, rfl⟩ := View.exists_stat_of_visits? h
  have hroot : fs.stat c.roots.appDir = .ok (.dir children) := hstat
  rw [collect, FileSystem.collect, FileSystem.openRoot_of_stat hroot]
  exact congrArg Except.ok (Collection.ofVisits_filter_isSeen c.collector _).symm

theorem scan_of_view (h : c.sourceView.visits? fs = some visits) :
    c.scan fs = .ok (.ofVisits c.scanner visits) := by
  obtain ⟨children, hstat, rfl⟩ := View.exists_stat_of_visits? h
  have hroot : fs.stat c.roots.sourceDir = .ok (.dir children) := hstat
  rw [scan, FileSystem.scan, FileSystem.openRoot_of_stat hroot]
  exact congrArg Except.ok (Scan.ofVisits_filter_isSeen c.scanner _).symm

end Config

namespace Addition

variable {fs : FileSystem} (m : Addition fs) {v : View} {visits : List Visit}

/-- **A file without an ending that counts is not seen.** -/
theorem visits?_of_file (hwell : fs.top.WellFormed) {bytes : ByteArray} (hnode : m.node = .file bytes)
    (hname : Path.hasEnding v.endings m.name = false) (h : v.visits? fs = some visits) :
    v.visits? m.result = some visits := by
  obtain ⟨a, ha, rfl⟩ := View.exists_stat_of_visits? h
  obtain ⟨b, hb, hwalk⟩ := m.walk_cases hwell ha
  have hfile : ∀ path dirs bytes, (Node.visits v.enter path dirs m.name (.file bytes)).filter
      (Visit.isSeen v.endings) = [] := by
    intro path dirs bytes
    rw [Node.visits, List.filter_cons_of_neg, List.filter_nil]
    simpa [Visit.isSeen] using hname
  rw [View.visits?_of_stat hb]
  rcases hwalk v.enter with heq | ⟨before, after, old, path, dirs, hold, hnew, hcase⟩
  · rw [heq]
  · have hsilent : old.filter (Visit.isSeen v.endings) = [] := by
      rcases hcase with rfl | ⟨bytes, new, rfl, -⟩
      · rfl
      · exact hfile path dirs bytes
    simp only [hold, hnew, hnode, List.filter_append, hfile, hsilent]

/-- **An empty directory that can be opened is not seen.** -/
theorem visits?_of_dir (hwell : fs.top.WellFormed) (hnode : m.node = .dir [])
    (hroot : fs.isDir v.root = true) (h : v.visits? m.result = some visits) (hopen : Unhindered visits) :
    v.visits? fs = some visits := by
  obtain ⟨a, ha⟩ := FileSystem.exists_of_isDir hroot
  obtain ⟨b, hb, hwalk⟩ := m.walk_cases hwell ha
  rw [View.visits?_of_stat hb] at h
  obtain rfl := Option.some.inj h
  rw [Unhindered.filter_isSeen_iff] at hopen
  rw [View.visits?_of_stat ha]
  rcases hwalk v.enter with heq | ⟨before, after, old, path, dirs, hold, hnew, hcase⟩
  · rw [heq]
  · have hold' : old = [] := by
      rcases hcase with rfl | ⟨bytes, new, -, hfile⟩
      · rfl
      · cases hnode.symm.trans hfile
    have hempty : Node.visits v.enter path dirs m.name m.node = [] := by
      rw [hnode, Node.visits_dir]
      split_ifs with henter hshort
      · rfl
      · rw [hnew, hnode, Node.visits_dir, if_pos henter, if_neg hshort] at hopen
        exact absurd (by simp) (hopen path)
      · rfl
    rw [hold, hnew, hold', hempty]

end Addition

end RouteAudit
