import RouteAudit.Proofs.Seen
import RouteAudit.Proofs.Transparency
import RouteAudit.Proofs.Written

/-!
# Reports do not change what is reported

A report that is written into the tree is not seen by the next run, wherever it is put, so all runs
that follow give the same report but for its time (`rerun_eq`).

Proof. The first write makes empty directories and puts a file without an ending that counts, every
further write replaces this file, and neither is seen from the two roots (`Addition.visits?_of_dir`,
`Addition.visits?_of_file`). A run depends on what is seen alone (`run_of_views`).
-/

namespace RouteAudit

namespace FileSystem.MadeDirs

variable {fs fs' : FileSystem} {v : View}

theorem isDir (h : MadeDirs fs fs') (hwell : fs.WellFormed) {path : String}
    (hdir : fs.isDir path = true) : fs'.isDir path = true := by
  induction h with
  | refl fs => exact hdir
  | step m hnode rest ih =>
    exact ih (m.wellFormed hwell (hnode ▸ Node.wellFormed_emptyDir)) ((m.keeps hwell.top).isDir hdir)

/-- Directories that are made and can be opened are not seen. -/
theorem visits? (h : MadeDirs fs fs') (hwell : fs.WellFormed) {visits : List Visit}
    (hroot : fs.isDir v.root = true) (hvisits : v.visits? fs' = some visits)
    (hopen : Unhindered visits) : v.visits? fs = some visits := by
  induction h with
  | refl fs => exact hvisits
  | step m hnode rest ih =>
    have hwell' := m.wellFormed hwell (hnode ▸ Node.wellFormed_emptyDir)
    have hroot' := (m.keeps hwell.top).isDir hroot
    exact m.visits?_of_dir hwell.top hnode hroot (ih hwell' hroot' hvisits) hopen

/-- Nor is a file that is put into the last of them. -/
theorem visits?_of_file (h : MadeDirs fs fs') (hwell : fs.WellFormed) (m : Addition fs')
    {bytes : ByteArray} (hnode : m.node = .file bytes) (hname : Path.hasEnding v.endings m.name = false)
    (hroot : fs.isDir v.root = true)
    (hopen : ∀ children, m.result.stat v.root = .ok (.dir children) →
      Unhindered (walk v.root children v.enter)) {visits : List Visit}
    (hvisits : v.visits? fs = some visits) : v.visits? m.result = some visits := by
  obtain ⟨between, hbetween⟩ := View.exists_visits? (h.isDir hwell hroot)
  have hresult := m.visits?_of_file (h.wellFormed hwell).top hnode hname hbetween
  have hbefore := h.visits? hwell hroot hbetween (View.unhindered_of_visits? hresult hopen)
  rwa [← hvisits, hbefore]

end FileSystem.MadeDirs

namespace Config

variable {c : Config} {fs fs' : FileSystem}

/-- Runs the analysis at each of the times and writes each report before the next run. Gives the file
system at the end and the reports, unless a run or a write fails. -/
def rerun (c : Config) : FileSystem → List Timestamp → Except AuditError (FileSystem × List Report)
  | fs, [] => .ok (fs, [])
  | fs, time :: times =>
    match c.run fs time with
    | .error e => .error e
    | .ok r =>
      match c.writeReport fs r with
      | ⟨_, some e⟩ => .error e
      | ⟨fs', none⟩ => (rerun c fs' times).map fun (last, reports) => (last, r :: reports)

/-- The roots are directories, and the report is written, without a link on the way, to a file that
neither the collector nor the scanner looks at. -/
structure WritesUnseen (c : Config) (fs : FileSystem) : Prop where
  appDir : fs.isDir c.roots.appDir = true
  sourceDir : fs.isDir c.roots.sourceDir = true
  links : fs.PassesNoLink c.report.output
  endings : ∀ name, Path.fileName? c.report.output = some name →
    Path.hasEnding c.collector.routeExtensions name = false ∧
      Path.hasEnding c.scanner.extensions name = false

theorem run_of_views {app source : List Visit} (happ : c.appView.visits? fs = some app)
    (hsource : c.sourceView.visits? fs = some source) (time : Timestamp) :
    c.run fs time =
      .ok (c.analyze (.ofVisits c.collector app) (.ofVisits c.scanner source) time) :=
  run_eq_ok (collect_of_view happ) (scan_of_view hsource) time

theorem writeReport_eq_iff {r : Report} : c.writeReport fs r = ⟨fs', none⟩ ↔
    fs.writeWithParents c.report.output r.toText = ⟨fs', none⟩ := by
  unfold writeReport
  cases fs.writeWithParents c.report.output r.toText with
  | mk files fault => cases fault <;> simp

/-- The time of an analysis is in its report and nowhere else. -/
theorem analyze_eq (c : Config) (collection : Collection) (scan : Scan) (time time' : Timestamp) :
    c.analyze collection scan time' = { c.analyze collection scan time with generatedAt := time'.text } :=
  rfl

/-- Once the report is there, every run sees the same and every write succeeds. -/
theorem rerun_of_isWritten (hwell : fs.WellFormed) (hlinks : fs.PassesNoLink c.report.output)
    (hendings : ∀ name, Path.fileName? c.report.output = some name →
      Path.hasEnding c.collector.routeExtensions name = false ∧
        Path.hasEnding c.scanner.extensions name = false)
    (hwritten : fs.IsWritten c.report.output) {app source : List Visit}
    (happ : c.appView.visits? fs = some app) (hsource : c.sourceView.visits? fs = some source)
    (times : List Timestamp) : ∃ last, c.rerun fs times = .ok (last, times.map fun time =>
      c.analyze (.ofVisits c.collector app) (.ofVisits c.scanner source) time) := by
  induction times generalizing fs with
  | nil => exact ⟨fs, rfl⟩
  | cons time times ih =>
    obtain ⟨m, hnode, hname, hwrite, hwritten'⟩ := hwritten.write hlinks hwell
      (c.analyze (.ofVisits c.collector app) (.ofVisits c.scanner source) time).toText
    obtain ⟨last, hrest⟩ := ih (m.wellFormed hwell (hnode ▸ .file _))
      (m.passesNoLink (Or.inr ⟨_, hnode⟩) hlinks) hwritten'
      (m.visits?_of_file hwell.top hnode (hendings _ hname).1 happ)
      (m.visits?_of_file hwell.top hnode (hendings _ hname).2 hsource)
    refine ⟨last, ?_⟩
    rw [rerun, run_of_views happ hsource]
    dsimp only
    rw [writeReport_eq_iff.mpr hwrite]
    dsimp only
    rw [hrest]
    rfl

/-- **To run and write again changes nothing but the time.** The first run succeeds; and if its report is
written and no path is too long then, all that follow give the same report at their times, however often
the report is written over itself. -/
theorem rerun_eq (hwell : fs.WellFormed) (h : c.WritesUnseen fs) (time : Timestamp) :
    ∃ r, c.run fs time = .ok r ∧ ∀ fs', c.writeReport fs r = ⟨fs', none⟩ → c.MeetsNoLimit fs' →
      ∀ times, ∃ last, c.rerun fs' times =
        .ok (last, times.map fun time => { r with generatedAt := time.text }) := by
  obtain ⟨app, happ⟩ := View.exists_visits? (v := c.appView) h.appDir
  obtain ⟨source, hsource⟩ := View.exists_visits? (v := c.sourceView) h.sourceDir
  refine ⟨_, run_of_views happ hsource time, fun fs' hwrite hlimit times => ?_⟩
  obtain ⟨between, hmade, m, hnode, hname, rfl, hwritten⟩ :=
    h.links.write hwell (writeReport_eq_iff.mp hwrite)
  have hwell' := hmade.wellFormed hwell
  obtain ⟨happ', hsource'⟩ := h.endings _ hname
  obtain ⟨last, hlast⟩ := rerun_of_isWritten (m.wellFormed hwell' (hnode ▸ .file _))
    (m.passesNoLink (Or.inr ⟨_, hnode⟩) (hmade.passesNoLink h.links)) h.endings hwritten
    (hmade.visits?_of_file (v := c.appView) hwell m hnode happ' h.appDir hlimit.app happ)
    (hmade.visits?_of_file (v := c.sourceView) hwell m hnode hsource' h.sourceDir hlimit.source hsource)
    times
  refine ⟨last, ?_⟩
  rw [hlast, List.map_congr_left fun time' _ => analyze_eq c _ _ time time']

/-- The report may lie below the routing root, in a directory that the first write makes. -/
theorem rerun_eq_below :
    let c : Config := { report := { output := "src/app/(audit)/report.json" } }
    let fs : FileSystem := ⟨.dir [("src", .dir [("app", .dir [("page.tsx", .file .empty)]),
      ("nav.ts", .ofText "router.push('/');")])], []⟩
    ∃ r, c.run fs ⟨0, 0⟩ = .ok r ∧ ∃ fs', c.writeReport fs r = ⟨fs', none⟩ ∧ fs'.isDir "src/app/(audit)" ∧
      ∃ last, c.rerun fs' [⟨60, 0⟩, ⟨120, 0⟩] = .ok (last,
        [{ r with generatedAt := "1970-01-01T00:01:00.000Z" },
          { r with generatedAt := "1970-01-01T00:02:00.000Z" }]) := by
  intro c fs
  let project (audit : List (String × Node)) : FileSystem :=
    ⟨.dir [("src", .dir [("app", .dir [("(audit)", .dir audit), ("page.tsx", .file .empty)]),
      ("nav.ts", .ofText "router.push('/');")])], []⟩
  have hwell : fs.WellFormed := ⟨by decide, _, rfl⟩
  have hname : Path.fileName? "src/app/(audit)/report.json" = some "report.json" := by decide
  have h : c.WritesUnseen fs :=
    { appDir := by decide +kernel
      sourceDir := by decide +kernel
      links := by decide +kernel
      endings := by
        intro name heq
        obtain rfl := Option.some.inj (hname.symm.trans heq)
        decide }
  have hparent : fs.makeParent "src/app/(audit)/report.json" = ⟨project [], none⟩ := by
    have habove : Path.parent? "src/app/(audit)/report.json" = some "src/app/(audit)" := by decide
    have hcomponents : (Path.components "src/app/(audit)").reverse =
        [.name "(audit)", .name "app", .name "src"] := by decide
    have hpath : Path.ofComponents [Path.Component.name "(audit)", .name "app", .name "src"].reverse =
        "src/app/(audit)" := by decide
    have hmake : fs.makeDir "src/app/(audit)" = ⟨project [], none⟩ := by rfl
    rw [FileSystem.makeParent, habove]
    dsimp only
    rw [FileSystem.makeDirs, hcomponents, FileSystem.makeDirsUp, hpath, hmake]
  obtain ⟨r, hrun, hrerun⟩ := rerun_eq hwell h ⟨0, 0⟩
  have hwrite : c.writeReport fs r = ⟨project [("report.json", .ofText r.toText)], none⟩ := by
    refine writeReport_eq_iff.mpr ?_
    change fs.writeWithParents "src/app/(audit)/report.json" r.toText = _
    rw [FileSystem.writeWithParents, hparent]
    rfl
  have hlimit : c.MeetsNoLimit (project [("report.json", .ofText r.toText)]) := by
    have happ : (project [("report.json", .ofText r.toText)]).stat "src/app" =
        .ok (.dir [("(audit)", .dir [("report.json", .ofText r.toText)]),
          ("page.tsx", .file .empty)]) := by rfl
    have hsource : (project [("report.json", .ofText r.toText)]).stat "src" =
        .ok (.dir [("app", .dir [("(audit)", .dir [("report.json", .ofText r.toText)]),
          ("page.tsx", .file .empty)]),
          ("nav.ts", .ofText "router.push('/');")]) := by rfl
    refine .of_stat happ hsource ?_ ?_ ?_
    · change Unhindered (walk "src/app" _ (Collection.enters {}))
      exact of_decide_eq_true (by rfl)
    · change Unhindered (walk "src" _ (ScannerConfig.enters {}))
      exact of_decide_eq_true (by rfl)
    · have hwalk : (fun bytes => walk "src" [("app",
          .dir [("(audit)", .dir [("report.json", .file bytes)]), ("page.tsx", .file .empty)]),
          ("nav.ts", .ofText "router.push('/');")] (ScannerConfig.enters {})) =
        fun bytes => [.file ⟨"src/app/(audit)/report.json", ["app", "(audit)"], "report.json", bytes⟩,
          .file ⟨"src/app/page.tsx", ["app"], "page.tsx", .empty⟩,
          .file ⟨"src/nav.ts", [], "nav.ts", "router.push('/');".toUTF8⟩] := by rfl
      intro f hf
      have hmem := (congrFun hwalk r.toText.toUTF8) ▸ mem_files_iff.mp (List.mem_filter.mp hf).1
      simp only [List.mem_cons, Visit.file.injEq, List.not_mem_nil, or_false] at hmem
      rcases hmem with rfl | rfl | rfl <;> dsimp only <;> decide
  obtain ⟨last, hlast⟩ := hrerun _ hwrite hlimit [⟨60, 0⟩, ⟨120, 0⟩]
  have hminute : (⟨60, 0⟩ : Timestamp).text = "1970-01-01T00:01:00.000Z" := by decide
  have hminutes : (⟨120, 0⟩ : Timestamp).text = "1970-01-01T00:02:00.000Z" := by decide
  refine ⟨r, hrun, _, hwrite, by rfl, last, ?_⟩
  rw [hlast, List.map_cons, List.map_cons, List.map_nil, hminute, hminutes]

end Config

end RouteAudit
