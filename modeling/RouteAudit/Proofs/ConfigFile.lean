import Mathlib.Data.List.Basic
import RouteAudit.Analysis
import RouteAudit.Proofs.Scanned
import RouteAudit.Proofs.TomlDocument

/-!
# Configurations read back

A configuration can be written exactly if its two numbers are integers of a document, and the file with its
text then gives it back. Where the lines of some fields are left out of the text (`Section.print_keeping`),
the file gives the configuration with the defaults in their places and no other change
(`Config.loadConfig_toText`).

Proof. The names in the text are fixed, bare and all different (`Config.sectionNames`), so the text is read
as a table for each section (`parse?_printSections`), with some of the fields or with all. A field that is
kept is found under its name and gives its value back, and one that is left out is not found and has its
default (`fieldOr_keeping`). Each record is read field by field (`ofToml?_keeping` of each record). A text
with a section is not blank, and a file whose text can be read is there.
-/

namespace RouteAudit

namespace Toml

variable {α : Type} {keep : String → Bool} {name : String} {v : FieldValue}

/-! ## Fields that are left out -/

/-- A section with some of its fields only. -/
def Section.keeping (keep : String → Bool) (s : Section) : Section :=
  { s with fields := s.fields.filter fun f => keep f.1 }

/-- In the text of the section just the lines of the other fields are missing. -/
theorem Section.print_keeping (keep : String → Bool) (s : Section) :
    (s.keeping keep).print = '[' :: (s.name.toList ++ [']', '\n'] ++
      s.fields.flatMap fun f => if keep f.1 then printField f else []) := by
  obtain ⟨name, fields⟩ := s
  refine congrArg (fun lines => '[' :: (name.toList ++ [']', '\n'] ++ lines)) ?_
  change (fields.filter fun f => keep f.1).flatMap printField = _
  induction fields with
  | nil => rfl
  | cons f fields ih => cases hf : keep f.1 <;> simp [hf, ih]

theorem Section.IsPlain.keeping {s : Section} (h : s.IsPlain) (keep : String → Bool) :
    (s.keeping keep).IsPlain where
  name := h.name
  fields f hf := h.fields f (List.mem_of_mem_filter hf)
  nodup := h.nodup.sublist (List.filter_sublist.map Prod.fst)

theorem lookup_kept (keep : String → Bool) (fields : List (String × FieldValue)) (name : String) :
    ((fields.filter fun f => keep f.1).map fun f => (f.1, f.2.toToml)).lookup name =
      if keep name then (fields.lookup name).map FieldValue.toToml else none := by
  induction fields with
  | nil => simp
  | cons f fields ih =>
    obtain ⟨key, value⟩ := f
    by_cases hname : name = key
    · subst hname
      cases hkeep : keep name with
      | true => simp [hkeep]
      | false => simpa [hkeep] using ih
    · have hbeq : (name == key) = false := beq_false_of_ne hname
      rw [List.lookup_cons, hbeq, ← ih]
      cases hkeep : keep key with
      | true => simp [hkeep, List.lookup_cons, hbeq]
      | false => simp [hkeep]

/-- A field is read from what is kept of its section, or has its default. -/
theorem fieldOr_keeping {s : Section} {names : List String} {a : α} {read : Toml → Option α}
    (hv : s.fields.lookup name = some v) (hread : read v.toToml = some a) (default : α) :
    fieldOr names name default read (.table (s.keeping keep).toTable.2) =
      some (if keep name then a else default) := by
  have hfield : field? names name (.table (s.keeping keep).toTable.2) =
      some (if keep name then some v.toToml else none) := by
    rw [field?, Section.toTable, Section.keeping, lookup_kept, hv]
    rfl
  rw [fieldOr, hfield]
  cases keep name with
  | false => rfl
  | true => exact hread

/-! ## Values of fields -/

theorem string?_toToml (text : String) : string? (FieldValue.string text).toToml = some text :=
  rfl

theorem boolean?_toToml (b : Bool) : boolean? (FieldValue.flag b).toToml = some b :=
  rfl

theorem strings?_toToml (items : List String) :
    strings? (FieldValue.strings items).toToml = some items := by
  change (items.map Toml.string).mapM string? = some items
  induction items with
  | nil => rfl
  | cons item items ih =>
    rw [List.map_cons, List.mapM_cons, ih]
    rfl

theorem count?_toToml {n : Nat} (hn : n ≤ maxInteger) : count? (FieldValue.count n).toToml = some n := by
  have hlt : n < Nat.pow 2 64 := lt_of_le_of_lt hn (by decide)
  exact if_pos hlt

end Toml

open Toml

/-! ## Records -/

/-- The record with the default in each field that is not kept. -/
def RootsConfig.keeping (keep : String → Bool) (c : RootsConfig) : RootsConfig :=
  let d : RootsConfig := {}
  { appDir := if keep "app_dir" then c.appDir else d.appDir
    sourceDir := if keep "source_dir" then c.sourceDir else d.sourceDir
    strict := if keep "strict" then c.strict else d.strict }

def CollectorConfig.keeping (keep : String → Bool) (c : CollectorConfig) : CollectorConfig :=
  let d : CollectorConfig := {}
  { routeExtensions := if keep "route_extensions" then c.routeExtensions else d.routeExtensions
    skipDirs := if keep "skip_dirs" then c.skipDirs else d.skipDirs }

def ScannerConfig.keeping (keep : String → Bool) (c : ScannerConfig) : ScannerConfig :=
  let d : ScannerConfig := {}
  { extensions := if keep "extensions" then c.extensions else d.extensions
    skipDirs := if keep "skip_dirs" then c.skipDirs else d.skipDirs
    markers := if keep "markers" then c.markers else d.markers
    navigationHandle := if keep "navigation_handle" then c.navigationHandle else d.navigationHandle
    navigationVerbs := if keep "navigation_verbs" then c.navigationVerbs else d.navigationVerbs
    navigationFunctions :=
      if keep "navigation_functions" then c.navigationFunctions else d.navigationFunctions
    linkElements := if keep "link_elements" then c.linkElements else d.linkElements
    linkKeys := if keep "link_keys" then c.linkKeys else d.linkKeys
    parallel := if keep "parallel" then c.parallel else d.parallel }

def ReportConfig.keeping (keep : String → Bool) (c : ReportConfig) : ReportConfig :=
  let d : ReportConfig := {}
  { output := if keep "output" then c.output else d.output
    maxListed := if keep "max_listed" then c.maxListed else d.maxListed
    maxSites := if keep "max_sites" then c.maxSites else d.maxSites
    unusedExclusions := if keep "unused_exclusions" then c.unusedExclusions else d.unusedExclusions }

/-- The configuration with the default in each field that is not kept, by the names of its section and
of its key. -/
def Config.keeping (keep : String → String → Bool) (c : Config) : Config where
  roots := c.roots.keeping (keep "roots")
  collector := c.collector.keeping (keep "collector")
  scanner := c.scanner.keeping (keep "scanner")
  report := c.report.keeping (keep "report")

section Records

variable (keep : String → Bool)

theorem bind_eq_of_eq_some {α β : Type} {x : Option α} {f : α → Option β} {a : α} {r : Option β}
    (hx : x = some a) (hf : f a = r) : x >>= f = r := by
  rw [hx]
  exact hf

theorem RootsConfig.ofToml?_keeping (c : RootsConfig) :
    RootsConfig.ofToml? (.table (c.toSection.keeping keep).toTable.2) = some (c.keeping keep) := by
  refine bind_eq_of_eq_some (fieldOr_keeping rfl (string?_toToml _) _) ?_
  refine bind_eq_of_eq_some (fieldOr_keeping rfl (string?_toToml _) _) ?_
  refine bind_eq_of_eq_some (fieldOr_keeping rfl (boolean?_toToml _) _) ?_
  rfl

theorem CollectorConfig.ofToml?_keeping (c : CollectorConfig) :
    CollectorConfig.ofToml? (.table (c.toSection.keeping keep).toTable.2) = some (c.keeping keep) := by
  refine bind_eq_of_eq_some (fieldOr_keeping rfl (strings?_toToml _) _) ?_
  refine bind_eq_of_eq_some (fieldOr_keeping rfl (strings?_toToml _) _) ?_
  rfl

theorem ScannerConfig.ofToml?_keeping (c : ScannerConfig) :
    ScannerConfig.ofToml? (.table (c.toSection.keeping keep).toTable.2) = some (c.keeping keep) := by
  refine bind_eq_of_eq_some (fieldOr_keeping rfl (strings?_toToml _) _) ?_
  refine bind_eq_of_eq_some (fieldOr_keeping rfl (strings?_toToml _) _) ?_
  refine bind_eq_of_eq_some (fieldOr_keeping rfl (strings?_toToml _) _) ?_
  refine bind_eq_of_eq_some (fieldOr_keeping rfl (string?_toToml _) _) ?_
  refine bind_eq_of_eq_some (fieldOr_keeping rfl (strings?_toToml _) _) ?_
  refine bind_eq_of_eq_some (fieldOr_keeping rfl (strings?_toToml _) _) ?_
  refine bind_eq_of_eq_some (fieldOr_keeping rfl (strings?_toToml _) _) ?_
  refine bind_eq_of_eq_some (fieldOr_keeping rfl (strings?_toToml _) _) ?_
  refine bind_eq_of_eq_some (fieldOr_keeping rfl (boolean?_toToml _) _) ?_
  rfl

theorem ReportConfig.ofToml?_keeping (c : ReportConfig) (hlisted : c.maxListed ≤ maxInteger)
    (hsites : c.maxSites ≤ maxInteger) :
    ReportConfig.ofToml? (.table (c.toSection.keeping keep).toTable.2) = some (c.keeping keep) := by
  refine bind_eq_of_eq_some (fieldOr_keeping rfl (string?_toToml _) _) ?_
  refine bind_eq_of_eq_some (fieldOr_keeping rfl (count?_toToml hlisted) _) ?_
  refine bind_eq_of_eq_some (fieldOr_keeping rfl (count?_toToml hsites) _) ?_
  refine bind_eq_of_eq_some (fieldOr_keeping rfl (strings?_toToml _) _) ?_
  rfl

end Records

/-! ## The file of a configuration -/

namespace Config

variable {c : Config} {text : String}

/-- The numbers of a configuration are integers of a document. -/
def IsWritable (c : Config) : Prop :=
  c.report.maxListed ≤ maxInteger ∧ c.report.maxSites ≤ maxInteger

instance (c : Config) : Decidable c.IsWritable :=
  inferInstanceAs (Decidable (_ ∧ _))

theorem all_isWritable_iff :
    (c.toSections.all fun s => s.fields.all fun f => f.2.isWritable) = true ↔ c.IsWritable := by
  simp [IsWritable, toSections, RootsConfig.toSection, CollectorConfig.toSection, ScannerConfig.toSection,
    ReportConfig.toSection, FieldValue.isWritable]

theorem toText_eq (c : Config) : c.toText =
    if c.IsWritable then .ok (String.ofList (printSections c.toSections)) else .error .unwritable := by
  rw [toText, toText?, render?, if_congr all_isWritable_iff rfl rfl]
  split_ifs <;> rfl

/-- The names of the sections, each with those of its fields. -/
def sectionNames : List (String × List String) :=
  [("roots", RootsConfig.fieldNames), ("collector", CollectorConfig.fieldNames),
    ("scanner", ScannerConfig.fieldNames), ("report", ReportConfig.fieldNames)]

theorem names_mem_sectionNames {s : Section} (hs : s ∈ c.toSections) :
    (s.name, s.fields.map Prod.fst) ∈ sectionNames := by
  have hnames : c.toSections.map (fun s => (s.name, s.fields.map Prod.fst)) = sectionNames := rfl
  rw [← hnames]
  exact List.mem_map_of_mem hs

theorem isPlain_of_mem_toSections (h : c.IsWritable) {s : Section} (hs : s ∈ c.toSections) :
    s.IsPlain := by
  have hnames : ∀ p ∈ sectionNames, IsBareName p.1 ∧ (∀ n ∈ p.2, IsBareName n) ∧ p.2.Nodup := by decide
  obtain ⟨hname, hfields, hnodup⟩ := hnames _ (names_mem_sectionNames hs)
  have hvalues : ∀ f ∈ s.fields, f.2.isWritable = true :=
    List.all_eq_true.mp (List.all_eq_true.mp (all_isWritable_iff.mpr h) s hs)
  exact {
    name := hname
    fields := fun f hf => ⟨hfields _ (List.mem_map_of_mem hf), hvalues f hf⟩
    nodup := hnodup }

/-- The sections of a configuration with some of their fields only. -/
def keptSections (keep : String → String → Bool) (c : Config) : List Section :=
  c.toSections.map fun s => s.keeping (keep s.name)

theorem ofToml?_keptSections (h : c.IsWritable) (keep : String → String → Bool) :
    ofToml? (.table ((c.keptSections keep).map fun s => (s.name, .table s.toTable.2))) =
      some (c.keeping keep) := by
  refine bind_eq_of_eq_some (RootsConfig.ofToml?_keeping (keep "roots") c.roots) ?_
  refine bind_eq_of_eq_some (CollectorConfig.ofToml?_keeping (keep "collector") c.collector) ?_
  refine bind_eq_of_eq_some (ScannerConfig.ofToml?_keeping (keep "scanner") c.scanner) ?_
  refine bind_eq_of_eq_some (ReportConfig.ofToml?_keeping (keep "report") c.report h.1 h.2) ?_
  rfl

theorem trim_cons_ne_nil {z : Char} (hz : Text.isBlank z = false) (r : List Char) :
    Text.trim (z :: r) ≠ [] := by
  rw [Text.trim, List.dropWhile_cons_of_neg (by simp [hz]), Text.trimEnd, Ne, List.reverse_eq_nil_iff,
    List.dropWhile_eq_nil_iff]
  intro hblank
  have hz' : Text.isBlank z = true := hblank z (List.mem_reverse.mpr List.mem_cons_self)
  rw [hz] at hz'
  cases hz'

/-- The document with some of the fields only gives the configuration with defaults for the others. -/
theorem ofText?_keptSections (h : c.IsWritable) (keep : String → String → Bool) :
    ofText? (String.ofList (printSections (c.keptSections keep))) = some (c.keeping keep) := by
  have hblank : Text.trim (String.ofList (printSections (c.keptSections keep))).toList ≠ [] := by
    obtain ⟨x, hx⟩ := exists_printSections_cons_eq (c.roots.toSection.keeping (keep "roots"))
      (c.keptSections keep).tail
    have hcons : printSections (c.keptSections keep) = '[' :: x := hx
    rw [String.toList_ofList, hcons]
    exact trim_cons_ne_nil (by decide) x
  have hplain : ∀ s ∈ c.keptSections keep, s.IsPlain := by
    intro s hs
    obtain ⟨t, ht, rfl⟩ := List.mem_map.mp hs
    exact (isPlain_of_mem_toSections h ht).keeping _
  have hnodup : ((c.keptSections keep).map Section.name).Nodup := by
    change tableNames.Nodup
    decide
  rw [ofText?, if_neg hblank, parse?_printSections hplain hnodup, Option.bind_some,
    ofToml?_keptSections h]

/-- Where every field is kept, the document is the whole one. -/
theorem keptSections_all (c : Config) : c.keptSections (fun _ _ => true) = c.toSections := by
  refine List.map_id'' (fun s => ?_) c.toSections
  rw [Section.keeping, List.filter_true]

end Config

/-- A file that can be read is there. -/
theorem FileSystem.loadConfig_of_readText {fs : FileSystem} {path text : String} {c : Config}
    (hread : fs.readText path = .ok text) (htext : Config.ofText? text = some c) :
    fs.loadConfig path = .ok c := by
  have hthere : fs.isThere path = true := by
    unfold readText at hread
    split at hread
    case h_1 => cases hread
    all_goals
      rename_i heq
      rw [isThere, heq]
      rfl
  rw [loadConfig, if_pos hthere, hread]
  dsimp only
  rw [htext]

/-- **A configuration is read back from its file.** Its text can be written exactly if both numbers are
integers of a document. A file with that text gives the configuration, and a file where some of the
fields are left out gives the configuration with the defaults of these. -/
theorem Config.loadConfig_toText (c : Config) :
    (c.IsWritable → c.toText = .ok (String.ofList (printSections c.toSections)) ∧
      ∀ (fs : FileSystem) (path : String),
        (fs.readText path = .ok (String.ofList (printSections c.toSections)) →
          fs.loadConfig path = .ok c) ∧
        ∀ keep, fs.readText path = .ok (String.ofList (printSections (c.keptSections keep))) →
          fs.loadConfig path = .ok (c.keeping keep)) ∧
    (¬ c.IsWritable → c.toText = .error .unwritable) := by
  refine ⟨fun h => ⟨?_, fun fs path => ⟨fun hread => ?_, fun keep hread => ?_⟩⟩, fun h => ?_⟩
  · rw [toText_eq, if_pos h]
  · rw [← keptSections_all] at hread
    exact fs.loadConfig_of_readText hread (ofText?_keptSections h _)
  · exact fs.loadConfig_of_readText hread (ofText?_keptSections h keep)
  · rw [toText_eq, if_neg h]

/-- A working directory that holds the file of a configuration only. -/
def FileSystem.ofConfigText (text : String) : FileSystem :=
  ⟨.dir [(Config.fileName, .ofText text)], []⟩

theorem FileSystem.readText_ofConfigText (text : String) :
    (ofConfigText text).readText Config.fileName = .ok text := by
  have hstat : (ofConfigText text).stat Config.fileName = .ok (.file text.toUTF8) := rfl
  rw [readText, hstat]
  exact textOf_toUTF8 text

/-- A path with quotes and a line break, and a number at the bound and one above it. -/
theorem Config.loadConfig_toText_quoted :
    let c : Config := { roots := ⟨"\x22a'\n", "", true⟩, report := ⟨"", maxInteger, 0, []⟩ }
    let keep := fun table name => table != "roots" || name != "strict"
    c.IsWritable ∧
    (FileSystem.ofConfigText (String.ofList (printSections c.toSections))).loadConfig fileName = .ok c ∧
    (FileSystem.ofConfigText (String.ofList (printSections (c.keptSections keep)))).loadConfig fileName =
      .ok { c with roots.strict := false } ∧
    ({ c with report.maxListed := maxInteger + 1 } : Config).toText = .error .unwritable := by
  intro c keep
  have hwritable : c.IsWritable := by decide
  have hload := ((Config.loadConfig_toText c).1 hwritable).2
  refine ⟨hwritable, ?_, ?_, ?_⟩
  · exact (hload _ _).1 (FileSystem.readText_ofConfigText _)
  · refine ((hload _ _).2 keep (FileSystem.readText_ofConfigText _)).trans (congrArg _ ?_)
    decide
  · exact (Config.loadConfig_toText _).2 (by decide)

end RouteAudit
