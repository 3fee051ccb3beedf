import RouteAudit.Proofs.Extracted
import RouteAudit.Scan

/-!
# What the marker test passes over

A file is searched only if one of the markers occurs in it. Most words of the default configuration
hold a marker, so a form that needs such a word finds nothing in a text without markers. Two forms do
not need one: a call of `permanentRedirect`, whose capital letter the marker `redirect` does not
match, and a template text after `=`, `:` or a call of a word without a marker. The references of a
text without markers are exactly those of the words that hold none
(`extractReferences_eq_withoutMarkedWords`), and these are what a scan loses
(`scan_eq_unfiltered_iff`).
-/

namespace RouteAudit

/-- What is left of the default configuration when every word with a marker in it is left out. -/
def ScannerConfig.withoutMarkedWords : ScannerConfig :=
  { navigationHandle := "", navigationFunctions := ["permanentRedirect"]
    linkElements := [], linkKeys := [] }

namespace Scan

/-! ## Texts without markers -/

theorem occurs_iff_isInfix {needle s : List Char} :
    Text.occurs needle s = true ↔ needle <:+: s := by
  induction s with
  | nil => rw [Text.occurs, List.isEmpty_iff, List.infix_nil]
  | cons c r ih =>
    rw [Text.occurs, Bool.or_eq_true, List.isPrefixOf_iff_prefix, ih, List.infix_cons_iff]

variable {content : String}

/-- A word with a marker in it does not occur in a text without markers. -/
theorem not_isInfix_of_hasMarker {markers : List String} (h : hasMarker markers content = false)
    {w : String} (hw : hasMarker markers w = true) : ¬ w.toList <:+: content.toList := by
  intro hoccurs
  obtain ⟨m, hm, hmarker⟩ := List.any_eq_true.mp hw
  have hnone := List.any_eq_false.mp h m hm
  exact hnone (occurs_iff_isInfix.mpr ((occurs_iff_isInfix.mp hmarker).trans hoccurs))

section DefaultForms

open Shape

/-- The words without a marker of the default configuration in them. -/
def unmarked (words : List String) : List String :=
  words.filter fun w => !hasMarker defaultMarkers w

variable (h : hasMarker defaultMarkers content = false)
include h

/-- Words that all hold a marker fit nowhere. -/
theorem nowhereIn_words {words : List String} (hwords : ∀ w ∈ words, hasMarker defaultMarkers w = true) :
    NowhereIn content.toList (word (words.map String.toList)) := by
  refine nowhereIn_word fun w hw => ?_
  obtain ⟨w, hmem, rfl⟩ := List.mem_map.mp hw
  exact not_isInfix_of_hasMarker h (hwords w hmem)

theorem nowhereIn_literal {w : String} (hw : hasMarker defaultMarkers w = true) :
    NowhereIn content.toList (literal w) := by
  refine nowhereIn_word fun w' hmem => ?_
  obtain rfl := List.mem_singleton.mp hmem
  exact not_isInfix_of_hasMarker h hw

/-- Of some words, those that hold a marker can be left out. -/
theorem sameOn_unmarked (words : List String) : SameOn content.toList
    (word (words.map String.toList)) (word ((unmarked words).map String.toList)) := by
  have hwords : (unmarked words).map String.toList =
      (words.map String.toList).filter fun w => !hasMarker defaultMarkers (String.ofList w) := by
    rw [unmarked, List.filter_map]
    refine congrArg _ (List.filter_congr fun w _ => ?_)
    rw [Function.comp_apply, String.ofList_toList]
  rw [hwords]
  refine sameOn_word_filter fun w hw hmarked => ?_
  obtain ⟨w, -, rfl⟩ := List.mem_map.mp hw
  rw [String.ofList_toList, Bool.not_eq_false'] at hmarked
  exact not_isInfix_of_hasMarker h hmarked

/-- A link needs its attribute. -/
theorem nowhereIn_linkShape (element : Shape) : NowhereIn content.toList (linkShape element) :=
  .seq_right _ (.seq_right _ (.seq_right _ (.seq_right _ (.seq_right _ (.seq_left
    (nowhereIn_literal h (by decide)) _)))))

/-- A property needs its key. -/
theorem nowhereIn_propertyShape :
    NowhereIn content.toList (propertyShape (word (defaultKeys.map String.toList))) :=
  .seq_right _ (.seq_left (nowhereIn_words h (by decide)) _)

/-- A call needs its handle or, of a function, a word without a marker. -/
theorem sameOn_callee : SameOn content.toList
    (choice (methodShape defaultHandle (word (defaultVerbs.map String.toList)))
      (seq boundary (word (defaultFunctions.map String.toList))))
    (seq boundary (word ((unmarked defaultFunctions).map String.toList))) := by
  have hmethod : NowhereIn content.toList
      (methodShape defaultHandle (word (defaultVerbs.map String.toList))) :=
    .seq_right _ (.seq_left (nowhereIn_literal h (by decide)) _)
  intro c hc
  rw [hmethod.choice_left _ c hc]
  exact SameOn.seq (.refl _ _) (sameOn_unmarked h _) c hc

/-- A template text needs no marker after a sign or a call of a word without one. -/
theorem sameOn_templateShape : SameOn content.toList
    (templateShape (defaultVerbs ++ defaultFunctions))
    (templateShape (unmarked (defaultVerbs ++ defaultFunctions))) :=
  .seq (.choice (.refl _ _) (.seq (.refl _ _) (.seq (sameOn_unmarked h _) (.refl _ _)))) (.refl _ _)

end DefaultForms

theorem references_eq_of_sameOn {a b : Shape} (kind : ReferenceKind)
    (h : Shape.SameOn content.toList a b) (file : String) :
    Form.references ⟨kind, a⟩ content.toList file = Form.references ⟨kind, b⟩ content.toList file := by
  rw [Form.references, Form.references, h.matchesIn_eq]
  rfl

theorem references_eq_nil_of_nowhereIn {a : Shape} (kind : ReferenceKind)
    (h : Shape.NowhereIn content.toList a) (file : String) :
    Form.references ⟨kind, a⟩ content.toList file = [] := by
  rw [Form.references, h.matchesIn_eq_nil, List.filterMap_nil]

/-- In a text without markers, the references of a kind are those of the words that hold no marker. -/
theorem referencesOf_eq_withoutMarkedWords (h : hasMarker defaultMarkers content = false)
    (kind : ReferenceKind) (file : String) :
    ({} : ScannerConfig).referencesOf kind content.toList file =
      ScannerConfig.withoutMarkedWords.referencesOf kind content.toList file := by
  have hfunctions : unmarked defaultFunctions = ScannerConfig.withoutMarkedWords.navigationFunctions := by
    decide
  have hcalls : unmarked (defaultVerbs ++ defaultFunctions) =
      ScannerConfig.withoutMarkedWords.navigationVerbs ++
        ScannerConfig.withoutMarkedWords.navigationFunctions := by
    decide
  have hcallee := sameOn_callee h
  have htemplate := sameOn_templateShape h
  rw [hfunctions] at hcallee
  rw [hcalls] at htemplate
  cases kind with
  | link => exact references_eq_nil_of_nowhereIn .link (nowhereIn_linkShape h _) file
  | navigation => exact references_eq_of_sameOn .navigation (hcallee.seq (.refl _ _)) file
  | template => exact references_eq_of_sameOn .template htemplate file
  | property => exact references_eq_nil_of_nowhereIn .property (nowhereIn_propertyShape h) file

/-- The references of a text without markers are those of the words that hold no marker. -/
theorem extractReferences_eq_withoutMarkedWords
    (h : hasMarker ({} : ScannerConfig).markers content = false) (file : String) :
    extractReferences (Form.ofConfig {}) content file =
      extractReferences (Form.ofConfig .withoutMarkedWords) content file := by
  rw [ScannerConfig.extractReferences_eq_flatMap, ScannerConfig.extractReferences_eq_flatMap]
  exact List.flatMap_congr fun kind _ => referencesOf_eq_withoutMarkedWords h kind file

/-! ## Scans -/

/-- The references that a file would give without the marker test. -/
def extracted (config : ScannerConfig) (f : FoundFile) : List Reference :=
  match contentOf f with
  | .ok content => extractReferences (Form.ofConfig config) content f.path
  | .error _ => []

/-- The references of all files that can be read, whether or not they hold a marker. -/
def unfiltered (config : ScannerConfig) (files : List FoundFile) : List Reference :=
  (files.flatMap (extracted config)).mergeSort referenceLe

/-- The marker test passes over nothing in a file. -/
def LosesNothing (f : FoundFile) : Prop :=
  ∀ content, contentOf f = .ok content → hasMarker ({} : ScannerConfig).markers content = false →
    extractReferences (Form.ofConfig .withoutMarkedWords) content f.path = []

theorem references_scanFile (f : FoundFile) :
    (scanFile {} (Form.ofConfig {}) f).references = extracted {} f ∨
      (scanFile {} (Form.ofConfig {}) f).references = [] := by
  unfold scanFile extracted
  cases contentOf f with
  | error fault => exact Or.inr rfl
  | ok content =>
    dsimp only
    split_ifs
    · exact Or.inl rfl
    · exact Or.inr rfl

theorem references_scanFile_eq_iff (f : FoundFile) :
    (scanFile {} (Form.ofConfig {}) f).references = extracted {} f ↔ LosesNothing f := by
  unfold scanFile extracted LosesNothing
  cases hcontent : contentOf f with
  | error fault => simp [FileScan.references]
  | ok content =>
    simp only [Except.ok.injEq, forall_eq']
    cases hmarker : hasMarker ({} : ScannerConfig).markers content with
    | true => simp [FileScan.references]
    | false =>
      rw [extractReferences_eq_withoutMarkedWords hmarker, if_neg Bool.false_ne_true]
      exact ⟨fun h _ => h.symm, fun h => (h rfl).symm⟩

theorem length_flatMap_le {α β : Type} {g h : α → List β} {xs : List α}
    (hpart : ∀ x ∈ xs, g x = h x ∨ g x = []) : (xs.flatMap g).length ≤ (xs.flatMap h).length := by
  induction xs with
  | nil => simp
  | cons x xs ih =>
    have hrest := ih fun y hy => hpart y (List.mem_cons_of_mem _ hy)
    simp only [List.flatMap_cons, List.length_append]
    rcases hpart x List.mem_cons_self with hx | hx <;> simp only [hx, List.length_nil] <;> omega

/-- Where every part is whole or missing, the parts have the length of the whole only if none that
holds something is missing. -/
theorem eq_of_length_flatMap_eq {α β : Type} {g h : α → List β} {xs : List α}
    (hpart : ∀ x ∈ xs, g x = h x ∨ g x = [])
    (hlength : (xs.flatMap g).length = (xs.flatMap h).length) : ∀ x ∈ xs, g x = h x := by
  induction xs with
  | nil => simp
  | cons x xs ih =>
    have htail : ∀ y ∈ xs, g y = h y ∨ g y = [] := fun y hy => hpart y (List.mem_cons_of_mem _ hy)
    have hle := length_flatMap_le htail
    simp only [List.flatMap_cons, List.length_append] at hlength
    have hx : g x = h x := by
      rcases hpart x List.mem_cons_self with hx | hx
      · exact hx
      · rw [hx, List.length_nil] at hlength
        rw [hx, List.length_eq_zero_iff.mp (by omega : (h x).length = 0)]
    rw [hx] at hlength
    intro y hy
    rcases List.mem_cons.mp hy with rfl | hy
    · exact hx
    · exact ih htail (by omega) y hy

/-- A walk loses nothing to the marker test exactly if none of its files does. -/
theorem references_ofVisits_eq_unfiltered_iff (visits : List Visit) :
    (ofVisits {} visits).references = unfiltered {} (candidateFiles {} visits) ↔
      ∀ f ∈ candidateFiles {} visits, LosesNothing f := by
  have hscan : (ofVisits {} visits).references =
      ((candidateFiles {} visits).flatMap fun f =>
        (scanFile {} (Form.ofConfig {}) f).references).mergeSort referenceLe := by
    simp only [ofVisits, List.flatMap_map]
  rw [hscan, unfiltered]
  constructor
  · intro heq f hf
    have hlength := congrArg List.length heq
    rw [List.length_mergeSort, List.length_mergeSort] at hlength
    exact (references_scanFile_eq_iff f).mp
      (eq_of_length_flatMap_eq (fun f _ => references_scanFile f) hlength f hf)
  · intro hnothing
    rw [List.flatMap_congr fun f hf => (references_scanFile_eq_iff f).mpr (hnothing f hf)]

end Scan

/-- The files below a source root that a scan reads. -/
def FileSystem.sources (fs : FileSystem) (config : ScannerConfig) (strict : Bool) (root : String) :
    Except AuditError (List FoundFile) :=
  match fs.openRoot .source strict root with
  | .error e => .error e
  | .ok (.missing _) => .ok []
  | .ok (.present children) =>
    .ok (Scan.candidateFiles config
      (walk root children fun name => !isSkippedDir config.skipDirs name))

/-- **What the marker test loses.** In a text without markers the default configuration finds the
references of its words without markers, and a scan of a tree finds what all its files hold exactly
if no file without markers holds such a reference. -/
theorem scan_eq_unfiltered_iff (fs : FileSystem) (strict : Bool) (root : String) :
    (∀ content file, Scan.hasMarker ({} : ScannerConfig).markers content = false →
      extractReferences (Form.ofConfig {}) content file =
        extractReferences (Form.ofConfig .withoutMarkedWords) content file) ∧
    ((fs.scan {} strict root).map (·.references) =
        (fs.sources {} strict root).map (Scan.unfiltered {}) ↔
      ∀ files, fs.sources {} strict root = .ok files → ∀ f ∈ files, Scan.LosesNothing f) := by
  refine ⟨fun content file h => Scan.extractReferences_eq_withoutMarkedWords h file, ?_⟩
  unfold FileSystem.scan FileSystem.sources
  cases fs.openRoot .source strict root with
  | error e => simp [Except.map]
  | ok state =>
    cases state with
    | missing issue => simp [Except.map, Scan.unfiltered]
    | present children =>
      simp only [Except.map, Except.ok.injEq, forall_eq']
      exact Scan.references_ofVisits_eq_unfiltered_iff _

/-- The marker `redirect` is not in `permanentRedirect`, and a template text needs no marker. -/
theorem markers_lose_references :
    let markers := ({} : ScannerConfig).markers
    Scan.hasMarker markers "permanentRedirect('/moved');" = false ∧
      extractReferences (Form.ofConfig {}) "permanentRedirect('/moved');" "src/old.ts" =
        [.ofRaw "/moved" .navigation "src/old.ts" 1 "permanentRedirect('/moved');"] ∧
      Scan.hasMarker markers "const u = `/u/${id}`;" = false ∧
      extractReferences (Form.ofConfig {}) "const u = `/u/${id}`;" "src/old.ts" =
        [.ofRaw "/u/${id}" .template "src/old.ts" 1 "const u = `/u/${id}`;"] := by
  decide

end RouteAudit
