import Mathlib.Algebra.Ring.Nat
import RouteAudit.Proofs.Printed
import RouteAudit.Report.Json

/-!
# Reports read back

A report whose counts stay below `2 ^ 64` is read back from its text, so no two of them have the same
text (`Report.ofText?_toText`).

Proof. The text of a report is that of a value of objects, lists, words and counts at most five levels
deep (`Report.fits_toJson`), so reading the text gives this value again (`Json.parse?_pretty`). A record is
then read from its value field by field (`ofJson?_toJson` of each record): its names are all different, so
each stands for one member. A clean path that is left out is read as absent, and one that is there is
never null. The lists follow from their members (`Json.listOf_map`).
-/

namespace RouteAudit

namespace Json

variable {α : Type}

/-! ## Fields -/

theorem required_object {fields : List String} {name : String} {members : List (String × Json)} {v : Json}
    (h : named name members = [v]) (read : Json → Option α) :
    required fields name read (object members) = read v := by
  rw [required, field?, h]

theorem count?_nat {n : Nat} (h : n < 2 ^ 64) : count? (nat n) = some n := by
  have hle : n ≤ maxCount := Nat.le_pred_of_lt h
  exact if_pos hle

/-- A list is read back if its members are. -/
theorem listOf_map {read : Json → Option α} {write : α → Json} {xs : List α}
    (h : ∀ x ∈ xs, read (write x) = some x) : listOf read (array (xs.map write)) = some xs := by
  change (xs.map write).mapM read = some xs
  induction xs with
  | nil => rfl
  | cons x xs ih =>
    rw [List.map_cons, List.mapM_cons, h x List.mem_cons_self,
      ih fun y hy => h y (List.mem_cons_of_mem x hy)]
    rfl

end Json

open Json

/-! ## Records -/

namespace Report

variable {name : String} {path : Option String} {rest : List (String × Json)}

theorem named_cleanPathMember_of_ne (h : "cleanPath" ≠ name) :
    named name (cleanPathMember path ++ rest) = named name rest := by
  cases path with
  | none => rfl
  | some p => exact if_neg h

/-- A clean path is read back, whether it is there or left out. -/
theorem allowed_cleanPathMember {fields : List String} {text : Json} (h : named "cleanPath" rest = []) :
    allowed fields "cleanPath" string? (object (("path", text) :: (cleanPathMember path ++ rest))) =
      some path := by
  cases path <;> simp [allowed, field?, named, cleanPathMember, h, string?]

end Report

/-- The nine totals. -/
def Summary.counts (s : Summary) : List Nat :=
  [s.totalAppRoutes, s.totalPageRoutes, s.totalUsedRoutes, s.validRoutes, s.brokenRoutes, s.unusedRoutes,
    s.externalRoutes, s.dynamicRoutes, s.specialRoutes]

theorem Summary.ofJson?_toJson {s : Summary} (h : ∀ n ∈ s.counts, n < 2 ^ 64) :
    ofJson? s.toJson = some s := by
  have hread : ∀ n ∈ s.counts, count? (nat n) = some n := fun n hn => count?_nat (h n hn)
  simp only [counts, List.forall_mem_cons] at hread
  simp [ofJson?, toJson, required_object, named, hread]

theorem UsageSite.ofJson?_toJson {u : UsageSite} (h : u.line < 2 ^ 64) : ofJson? u.toJson = some u := by
  simp [ofJson?, toJson, required_object, named, count?_nat h, string?, word?, ReferenceKind.ofWord?_word]

theorem BrokenRoute.ofJson?_toJson {r : BrokenRoute} (h : ∀ u ∈ r.usages, u.line < 2 ^ 64) :
    ofJson? r.toJson = some r := by
  have husages : listOf UsageSite.ofJson? (array (r.usages.map UsageSite.toJson)) = some r.usages :=
    listOf_map fun u hu => UsageSite.ofJson?_toJson (h u hu)
  simp [ofJson?, toJson, required_object, named, Report.named_cleanPathMember_of_ne,
    Report.allowed_cleanPathMember, string?, bool?, husages]

theorem UnusedRoute.ofJson?_toJson (r : UnusedRoute) : ofJson? r.toJson = some r := by
  simp [ofJson?, toJson, required_object, named, string?, bool?]

theorem DynamicRoute.ofJson?_toJson {r : DynamicRoute} (h : r.usages < 2 ^ 64) :
    ofJson? r.toJson = some r := by
  simp [ofJson?, toJson, required_object, named, Report.named_cleanPathMember_of_ne,
    Report.allowed_cleanPathMember, string?, count?_nat h]

theorem AppRoute.ofJson?_toJson (r : AppRoute) : ofJson? r.toJson = some r := by
  simp [ofJson?, toJson, required_object, named, string?, bool?]

theorem UsedRoute.ofJson?_toJson {r : UsedRoute} (h : r.usageCount < 2 ^ 64) :
    ofJson? r.toJson = some r := by
  have hfiles : listOf string? (array (r.files.map Json.string)) = some r.files :=
    listOf_map fun _ _ => rfl
  simp [ofJson?, toJson, required_object, named, Report.named_cleanPathMember_of_ne,
    Report.allowed_cleanPathMember, string?, bool?, count?_nat h, hfiles]

theorem Issue.ofJson?_toJson (i : Issue) : ofJson? i.toJson = some i := by
  simp [ofJson?, toJson, required_object, named, string?, word?, IssueKind.ofWord?_word]

/-! ## Levels -/

section Levels

variable {levels : Nat}

attribute [local simp] Fits.bool Fits.string

@[local simp] theorem Json.fits_nat (n : Nat) : Fits levels (nat n) :=
  .int n

theorem Json.fits_map {α : Type} {write : α → Json} {xs : List α} (h : ∀ x ∈ xs, Fits levels (write x)) :
    Fits (levels + 1) (array (xs.map write)) :=
  .array (List.forall_mem_map.mpr h)

theorem Summary.fits_toJson (s : Summary) : Fits (levels + 1) s.toJson :=
  .object (by simp)

theorem UsageSite.fits_toJson (u : UsageSite) : Fits (levels + 1) u.toJson :=
  .object (by simp)

theorem BrokenRoute.fits_toJson (r : BrokenRoute) : Fits (levels + 3) r.toJson := by
  have husages : Fits (levels + 2) (array (r.usages.map UsageSite.toJson)) :=
    fits_map fun u _ => u.fits_toJson
  exact .object (by cases r.cleanPath <;> simp [Report.cleanPathMember, husages])

theorem UnusedRoute.fits_toJson (r : UnusedRoute) : Fits (levels + 1) r.toJson :=
  .object (by simp)

theorem DynamicRoute.fits_toJson (r : DynamicRoute) : Fits (levels + 1) r.toJson :=
  .object (by cases r.cleanPath <;> simp [Report.cleanPathMember])

theorem AppRoute.fits_toJson (r : AppRoute) : Fits (levels + 1) r.toJson :=
  .object (by simp)

theorem UsedRoute.fits_toJson (r : UsedRoute) : Fits (levels + 2) r.toJson := by
  have hfiles : Fits (levels + 1) (array (r.files.map Json.string)) :=
    fits_map fun file _ => .string file
  exact .object (by cases r.cleanPath <;> simp [Report.cleanPathMember, hfiles])

theorem Issue.fits_toJson (i : Issue) : Fits (levels + 1) i.toJson :=
  .object (by simp)

/-- A report nests five levels deep. -/
theorem Report.fits_toJson (r : Report) : Fits (levels + 5) r.toJson := by
  have hbroken : Fits (levels + 4) (array (r.brokenRoutes.map BrokenRoute.toJson)) :=
    fits_map fun b _ => b.fits_toJson
  have hunused : Fits (levels + 4) (array (r.unusedRoutes.map UnusedRoute.toJson)) :=
    fits_map fun u _ => u.fits_toJson
  have hdynamic : Fits (levels + 4) (array (r.dynamicRoutes.map DynamicRoute.toJson)) :=
    fits_map fun d _ => d.fits_toJson
  have happ : Fits (levels + 4) (array (r.allAppRoutes.map AppRoute.toJson)) :=
    fits_map fun a _ => a.fits_toJson
  have hall : Fits (levels + 4) (array (r.allUsedRoutes.map UsedRoute.toJson)) :=
    fits_map fun u _ => u.fits_toJson
  have herrors : Fits (levels + 4) (array (r.errors.map Issue.toJson)) :=
    fits_map fun i _ => i.fits_toJson
  exact .object (by simp [Summary.fits_toJson, hbroken, hunused, hdynamic, happ, hall, herrors])

end Levels

/-! ## Reports -/

namespace Report

/-- The counts of the report: totals, lines, and how often paths are used. -/
def counts (r : Report) : List Nat :=
  r.summary.counts ++ r.brokenRoutes.flatMap (fun b => b.usages.map UsageSite.line) ++
    r.dynamicRoutes.map DynamicRoute.usages ++ r.allUsedRoutes.map UsedRoute.usageCount

theorem ofJson?_toJson {r : Report} (h : ∀ n ∈ r.counts, n < 2 ^ 64) : ofJson? r.toJson = some r := by
  simp only [counts, List.forall_mem_append, List.forall_mem_flatMap, List.forall_mem_map] at h
  obtain ⟨⟨⟨hsummary, hlines⟩, hdynamic⟩, hused⟩ := h
  have hbroken : listOf BrokenRoute.ofJson? (array (r.brokenRoutes.map BrokenRoute.toJson)) =
      some r.brokenRoutes :=
    listOf_map fun b hb => BrokenRoute.ofJson?_toJson (hlines b hb)
  have hunused : listOf UnusedRoute.ofJson? (array (r.unusedRoutes.map UnusedRoute.toJson)) =
      some r.unusedRoutes :=
    listOf_map fun u _ => u.ofJson?_toJson
  have hdynamics : listOf DynamicRoute.ofJson? (array (r.dynamicRoutes.map DynamicRoute.toJson)) =
      some r.dynamicRoutes :=
    listOf_map fun d hd => DynamicRoute.ofJson?_toJson (hdynamic d hd)
  have happ : listOf AppRoute.ofJson? (array (r.allAppRoutes.map AppRoute.toJson)) =
      some r.allAppRoutes :=
    listOf_map fun a _ => a.ofJson?_toJson
  have hall : listOf UsedRoute.ofJson? (array (r.allUsedRoutes.map UsedRoute.toJson)) =
      some r.allUsedRoutes :=
    listOf_map fun u hu => UsedRoute.ofJson?_toJson (hused u hu)
  have herrors : listOf Issue.ofJson? (array (r.errors.map Issue.toJson)) = some r.errors :=
    listOf_map fun i _ => i.ofJson?_toJson
  simp [ofJson?, toJson, required_object, named, string?, Summary.ofJson?_toJson hsummary, hbroken,
    hunused, hdynamics, happ, hall, herrors]

theorem ofText?_eq_some {r : Report} (h : ∀ n ∈ r.counts, n < 2 ^ 64) : ofText? r.toText = some r := by
  have hfits : Fits (122 + 5) r.toJson := r.fits_toJson
  rw [ofText?, toText, parse?_pretty hfits]
  exact ofJson?_toJson h

/-- **A report is read back from its text**, if its counts stay below `2 ^ 64`; so reports that differ
have texts that differ. -/
theorem ofText?_toText (r : Report) (h : ∀ n ∈ r.counts, n < 2 ^ 64) :
    ofText? r.toText = some r ∧
      ∀ r' : Report, (∀ n ∈ r'.counts, n < 2 ^ 64) → r'.toText = r.toText → r' = r := by
  refine ⟨ofText?_eq_some h, fun r' h' htext => Option.some.inj ?_⟩
  rw [← ofText?_eq_some h', htext, ofText?_eq_some h]

/-- A report with marks of every kind in its texts, and the largest count. -/
def marked (cleanPath : Option String) : Report where
  generatedAt := "2024-05-01T00:00:00Z"
  summary := ⟨0, 0, 2 ^ 64 - 1, 0, 1, 1, 0, 1, 0⟩
  brokenRoutes := [
    { path := "/say \"hi\"", cleanPath := cleanPath, isDynamic := false
      usages := [⟨"app\\a.tsx", .navigation, 2 ^ 64 - 1, "\tpush('/𝄞')\x00\x1f"⟩]
      issue := BrokenRoute.note }]
  unusedRoutes := [⟨"/\x7f\u2028", "a\r\n.tsx", true, ""⟩]
  dynamicRoutes := [⟨"/u/$", some "/u/*", 2 ^ 64 - 1⟩]
  allAppRoutes := []
  allUsedRoutes := [⟨"/u/$", some "/u/*", true, 2 ^ 64 - 1, ["😀.tsx", ""]⟩]
  errors := [⟨.walkError, "/\x08\x0c", "\\u0041"⟩]

theorem ofText?_toText_marked :
    ofText? (marked none).toText = some (marked none) ∧
      (marked (some "")).toText ≠ (marked none).toText := by
  obtain ⟨hread, hinj⟩ := ofText?_toText (marked none) (by decide)
  exact ⟨hread, fun htext => nomatch hinj (marked (some "")) (by decide) htext⟩

end Report

end RouteAudit
