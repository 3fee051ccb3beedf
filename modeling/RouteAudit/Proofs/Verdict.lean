import RouteAudit.Proofs.Acceptance
import RouteAudit.Verdict

/-!
# When a path is valid

The verdict on a path asks for the root page where the path is `/` and for any entry that accepts
the path otherwise. Against a table of pages the two are one question: a page accepts `/` exactly if
it is the root page (`accepts?_slash_iff`), so an internal path is valid exactly if some page accepts
it (`verdictOn_eq_valid_iff`).
-/

namespace RouteAudit

/-- A table of pages, each of them the entry for its declared path. -/
def RouteTable.OfPages (t : RouteTable) : Prop :=
  ∀ e ∈ t.entries, e = .ofPath e.declaredPath e.file .page

instance (t : RouteTable) : Decidable t.OfPages :=
  inferInstanceAs (Decidable (∀ e ∈ t.entries, e = .ofPath e.declaredPath e.file .page))

theorem RouteTable.OfPages.eq_ofPath {t : RouteTable} (h : t.OfPages) {e : RouteEntry}
    (he : e ∈ t.entries) : ∃ path file, e = .ofPath path file .page :=
  ⟨_, _, h e he⟩

/-- A table of pages has a root page exactly if some page accepts `/`. -/
theorem hasRootPage_iff {pages : RouteTable} (hpages : pages.OfPages) :
    pages.hasRootPage = true ↔ ∃ e ∈ pages.entries, (e.accepts? "/").isSome = true := by
  unfold RouteTable.hasRootPage
  rw [List.any_eq_true]
  refine exists_congr fun e => and_congr_right fun he => ?_
  obtain ⟨path, file, rfl⟩ := hpages.eq_ofPath he
  rw [RouteEntry.accepts?_slash_iff]
  simp [RouteEntry.isPage, RouteEntry.isRoot, RouteEntry.ofPath]

/-! ## Verdicts -/

theorem isInternal_verdictOn_iff {path : String} {isDynamic : Bool} {pages : RouteTable} :
    (verdictOn path isDynamic pages).isInternal = true ↔
      isExternal path = false ∧ isSpecial path = false := by
  unfold verdictOn
  split_ifs <;> simp_all [Verdict.isInternal]

/-- **An internal path is valid exactly if some page accepts it.** -/
theorem verdictOn_eq_valid_iff {path : String} {isDynamic : Bool} {pages : RouteTable}
    (hpages : pages.OfPages) :
    verdictOn path isDynamic pages = .valid ↔
      (verdictOn path isDynamic pages).isInternal = true ∧
        ∃ e ∈ pages.entries, (e.accepts? path).isSome = true := by
  rw [isInternal_verdictOn_iff]
  unfold verdictOn
  split_ifs with hexternal hspecial hroot hrootPage hresolves hbase
  · simp [hexternal]
  · simp [hspecial]
  · rw [hroot, ← hasRootPage_iff hpages]
    simp_all
  · rw [hroot, ← hasRootPage_iff hpages]
    simp_all
  · rw [← RouteTable.resolves_iff]
    simp_all
  · rw [← RouteTable.resolves_iff]
    simp_all
  · rw [← RouteTable.resolves_iff]
    simp_all

end RouteAudit
