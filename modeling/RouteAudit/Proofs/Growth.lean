import Mathlib.Order.Basic
import RouteAudit.Proofs.Resolution
import RouteAudit.Verdict

/-!
# More routes never weaken a verdict

What an address resolves to depends on the order of the table, but whether it resolves does not: the
verdict asks only whether some entry accepts the path, is the root page or declares the literal part.
Each of these questions stays answered with yes when entries are added (`resolves_mono`,
`hasRootPage_mono`, `hasBaseRoute_mono`), so a verdict can only rise in the order
`broken < dynamicValid < valid` (`verdict_mono`). Tables with the same entries, in whatever order,
give every group the same verdict.
-/

namespace RouteAudit

/-! ## The order of verdicts -/

namespace Verdict

/-- How well a path that points into the application is covered, if it is looked up at all. -/
def strength? : Verdict → Option Nat
  | broken => some 0
  | dynamicValid => some 1
  | valid => some 2
  | external | special => none

/-- The order `broken < dynamicValid < valid`. The verdicts on addresses that are not looked up
compare with themselves only. -/
instance : PartialOrder Verdict where
  le v w := v = w ∧ v.strength? = none ∨ ∃ m ∈ v.strength?, ∃ n ∈ w.strength?, m ≤ n
  le_refl v := by cases v <;> simp [strength?]
  le_trans u v w huv hvw := by cases u <;> cases v <;> cases w <;> simp_all [strength?]
  le_antisymm v w hvw hwv := by cases v <;> cases w <;> simp_all [strength?]

theorem le_iff {v w : Verdict} : v ≤ w ↔
    v = w ∧ v.strength? = none ∨ ∃ m ∈ v.strength?, ∃ n ∈ w.strength?, m ≤ n := Iff.rfl

theorem strength?_eq_none_iff {v : Verdict} : v.strength? = none ↔ v = external ∨ v = special := by
  cases v <;> simp [strength?]

theorem broken_le_dynamicValid : broken ≤ dynamicValid := by
  simp [le_iff, strength?]

theorem broken_le_valid : broken ≤ valid := by
  simp [le_iff, strength?]

theorem dynamicValid_le_valid : dynamicValid ≤ valid := by
  simp [le_iff, strength?]

/-- A verdict that is given under a condition rises with the condition and with what is given
otherwise. -/
theorem ite_mono {p q : Prop} [Decidable p] [Decidable q] {top v w : Verdict} (hpq : p → q)
    (hv : v ≤ top) (hvw : v ≤ w) : (if p then top else v) ≤ if q then top else w := by
  by_cases hp : p
  · rw [if_pos hp, if_pos (hpq hp)]
  · rw [if_neg hp]
    split_ifs
    · exact hv
    · exact hvw

end Verdict

/-! ## What more entries keep -/

variable {t t' : RouteTable}

namespace RouteTable

theorem resolves_mono (h : t.entries ⊆ t'.entries) {address : String}
    (hresolves : t.resolves address = true) : t'.resolves address = true := by
  obtain ⟨e, he, haccepts⟩ := resolves_iff.mp hresolves
  exact resolves_iff.mpr ⟨e, h he, haccepts⟩

theorem any_mono (h : t.entries ⊆ t'.entries) {p : RouteEntry → Bool}
    (hany : t.entries.any p = true) : t'.entries.any p = true := by
  obtain ⟨e, he, hp⟩ := List.any_eq_true.mp hany
  exact List.any_eq_true.mpr ⟨e, h he, hp⟩

theorem hasRootPage_mono (h : t.entries ⊆ t'.entries) (hroot : t.hasRootPage = true) :
    t'.hasRootPage = true :=
  any_mono h hroot

theorem declares_mono (h : t.entries ⊆ t'.entries) {path : String}
    (hdeclares : t.declares path = true) : t'.declares path = true :=
  any_mono h hdeclares

end RouteTable

open RouteTable

theorem hasBaseRoute_mono (h : t.entries ⊆ t'.entries) {path : String}
    (hbase : hasBaseRoute path t = true) : hasBaseRoute path t' = true := by
  unfold hasBaseRoute at hbase ⊢
  split at hbase
  · exact hbase
  · exact hasRootPage_mono h hbase
  · exact declares_mono h hbase

/-- The verdict on a path rises with the table. -/
theorem verdictOn_mono (h : t.entries ⊆ t'.entries) (path : String) (isDynamic : Bool) :
    verdictOn path isDynamic t ≤ verdictOn path isDynamic t' := by
  unfold verdictOn
  by_cases hexternal : isExternal path = true
  · rw [if_pos hexternal, if_pos hexternal]
  rw [if_neg hexternal, if_neg hexternal]
  by_cases hspecial : isSpecial path = true
  · rw [if_pos hspecial, if_pos hspecial]
  rw [if_neg hspecial, if_neg hspecial]
  by_cases hslash : path = "/"
  · rw [if_pos hslash, if_pos hslash]
    exact Verdict.ite_mono (hasRootPage_mono h) Verdict.broken_le_valid le_rfl
  rw [if_neg hslash, if_neg hslash]
  refine Verdict.ite_mono (resolves_mono h) ?_ (Verdict.ite_mono ?_ Verdict.broken_le_dynamicValid le_rfl)
  · split_ifs
    · exact Verdict.dynamicValid_le_valid
    · exact Verdict.broken_le_valid
  · intro hbase
    rw [Bool.and_eq_true] at hbase ⊢
    exact ⟨hbase.1, hasBaseRoute_mono h hbase.2⟩

namespace UsageGroup

/-- **Adding routes never weakens a verdict, and the order of the table does not matter to it.** If all
entries of a table also occur in another one, an address that is not looked up keeps its verdict and
every other one keeps its verdict or gets a better one; tables with the same entries give the same
verdict. -/
theorem verdict_mono (h : t.entries ⊆ t'.entries) (g : UsageGroup) :
    (g.verdict t = g.verdict t' ∧ (g.verdict t = .external ∨ g.verdict t = .special) ∨
        ∃ m ∈ (g.verdict t).strength?, ∃ n ∈ (g.verdict t').strength?, m ≤ n) ∧
      (t'.entries ⊆ t.entries → g.verdict t = g.verdict t') := by
  have hle := verdictOn_mono h g.path g.isDynamic
  constructor
  · rcases Verdict.le_iff.mp hle with ⟨hsame, hnone⟩ | hstrength
    · exact Or.inl ⟨hsame, Verdict.strength?_eq_none_iff.mp hnone⟩
    · exact Or.inr hstrength
  · intro h'
    exact le_antisymm hle (verdictOn_mono h' g.path g.isDynamic)

/-- Where two patterns accept one path, the order of the table decides which entry is found; the
verdict stays. -/
theorem verdict_mono_items :
    let id : RouteEntry := .ofPath "/items/[id]" "app/items/[id]/page.tsx" .page
    let slug : RouteEntry := .ofPath "/items/[slug]" "app/items/[slug]/page.tsx" .page
    let t : RouteTable := ⟨[id, slug]⟩
    let t' : RouteTable := ⟨[slug, id, slug]⟩
    let g := gather [.ofRaw "/items/7" .link "src/a.tsx" 1 ""] "/items/7"
    t.entries ⊆ t'.entries ∧ t'.entries ⊆ t.entries ∧
      (t.find? g.path).map (·.entry) = some id ∧ (t'.find? g.path).map (·.entry) = some slug ∧
      g.verdict t = .valid ∧ g.verdict t = g.verdict t' := by
  intro id slug t t' g
  have h : t.entries ⊆ t'.entries := by simp [t, t']
  have h' : t'.entries ⊆ t.entries := by simp [t, t']
  exact ⟨h, h', by decide, by decide, by decide, (verdict_mono h g).2 h'⟩

end UsageGroup

end RouteAudit
