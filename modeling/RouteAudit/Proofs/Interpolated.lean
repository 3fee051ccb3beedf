import RouteAudit.Proofs.Acceptance
import RouteAudit.Proofs.Template
import RouteAudit.Verdict

/-!
# The verdict on an interpolated path

Against a table whose declared paths hold no `$`, an interpolated path is never the path of an entry.
It resolves by a pattern or by its literal part, and all the other questions of the verdict look at
the text before the first interpolation. So two paths with the same text before it differ in their
verdict only through the patterns (`verdictOn_eq_iff`).
-/

namespace RouteAudit

namespace Address

/-- A path with the given text before its first interpolation. -/
structure Interpolated (path literal : List Char) : Prop where
  pathPart_eq : pathPart path = path
  beforeInterpolation_eq : beforeInterpolation? path = some literal

theorem beforeInterpolation?_eq_some {s t : List Char} (h : beforeInterpolation? s = some t) :
    ∃ r, s = t ++ '$' :: '{' :: r := by
  induction s using beforeInterpolation?.induct generalizing t with
  | case1 => simp [beforeInterpolation?] at h
  | case2 r =>
    rw [beforeInterpolation?] at h
    obtain rfl := Option.some.inj h
    exact ⟨r, rfl⟩
  | case3 c r hopen ih =>
    rw [beforeInterpolation?.eq_3 c r hopen] at h
    obtain ⟨t', ht', rfl⟩ := Option.map_eq_some_iff.mp h
    obtain ⟨r', rfl⟩ := ih ht'
    exact ⟨r', rfl⟩

theorem plain_of_beforeInterpolation?_eq_some {s t : List Char} (h : beforeInterpolation? s = some t) :
    Plain t := by
  induction s using beforeInterpolation?.induct generalizing t with
  | case1 => simp [beforeInterpolation?] at h
  | case2 r =>
    rw [beforeInterpolation?] at h
    obtain rfl := Option.some.inj h
    decide
  | case3 c r hopen ih =>
    rw [beforeInterpolation?.eq_3 c r hopen] at h
    obtain ⟨t', ht', rfl⟩ := Option.map_eq_some_iff.mp h
    obtain ⟨r', rfl⟩ := beforeInterpolation?_eq_some ht'
    refine plain_cons_iff.mpr ⟨fun hbegins => ?_, ih ht'⟩
    exact not_prefix_of_forall hopen (hbegins.trans (List.prefix_append (c :: t') _))

/-- The text before the first interpolation opens none itself, and the interpolation follows it. -/
theorem beforeInterpolation?_eq_some_iff {s t : List Char} :
    beforeInterpolation? s = some t ↔ Plain t ∧ ∃ r, s = t ++ '$' :: '{' :: r := by
  constructor
  · exact fun h => ⟨plain_of_beforeInterpolation?_eq_some h, beforeInterpolation?_eq_some h⟩
  · rintro ⟨ht, r, rfl⟩
    rw [beforeInterpolation?_plain_append ht (by simp), beforeInterpolation?]
    simp

theorem hasInterpolation_append (s r : List Char) : hasInterpolation (s ++ '$' :: '{' :: r) = true := by
  induction s with
  | nil => rfl
  | cons c s ih =>
    rw [hasInterpolation] at ih ⊢
    rw [List.cons_append]
    unfold beforeInterpolation?
    split <;> simp_all

/-- A text has an interpolation exactly if `${` stands in it. -/
theorem hasInterpolation_iff_isInfix {s : List Char} :
    hasInterpolation s = true ↔ ['$', '{'] <:+: s := by
  constructor
  · intro h
    obtain ⟨t, ht⟩ := Option.isSome_iff_exists.mp h
    obtain ⟨r, rfl⟩ := beforeInterpolation?_eq_some ht
    exact ⟨t, r, by simp⟩
  · rintro ⟨t, r, rfl⟩
    rw [List.append_assoc]
    exact hasInterpolation_append t r

theorem beforeInterpolation?_eq_none_iff {s : List Char} : beforeInterpolation? s = none ↔ Plain s := by
  rw [Plain, ← hasInterpolation_iff_isInfix, hasInterpolation, ← Option.isNone_iff_eq_none]
  simp

variable {path literal : List Char}

theorem Interpolated.exists_eq (h : Interpolated path literal) :
    ∃ r, path = literal ++ '$' :: '{' :: r :=
  beforeInterpolation?_eq_some h.beforeInterpolation_eq

theorem Interpolated.hasInterpolation_eq (h : Interpolated path literal) :
    hasInterpolation path = true := by
  rw [hasInterpolation, h.beforeInterpolation_eq]
  rfl

theorem Interpolated.dollar_mem_clean (h : Interpolated path literal) : '$' ∈ clean path := by
  obtain ⟨r, hr⟩ := h.exists_eq
  have hmem : '$' ∈ Text.dropTrailingSlash path := by
    rw [hr, Text.dropTrailingSlash_append_cons (by decide)]
    exact List.mem_append_right literal List.mem_cons_self
  rw [clean, h.pathPart_eq, if_neg (by simp [hr]), if_neg (List.ne_nil_of_mem hmem)]
  exact hmem

/-- A text without `$` begins an interpolated path exactly if it begins its literal part. -/
theorem Interpolated.isPrefixOf_eq (h : Interpolated path literal) {s : List Char} (hs : '$' ∉ s) :
    s.isPrefixOf path = s.isPrefixOf literal := by
  obtain ⟨r, rfl⟩ := h.exists_eq
  rw [Bool.eq_iff_iff, List.isPrefixOf_iff_prefix, List.isPrefixOf_iff_prefix]
  constructor
  · intro hprefix
    rcases List.prefix_or_prefix_of_prefix hprefix (List.prefix_append literal _) with hs' | ⟨u, rfl⟩
    · exact hs'
    · -- what goes on beyond the literal part begins with the dollar
      rw [List.prefix_append_right_inj] at hprefix
      cases u with
      | nil => simp
      | cons c u =>
        obtain ⟨rfl, -⟩ := List.cons_prefix_cons.mp hprefix
        simp at hs
  · exact fun hprefix => hprefix.trans (List.prefix_append _ _)

end Address

/-! ## Entries -/

namespace RouteEntry

variable {e : RouteEntry} {path literal : List Char}

theorem hitsDirect_interpolated (hdollar : '$' ∉ e.declaredPath.toList)
    (h : Address.Interpolated path literal) : e.hitsDirect path = false := by
  rw [Bool.eq_false_iff, Ne, hitsDirect_iff]
  intro hclean
  exact hdollar (hclean ▸ h.dollar_mem_clean)

theorem hitsStructural_congr {other : List Char}
    (h : Address.literalPart? path = Address.literalPart? other) :
    e.hitsStructural path = e.hitsStructural other := by
  unfold hitsStructural
  rw [h]

end RouteEntry

/-! ## The parts of the verdict -/

open Address

variable {x y literal : List Char} {pages : RouteTable}

theorem isExternal_interpolated (h : Interpolated x literal) :
    isExternal (String.ofList x) = isExternal (String.ofList literal) := by
  have hdollar : ∀ s ∈ externalStarts, '$' ∉ s.toList := by decide
  unfold isExternal
  rw [Bool.eq_iff_iff, List.any_eq_true, List.any_eq_true]
  refine exists_congr fun s => and_congr_right fun hs => ?_
  rw [String.toList_ofList, String.toList_ofList, h.isPrefixOf_eq (hdollar s hs)]

theorem isSpecial_interpolated (h : Interpolated x literal) :
    isSpecial (String.ofList x) = decide (literal.head? = some '#') := by
  obtain ⟨r, rfl⟩ := h.exists_eq
  unfold isSpecial
  cases literal <;> simp [String.isEmpty_iff]

theorem literalPart?_interpolated (h : Interpolated x literal) :
    literalPart? x = some (Text.dropTrailingSlash literal) := by
  rw [literalPart?, h.beforeInterpolation_eq]
  rfl

theorem ofList_ne_slash (h : Interpolated x literal) : String.ofList x ≠ "/" := by
  obtain ⟨r, rfl⟩ := h.exists_eq
  intro hslash
  have hlength := congrArg (·.toList.length) hslash
  simp at hlength
  omega

/-- An interpolated path resolves by a pattern or by its literal part. -/
theorem resolves_interpolated (hpages : ∀ e ∈ pages.entries, '$' ∉ e.declaredPath.toList)
    (h : Interpolated x literal) :
    pages.resolves (String.ofList x) = true ↔
      pages.resolvesBy .structuralPrefix (String.ofList x) = true ∨
        pages.resolvesBy .dynamic (String.ofList x) = true := by
  rw [RouteTable.resolves_iff_resolvesBy]
  constructor
  · rintro ⟨k, hk⟩
    cases k with
    | direct =>
      obtain ⟨e, he, hhit⟩ := RouteTable.resolvesBy_iff.mp hk
      rw [RouteEntry.hits, String.toList_ofList,
        RouteEntry.hitsDirect_interpolated (hpages e he) h] at hhit
      cases hhit
    | dynamic => exact Or.inr hk
    | structuralPrefix => exact Or.inl hk
  · rintro (h | h)
    · exact ⟨_, h⟩
    · exact ⟨_, h⟩

theorem resolvesBy_structural_congr (hx : Interpolated x literal) (hy : Interpolated y literal) :
    pages.resolvesBy .structuralPrefix (String.ofList x) =
      pages.resolvesBy .structuralPrefix (String.ofList y) := by
  refine RouteTable.resolvesBy_congr fun e _ => ?_
  rw [RouteEntry.hits, RouteEntry.hits, String.toList_ofList, String.toList_ofList]
  exact RouteEntry.hitsStructural_congr
    ((literalPart?_interpolated hx).trans (literalPart?_interpolated hy).symm)

theorem hasBaseRoute_congr (hx : Interpolated x literal) (hy : Interpolated y literal) :
    hasBaseRoute (String.ofList x) pages = hasBaseRoute (String.ofList y) pages := by
  unfold hasBaseRoute
  rw [String.toList_ofList, String.toList_ofList, literalPart?_interpolated hx,
    literalPart?_interpolated hy]

/-- **Two interpolated paths with the same text before the interpolation get the same verdict** unless
they are internal, their literal part is that of no entry, and a pattern accepts just one of them. -/
theorem verdictOn_eq_iff (hpages : ∀ e ∈ pages.entries, '$' ∉ e.declaredPath.toList)
    (hx : Interpolated x literal) (hy : Interpolated y literal) :
    verdictOn (String.ofList x) true pages = verdictOn (String.ofList y) true pages ↔
      (verdictOn (String.ofList x) true pages).isInternal = false ∨
        pages.resolvesBy .structuralPrefix (String.ofList x) = true ∨
        pages.resolvesBy .dynamic (String.ofList x) =
          pages.resolvesBy .dynamic (String.ofList y) := by
  have hresolvesx := resolves_interpolated hpages hx
  have hresolvesy := resolves_interpolated hpages hy
  rw [← resolvesBy_structural_congr hx hy] at hresolvesy
  unfold verdictOn
  rw [← hasBaseRoute_congr hx hy, isExternal_interpolated hx, isExternal_interpolated hy,
    isSpecial_interpolated hx, isSpecial_interpolated hy, if_neg (ofList_ne_slash hx),
    if_neg (ofList_ne_slash hy)]
  by_cases hexternal : isExternal (String.ofList literal) = true
  · simp [hexternal, Verdict.isInternal]
  by_cases hspecial : literal.head? = some '#'
  · simp [hexternal, hspecial, Verdict.isInternal]
  by_cases hstructural : pages.resolvesBy .structuralPrefix (String.ofList x) = true
  · simp [hexternal, hspecial, hstructural, hresolvesx, hresolvesy]
  · have hx' := Bool.eq_iff_iff.mpr (hresolvesx.trans (or_iff_right hstructural))
    have hy' := Bool.eq_iff_iff.mpr (hresolvesy.trans (or_iff_right hstructural))
    simp only [hx', hy', if_neg hexternal, hspecial, decide_false, Bool.false_eq_true, if_false]
    -- whatever the base route, a path that a pattern accepts is valid and another one is not
    cases pages.resolvesBy .dynamic (String.ofList x) <;>
      cases pages.resolvesBy .dynamic (String.ofList y) <;>
      cases hasBaseRoute (String.ofList x) pages <;> simp [hstructural, Verdict.isInternal]

end RouteAudit
