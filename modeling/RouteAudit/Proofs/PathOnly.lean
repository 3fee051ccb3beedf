import Mathlib.Data.List.Find
import RouteAudit.Proofs.Interpolated
import RouteAudit.Proofs.Template

/-!
# Only the path of an address is matched

A table whose declared paths hold neither `?` nor `#` resolves an address as it resolves the path part
of the address, and each of its entries accepts both by the same step (`RouteTable.matches_pathPart`).
So an interpolation in the query or the fragment never leads to a route.

Proof. Two of the steps look at the cleaned address, which is made from the path part. The third looks
at the text before the first interpolation, wherever that is. The path part has this interpolation too,
unless a `?` or `#` stands before it (`beforeInterpolation?_pathPart`); then the text before it holds
that character, which no beginning of a declared path does.
-/

namespace RouteAudit

/-! ## The first interpolation -/

namespace Address

/-- The path part has the first interpolation, unless the path ends before it. -/
theorem beforeInterpolation?_pathPart (s : List Char) :
    beforeInterpolation? (pathPart s) = (beforeInterpolation? s).filter fun t => !t.any endsPath := by
  cases h : beforeInterpolation? s with
  | none =>
    have hpath : pathPart s <+: s := pathPartFrom_prefix 0 s
    have hplain : Plain (pathPart s) := (beforeInterpolation?_eq_none_iff.mp h).of_isPrefix hpath
    rw [beforeInterpolation?_eq_none_iff.mpr hplain, Option.filter_none]
  | some t =>
    obtain ⟨ht, r, rfl⟩ := beforeInterpolation?_eq_some_iff.mp h
    rw [pathPart_plain_append ht (by simp)]
    cases hany : t.any endsPath with
    | true =>
      have hplain : Plain (t.takeWhile (!endsPath ·)) := ht.of_isPrefix (List.takeWhile_prefix _)
      rw [if_pos rfl, beforeInterpolation?_eq_none_iff.mpr hplain,
        Option.filter_some_neg (by rw [hany]; rfl)]
    | false =>
      rw [if_neg Bool.false_ne_true, pathPart, pathPartFrom_open,
        beforeInterpolation?_eq_some_iff.mpr ⟨ht, _, rfl⟩,
        Option.filter_some_pos (by rw [hany]; rfl)]

/-- A slash does not end a path. -/
theorem any_endsPath_dropTrailingSlash (s : List Char) :
    (Text.dropTrailingSlash s).any endsPath = s.any endsPath := by
  unfold Text.dropTrailingSlash
  split_ifs with hslash
  · conv_rhs => rw [← List.dropLast_append_getLast? '/' hslash, List.any_append]
    simp [endsPath]
  · rfl

end Address

open Address

/-! ## Entries -/

namespace RouteEntry

theorem prefix_of_beforeBracket?_eq_some {declared t : List Char}
    (h : beforeBracket? declared = some t) : t <+: declared := by
  induction declared generalizing t with
  | nil => cases h
  | cons c r ih =>
    rw [beforeBracket?] at h
    split_ifs at h
    · obtain rfl := Option.some.inj h
      exact List.nil_prefix
    · obtain ⟨t', ht', rfl⟩ := Option.map_eq_some_iff.mp h
      exact List.cons_prefix_cons.mpr ⟨rfl, ih ht'⟩

/-- The literal part of a declared path is a beginning of it. -/
theorem prefix_of_placeholderPrefix?_eq_some {declared literal : List Char}
    (h : placeholderPrefix? declared = some literal) : literal <+: declared := by
  obtain ⟨t, ht, rfl⟩ := Option.map_eq_some_iff.mp h
  exact (Text.dropTrailingSlash_isPrefix t).trans (prefix_of_beforeBracket?_eq_some ht)

variable {e : RouteEntry} (hpath : ∀ c ∈ e.declaredPath.toList, endsPath c = false)
include hpath

theorem hitsStructural_pathPart (s : List Char) :
    e.hitsStructural (pathPart s) = e.hitsStructural s := by
  rw [Bool.eq_iff_iff, hitsStructural_iff, hitsStructural_iff]
  refine exists_congr fun p => exists_congr fun literal => and_congr_right fun _ => ?_
  refine and_congr_left fun hdeclared => ?_
  have hliteral : literal.any endsPath = false := by
    rw [List.any_eq_false]
    intro c hc
    simp [hpath c ((prefix_of_placeholderPrefix?_eq_some hdeclared).subset hc)]
  simp only [Address.literalPart?, beforeInterpolation?_pathPart, Option.map_eq_some_iff]
  refine exists_congr fun t => and_congr_left fun ht => ?_
  -- the character that ends the path before the interpolation would be in the literal part
  rw [← ht, any_endsPath_dropTrailingSlash] at hliteral
  simp [Option.filter_eq_some_iff, hliteral]

theorem hits_pathPart (k : MatchKind) (address : String) :
    e.hits k (String.ofList (pathPart address.toList)) = e.hits k address := by
  cases k with
  | direct => simp only [hits, hitsDirect, String.toList_ofList, clean_pathPart]
  | dynamic => simp only [hits, hitsDynamic, String.toList_ofList, clean_pathPart]
  | structuralPrefix => simp only [hits, String.toList_ofList, hitsStructural_pathPart hpath]

theorem accepts?_pathPart (address : String) :
    e.accepts? (String.ofList (pathPart address.toList)) = e.accepts? address := by
  rw [accepts?, accepts?]
  exact List.find?_congr fun k _ => hits_pathPart hpath k address

end RouteEntry

/-- An entry takes an address by its literal part only if the address has an interpolation. -/
theorem RouteEntry.hasInterpolation_of_hitsStructural {e : RouteEntry} {s : List Char}
    (h : e.hitsStructural s = true) : hasInterpolation s = true := by
  obtain ⟨p, literal, -, hliteral, -⟩ := hitsStructural_iff.mp h
  obtain ⟨t, ht, -⟩ := Option.map_eq_some_iff.mp hliteral
  rw [hasInterpolation, ht]
  rfl

/-! ## Tables -/

namespace RouteTable

variable {t : RouteTable}

theorem findBy?_pathPart (hpaths : ∀ e ∈ t.entries, ∀ c ∈ e.declaredPath.toList, endsPath c = false)
    (k : MatchKind) (address : String) :
    t.findBy? k (String.ofList (pathPart address.toList)) = t.findBy? k address := by
  have hfind : ∀ p ∈ t.entries.zipIdx,
      p.1.hits k (String.ofList (pathPart address.toList)) = p.1.hits k address := by
    intro p hp
    exact RouteEntry.hits_pathPart
      (hpaths p.1 (List.mem_of_getElem? (List.mem_zipIdx_iff_getElem?.mp hp))) k address
  rw [findBy?, findBy?, List.find?_congr hfind]

/-- **Only the path of an address is matched.** Against declared paths without `?` and `#`, an address
and its path part resolve to the same entry by the same step, or both to none, and every entry accepts
both by the same step. An address whose path part has no interpolation is never accepted by a literal
part. -/
theorem matches_pathPart
    (hpaths : ∀ e ∈ t.entries, '?' ∉ e.declaredPath.toList ∧ '#' ∉ e.declaredPath.toList)
    (address : String) :
    t.find? address = t.find? (String.ofList (pathPart address.toList)) ∧
      (∀ i, t.accepts? i address = t.accepts? i (String.ofList (pathPart address.toList))) ∧
      (hasInterpolation (pathPart address.toList) = false →
        (∀ i, t.accepts? i address ≠ some .structuralPrefix) ∧
          ∀ m, t.find? address = some m → m.kind ≠ .structuralPrefix) := by
  have hends : ∀ e ∈ t.entries, ∀ c ∈ e.declaredPath.toList, endsPath c = false := by
    intro e he c hc
    obtain ⟨hquestion, hnumber⟩ := hpaths e he
    have hne : c ≠ '?' ∧ c ≠ '#' := ⟨fun h => hquestion (h ▸ hc), fun h => hnumber (h ▸ hc)⟩
    simp [endsPath, hne]
  have haccepts : ∀ i, t.accepts? i address =
      t.accepts? i (String.ofList (pathPart address.toList)) := by
    intro i
    unfold accepts?
    cases hget : t.get? i with
    | none => rw [Option.bind_none, Option.bind_none]
    | some e =>
      rw [Option.bind_some, Option.bind_some,
        RouteEntry.accepts?_pathPart (hends e (List.mem_of_getElem? hget))]
  refine ⟨?_, haccepts, fun hplain => ?_⟩
  · simp only [find?, findBy?_pathPart hends]
  · have hnever : ∀ i, t.accepts? i address ≠ some .structuralPrefix := by
      intro i hstructural
      rw [haccepts i] at hstructural
      obtain ⟨e, -, he⟩ := accepts?_eq_some.mp hstructural
      have hhit := (RouteEntry.accepts?_eq_some_iff.mp he).1
      rw [RouteEntry.hits, String.toList_ofList] at hhit
      rw [RouteEntry.hasInterpolation_of_hitsStructural hhit] at hplain
      cases hplain
    refine ⟨hnever, fun m hm hkind => hnever m.index ?_⟩
    rw [← hkind]
    exact mem_acceptances.mp (isLeast_of_find?_eq_some hm).2.1

/-- The interpolations of the query and of the fragment do not lead to the page with a placeholder. -/
theorem matches_pathPart_tab :
    let t : RouteTable := ⟨[.ofPath "/course/[id]" "app/course/[id]/page.tsx" .page,
      { RouteEntry.ofPath "/course" "app/course/page.tsx" .page with hasParameters := true },
      .ofPath "/docs/[x" "app/docs/[x/page.tsx" .layout]⟩
    let address := "/course/?tab=${tab}#${top}"
    (∀ e ∈ t.entries, '?' ∉ e.declaredPath.toList ∧ '#' ∉ e.declaredPath.toList) ∧
      hasInterpolation address.toList = true ∧
      hasInterpolation (pathPart address.toList) = false ∧
      t.find? address = t.find? "/course/" ∧ (t.find? address).map (·.kind) = some .direct ∧
      ∀ i, t.accepts? i address = t.accepts? i "/course/" ∧
        t.accepts? i address ≠ some .structuralPrefix := by
  intro t address
  have hpaths : ∀ e ∈ t.entries, '?' ∉ e.declaredPath.toList ∧ '#' ∉ e.declaredPath.toList := by decide
  have hplain : hasInterpolation (pathPart address.toList) = false := by decide
  have hpath : String.ofList (pathPart address.toList) = "/course/" := by decide
  obtain ⟨hfind, haccepts, hnever⟩ := matches_pathPart hpaths address
  rw [hpath] at hfind haccepts
  refine ⟨hpaths, by decide, hplain, hfind, ?_, fun i => ⟨haccepts i, (hnever hplain).1 i⟩⟩
  rw [hfind]
  decide

end RouteTable

end RouteAudit
