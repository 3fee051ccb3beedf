import RouteAudit.Proofs.Group
import RouteAudit.Proofs.Interpolated
import RouteAudit.Proofs.Template

/-!
# What an expression changes

Two addresses of one template differ in their expressions only. Against a table whose declared paths
hold no `$`, the expressions can change the verdict in one way: a slash inside an expression is taken
for the end of a name, so the patterns count more names (`verdict_fill`). Every other question looks
at the text before the first interpolation.

The relation between the two paths is `SameNames`: name by name they are equal or both hold a `$`.
A pattern cannot tell such paths apart, since its literals hold no `$` and its wildcards take any
name. Expressions that agree from their first slash on give paths with the same names
(`sameNames_fill`): what stands before that slash is in a name with the `$` of the interpolation.
-/

namespace RouteAudit

namespace Address

/-- Two names that are equal or both hold a `$`. -/
def SameName (s s' : List Char) : Prop :=
  s = s' ∨ '$' ∈ s ∧ '$' ∈ s'

/-- Two paths with the same names, one by one. -/
def SameNames (x y : List Char) : Prop :=
  List.Forall₂ SameName (Text.split '/' x) (Text.split '/' y)

theorem SameName.refl (s : List Char) : SameName s s :=
  Or.inl rfl

theorem SameName.cons {s s' : List Char} (h : SameName s s') (c : Char) :
    SameName (c :: s) (c :: s') := by
  rcases h with rfl | ⟨hs, hs'⟩
  · exact SameName.refl _
  · exact Or.inr ⟨List.mem_cons_of_mem c hs, List.mem_cons_of_mem c hs'⟩

theorem SameNames.refl (x : List Char) : SameNames x x :=
  List.forall₂_same.mpr fun s _ => SameName.refl s

theorem SameNames.symm {x y : List Char} (h : SameNames x y) : SameNames y x :=
  List.Forall₂.flip (h.imp fun _ _ hname => hname.imp Eq.symm And.symm)

theorem SameNames.cons {x y : List Char} (h : SameNames x y) (c : Char) :
    SameNames (c :: x) (c :: y) := by
  obtain ⟨s, ss, hx⟩ := List.exists_cons_of_ne_nil (Text.split_ne_nil '/' x)
  obtain ⟨t, ts, hy⟩ := List.exists_cons_of_ne_nil (Text.split_ne_nil '/' y)
  unfold SameNames at h ⊢
  rw [Text.split, Text.split]
  split_ifs
  · exact List.Forall₂.cons (SameName.refl []) h
  · rw [hx, hy] at h ⊢
    obtain ⟨hname, hrest⟩ := List.forall₂_cons.mp h
    exact List.Forall₂.cons (hname.cons c) hrest

theorem SameNames.append_left {x y : List Char} (h : SameNames x y) (a : List Char) :
    SameNames (a ++ x) (a ++ y) := by
  induction a with
  | nil => exact h
  | cons c a ih => exact ih.cons c

/-- Beginnings without slash may differ as long as both hold a `$`. -/
theorem SameNames.append {x y a b : List Char} (h : SameNames x y) (ha : '/' ∉ a) (hb : '/' ∉ b)
    (hadollar : '$' ∈ a) (hbdollar : '$' ∈ b) : SameNames (a ++ x) (b ++ y) := by
  obtain ⟨s, ss, hx⟩ := List.exists_cons_of_ne_nil (Text.split_ne_nil '/' x)
  obtain ⟨t, ts, hy⟩ := List.exists_cons_of_ne_nil (Text.split_ne_nil '/' y)
  unfold SameNames at h ⊢
  rw [Text.split_append_of_notMem ha, Text.split_append_of_notMem hb]
  rw [hx, hy] at h ⊢
  exact List.Forall₂.cons
    (Or.inr ⟨List.mem_append_left s hadollar, List.mem_append_left t hbdollar⟩)
    (List.forall₂_cons.mp h).2

/-- Two expressions that agree from their first slash on. -/
def SameFromSlash (b c : List Char) : Prop :=
  b.dropWhile (· ≠ '/') = c.dropWhile (· ≠ '/')

instance (b c : List Char) : Decidable (SameFromSlash b c) :=
  inferInstanceAs (Decidable (_ = _))

theorem SameNames.interpolation {x y b c : List Char} (h : SameNames x y)
    (hbodies : SameFromSlash b c) :
    SameNames ('$' :: '{' :: (b ++ '}' :: x)) ('$' :: '{' :: (c ++ '}' :: y)) := by
  -- up to the first slash of the expression everything is in one name with the dollar
  have hcut : ∀ s r : List Char, '$' :: '{' :: (s ++ r) =
      ('$' :: '{' :: s.takeWhile (· ≠ '/')) ++ (s.dropWhile (· ≠ '/') ++ r) := by
    intro s r
    rw [List.cons_append, List.cons_append, ← List.append_assoc, List.takeWhile_append_dropWhile]
  have hslash : ∀ s : List Char, '/' ∉ '$' :: '{' :: s.takeWhile (· ≠ '/') := by
    intro s hmem
    rcases List.mem_cons.mp hmem with h | hmem
    · exact absurd h (by decide)
    rcases List.mem_cons.mp hmem with h | hmem
    · exact absurd h (by decide)
    exact absurd (List.mem_takeWhile_imp hmem) (by decide)
  rw [hcut b, hcut c, ← hbodies]
  exact ((h.cons '}').append_left _).append (hslash b) (hslash c) List.mem_cons_self
    List.mem_cons_self

/-- **Expressions that agree from their first slash on give paths with the same names.** -/
theorem sameNames_fill {bs cs : List (List Char)} (h : List.Forall₂ SameFromSlash bs cs)
    (texts : List (List Char)) : SameNames (fill texts bs) (fill texts cs) := by
  induction h generalizing texts with
  | nil => exact SameNames.refl _
  | cons hbody _ ih =>
    match texts with
    | [] => exact SameNames.refl _
    | [t] => exact SameNames.refl t
    | t :: u :: ts =>
      rw [fill_cons (List.cons_ne_nil u ts), fill_cons (List.cons_ne_nil u ts)]
      exact ((ih (u :: ts)).interpolation hbody).append_left t

/-- A path without `$` has the names of no other path. -/
theorem SameNames.eq_of_notMem {x y : List Char} (h : SameNames x y) (hx : '$' ∉ x) : x = y := by
  have hdollar : ∀ s ∈ Text.split '/' x, '$' ∉ s := fun s hs hmem => hx ((Text.of_mem_split hs).2 hmem)
  have hequal := ((List.forall₂_and_left _ _).mpr ⟨hdollar, h⟩).imp
    fun s s' hs => hs.2.resolve_right fun hboth => hs.1 hboth.1
  rw [List.forall₂_eq_eq_eq] at hequal
  exact Text.split_injective '/' hequal

theorem SameNames.of_slash {x y : List Char} (h : SameNames ('/' :: x) y) :
    ∃ z, y = '/' :: z ∧ SameNames x z := by
  unfold SameNames at h
  rw [Text.split_cons_sep] at h
  obtain ⟨s, rest, hname, hrest, hy⟩ := List.forall₂_cons_left_iff.mp h
  obtain rfl : s = [] := by
    rcases hname with hs | ⟨hs, -⟩
    · exact hs.symm
    · cases hs
  cases y with
  | nil =>
    obtain ⟨-, rfl⟩ := List.cons.inj hy
    exact absurd (List.forall₂_nil_right_iff.mp hrest) (Text.split_ne_nil '/' x)
  | cons c z =>
    obtain ⟨t, ts, hz⟩ := List.exists_cons_of_ne_nil (Text.split_ne_nil '/' z)
    rw [Text.split] at hy
    split_ifs at hy with hc
    · rw [(List.cons.inj hy).2.symm] at hrest
      exact ⟨z, by rw [hc], hrest⟩
    · rw [hz, Text.consFirst] at hy
      cases (List.cons.inj hy).1

end Address

/-! ## Patterns -/

/-- A wildcard takes any name, and a literal without `$` is not one of two names that hold one. -/
theorem Piece.Fits.of_sameName {p : Piece} {s s' : List Char} (h : p.Fits s)
    (hname : Address.SameName s s') (hp : ∀ l, p = .literal l → '$' ∉ l) : p.Fits s' := by
  rcases hname with rfl | ⟨hs, hs'⟩
  · exact h
  · cases p with
    | literal l =>
      rw [show s = l from h] at hs
      exact absurd hs (hp l rfl)
    | wildcard => exact List.ne_nil_of_mem hs'

theorem forall₂_fits_of_sameName {ps : List Piece} {names names' : List (List Char)}
    (h : List.Forall₂ Piece.Fits ps names) (hnames : List.Forall₂ Address.SameName names names')
    (hps : ∀ l, .literal l ∈ ps → '$' ∉ l) : List.Forall₂ Piece.Fits ps names' := by
  induction h generalizing names' with
  | nil =>
    rw [List.forall₂_nil_left_iff.mp hnames]
    exact List.Forall₂.nil
  | cons hfits _ ih =>
    obtain ⟨s', rest, hname, hrest, rfl⟩ := List.forall₂_cons_left_iff.mp hnames
    exact List.Forall₂.cons (hfits.of_sameName hname fun l hl => hps l (by simp [hl]))
      (ih hrest fun l hl => hps l (List.mem_cons_of_mem _ hl))

namespace RoutePattern

/-- A pattern whose literals hold no `$` accepts all paths with the same names. -/
theorem accepts_of_sameNames {declared : String} {p : RoutePattern} {x y : List Char}
    (h : ofDeclared declared = .ok p) (hdollar : '$' ∉ declared.toList)
    (hnames : Address.SameNames x y) (haccepts : p.accepts x = true) : p.accepts y = true := by
  by_cases hpieces : p.pieces = []
  · have hx : x = ['/'] := by rwa [accepts, if_pos hpieces, decide_eq_true_iff] at haccepts
    rw [← hnames.eq_of_notMem (by rw [hx]; decide)]
    exact haccepts
  · obtain ⟨text, rfl, hfits⟩ := (accepts_iff h hpieces x).mp haccepts
    obtain ⟨text', rfl, hrest⟩ := hnames.of_slash
    have hliterals : ∀ l, .literal l ∈ p.pieces → '$' ∉ l :=
      fun l hl hmem => hdollar ((literal_of_mem_pieces h hl).2.2 hmem)
    exact (accepts_iff h hpieces _).mpr
      ⟨text', rfl, forall₂_fits_of_sameName hfits hrest hliterals⟩

end RoutePattern

open Address

/-! ## Two addresses of one template -/

/-- The pattern of an entry without `$` accepts both or neither of two paths with the same names. -/
theorem RouteEntry.hitsDynamic_congr {e : RouteEntry} {x y : List Char}
    (hdollar : '$' ∉ e.declaredPath.toList) (hnames : SameNames (clean x) (clean y)) :
    e.hitsDynamic x = e.hitsDynamic y := by
  rw [Bool.eq_iff_iff, hitsDynamic_iff, hitsDynamic_iff]
  refine exists_congr fun p => and_congr_right fun hmatcher => ?_
  have hpattern := (matcher_eq_wildcard_iff.mp hmatcher).2
  exact ⟨RoutePattern.accepts_of_sameNames hpattern hdollar hnames,
    RoutePattern.accepts_of_sameNames hpattern hdollar hnames.symm⟩

/-- Either no expression reaches into the path, or the path is interpolated; then its literal part and
the texts of its cleaned form do not depend on the expressions. -/
theorem Address.Template.pathPart_fill_cases {n : Nat} (template : Template n) :
    (∃ path, ∀ expressions, pathPart (template.fill expressions) = path) ∨
      ∃ literal texts, ∀ expressions,
        Interpolated (pathPart (template.fill expressions)) literal ∧
          clean (pathPart (template.fill expressions)) = Address.fill texts expressions.bodies := by
  obtain ⟨t, ts, htexts⟩ := List.exists_cons_of_length_eq_add_one template.length_texts
  have hplain := template.plain
  have hlength := template.length_texts
  have hpath : ∀ expressions : Expressions n, pathPart (template.fill expressions) =
      Address.fill (cutTexts (t :: ts)) expressions.bodies := by
    intro expressions
    rw [← htexts, Template.fill]
    exact pathPart_fill hplain expressions.balanced (by rw [hlength, expressions.length_bodies])
  rw [htexts] at hplain hlength
  rw [List.length_cons, Nat.add_right_cancel_iff] at hlength
  by_cases hany : t.any endsPath = true
  · exact Or.inl ⟨_, fun expressions => by rw [hpath, cutTexts_of_any hany, fill_singleton]⟩
  by_cases hts : ts = []
  · exact Or.inl ⟨_, fun expressions => by
      rw [hpath, cutTexts_of_not_any hany, hts, cutTexts, fill_singleton]⟩
  refine Or.inr ⟨t, t :: trimTexts (cutTexts ts), fun expressions => ?_⟩
  obtain ⟨m, rfl⟩ : ∃ m, n = m + 1 := Nat.exists_eq_add_one.mpr (hlength ▸ List.length_pos_iff.mpr hts)
  obtain ⟨b, bs, hbodies⟩ := List.exists_cons_of_length_eq_add_one expressions.length_bodies
  refine ⟨⟨pathPartFrom_pathPartFrom 0 _, ?_⟩, ?_⟩
  · rw [hpath, cutTexts_of_not_any hany, hbodies]
    exact beforeInterpolation?_fill (hplain t List.mem_cons_self) (cutTexts_ne_nil hts) b bs
  · have hbs : ts.length = bs.length + 1 := by
      rw [hlength, ← expressions.length_bodies, hbodies, List.length_cons]
    rw [clean_pathPart, Template.fill, htexts, hbodies]
    exact clean_fill hts hplain (hbodies ▸ expressions.balanced) hbs hany

namespace UsageGroup

/-- **What the expressions of a template change.** Against a table whose declared paths hold no `$`,
two groups of one template get the same verdict if their expressions agree from the first slash on;
in general, they get the same verdict exactly if they are not internal, their literal part is that of
an entry, or the patterns accept both or neither. -/
theorem verdict_fill {n : Nat} {pages : RouteTable}
    (hpages : ∀ e ∈ pages.entries, '$' ∉ e.declaredPath.toList) (template : Template n)
    {expressions others : Expressions n} {g g' : UsageGroup}
    (hg : g.OfAddress (template.fill expressions)) (hg' : g'.OfAddress (template.fill others)) :
    (List.Forall₂ SameFromSlash expressions.bodies others.bodies →
        g.verdict pages = g'.verdict pages) ∧
      (g.verdict pages = g'.verdict pages ↔ (g.verdict pages).isInternal = false ∨
        pages.resolvesBy .structuralPrefix g.path = true ∨
        pages.resolvesBy .dynamic g.path = pages.resolvesBy .dynamic g'.path) := by
  rw [hg.verdict_eq, hg'.verdict_eq, hg.path_eq, hg'.path_eq]
  rcases template.pathPart_fill_cases with ⟨path, hpath⟩ | ⟨literal, texts, hfill⟩
  · simp [hpath]
  · obtain ⟨hx, hcleanx⟩ := hfill expressions
    obtain ⟨hy, hcleany⟩ := hfill others
    rw [hx.hasInterpolation_eq, hy.hasInterpolation_eq]
    have hiff := verdictOn_eq_iff hpages hx hy
    refine ⟨fun hbodies => hiff.mpr (Or.inr (Or.inr ?_)), hiff⟩
    have hnames := sameNames_fill hbodies texts
    rw [← hcleanx, ← hcleany] at hnames
    refine RouteTable.resolvesBy_congr fun e he => ?_
    rw [RouteEntry.hits, RouteEntry.hits, String.toList_ofList, String.toList_ofList]
    exact RouteEntry.hitsDynamic_congr (hpages e he) hnames

/-- A `?` inside an expression does not end the path. -/
theorem verdict_fill_choice :
    let pages : RouteTable := ⟨[.ofPath "/a/[id]/edit" "app/a/[id]/edit/page.tsx" .page]⟩
    let template : Template 1 := ⟨["/a/x".toList, "/edit?tab=1".toList], by decide, rfl⟩
    let name : Expressions 1 := ⟨["n".toList], by decide, rfl⟩
    let choice : Expressions 1 := ⟨["n?1:0".toList], by decide, rfl⟩
    let references : List Reference := ["/a/x${n}/edit?tab=1", "/a/x${n?1:0}/edit?tab=1"].map
      fun raw => .ofRaw raw .link "src/a.tsx" 1 ""
    let g := gather references "/a/x${n}/edit"
    let g' := gather references "/a/x${n?1:0}/edit"
    (∀ e ∈ pages.entries, '$' ∉ e.declaredPath.toList) ∧ g.OfAddress (template.fill name) ∧
      g'.OfAddress (template.fill choice) ∧ g.verdict pages = g'.verdict pages := by
  intro pages template name choice references g g'
  have hpages : ∀ e ∈ pages.entries, '$' ∉ e.declaredPath.toList := by decide
  have hreferences : ∀ r ∈ references, r.OfRaw := by decide
  have hg : g.OfAddress (template.fill name) := ⟨references, hreferences, by decide, by decide⟩
  have hg' : g'.OfAddress (template.fill choice) := ⟨references, hreferences, by decide, by decide⟩
  exact ⟨hpages, hg, hg', (verdict_fill hpages template hg hg').1 (by decide)⟩

/-- A slash inside an expression is taken for path syntax, so expressions are not opaque. -/
theorem not_verdict_fill_of_slash :
    ¬ ∀ n, 1 ≤ n → ∀ pages : RouteTable, (∀ e ∈ pages.entries, '$' ∉ e.declaredPath.toList) →
      ∀ (template : Template n) (expressions others : Expressions n) (g g' : UsageGroup),
        g.OfAddress (template.fill expressions) → g'.OfAddress (template.fill others) →
          g.verdict pages = g'.verdict pages := by
  intro h
  let pages : RouteTable := ⟨[.ofPath "/a/[id]/edit" "app/a/[id]/edit/page.tsx" .page]⟩
  let template : Template 1 := ⟨["/a/x".toList, "/edit".toList], by decide, rfl⟩
  let name : Expressions 1 := ⟨["p".toList], by decide, rfl⟩
  let quotient : Expressions 1 := ⟨["p/q".toList], by decide, rfl⟩
  let references : List Reference := ["/a/x${p}/edit", "/a/x${p/q}/edit"].map
    fun raw => .ofRaw raw .link "src/a.tsx" 1 ""
  have hreferences : ∀ r ∈ references, r.OfRaw := by decide
  have hverdicts : (gather references "/a/x${p}/edit").verdict pages =
      (gather references "/a/x${p/q}/edit").verdict pages :=
    h 1 le_rfl pages (by decide) template name quotient _ _
      ⟨references, hreferences, by decide, by decide⟩
      ⟨references, hreferences, by decide, by decide⟩
  revert hverdicts
  decide

end UsageGroup

end RouteAudit
