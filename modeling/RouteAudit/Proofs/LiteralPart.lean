import RouteAudit.Proofs.Interpolated
import RouteAudit.Proofs.PageAddress

/-!
# The literal part of a declared path

Whether a route has placeholders can be read off its declared path in three ways: it holds an opening
bracket, one of its segments is a placeholder, it has a literal part. For a path that compiles they agree,
and the literal part is made of the segments before the first placeholder (`RouteEntry.placeholders_agree`).
So an interpolated address fits by its literal part exactly if the text before the interpolation is that of
those segments, be there a slash behind it or not.

Proof. All three ways look for the first opening bracket. In a path that compiles a segment with a bracket is
a placeholder, so the bracket is its first character (`beforeBracket?_flatMap`).
-/

namespace RouteAudit

namespace RouteEntry

theorem isSome_beforeBracket?_iff {s : List Char} : (beforeBracket? s).isSome = true ↔ '[' ∈ s := by
  induction s with
  | nil => simp [beforeBracket?]
  | cons c r ih =>
    rw [beforeBracket?]
    split_ifs with hc
    · simp [hc]
    · rw [Option.isSome_map, ih, List.mem_cons, or_iff_right (Ne.symm hc)]

end RouteEntry

namespace RoutePattern

/-! ## Segments of a path that compiles -/

variable {names : List (List Char)}

/-- A name with an opening bracket is a placeholder. -/
theorem bracket_mem_iff {name : List Char} {p : Piece} (h : pieceOf name = .ok p) :
    '[' ∈ name ↔ isPlaceholder name = true := by
  constructor
  · intro hbracket
    by_contra hname
    exact bracket_notMem_of_fixed h (Bool.not_eq_true _ ▸ hname) hbracket
  · intro hname
    obtain ⟨r, rfl⟩ := exists_eq_of_isPlaceholder hname
    exact List.mem_cons_self

/-- What stands before the first bracket are the names before the first placeholder. -/
theorem beforeBracket?_flatMap (hnames : ∀ n ∈ names, '[' ∈ n ↔ isPlaceholder n = true)
    (hplaceholder : ∃ n ∈ names, isPlaceholder n = true) :
    RouteEntry.beforeBracket? (names.flatMap ('/' :: ·)) =
      some ((names.takeWhile fun n => !isPlaceholder n).flatMap ('/' :: ·) ++ ['/']) := by
  induction names with
  | nil => simp at hplaceholder
  | cons name names ih =>
    obtain ⟨hbracket, hnames⟩ := List.forall_mem_cons.mp hnames
    cases hname : isPlaceholder name with
    | true =>
      obtain ⟨r, rfl⟩ := exists_eq_of_isPlaceholder hname
      rw [List.takeWhile_cons_of_neg (by simp [hname])]
      simp [RouteEntry.beforeBracket?]
    | false =>
      have hfixed : '[' ∉ '/' :: name := by simp [hbracket, hname]
      have hrest : ∃ n ∈ names, isPlaceholder n = true := by
        simpa [hname] using hplaceholder
      rw [List.flatMap_cons, beforeBracket?_append hfixed, ih hnames hrest,
        List.takeWhile_cons_of_pos (by simp [hname]), List.flatMap_cons, Option.map_some,
        List.append_assoc]

theorem getLast?_flatMap_slash (h : ∀ n ∈ names, Text.IsName n) :
    (names.flatMap ('/' :: ·)).getLast? ≠ some '/' := by
  by_cases hne : names = []
  · simp [hne]
  · rw [← Text.rooted_eq_flatMap hne]
    exact Text.getLast?_rooted hne fun n hn =>
      ⟨(h n hn).1, fun hlast => (h n hn).2 (List.mem_of_getLast? hlast)⟩

variable {declared : String} {p : RoutePattern}

theorem bracket_mem_iff_of_mem_names (h : ofDeclared declared = .ok p) :
    ∀ n ∈ RoutePattern.names declared, '[' ∈ n ↔ isPlaceholder n = true := by
  intro n hn
  obtain ⟨i, hi, rfl⟩ := List.getElem_of_mem hn
  obtain ⟨hlength, hget⟩ := List.forall₂_iff_get.mp (piecesOf_eq_ok_iff.mp (ofDeclared_eq_ok_iff.mp h))
  exact bracket_mem_iff (hget i hi (hlength ▸ hi))

/-- A path that compiles holds a bracket exactly if one of its names is a placeholder. -/
theorem bracket_mem_declared_iff (h : ofDeclared declared = .ok p) :
    '[' ∈ declared.toList ↔ ∃ n ∈ RoutePattern.names declared, isPlaceholder n = true := by
  constructor
  · intro hbracket
    obtain ⟨n, hn, hmem⟩ := Text.exists_mem_split hbracket (by decide : '[' ≠ '/')
    have hname : n ∈ RoutePattern.names declared := mem_names.mpr ⟨hn, List.ne_nil_of_mem hmem⟩
    exact ⟨n, hname, (bracket_mem_iff_of_mem_names h n hname).mp hmem⟩
  · rintro ⟨n, hn, hplaceholder⟩
    exact (Text.of_mem_split (mem_names.mp hn).1).2 ((bracket_mem_iff_of_mem_names h n hn).mpr hplaceholder)

end RoutePattern

open RoutePattern

namespace RouteEntry

variable {declared file : String} {kind : LeafKind} {p : RoutePattern}

theorem hasParameters_ofPath_iff :
    (ofPath declared file kind).hasParameters = true ↔ '[' ∈ declared.toList := by
  simp [ofPath]

theorem isSome_literalPart?_iff {e : RouteEntry} :
    e.literalPart?.isSome = true ↔ '[' ∈ e.declaredPath.toList := by
  rw [literalPart?, placeholderPrefix?, Option.isSome_map, Option.isSome_map, isSome_beforeBracket?_iff]

theorem one_le_placeholderCount_iff {e : RouteEntry} (h : ofDeclared e.declaredPath = .ok p) :
    1 ≤ e.placeholderCount ↔ '[' ∈ e.declaredPath.toList := by
  rw [bracket_mem_declared_iff h, Addressable.placeholderCount_eq, Nat.succ_le_iff, List.countP_pos_iff]

/-- The literal part of a normalized path is made of the names before the first placeholder, so no slash
ends it. -/
theorem of_literalPart?_eq_some (h : ofDeclared declared = .ok p) {segments : List (List Char)}
    (hsegments : ∀ s ∈ segments, Text.IsName s) (hdeclared : declared.toList = Text.rooted segments)
    {literal : String} (hliteral : (ofPath declared file kind).literalPart? = some literal) :
    placeholderPrefix? declared.toList = some literal.toList ∧
      literal.toList = (segments.takeWhile fun s => !isPlaceholder s).flatMap ('/' :: ·) ∧
      literal.toList.getLast? ≠ some '/' := by
  have hnames : RoutePattern.names declared = segments := by
    rw [RoutePattern.names, hdeclared, Text.filter_split_rooted hsegments]
  have hbrackets := bracket_mem_iff_of_mem_names h
  have hplaceholder := (bracket_mem_declared_iff h).mp
    (isSome_literalPart?_iff.mp (Option.isSome_of_eq_some hliteral))
  rw [hnames] at hbrackets hplaceholder
  have hne : segments ≠ [] := by
    obtain ⟨n, hn, -⟩ := hplaceholder
    exact List.ne_nil_of_mem hn
  have hpart : placeholderPrefix? declared.toList =
      some ((segments.takeWhile fun s => !isPlaceholder s).flatMap ('/' :: ·)) := by
    rw [placeholderPrefix?, hdeclared, Text.rooted_eq_flatMap hne,
      beforeBracket?_flatMap hbrackets hplaceholder, Option.map_some, Text.dropTrailingSlash_concat]
  rw [literalPart?, ofPath, hpart, Option.map_some, Option.some.injEq] at hliteral
  rw [← hliteral, String.toList_ofList]
  exact ⟨hpart, rfl, getLast?_flatMap_slash fun n hn => hsegments n (List.takeWhile_subset _ hn)⟩

/-- A route that compiles fits an interpolated address by its literal part if it has the literal part of
the address. -/
theorem hits_structuralPrefix_iff (h : ofDeclared declared = .ok p) {candidate : String}
    {x rest : List Char} (hx : Address.Plain x) (hcandidate : candidate.toList = x ++ '$' :: '{' :: rest) :
    (ofPath declared file kind).hits .structuralPrefix candidate = true ↔
      placeholderPrefix? declared.toList = some (Text.dropTrailingSlash x) := by
  have hliteral : Address.literalPart? candidate.toList = some (Text.dropTrailingSlash x) := by
    rw [Address.literalPart?, Address.beforeInterpolation?_eq_some_iff.mpr ⟨hx, rest, hcandidate⟩,
      Option.map_some]
  rw [hits, hitsStructural_iff, hliteral]
  constructor
  · rintro ⟨-, literal, -, heq, hdeclared⟩
    obtain rfl := Option.some.inj heq
    exact hdeclared
  · intro hdeclared
    have hsome : (ofPath declared file kind).literalPart?.isSome = true := by
      rw [literalPart?, ofPath, hdeclared]
      rfl
    have hparameters : (ofPath declared file kind).hasParameters = true :=
      hasParameters_ofPath_iff.mpr (isSome_literalPart?_iff.mp hsome)
    exact ⟨p, _, matcher_eq_wildcard_iff.mpr ⟨hparameters, h⟩, rfl, hdeclared⟩

/-- **The ways to find placeholders agree** on a declared path that compiles: it holds an opening bracket
exactly if a segment is a placeholder, and exactly if it has a literal part. If it is a slash and names,
its literal part is made of the names before the first placeholder, and an address fits by it exactly if the
text before the first interpolation is the literal part, with or without one slash behind it. -/
theorem placeholders_agree (declared file : String) (kind : LeafKind) (p : RoutePattern)
    (h : ofDeclared declared = .ok p) :
    let e := ofPath declared file kind
    (e.hasParameters = true ↔ 1 ≤ e.placeholderCount) ∧
      (1 ≤ e.placeholderCount ↔ e.literalPart?.isSome = true) ∧
      ∀ segments : List (List Char), (∀ s ∈ segments, s ≠ [] ∧ '/' ∉ s) →
        declared.toList = '/' :: ['/'].intercalate segments →
        (∀ literal, e.literalPart? = some literal → literal.toList =
          (segments.takeWhile fun s => !(Segment.ofText (String.ofList s)).isPlaceholder).flatMap
            ('/' :: ·)) ∧
        ∀ (candidate : String) (x rest : List Char), candidate.toList = x ++ '$' :: '{' :: rest →
          ¬ ['$', '{'] <:+: x →
          (e.hits .structuralPrefix candidate = true ↔ ∃ literal, e.literalPart? = some literal ∧
            (x = literal.toList ∨ x = literal.toList ++ ['/'])) := by
  intro e
  have hcount : 1 ≤ e.placeholderCount ↔ '[' ∈ declared.toList := one_le_placeholderCount_iff h
  have hsome : e.literalPart?.isSome = true ↔ '[' ∈ declared.toList := isSome_literalPart?_iff
  refine ⟨hasParameters_ofPath_iff.trans hcount.symm, hcount.trans hsome.symm, ?_⟩
  intro segments hsegments hdeclared
  refine ⟨fun literal hliteral => (of_literalPart?_eq_some h hsegments hdeclared hliteral).2.1, ?_⟩
  intro candidate x rest hcandidate hx
  rw [hits_structuralPrefix_iff h hx hcandidate]
  constructor
  · intro hpart
    obtain ⟨literal, hliteral⟩ : ∃ literal, e.literalPart? = some literal :=
      ⟨_, Option.map_eq_some_iff.mpr ⟨_, hpart, rfl⟩⟩
    obtain ⟨hpart', -, hlast⟩ := of_literalPart?_eq_some h hsegments hdeclared hliteral
    have hdrop : Text.dropTrailingSlash x = literal.toList :=
      Option.some.inj (hpart.symm.trans hpart')
    exact ⟨literal, hliteral, (Text.dropTrailingSlash_eq_iff hlast x).mp hdrop⟩
  · rintro ⟨literal, hliteral, hx⟩
    obtain ⟨hpart, -, hlast⟩ := of_literalPart?_eq_some h hsegments hdeclared hliteral
    rw [hpart, (Text.dropTrailingSlash_eq_iff hlast x).mpr hx]

/-- The slash before the interpolation does not matter, a further name does. -/
theorem placeholders_agree_course :
    let e := ofPath "/course/[id]/lesson/[number]" "app/a/page.tsx" .page
    e.hasParameters = true ∧ 1 ≤ e.placeholderCount ∧ e.literalPart? = some "/course" ∧
      e.hits .structuralPrefix "/course/${a/b}" = true ∧
      e.hits .structuralPrefix "/course${a}/lesson" = true ∧
      e.hits .structuralPrefix "/course/7/lesson/${a}" = false := by
  intro e
  have hcompiles : ofDeclared "/course/[id]/lesson/[number]" =
      .ok ⟨[.literal "course".toList, .wildcard, .literal "lesson".toList, .wildcard]⟩ := by
    rw [ofDeclared_eq_ok_iff]
    decide
  obtain ⟨hparameters, hliteral, hnormalized⟩ :=
    placeholders_agree "/course/[id]/lesson/[number]" "app/a/page.tsx" .page _ hcompiles
  obtain ⟨-, hhits⟩ := hnormalized
    ["course".toList, "[id]".toList, "lesson".toList, "[number]".toList] (by decide) (by decide)
  have hpart : e.literalPart? = some "/course" := by decide
  have hcount : 1 ≤ e.placeholderCount := hliteral.mpr (by rw [hpart]; rfl)
  refine ⟨hparameters.mpr hcount, hcount, hpart, ?_, ?_, ?_⟩
  · exact (hhits "/course/${a/b}" "/course/".toList "a/b\x7d".toList (by decide) (by decide)).mpr
      ⟨"/course", hpart, Or.inr (by decide)⟩
  · exact (hhits "/course${a}/lesson" "/course".toList "a\x7d/lesson".toList (by decide) (by decide)).mpr
      ⟨"/course", hpart, Or.inl rfl⟩
  · rw [Bool.eq_false_iff, Ne,
      hhits "/course/7/lesson/${a}" "/course/7/lesson/".toList "a\x7d".toList (by decide) (by decide), hpart]
    decide

end RouteEntry

end RouteAudit
