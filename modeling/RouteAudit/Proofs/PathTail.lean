import Mathlib.Data.List.Infix
import RouteAudit.Proofs.Acceptance
import RouteAudit.Proofs.Group
import RouteAudit.Proofs.Template

/-!
# What follows a path

An address may go on after its path: with a slash, a query, a fragment, or a slash and one of these
(`Address.Tail`). A tail changes nothing about where the address leads (`verdict_append_tail`), as
long as the path is complete: outside its interpolations it has no `?` or `#`, and all of them are
closed, so that nothing of the tail is taken for an expression.

Proof. The path part of the longer address is the path, perhaps with a slash more
(`pathPart_append_tail`). Cleaning drops that slash, the text before the first interpolation does not
reach to it, and no beginning of an external address ends in a slash that the path does not have.
-/

namespace RouteAudit

namespace Address

/-! ## Complete paths -/

/-- The number of open braces after a text, read from inside the given number of them. -/
def openBracesFrom : Nat → List Char → Nat
  | depth, [] => depth
  | 0, '$' :: '{' :: r => openBracesFrom 1 r
  | 0, _ :: r => openBracesFrom 0 r
  | n + 1, c :: r => openBracesFrom (braces (n + 1) c) r

/-- The number of open braces of interpolations after a text. -/
def openBraces (s : List Char) : Nat :=
  openBracesFrom 0 s

/-- Read from inside the given number of braces, no character outside the interpolations ends the
path. -/
def StaysFrom (depth : Nat) (s : List Char) : Prop :=
  ∀ i, ∀ hi : i < s.length, openBracesFrom depth (s.take i) = 0 → endsPath s[i] = false

/-- A path whose interpolations are closed and that no `?` or `#` outside of them ends. -/
structure Complete (s : List Char) : Prop where
  closed : openBraces s = 0
  stays : ∀ i, ∀ hi : i < s.length, openBraces (s.take i) = 0 → s[i] ≠ '?' ∧ s[i] ≠ '#'

theorem openBracesFrom_nil (depth : Nat) : openBracesFrom depth [] = depth := by
  cases depth <;> rfl

theorem openBracesFrom_succ (n : Nat) (c : Char) (r : List Char) :
    openBracesFrom (n + 1) (c :: r) = openBracesFrom (braces (n + 1) c) r :=
  openBracesFrom.eq_4 n c r

theorem openBracesFrom_zero {c : Char} {r : List Char} (h : ∀ r', c = '$' → r = '{' :: r' → False) :
    openBracesFrom 0 (c :: r) = openBracesFrom 0 r :=
  openBracesFrom.eq_3 c r h

theorem Complete.staysFrom {s : List Char} (h : Complete s) : StaysFrom 0 s := by
  intro i hi hopen
  simpa [endsPath] using h.stays i hi hopen

namespace StaysFrom

variable {n : Nat} {c : Char} {r : List Char}

theorem of_open (h : StaysFrom 0 ('$' :: '{' :: r)) : StaysFrom 1 r :=
  fun i hi hopen => h (i + 2) (by simpa using hi) hopen

theorem head (h : StaysFrom 0 (c :: r)) : endsPath c = false :=
  h 0 (by simp) rfl

theorem of_zero (hopen : ∀ r', c = '$' → r = '{' :: r' → False) (h : StaysFrom 0 (c :: r)) :
    StaysFrom 0 r := by
  intro i hi hbraces
  refine h (i + 1) (by simpa using hi) ?_
  rw [List.take_succ_cons, openBracesFrom_zero, hbraces]
  -- a brace in front of the rest would open an interpolation
  intro r' hc hr
  cases r with
  | nil => simp at hr
  | cons d r =>
    cases i with
    | zero => simp at hr
    | succ i => exact hopen r hc (by rw [List.take_succ_cons] at hr; rw [(List.cons.inj hr).1])

theorem of_succ (h : StaysFrom (n + 1) (c :: r)) : StaysFrom (braces (n + 1) c) r := by
  intro i hi hbraces
  refine h (i + 1) (by simpa using hi) ?_
  rw [List.take_succ_cons, openBracesFrom_succ, hbraces]

end StaysFrom

/-- The path goes through a text that does not end it, and on with what follows. -/
theorem pathPartFrom_append {depth : Nat} {s t : List Char} (h : StaysFrom depth s)
    (ht : t.head? ≠ some '{') :
    pathPartFrom depth (s ++ t) = s ++ pathPartFrom (openBracesFrom depth s) t := by
  induction depth, s using openBracesFrom.induct with
  | case1 depth => rw [openBracesFrom_nil, List.nil_append, List.nil_append]
  | case2 r ih =>
    rw [List.cons_append, List.cons_append, pathPartFrom_open, ih h.of_open]
    rfl
  | case3 c r hopen ih =>
    have hopen' : ∀ r', c = '$' → r ++ t = '{' :: r' → False := by
      intro r' hc hr
      cases r with
      | nil => exact ht (by rw [← List.nil_append t, hr]; rfl)
      | cons d r => exact hopen r hc (by rw [(List.cons.inj hr).1])
    have hc : ¬ (c = '?' ∨ c = '#') := by simpa [endsPath] using h.head
    rw [List.cons_append, pathPartFrom_zero hopen', if_neg hc, ih (h.of_zero hopen),
      openBracesFrom_zero hopen, List.cons_append]
  | case4 n c r ih =>
    rw [List.cons_append, pathPartFrom_succ, ih h.of_succ, openBracesFrom_succ, List.cons_append]

theorem Complete.pathPart_append {r s : List Char} (h : Complete r) (hs : s.head? ≠ some '{') :
    pathPart (r ++ s) = r ++ pathPart s := by
  have happend := pathPartFrom_append h.staysFrom hs
  rwa [show openBracesFrom 0 r = 0 from h.closed] at happend

theorem Complete.pathPart_eq {r : List Char} (h : Complete r) : pathPart r = r := by
  have happend := h.pathPart_append (s := []) (by simp)
  rwa [List.append_nil, show pathPart [] = [] from rfl, List.append_nil] at happend

/-! ## Tails -/

/-- What may follow a path: a slash, a query or a fragment, or a slash before one of these. -/
inductive Tail : List Char → Prop where
  | slash : Tail ['/']
  | query (q : List Char) : Tail ('?' :: q)
  | fragment (f : List Char) : Tail ('#' :: f)
  | slashQuery (q : List Char) : Tail ('/' :: '?' :: q)
  | slashFragment (f : List Char) : Tail ('/' :: '#' :: f)

theorem Tail.head?_ne {s : List Char} (h : Tail s) : s.head? ≠ some '{' := by
  cases h <;> simp

/-- Of a tail, only a slash belongs to the path. -/
theorem Tail.pathPart_eq {s : List Char} (h : Tail s) : pathPart s = [] ∨ pathPart s = ['/'] := by
  cases h with
  | slash => exact Or.inr rfl
  | query q => exact Or.inl rfl
  | fragment f => exact Or.inl rfl
  | slashQuery q => exact Or.inr rfl
  | slashFragment f => exact Or.inr rfl

theorem pathPart_append_tail {r s : List Char} (hr : Complete r) (hs : Tail s) :
    pathPart (r ++ s) = r ∨ pathPart (r ++ s) = r ++ ['/'] := by
  rw [hr.pathPart_append hs.head?_ne]
  rcases hs.pathPart_eq with h | h
  · exact Or.inl (by rw [h, List.append_nil])
  · exact Or.inr (by rw [h])

/-! ## One slash more -/

theorem clean_append_slash {r : List Char} (hr : Complete r) (hne : r ≠ [])
    (hslash : r.getLast? ≠ some '/') : clean (r ++ ['/']) = clean r := by
  have hpath : pathPart (r ++ ['/']) = r ++ ['/'] := hr.pathPart_append (by decide)
  have hshort : Text.dropTrailingSlash (r ++ ['/']) = r := by simp [Text.dropTrailingSlash]
  have hkeep : Text.dropTrailingSlash r = r := if_neg hslash
  have hclean : clean r = r := by
    rw [clean, hr.pathPart_eq, if_neg hne, hkeep, if_neg hne]
  rw [hclean, clean, hpath, if_neg (by simp), hshort, if_neg hne]

/-- A slash at the end opens no interpolation. -/
theorem beforeInterpolation?_append_slash (s : List Char) :
    beforeInterpolation? (s ++ ['/']) = beforeInterpolation? s := by
  induction s using beforeInterpolation?.induct with
  | case1 => rfl
  | case2 r => rfl
  | case3 c r hopen ih =>
    have hopen' : ∀ r', c = '$' → r ++ ['/'] = '{' :: r' → False := by
      intro r' hc hr
      cases r with
      | nil => exact absurd (List.cons.inj hr).1 (by decide)
      | cons d r => exact hopen r hc (by rw [(List.cons.inj hr).1])
    rw [List.cons_append, beforeInterpolation?.eq_3 c r hopen, beforeInterpolation?.eq_3 c _ hopen', ih]

theorem literalPart?_append_slash (s : List Char) : literalPart? (s ++ ['/']) = literalPart? s := by
  rw [literalPart?, literalPart?, beforeInterpolation?_append_slash]

theorem hasInterpolation_append_slash (s : List Char) :
    hasInterpolation (s ++ ['/']) = hasInterpolation s := by
  rw [hasInterpolation, hasInterpolation, beforeInterpolation?_append_slash]

end Address

/-! ## The verdict and the entries -/

/-- An entry looks at the cleaned address and at its literal part. -/
theorem RouteEntry.accepts?_congr {a b : List Char} (hclean : Address.clean a = Address.clean b)
    (hliteral : Address.literalPart? a = Address.literalPart? b) (e : RouteEntry) :
    e.accepts? (String.ofList a) = e.accepts? (String.ofList b) := by
  unfold accepts?
  congr 1
  funext k
  cases k <;> simp only [hits, hitsDirect, hitsDynamic, hitsStructural, String.toList_ofList, hclean,
    hliteral]

open Address

theorem isSpecial_ofList {s : List Char} (h : s ≠ []) :
    isSpecial (String.ofList s) = decide (s.head? = some '#') := by
  unfold isSpecial
  cases s with
  | nil => exact absurd rfl h
  | cons c s => simp [String.isEmpty_iff]

section Slash

variable {r : List Char} (hr : Complete r) (hne : r ≠ []) (hslash : r.getLast? ≠ some '/')
include hr hne hslash

theorem RouteEntry.accepts?_append_slash (e : RouteEntry) :
    e.accepts? (String.ofList (r ++ ['/'])) = e.accepts? (String.ofList r) :=
  e.accepts?_congr (clean_append_slash hr hne hslash) (literalPart?_append_slash r)

theorem resolves_append_slash (pages : RouteTable) :
    pages.resolves (String.ofList (r ++ ['/'])) = pages.resolves (String.ofList r) := by
  rw [Bool.eq_iff_iff, RouteTable.resolves_iff, RouteTable.resolves_iff]
  refine exists_congr fun e => and_congr_right fun _ => ?_
  rw [e.accepts?_append_slash hr hne hslash]

omit hr hne in
/-- An external address begins with a slash at the end of the path only if there is one before it. -/
theorem isExternal_append_slash :
    isExternal (String.ofList (r ++ ['/'])) = isExternal (String.ofList r) := by
  have hstarts : ∀ s ∈ externalStarts, s.toList.getLast? = some '/' →
      s.toList.dropLast.getLast? = some '/' := by decide
  unfold isExternal
  rw [Bool.eq_iff_iff, List.any_eq_true, List.any_eq_true]
  refine exists_congr fun s => and_congr_right fun hs => ?_
  rw [String.toList_ofList, String.toList_ofList, List.isPrefixOf_iff_prefix,
    List.isPrefixOf_iff_prefix, List.prefix_concat_iff]
  refine or_iff_right fun heq => hslash ?_
  simpa [heq] using hstarts s hs

theorem verdictOn_append_slash (isDynamic : Bool) (pages : RouteTable) :
    verdictOn (String.ofList (r ++ ['/'])) isDynamic pages =
      verdictOn (String.ofList r) isDynamic pages := by
  have hspecial : isSpecial (String.ofList (r ++ ['/'])) = isSpecial (String.ofList r) := by
    rw [isSpecial_ofList (by simp), isSpecial_ofList hne, List.head?_append_of_ne_nil r hne]
  have hroot : String.ofList (r ++ ['/']) ≠ "/" := by
    intro h
    exact hne (by simpa using congrArg String.toList h)
  have hroot' : String.ofList r ≠ "/" := by
    intro h
    have hr : r = ['/'] := by simpa using congrArg String.toList h
    exact hslash (by rw [hr]; rfl)
  have hbase : hasBaseRoute (String.ofList (r ++ ['/'])) pages =
      hasBaseRoute (String.ofList r) pages := by
    unfold hasBaseRoute
    rw [String.toList_ofList, String.toList_ofList, literalPart?_append_slash]
  unfold verdictOn
  rw [isExternal_append_slash hslash, hspecial, resolves_append_slash hr hne hslash, hbase,
    if_neg hroot, if_neg hroot']

end Slash

namespace UsageGroup

/-- **A trailing slash, a query and a fragment never change the result.** The group of an address with
a tail gets the verdict of the group of the complete path before the tail; it is interpolated exactly
if that one is, and each entry accepts both paths by the same step. -/
theorem verdict_append_tail {r s : List Char} (hne : r ≠ []) (hslash : r.getLast? ≠ some '/')
    (hr : Complete r) (hs : Tail s) {g g' : UsageGroup} (hg : g.OfAddress r)
    (hg' : g'.OfAddress (r ++ s)) (pages : RouteTable) :
    g'.verdict pages = g.verdict pages ∧ g'.isDynamic = g.isDynamic ∧
      ∀ i, pages.accepts? i g'.path = pages.accepts? i g.path := by
  rw [hg.verdict_eq, hg'.verdict_eq, hg.isDynamic_eq, hg'.isDynamic_eq, hg.path_eq, hg'.path_eq,
    hr.pathPart_eq]
  rcases pathPart_append_tail hr hs with hpath | hpath
  · rw [hpath]
    exact ⟨rfl, rfl, fun _ => rfl⟩
  · rw [hpath, hasInterpolation_append_slash]
    refine ⟨verdictOn_append_slash hr hne hslash _ pages, rfl, fun i => ?_⟩
    rw [RouteTable.accepts?, RouteTable.accepts?]
    cases pages.get? i with
    | none => rfl
    | some e => exact e.accepts?_append_slash hr hne hslash

/-- Neither a `?` inside an expression nor an interpolation in the query counts. -/
theorem verdict_append_tail_search :
    let pages : RouteTable := ⟨[.ofPath "/[lang]/search" "app/[lang]/search/page.tsx" .page]⟩
    let r := "/${l?l:0}/search".toList
    let s := "/?q=${q}#/top".toList
    let references : List Reference := ["/${l?l:0}/search", "/${l?l:0}/search/?q=${q}#/top"].map
      fun raw => .ofRaw raw .link "src/a.tsx" 1 ""
    let g := gather references "/${l?l:0}/search"
    let g' := gather references "/${l?l:0}/search/"
    r ≠ [] ∧ r.getLast? ≠ some '/' ∧ Complete r ∧ Tail s ∧ g.OfAddress r ∧ g'.OfAddress (r ++ s) ∧
      g.verdict pages = .valid ∧ g'.verdict pages = .valid := by
  intro pages r s references g g'
  have hne : r ≠ [] := by decide
  have hslash : r.getLast? ≠ some '/' := by decide
  have hr : Complete r := ⟨by decide, by decide⟩
  have hs : Tail s := .slashQuery _
  have hreferences : ∀ r ∈ references, r.OfRaw := by decide
  have hg : g.OfAddress r := ⟨references, hreferences, by decide, by decide⟩
  have hg' : g'.OfAddress (r ++ s) := ⟨references, hreferences, by decide, by decide⟩
  have hvalid : g.verdict pages = .valid := by decide
  exact ⟨hne, hslash, hr, hs, hg, hg', hvalid,
    (verdict_append_tail hne hslash hr hs hg hg' pages).1.trans hvalid⟩

end UsageGroup

end RouteAudit
