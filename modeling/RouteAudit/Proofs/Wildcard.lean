import RouteAudit.Proofs.Interpolated
import RouteAudit.Proofs.Template

/-!
# The form with wildcards

The form of an address with `*` for each interpolation opens no interpolation, and it is the address
itself exactly if the address opens none (`wildcard_eq_self_iff`). It can be had in two ways: by
counting the open braces along the text, as the path part is, or by finding the first interpolation,
passing to the brace that closes it and starting anew behind that brace (`wildcard_eq_elim`).

To cut off the query and the fragment or to clean the address, before or after the interpolations are
replaced, is the same (`wildcard_commutes`).

Proof. The path part and the form with `*` are read with the same counter, from inside the same number
of braces. Inside an interpolation the one keeps every character and the other none; outside, both keep
the character, and the `*` between is not path syntax.
-/

namespace RouteAudit.Address

/-! ## Character by character -/

theorem wildcardFrom_nil (depth : Nat) : wildcardFrom depth [] = [] := by
  cases depth <;> rfl

theorem wildcardFrom_open (r : List Char) :
    wildcardFrom 0 ('$' :: '{' :: r) = '*' :: wildcardFrom 1 r := rfl

theorem wildcardFrom_succ (n : Nat) (c : Char) (r : List Char) :
    wildcardFrom (n + 1) (c :: r) = wildcardFrom (braces (n + 1) c) r :=
  wildcardFrom.eq_4 n c r

theorem wildcard_cons {c : Char} {s : List Char} (h : ¬ ['$', '{'] <+: c :: s) :
    wildcard (c :: s) = c :: wildcard s := by
  refine wildcardFrom.eq_3 c s ?_
  rintro r rfl rfl
  exact h (List.prefix_append ['$', '{'] r)

/-- The form with `*` begins as the text does, or with the `*` of an interpolation. -/
theorem head?_wildcard (s : List Char) :
    (wildcard s).head? = if ['$', '{'] <+: s then some '*' else s.head? := by
  by_cases hopen : ['$', '{'] <+: s
  · obtain ⟨r, rfl⟩ := hopen
    rw [if_pos (List.prefix_append _ r)]
    rfl
  · rw [if_neg hopen]
    cases s with
    | nil => rfl
    | cons c s => rw [wildcard_cons hopen, List.head?_cons, List.head?_cons]

theorem wildcard_eq_nil_iff {s : List Char} : wildcard s = [] ↔ s = [] := by
  rw [← List.head?_eq_none_iff, head?_wildcard]
  split_ifs with hopen
  · obtain ⟨r, rfl⟩ := hopen
    simp
  · exact List.head?_eq_none_iff

/-- What stands outside the interpolations opens none with what is left of the rest. -/
theorem not_prefix_cons_wildcard {c : Char} {s : List Char} (h : ¬ ['$', '{'] <+: c :: s) :
    ¬ ['$', '{'] <+: c :: wildcard s := by
  intro hprefix
  obtain ⟨rfl, r, hr⟩ := List.cons_prefix_cons.mp hprefix
  have hhead := head?_wildcard s
  rw [← hr] at hhead
  split_ifs at hhead
  · simp at hhead
  · cases s with
    | nil => simp at hhead
    | cons d s =>
      obtain rfl : '{' = d := by simpa using hhead
      exact h (List.prefix_append ['$', '{'] s)

/-! ## No interpolation is left -/

theorem plain_wildcardFrom (depth : Nat) (s : List Char) : Plain (wildcardFrom depth s) := by
  induction depth, s using wildcardFrom.induct with
  | case1 depth =>
    rw [wildcardFrom_nil]
    decide
  | case2 r ih =>
    rw [wildcardFrom_open, plain_cons_iff]
    exact ⟨by simp, ih⟩
  | case3 c r hopen ih =>
    have hprefix := not_prefix_of_forall hopen
    rw [← wildcard, wildcard_cons hprefix, plain_cons_iff]
    exact ⟨not_prefix_cons_wildcard hprefix, ih⟩
  | case4 n c r ih =>
    rw [wildcardFrom_succ]
    exact ih

/-- A text that opens no interpolation stays as it is, up to what follows it. -/
theorem wildcard_plain_append {t r : List Char} (ht : Plain t) (hr : r.head? ≠ some '{') :
    wildcard (t ++ r) = t ++ wildcard r := by
  induction t with
  | nil => rfl
  | cons c t ih =>
    rw [List.cons_append, wildcard_cons (ht.not_prefix hr), ih ht.tail, List.cons_append]

theorem wildcard_of_plain {s : List Char} (h : Plain s) : wildcard s = s := by
  have happend := wildcard_plain_append h (r := []) (by simp)
  rwa [List.append_nil, show wildcard [] = [] from rfl, List.append_nil] at happend

/-- **The form with `*` is the address itself exactly if it has no interpolation.** -/
theorem wildcard_eq_self_iff {s : List Char} : wildcard s = s ↔ Plain s := by
  constructor
  · intro h
    rw [← h]
    exact plain_wildcardFrom 0 s
  · exact wildcard_of_plain

/-! ## From one interpolation to the next -/

/-- The text behind the brace that closes the open ones, read from inside the given number of them. -/
def afterClosing? : Nat → List Char → Option (List Char)
  | _, [] => none
  | depth, c :: r => if braces depth c = 0 then some r else afterClosing? (braces depth c) r

/-- Inside an interpolation, nothing of the text is left up to the brace that closes it. -/
theorem wildcardFrom_succ_eq_elim (n : Nat) (s : List Char) :
    wildcardFrom (n + 1) s = (afterClosing? (n + 1) s).elim [] wildcard := by
  induction s generalizing n with
  | nil => rfl
  | cons c s ih =>
    rw [wildcardFrom_succ, afterClosing?]
    cases hbraces : braces (n + 1) c with
    | zero => rfl
    | succ m => exact ih m

/-- **The form with `*`, from one interpolation to the next.** The text before the first interpolation
stays; the form goes on behind the brace that closes it, and ends with its `*` if no brace does. -/
theorem wildcard_eq_elim (s : List Char) :
    wildcard s = match beforeInterpolation? s with
      | none => s
      | some t => t ++ '*' :: (afterClosing? 1 (s.drop (t.length + 2))).elim [] wildcard := by
  cases h : beforeInterpolation? s with
  | none => exact wildcard_of_plain (beforeInterpolation?_eq_none_iff.mp h)
  | some t =>
    obtain ⟨ht, r, rfl⟩ := beforeInterpolation?_eq_some_iff.mp h
    have hdrop : (t ++ '$' :: '{' :: r).drop (t.length + 2) = r := by simp
    dsimp only
    rw [hdrop, wildcard_plain_append ht (by simp), wildcard, wildcardFrom_open,
      wildcardFrom_succ_eq_elim]

/-- An interpolation that no brace closes reaches to the end. -/
example : wildcard "/a/$\x7bb/?c".toList = "/a/*".toList := by decide

theorem afterClosing?_append_within {depth : Nat} {s : List Char} (h : Within depth s)
    (r : List Char) :
    afterClosing? depth (s ++ r) = afterClosing? (depth + s.count '{' - s.count '}') r := by
  induction s generalizing depth with
  | nil => rfl
  | cons c s ih =>
    rw [List.cons_append, afterClosing?, if_neg h.tail.pos.ne', ih h.tail, braces_add_counts h.pos]

/-- The brace that closes an interpolation is the one behind its expression. -/
theorem afterClosing?_balanced {body : List Char} (h : Balanced body) (r : List Char) :
    afterClosing? 1 (body ++ '}' :: r) = some r := by
  rw [afterClosing?_append_within h.within, h.2, Nat.add_sub_cancel]
  rfl

/-- An interpolation with a balanced expression becomes one `*`. -/
theorem wildcard_interpolation {t body : List Char} (ht : Plain t) (hbody : Balanced body)
    (r : List Char) :
    wildcard (t ++ '$' :: '{' :: (body ++ '}' :: r)) = t ++ '*' :: wildcard r := by
  have hbefore : beforeInterpolation? (t ++ '$' :: '{' :: (body ++ '}' :: r)) = some t :=
    beforeInterpolation?_eq_some_iff.mpr ⟨ht, _, rfl⟩
  have hdrop : (t ++ '$' :: '{' :: (body ++ '}' :: r)).drop (t.length + 2) = body ++ '}' :: r := by
    simp
  rw [wildcard_eq_elim, hbefore]
  dsimp only
  rw [hdrop, afterClosing?_balanced hbody]
  rfl

/-! ## The path part and the cleaned form -/

/-- The path ends at the same place, whether the interpolations are replaced or not. -/
theorem wildcardFrom_pathPartFrom (depth : Nat) (s : List Char) :
    wildcardFrom depth (pathPartFrom depth s) = pathPart (wildcardFrom depth s) := by
  induction depth, s using pathPartFrom.induct with
  | case1 depth =>
    rw [pathPartFrom_nil, wildcardFrom_nil]
    rfl
  | case2 r ih =>
    rw [pathPartFrom_open, wildcardFrom_open, wildcardFrom_open, ih, pathPart_cons (by simp)]
    rfl
  | case3 c r hopen hc =>
    have hprefix := not_prefix_cons_wildcard (not_prefix_of_forall hopen)
    rw [pathPartFrom_zero hopen, if_pos hc, ← wildcard, ← wildcard,
      wildcard_cons (not_prefix_of_forall hopen), pathPart_cons hprefix,
      if_pos (by simpa [endsPath] using hc)]
    rfl
  | case4 c r hopen hc ih =>
    have hprefix := not_prefix_of_forall hopen
    have hpath : ¬ ['$', '{'] <+: c :: pathPartFrom 0 r := fun h =>
      hprefix (h.trans (List.cons_prefix_cons.mpr ⟨rfl, pathPartFrom_prefix 0 r⟩))
    rw [← wildcard, ← wildcard] at ih
    rw [pathPartFrom_zero hopen, if_neg hc, ← wildcard, ← wildcard, wildcard_cons hpath,
      wildcard_cons hprefix, pathPart_cons (not_prefix_cons_wildcard hprefix),
      if_neg (by simpa [endsPath] using hc), ih]
  | case5 n c r ih => rw [pathPartFrom_succ, wildcardFrom_succ, wildcardFrom_succ, ih]

/-- A trailing slash of the text is one of its form, and one inside an interpolation is none. -/
theorem wildcardFrom_dropTrailingSlash (depth : Nat) (s : List Char) :
    wildcardFrom depth (Text.dropTrailingSlash s) = Text.dropTrailingSlash (wildcardFrom depth s) := by
  induction depth, s using wildcardFrom.induct with
  | case1 depth =>
    rw [wildcardFrom_nil]
    exact wildcardFrom_nil depth
  | case2 r ih =>
    have htext := Text.dropTrailingSlash_append_cons (by decide : '{' ≠ '/') ['$'] r
    have hform := Text.dropTrailingSlash_append_cons (by decide : '*' ≠ '/') [] (wildcardFrom 1 r)
    rw [List.singleton_append] at htext
    rw [List.nil_append] at hform
    rw [htext, List.singleton_append, wildcardFrom_open, wildcardFrom_open, hform, ih, List.nil_append]
  | case3 c r hopen ih =>
    have hprefix := not_prefix_of_forall hopen
    rw [← wildcard, ← wildcard] at ih ⊢
    by_cases hr : r = []
    · -- a single character opens nothing, nor does what is left of it
      have hplain : Plain [c] := plain_cons_iff.mpr ⟨hr ▸ hprefix, by decide⟩
      have hshort : Plain (Text.dropTrailingSlash [c]) :=
        hplain.of_isPrefix (Text.dropTrailingSlash_isPrefix [c])
      rw [hr, wildcard_of_plain hshort, wildcard_cons (hr ▸ hprefix)]
      rfl
    · have hform : wildcard r ≠ [] := fun h => hr (wildcard_eq_nil_iff.mp h)
      have hshort : ¬ ['$', '{'] <+: c :: Text.dropTrailingSlash r := fun h =>
        hprefix (h.trans (List.cons_prefix_cons.mpr ⟨rfl, Text.dropTrailingSlash_isPrefix r⟩))
      rw [Text.dropTrailingSlash_cons hr, wildcard_cons hshort, ih, wildcard_cons hprefix,
        Text.dropTrailingSlash_cons hform]
  | case4 n c r ih =>
    by_cases hr : r = []
    · rw [hr, wildcardFrom_succ, wildcardFrom_nil]
      unfold Text.dropTrailingSlash
      split_ifs <;> simp [wildcardFrom]
    · rw [Text.dropTrailingSlash_cons hr, wildcardFrom_succ, wildcardFrom_succ, ih]

/-- **The form with `*` sees the same interpolations as the path part.** It can be read from one
interpolation to the next, and to replace the interpolations before or after the query and the fragment
are cut off, or the address is cleaned, is the same. -/
theorem wildcard_commutes (s : List Char) :
    (wildcard s = match beforeInterpolation? s with
      | none => s
      | some t => t ++ '*' :: (afterClosing? 1 (s.drop (t.length + 2))).elim [] wildcard) ∧
    wildcard (pathPart s) = pathPart (wildcard s) ∧ wildcard (clean s) = clean (wildcard s) := by
  have hpath : wildcard (pathPart s) = pathPart (wildcard s) := wildcardFrom_pathPartFrom 0 s
  refine ⟨wildcard_eq_elim s, hpath, ?_⟩
  have hshorter : wildcard (Text.dropTrailingSlash (pathPart s)) =
      Text.dropTrailingSlash (pathPart (wildcard s)) := by
    rw [← hpath]
    exact wildcardFrom_dropTrailingSlash 0 (pathPart s)
  rw [clean, clean, ← hshorter, ← hpath]
  by_cases hempty : pathPart s = []
  · rw [if_pos hempty, hempty]
    rfl
  · rw [if_neg hempty, if_neg fun h => hempty (wildcard_eq_nil_iff.mp h)]
    by_cases hslash : Text.dropTrailingSlash (pathPart s) = []
    · rw [if_pos hslash, if_pos (by rw [hslash]; rfl)]
    · rw [if_neg hslash, if_neg fun h => hslash (wildcard_eq_nil_iff.mp h)]

end RouteAudit.Address
