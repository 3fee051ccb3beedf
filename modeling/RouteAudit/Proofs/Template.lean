import Mathlib.Data.List.Infix
import RouteAudit.Address
import RouteAudit.Proofs.Split

/-!
# Addresses made from a template

An address is filled in from a template: texts that open no interpolation and, between them, the
expressions of the interpolations (`Address.fill`). Its path part, its literal part and its cleaned
form are those of the template.

* `pathPart_fill`: only a `?` or `#` in a text ends the path;
* `beforeInterpolation?_fill`: the literal part is the first text;
* `clean_fill`: only a trailing slash of the last text is dropped.

The functions on addresses count open braces. The invariant is `Within`: read from inside the given
number of braces, no beginning of the text closes them all. A balanced expression keeps it at one
brace, and reading the expression to its end leads back to that brace.
-/

namespace RouteAudit.Address

/-- A text that opens no interpolation. -/
def Plain (t : List Char) : Prop :=
  ¬ ['$', '{'] <:+: t

instance (t : List Char) : Decidable (Plain t) :=
  inferInstanceAs (Decidable (¬ ['$', '{'] <:+: t))

/-- An expression whose braces are balanced: no beginning of it closes more than it opens. -/
def Balanced (body : List Char) : Prop :=
  (∀ p ∈ body.inits, p.count '}' ≤ p.count '{') ∧ body.count '}' = body.count '{'

instance (body : List Char) : Decidable (Balanced body) :=
  inferInstanceAs (Decidable (_ ∧ _))

/-- The address of the texts with an interpolation of one expression between every two of them. -/
def fill : (texts bodies : List (List Char)) → List Char
  | [], _ => []
  | [t], _ => t
  | t :: _ :: _, [] => t
  | t :: u :: ts, b :: bs => t ++ '$' :: '{' :: (b ++ '}' :: fill (u :: ts) bs)

/-- The texts of a template with `n` places for expressions; none of them opens an interpolation. -/
structure Template (n : Nat) where
  texts : List (List Char)
  plain : ∀ t ∈ texts, Plain t
  length_texts : texts.length = n + 1

/-- Expressions for `n` places, their braces balanced. -/
structure Expressions (n : Nat) where
  bodies : List (List Char)
  balanced : ∀ b ∈ bodies, Balanced b
  length_bodies : bodies.length = n

/-- The address with the expressions at the places of the template. -/
def Template.fill {n : Nat} (template : Template n) (expressions : Expressions n) : List Char :=
  Address.fill template.texts expressions.bodies

/-! ## The path, character by character -/

theorem pathPartFrom_nil (depth : Nat) : pathPartFrom depth [] = [] := by
  cases depth <;> rfl

theorem pathPartFrom_succ (n : Nat) (c : Char) (r : List Char) :
    pathPartFrom (n + 1) (c :: r) = c :: pathPartFrom (braces (n + 1) c) r :=
  pathPartFrom.eq_4 n c r

theorem pathPartFrom_open (r : List Char) :
    pathPartFrom 0 ('$' :: '{' :: r) = '$' :: '{' :: pathPartFrom 1 r := rfl

theorem pathPartFrom_zero {c : Char} {r : List Char} (h : ∀ r', c = '$' → r = '{' :: r' → False) :
    pathPartFrom 0 (c :: r) = if c = '?' ∨ c = '#' then [] else c :: pathPartFrom 0 r :=
  pathPartFrom.eq_3 c r h

/-! ## Inside an interpolation -/

/-- Read from inside `depth` braces, no beginning of the text closes them all. -/
def Within (depth : Nat) (s : List Char) : Prop :=
  ∀ p, p <+: s → p.count '}' < depth + p.count '{'

theorem braces_add_count {depth : Nat} (h : 0 < depth) (c : Char) :
    braces depth c + [c].count '}' = depth + [c].count '{' := by
  unfold braces
  by_cases hopen : c = '{'
  · simp [hopen]
  · by_cases hclose : c = '}'
    · simp [hclose]
      omega
    · simp [hopen, hclose]

theorem braces_add_counts {depth : Nat} (h : 0 < depth) (c : Char) (s : List Char) :
    braces depth c + s.count '{' - s.count '}' =
      depth + (c :: s).count '{' - (c :: s).count '}' := by
  have hstep := braces_add_count h c
  rw [← List.singleton_append, List.count_append, List.count_append]
  omega

theorem Within.pos {depth : Nat} {s : List Char} (h : Within depth s) : 0 < depth :=
  h [] List.nil_prefix

theorem Within.tail {depth : Nat} {c : Char} {s : List Char} (h : Within depth (c :: s)) :
    Within (braces depth c) s := by
  intro p hp
  have hstep := braces_add_count h.pos c
  have hcons := h (c :: p) (List.cons_prefix_cons.mpr ⟨rfl, hp⟩)
  rw [← List.singleton_append, List.count_append, List.count_append] at hcons
  omega

theorem Balanced.within {body : List Char} (h : Balanced body) : Within 1 body := by
  intro p hp
  have hcount := h.1 p ((List.mem_inits p body).mpr hp)
  omega

/-- Text inside an interpolation belongs to the path as it is. -/
theorem pathPartFrom_append_within {depth : Nat} {s : List Char} (h : Within depth s)
    (r : List Char) :
    pathPartFrom depth (s ++ r) = s ++ pathPartFrom (depth + s.count '{' - s.count '}') r := by
  induction s generalizing depth with
  | nil => rfl
  | cons c s ih =>
    obtain ⟨n, rfl⟩ := Nat.exists_eq_add_one.mpr h.pos
    rw [List.cons_append, pathPartFrom_succ, ih h.tail, List.cons_append, braces_add_counts h.pos]

theorem pathPart_interpolation {body : List Char} (h : Balanced body) (r : List Char) :
    pathPart ('$' :: '{' :: (body ++ '}' :: r)) = '$' :: '{' :: (body ++ '}' :: pathPart r) := by
  rw [pathPart, pathPartFrom_open, pathPartFrom_append_within h.within, h.2, Nat.add_sub_cancel]
  rfl

/-! ## Outside the interpolations -/

/-- The characters that end the path. -/
def endsPath (c : Char) : Bool :=
  c = '?' ∨ c = '#'

theorem pathPart_cons {c : Char} {s : List Char} (h : ¬ ['$', '{'] <+: c :: s) :
    pathPart (c :: s) = if endsPath c then [] else c :: pathPart s := by
  have hopen : ∀ r, c = '$' → s = '{' :: r → False := by
    rintro r rfl rfl
    exact h (List.prefix_append ['$', '{'] r)
  rw [pathPart, pathPartFrom_zero hopen]
  simp [endsPath, pathPart]

theorem beforeInterpolation?_cons {c : Char} {s : List Char} (h : ¬ ['$', '{'] <+: c :: s) :
    beforeInterpolation? (c :: s) = (beforeInterpolation? s).map (c :: ·) := by
  rw [beforeInterpolation?]
  rintro r rfl rfl
  exact h (List.prefix_append ['$', '{'] r)

theorem not_prefix_of_forall {c : Char} {s : List Char} (h : ∀ r, c = '$' → s = '{' :: r → False) :
    ¬ ['$', '{'] <+: c :: s := by
  rintro ⟨r, hr⟩
  obtain ⟨rfl, rfl⟩ := List.cons.inj hr
  exact h r rfl rfl

theorem plain_cons_iff {c : Char} {s : List Char} :
    Plain (c :: s) ↔ ¬ ['$', '{'] <+: c :: s ∧ Plain s := by
  rw [Plain, Plain, List.infix_cons_iff, not_or]

theorem Plain.tail {c : Char} {t : List Char} (h : Plain (c :: t)) : Plain t :=
  (plain_cons_iff.mp h).2

theorem Plain.of_isPrefix {s t : List Char} (ht : Plain t) (h : s <+: t) : Plain s :=
  fun hopen => ht (hopen.trans h.isInfix)

/-- A text that opens no interpolation does not begin one with what follows it either, as long as
that does not begin with the brace. -/
theorem Plain.not_prefix {c : Char} {t r : List Char} (h : Plain (c :: t)) (hr : r.head? ≠ some '{') :
    ¬ ['$', '{'] <+: c :: (t ++ r) := by
  intro hprefix
  obtain ⟨rfl, hbrace⟩ := List.cons_prefix_cons.mp hprefix
  cases t with
  | nil =>
    obtain ⟨r', rfl⟩ := hbrace
    exact hr rfl
  | cons d t =>
    obtain ⟨rfl, -⟩ := List.cons_prefix_cons.mp hbrace
    exact h (List.prefix_append ['$', '{'] t).isInfix

/-- The path goes through a text that holds neither `?` nor `#`, and ends at the first of them. -/
theorem pathPart_plain_append {t r : List Char} (ht : Plain t) (hr : r.head? ≠ some '{') :
    pathPart (t ++ r) =
      if t.any endsPath then t.takeWhile (!endsPath ·) else t ++ pathPart r := by
  induction t with
  | nil => rfl
  | cons c t ih =>
    rw [List.cons_append, pathPart_cons (ht.not_prefix hr), ih ht.tail]
    by_cases hc : endsPath c = true
    · simp [hc]
    · by_cases hany : t.any endsPath = true <;> simp [hc, hany]

theorem beforeInterpolation?_plain_append {t r : List Char} (ht : Plain t)
    (hr : r.head? ≠ some '{') :
    beforeInterpolation? (t ++ r) = (beforeInterpolation? r).map (t ++ ·) := by
  induction t with
  | nil => simp
  | cons c t ih =>
    rw [List.cons_append, beforeInterpolation?_cons (ht.not_prefix hr), ih ht.tail, Option.map_map]
    rfl

/-! ## Templates -/

theorem fill_singleton (t : List Char) (bodies : List (List Char)) : fill [t] bodies = t := by
  cases bodies <;> rfl

theorem fill_cons {ts : List (List Char)} (h : ts ≠ []) (t b : List Char) (bs : List (List Char)) :
    fill (t :: ts) (b :: bs) = t ++ '$' :: '{' :: (b ++ '}' :: fill ts bs) := by
  obtain ⟨u, ts, rfl⟩ := List.exists_cons_of_ne_nil h
  rfl

/-- The text before the first interpolation is the first text of the template. -/
theorem beforeInterpolation?_fill {t : List Char} {ts : List (List Char)} (ht : Plain t)
    (hts : ts ≠ []) (b : List Char) (bs : List (List Char)) :
    beforeInterpolation? (fill (t :: ts) (b :: bs)) = some t := by
  rw [fill_cons hts, beforeInterpolation?_plain_append ht (by simp), beforeInterpolation?]
  simp

/-- The texts up to the first one that ends the path, which is cut there. -/
def cutTexts : List (List Char) → List (List Char)
  | [] => []
  | t :: ts => if t.any endsPath then [t.takeWhile (!endsPath ·)] else t :: cutTexts ts

theorem cutTexts_of_any {t : List Char} (h : t.any endsPath = true) (ts : List (List Char)) :
    cutTexts (t :: ts) = [t.takeWhile (!endsPath ·)] :=
  if_pos h

theorem cutTexts_of_not_any {t : List Char} (h : ¬ t.any endsPath = true)
    (ts : List (List Char)) : cutTexts (t :: ts) = t :: cutTexts ts :=
  if_neg h

theorem cutTexts_ne_nil {ts : List (List Char)} (h : ts ≠ []) : cutTexts ts ≠ [] := by
  obtain ⟨t, ts, rfl⟩ := List.exists_cons_of_ne_nil h
  rw [cutTexts]
  split_ifs <;> simp

theorem length_cutTexts_le (ts : List (List Char)) : (cutTexts ts).length ≤ ts.length := by
  induction ts with
  | nil => exact le_rfl
  | cons t ts ih =>
    rw [cutTexts]
    split_ifs
    · simp
    · simpa using ih

/-- **Only a `?` or `#` in a text ends the path**; in an expression it stays. -/
theorem pathPart_fill {texts bodies : List (List Char)} (htexts : ∀ t ∈ texts, Plain t)
    (hbodies : ∀ b ∈ bodies, Balanced b) (hlength : texts.length = bodies.length + 1) :
    pathPart (fill texts bodies) = fill (cutTexts texts) bodies := by
  induction bodies generalizing texts with
  | nil =>
    obtain ⟨t, rfl⟩ := List.length_eq_one_iff.mp hlength
    have h := pathPart_plain_append (htexts t List.mem_cons_self) (r := []) (by simp)
    rw [List.append_nil] at h
    rw [fill_singleton, h]
    by_cases hany : t.any endsPath = true
    · rw [if_pos hany, cutTexts_of_any hany, fill_singleton]
    · rw [if_neg hany, cutTexts_of_not_any hany, cutTexts, fill_singleton]
      exact List.append_nil t
  | cons b bs ih =>
    obtain ⟨t, ts, rfl⟩ := List.exists_cons_of_length_eq_add_one hlength
    have hts : ts ≠ [] := by
      rintro rfl
      simp at hlength
    have hrest := ih (fun v hv => htexts v (List.mem_cons_of_mem _ hv))
      (fun c hc => hbodies c (List.mem_cons_of_mem _ hc)) (by simpa using hlength)
    rw [fill_cons hts, pathPart_plain_append (htexts t List.mem_cons_self) (by simp),
      pathPart_interpolation (hbodies b List.mem_cons_self), hrest]
    by_cases hany : t.any endsPath = true
    · rw [if_pos hany, cutTexts_of_any hany, fill_singleton]
    · rw [if_neg hany, cutTexts_of_not_any hany, fill_cons (cutTexts_ne_nil hts)]

/-! ## The cleaned form -/

/-- The path is a beginning of the address. -/
theorem pathPartFrom_prefix (depth : Nat) (s : List Char) : pathPartFrom depth s <+: s := by
  induction depth, s using pathPartFrom.induct with
  | case1 depth => rw [pathPartFrom_nil]
  | case2 r ih =>
    rw [pathPartFrom_open]
    exact (List.prefix_append_right_inj ['$', '{']).mpr ih
  | case3 c r hopen hc =>
    rw [pathPartFrom_zero hopen, if_pos hc]
    exact List.nil_prefix
  | case4 c r hopen hc ih =>
    rw [pathPartFrom_zero hopen, if_neg hc]
    exact (List.prefix_append_right_inj [c]).mpr ih
  | case5 n c r ih =>
    rw [pathPartFrom_succ]
    exact (List.prefix_append_right_inj [c]).mpr ih

/-- A path has no query or fragment to cut off. -/
theorem pathPartFrom_pathPartFrom (depth : Nat) (s : List Char) :
    pathPartFrom depth (pathPartFrom depth s) = pathPartFrom depth s := by
  induction depth, s using pathPartFrom.induct with
  | case1 depth => rw [pathPartFrom_nil, pathPartFrom_nil]
  | case2 r ih => rw [pathPartFrom_open, pathPartFrom_open, ih]
  | case3 c r hopen hc => rw [pathPartFrom_zero hopen, if_pos hc, pathPartFrom_nil]
  | case4 c r hopen hc ih =>
    have hpath : ∀ r', c = '$' → pathPartFrom 0 r = '{' :: r' → False := by
      intro r' hdollar hbrace
      obtain ⟨r'', hr⟩ := hbrace ▸ pathPartFrom_prefix 0 r
      exact hopen _ hdollar hr.symm
    rw [pathPartFrom_zero hopen, if_neg hc, pathPartFrom_zero hpath, if_neg hc, ih]
  | case5 n c r ih => rw [pathPartFrom_succ, pathPartFrom_succ, ih]

theorem clean_pathPart (s : List Char) : clean (pathPart s) = clean s := by
  have hpath : pathPart (pathPart s) = pathPart s := pathPartFrom_pathPartFrom 0 s
  rw [clean, clean, hpath]

/-- The texts with one slash less at the end of the last one, if there is one. -/
def trimTexts : List (List Char) → List (List Char)
  | [] => []
  | [t] => [Text.dropTrailingSlash t]
  | t :: u :: ts => t :: trimTexts (u :: ts)

theorem trimTexts_cons {ts : List (List Char)} (h : ts ≠ []) (t : List Char) :
    trimTexts (t :: ts) = t :: trimTexts ts := by
  obtain ⟨u, ts, rfl⟩ := List.exists_cons_of_ne_nil h
  rfl

theorem trimTexts_ne_nil {ts : List (List Char)} (h : ts ≠ []) : trimTexts ts ≠ [] := by
  obtain ⟨t, ts, rfl⟩ := List.exists_cons_of_ne_nil h
  cases ts <;> simp [trimTexts]

theorem dropTrailingSlash_fill {texts bodies : List (List Char)}
    (hlength : texts.length ≤ bodies.length + 1) :
    Text.dropTrailingSlash (fill texts bodies) = fill (trimTexts texts) bodies := by
  induction texts, bodies using fill.induct with
  | case1 bodies => rfl
  | case2 t bodies => rfl
  | case3 t u ts => simp at hlength
  | case4 t u ts b bs ih =>
    have hts := List.cons_ne_nil u ts
    have hassoc : ∀ r, t ++ '$' :: '{' :: (b ++ '}' :: r) = (t ++ '$' :: '{' :: b) ++ '}' :: r := by
      simp
    rw [fill_cons hts, hassoc, Text.dropTrailingSlash_append_cons (by decide), ih (by simpa using hlength),
      ← hassoc, trimTexts_cons hts, fill_cons (trimTexts_ne_nil hts)]

/-- The cleaned form of an interpolated path: **only a trailing slash of its last text is dropped**. -/
theorem clean_fill {t b : List Char} {ts bs : List (List Char)} (hts : ts ≠ [])
    (htexts : ∀ u ∈ t :: ts, Plain u) (hbodies : ∀ c ∈ b :: bs, Balanced c)
    (hlength : ts.length = bs.length + 1) (hany : ¬ t.any endsPath = true) :
    clean (fill (t :: ts) (b :: bs)) = fill (t :: trimTexts (cutTexts ts)) (b :: bs) := by
  have hcut := cutTexts_ne_nil hts
  have hpath := pathPart_fill htexts hbodies (by simpa using hlength)
  rw [cutTexts_of_not_any hany] at hpath
  have hcutlength : (t :: cutTexts ts).length ≤ (b :: bs).length + 1 := by
    simpa [hlength] using length_cutTexts_le ts
  have htrim := dropTrailingSlash_fill hcutlength
  rw [trimTexts_cons hcut] at htrim
  rw [clean, hpath, htrim, if_neg, if_neg]
  · rw [fill_cons (trimTexts_ne_nil hcut)]
    simp
  · rw [fill_cons hcut]
    simp

end RouteAudit.Address
