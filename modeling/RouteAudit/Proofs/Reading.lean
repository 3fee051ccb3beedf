import RouteAudit.Proofs.Wildcard

/-!
# Reading a template

The functions on addresses read an address as its template was written (`Template.Reads`): each
interpolation is one `*` between two texts, the literal part is the first text, and the path ends before
the first `?` or `#` of the texts, if they hold one. Whatever the address, its form with `*` opens no
interpolation (`reads_template`).

Proof. By induction on the expressions: the text before an interpolation is passed over unchanged, and a
balanced expression ends at the brace behind it, where the rest of the template is read anew.
-/

namespace RouteAudit.Address

/-! ## The first end of the path -/

/-- The first `?` or `#` of the texts is `c`, and it stands behind `u` in the text at place `i`. -/
structure FirstEnd (texts : List (List Char)) (i : Nat) (u : List Char) (c : Char) : Prop where
  text : ∃ v, texts[i]? = some (u ++ c :: v)
  ends : endsPath c = true
  before : ∀ t ∈ texts.take i ++ [u], t.any endsPath = false

theorem FirstEnd.cons {texts : List (List Char)} {i : Nat} {u : List Char} {c : Char}
    (h : FirstEnd texts i u c) {t : List Char} (ht : t.any endsPath = false) :
    FirstEnd (t :: texts) (i + 1) u c where
  text := h.text
  ends := h.ends
  before := by
    rw [List.take_succ_cons, List.cons_append, List.forall_mem_cons]
    exact ⟨ht, h.before⟩

/-- A text that ends the path has a first character that does. -/
theorem exists_firstEnd_of_any {t : List Char} (h : t.any endsPath = true) (ts : List (List Char)) :
    ∃ c, FirstEnd (t :: ts) 0 (t.takeWhile (!endsPath ·)) c := by
  obtain ⟨c, hc⟩ := Option.isSome_iff_exists.mp (List.find?_isSome.mpr (List.any_eq_true.mp h))
  obtain ⟨hends, u, v, rfl, hu⟩ := List.find?_eq_some_iff_append.mp hc
  have htake : (u ++ c :: v).takeWhile (!endsPath ·) = u := by
    rw [List.takeWhile_append_of_pos hu, List.takeWhile_cons_of_neg (by simp [hends]), List.append_nil]
  rw [htake]
  refine ⟨c, ⟨v, rfl⟩, hends, ?_⟩
  simpa using hu

/-- The texts are cut at their first `?` or `#`, or not at all. -/
theorem cutTexts_cases (texts : List (List Char)) :
    (∀ t ∈ texts, t.any endsPath = false) ∧ cutTexts texts = texts ∨
      ∃ i u c, FirstEnd texts i u c ∧ cutTexts texts = texts.take i ++ [u] := by
  induction texts with
  | nil => exact Or.inl ⟨by simp, rfl⟩
  | cons t ts ih =>
    cases hany : t.any endsPath with
    | true =>
      obtain ⟨c, hfirst⟩ := exists_firstEnd_of_any hany ts
      exact Or.inr ⟨0, _, c, hfirst, cutTexts_of_any hany ts⟩
    | false =>
      have hcut : cutTexts (t :: ts) = t :: cutTexts ts := cutTexts_of_not_any (by simp [hany]) ts
      rcases ih with ⟨hnone, hself⟩ | ⟨i, u, c, hfirst, hat⟩
      · exact Or.inl ⟨List.forall_mem_cons.mpr ⟨hany, hnone⟩, by rw [hcut, hself]⟩
      · exact Or.inr ⟨i + 1, u, c, hfirst.cons hany, by rw [hcut, hat]; rfl⟩

/-! ## The parts of an address -/

theorem prefix_fill (t : List Char) (ts bodies : List (List Char)) : t <+: fill (t :: ts) bodies := by
  cases ts with
  | nil => rw [fill_singleton]
  | cons u ts =>
    cases bodies with
    | nil => exact List.prefix_refl t
    | cons b bs => exact List.prefix_append t _

/-- The address goes on in a text as the text does. -/
theorem fill_take_append_isPrefix {texts bodies : List (List Char)} {i : Nat} {u w : List Char}
    (h : texts[i]? = some (u ++ w)) (hlength : texts.length ≤ bodies.length + 1) :
    fill (texts.take i ++ [u]) bodies ++ w <+: fill texts bodies := by
  induction i generalizing texts bodies with
  | zero =>
    cases texts with
    | nil => cases h
    | cons t ts =>
      obtain rfl : t = u ++ w := by simpa using h
      rw [List.take_zero, List.nil_append, fill_singleton]
      exact prefix_fill _ ts bodies
  | succ i ih =>
    cases texts with
    | nil => cases h
    | cons t ts =>
      have hts : ts ≠ [] := by
        rintro rfl
        cases h
      cases bodies with
      | nil => exact absurd hlength (by simpa using hts)
      | cons b bs =>
        have hrest : fill (ts.take i ++ [u]) bs ++ w <+: fill ts bs := ih h (by simpa using hlength)
        rw [List.take_succ_cons, List.cons_append, fill_cons (by simp), fill_cons hts,
          List.append_assoc, List.prefix_append_right_inj]
        simpa using hrest

/-- **The form of a filled template with `*`** has one of them between every two texts. -/
theorem wildcard_fill {texts bodies : List (List Char)} (htexts : ∀ t ∈ texts, Plain t)
    (hbodies : ∀ b ∈ bodies, Balanced b) (hlength : texts.length = bodies.length + 1) :
    wildcard (fill texts bodies) = ['*'].intercalate texts := by
  induction bodies generalizing texts with
  | nil =>
    obtain ⟨t, rfl⟩ := List.length_eq_one_iff.mp hlength
    rw [fill_singleton, wildcard_of_plain (htexts t List.mem_cons_self), List.intercalate_singleton]
  | cons b bs ih =>
    obtain ⟨t, ts, rfl⟩ := List.exists_cons_of_length_eq_add_one hlength
    have hts : ts ≠ [] := by
      rintro rfl
      simp at hlength
    have hrest := ih (fun v hv => htexts v (List.mem_cons_of_mem _ hv))
      (fun c hc => hbodies c (List.mem_cons_of_mem _ hc)) (by simpa using hlength)
    rw [fill_cons hts, wildcard_interpolation (htexts t List.mem_cons_self)
      (hbodies b List.mem_cons_self), hrest, List.intercalate_cons_of_ne_nil hts]
    simp

/-! ## Templates -/

/-- What the functions on addresses find in the address `s` of a template with `n` expressions. -/
structure Template.Reads {n : Nat} (template : Template n) (expressions : Expressions n)
    (s : List Char) : Prop where
  wildcard_eq : wildcard s = ['*'].intercalate template.texts
  hasInterpolation_iff : hasInterpolation s = true ↔ 1 ≤ n
  /-- The literal part is the first text, less one trailing slash. -/
  literalPart_eq : literalPart? s =
    if 1 ≤ n then template.texts.head?.map Text.dropTrailingSlash else none
  /-- No text ends the path, or it ends before the first `?` or `#` of the texts. -/
  pathPart_cases : (∀ t ∈ template.texts, t.any endsPath = false) ∧ pathPart s = s ∨
    ∃ i u c, FirstEnd template.texts i u c ∧
      pathPart s = Address.fill (template.texts.take i ++ [u]) expressions.bodies ∧
      pathPart s ++ [c] <+: s

theorem Template.beforeInterpolation?_eq {n : Nat} (template : Template n)
    (expressions : Expressions n) : beforeInterpolation? (template.fill expressions) =
      if 1 ≤ n then template.texts.head? else none := by
  obtain ⟨texts, hplain, hlength⟩ := template
  obtain ⟨bodies, hbalanced, hbodies⟩ := expressions
  obtain ⟨t, ts, rfl⟩ := List.exists_cons_of_length_eq_add_one hlength
  have ht := hplain t List.mem_cons_self
  rw [Template.fill, List.head?_cons]
  cases bodies with
  | nil =>
    obtain rfl : ts = [] := by simpa [← hbodies] using hlength
    rw [fill_singleton, if_neg (by simp [← hbodies])]
    exact beforeInterpolation?_eq_none_iff.mpr ht
  | cons b bs =>
    have hts : ts ≠ [] := by
      rintro rfl
      simp [← hbodies] at hlength
    rw [if_pos (by simp [← hbodies])]
    exact beforeInterpolation?_fill ht hts b bs

/-- The path of a filled template is whole, or it ends before the first `?` or `#` of the texts. -/
theorem Template.pathPart_fill_eq {n : Nat} (template : Template n) (expressions : Expressions n) :
    (∀ t ∈ template.texts, t.any endsPath = false) ∧
        pathPart (template.fill expressions) = template.fill expressions ∨
      ∃ i u c, FirstEnd template.texts i u c ∧
        pathPart (template.fill expressions) =
          Address.fill (template.texts.take i ++ [u]) expressions.bodies ∧
        pathPart (template.fill expressions) ++ [c] <+: template.fill expressions := by
  have hlength : template.texts.length = expressions.bodies.length + 1 := by
    rw [template.length_texts, expressions.length_bodies]
  have hpath : pathPart (template.fill expressions) =
      Address.fill (cutTexts template.texts) expressions.bodies :=
    pathPart_fill template.plain expressions.balanced hlength
  rcases cutTexts_cases template.texts with ⟨hnone, hself⟩ | ⟨i, u, c, hfirst, hcut⟩
  · left
    exact ⟨hnone, by rw [hpath, hself]; rfl⟩
  · right
    obtain ⟨v, hv⟩ := hfirst.text
    rw [hcut] at hpath
    refine ⟨i, u, c, hfirst, hpath, ?_⟩
    have hprefix := fill_take_append_isPrefix hv hlength.le
    rw [hpath]
    exact (List.prefix_append_right_inj _).mpr (List.prefix_append [c] v) |>.trans hprefix

/-- **An address is read as its template was written**, and no address whatever has a form with `*` that
opens an interpolation: the form is the address itself exactly if the address opens none. -/
theorem reads_template :
    (∀ (n : Nat) (template : Template n) (expressions : Expressions n),
      template.Reads expressions (template.fill expressions)) ∧
    ∀ s, Plain (wildcard s) ∧ (wildcard s = s ↔ Plain s) := by
  refine ⟨fun n template expressions => ?_, fun s => ⟨plain_wildcardFrom 0 s, wildcard_eq_self_iff⟩⟩
  have hbefore := template.beforeInterpolation?_eq expressions
  have hlength : template.texts.length = expressions.bodies.length + 1 := by
    rw [template.length_texts, expressions.length_bodies]
  constructor
  case wildcard_eq => exact wildcard_fill template.plain expressions.balanced hlength
  case hasInterpolation_iff =>
    obtain ⟨t, ts, htexts⟩ := List.exists_cons_of_length_eq_add_one template.length_texts
    rw [hasInterpolation, hbefore, htexts]
    split_ifs with hn <;> simp [hn]
  case literalPart_eq =>
    rw [literalPart?, hbefore]
    split_ifs <;> rfl
  case pathPart_cases => exact template.pathPart_fill_eq expressions

/-- A `$` in front of an interpolation and braces outside of it are text, and a `?` or an interpolation
inside an expression belongs to the expression. -/
theorem reads_template_nested :
    let template : Template 2 :=
      ⟨["/a\x7d$".toList, "\x7bb/".toList, "/?tab=1#top".toList], by decide, rfl⟩
    let expressions : Expressions 2 := ⟨["f({k:q})".toList, "q?f(${q}):0".toList], by decide, rfl⟩
    let s := template.fill expressions
    template.Reads expressions s ∧ wildcard s = "/a\x7d$*\x7bb/*/?tab=1#top".toList ∧
      literalPart? s = some "/a\x7d$".toList ∧ wildcard (pathPart s) = "/a\x7d$*\x7bb/*/".toList := by
  intro template expressions s
  have hreads : template.Reads expressions s := reads_template.1 2 template expressions
  refine ⟨hreads, hreads.wildcard_eq, hreads.literalPart_eq, ?_⟩
  decide

end RouteAudit.Address
