import Mathlib.Data.List.Basic
import RouteAudit.Grammar.Shape

/-!
# Shapes and the text around them

A shape moves through a text without changing it (`text_of_mem_hits`). So what a shape finds in a
text depends only on the ways it fits at the places of that text: shapes that agree there
(`SameOn`) have the same matches (`SameOn.matchesIn_eq`). Words that do not occur in the text can be
left out of a shape (`sameOn_word_filter`), and a shape that needs one of them finds nothing
(`NowhereIn`).
-/

namespace RouteAudit

@[simp]
theorem Cursor.text_advance (c : Cursor) (count : Nat) : (c.advance count).text = c.text := by
  simp [Cursor.advance, Cursor.text]

namespace Shape

/-! ## The ways to fit, shape by shape -/

theorem hits_word (words : List (List Char)) (c : Cursor) :
    (word words).hits c = words.filterMap (afterWord? c) := rfl

theorem hits_boundary (c : Cursor) :
    boundary.hits c = if c.atBoundary then [⟨none, c⟩] else [] := rfl

theorem hits_seq (a b : Shape) (c : Cursor) : (seq a b).hits c =
    (a.hits c).flatMap fun h => (b.hits h.after).map fun k => ⟨h.value <|> k.value, k.after⟩ := rfl

theorem hits_choice (a b : Shape) (c : Cursor) : (choice a b).hits c = a.hits c ++ b.hits c := rfl

/-! ## The text stays -/

theorem text_of_mem_runPlaces {member : Char → Bool} {done rest : List Char} {p : Cursor}
    (h : p ∈ runPlaces member done rest) : p.text = done.reverse ++ rest := by
  induction rest generalizing done with
  | nil => simp_all [runPlaces, Cursor.text]
  | cons c r ih =>
    rw [runPlaces, List.mem_cons] at h
    rcases h with rfl | h
    · rfl
    · split_ifs at h with hmember
      · simpa using ih h
      · cases h

theorem text_of_quotedHit? {quote : Char} {test : List Char → Bool} {c : Cursor} {h : Hit}
    (hh : quotedHit? quote test c = some h) : h.after.text = c.text := by
  obtain ⟨done, rest⟩ := c
  unfold quotedHit? at hh
  cases rest with
  | nil => cases hh
  | cons q r =>
    have hvalue := List.takeWhile_append_dropWhile (p := (· ≠ quote)) (l := r)
    dsimp only at hh
    split at hh
    · cases hrest : r.dropWhile (· ≠ quote) with
      | nil =>
        rw [hrest] at hh
        cases hh
      | cons q' rest =>
        rw [hrest] at hh hvalue
        dsimp only at hh
        split at hh
        · rw [← Option.some.inj hh]
          simp only [Cursor.text, List.reverse_cons, List.reverse_append, List.reverse_reverse,
            List.append_assoc, List.cons_append, List.nil_append, hvalue]
        · cases hh
    · cases hh

/-- A shape passes over the text and does not change it. -/
theorem text_of_mem_hits {s : Shape} {c : Cursor} {h : Hit} (hh : h ∈ s.hits c) :
    h.after.text = c.text := by
  induction s generalizing c h with
  | word words =>
    obtain ⟨w, -, hw⟩ := List.mem_filterMap.mp hh
    unfold afterWord? at hw
    split_ifs at hw
    rw [← Option.some.inj hw, Cursor.text_advance]
  | boundary =>
    rw [hits_boundary] at hh
    split_ifs at hh
    · rw [List.mem_singleton.mp hh]
    · cases hh
  | run member =>
    obtain ⟨p, hp, rfl⟩ := List.mem_map.mp hh
    exact text_of_mem_runPlaces (List.mem_reverse.mp hp)
  | shortRun member =>
    obtain ⟨p, hp, rfl⟩ := List.mem_map.mp hh
    exact text_of_mem_runPlaces hp
  | quoted quote test =>
    exact text_of_quotedHit? (Option.mem_toList.mp hh)
  | seq a b iha ihb =>
    obtain ⟨h₁, hh₁, hh₂⟩ := List.mem_flatMap.mp hh
    obtain ⟨h₂, hmem, rfl⟩ := List.mem_map.mp hh₂
    exact (ihb hmem).trans (iha hh₁)
  | choice a b iha ihb =>
    rcases List.mem_append.mp hh with hh | hh
    · exact iha hh
    · exact ihb hh

/-! ## Shapes that agree on a text -/

/-- The shapes fit in the same ways at every place of the text. -/
def SameOn (text : List Char) (a b : Shape) : Prop :=
  ∀ c : Cursor, c.text = text → a.hits c = b.hits c

/-- The shape fits at no place of the text. -/
def NowhereIn (text : List Char) (a : Shape) : Prop :=
  ∀ c : Cursor, c.text = text → a.hits c = []

variable {text : List Char} {a a' b b' : Shape}

namespace SameOn

theorem refl (text : List Char) (a : Shape) : SameOn text a a := fun _ _ => rfl

theorem seq (ha : SameOn text a a') (hb : SameOn text b b') :
    SameOn text (.seq a b) (.seq a' b') := by
  intro c hc
  rw [hits_seq, hits_seq, ha c hc]
  refine List.flatMap_congr fun h hh => ?_
  rw [hb h.after ((text_of_mem_hits hh).trans hc)]

theorem choice (ha : SameOn text a a') (hb : SameOn text b b') :
    SameOn text (.choice a b) (.choice a' b') := by
  intro c hc
  rw [hits_choice, hits_choice, ha c hc, hb c hc]

theorem matchesFrom_eq (h : SameOn text a b) {skip : Nat} {done rest : List Char}
    (htext : done.reverse ++ rest = text) :
    a.matchesFrom skip done rest = b.matchesFrom skip done rest := by
  induction rest generalizing skip done with
  | nil => cases skip <;> rfl
  | cons c r ih =>
    have hnext : (c :: done).reverse ++ r = text := by simpa using htext
    cases skip with
    | succ skip => exact ih hnext
    | zero =>
      rw [matchesFrom, matchesFrom, h ⟨done, c :: r⟩ htext]
      cases (b.hits ⟨done, c :: r⟩).head? with
      | none => exact ih hnext
      | some hit => exact congrArg _ (ih hnext)

/-- Shapes that agree on a text have the same matches in it. -/
theorem matchesIn_eq (h : SameOn text a b) : a.matchesIn text = b.matchesIn text :=
  h.matchesFrom_eq rfl

end SameOn

namespace NowhereIn

theorem seq_left (ha : NowhereIn text a) (b : Shape) : NowhereIn text (.seq a b) := by
  intro c hc
  rw [hits_seq, ha c hc, List.flatMap_nil]

theorem seq_right (a : Shape) (hb : NowhereIn text b) : NowhereIn text (.seq a b) := by
  intro c hc
  rw [hits_seq, List.flatMap_eq_nil_iff]
  intro h hh
  rw [hb h.after ((text_of_mem_hits hh).trans hc), List.map_nil]

/-- An alternative that fits nowhere can be left out. -/
theorem choice_left (ha : NowhereIn text a) (b : Shape) : SameOn text (.choice a b) b := by
  intro c hc
  rw [hits_choice, ha c hc, List.nil_append]

theorem matchesFrom_eq_nil (h : NowhereIn text a) {skip : Nat} {done rest : List Char}
    (htext : done.reverse ++ rest = text) : a.matchesFrom skip done rest = [] := by
  induction rest generalizing skip done with
  | nil => cases skip <;> rfl
  | cons c r ih =>
    have hnext : (c :: done).reverse ++ r = text := by simpa using htext
    cases skip with
    | succ skip => exact ih hnext
    | zero =>
      rw [matchesFrom, h ⟨done, c :: r⟩ htext]
      exact ih hnext

theorem matchesIn_eq_nil (h : NowhereIn text a) : a.matchesIn text = [] :=
  h.matchesFrom_eq_nil rfl

end NowhereIn

/-! ## Words that do not occur -/

theorem afterWord?_eq_none {w : List Char} {c : Cursor} (h : ¬ w <:+: c.text) :
    afterWord? c w = none := by
  unfold afterWord?
  rw [if_neg]
  intro hprefix
  have hw : w <+: c.rest := List.isPrefixOf_iff_prefix.mp hprefix
  exact h (hw.isInfix.trans (List.suffix_append _ _).isInfix)

/-- Words that do not occur in the text can be left out. -/
theorem sameOn_word_filter {words : List (List Char)} {keep : List Char → Bool}
    (h : ∀ w ∈ words, keep w = false → ¬ w <:+: text) :
    SameOn text (word words) (word (words.filter keep)) := by
  intro c hc
  rw [hits_word, hits_word, List.filterMap_filter]
  refine List.filterMap_congr fun w hw => ?_
  split_ifs with hkeep
  · rfl
  · exact afterWord?_eq_none (hc ▸ h w hw (by simpa using hkeep))

theorem nowhereIn_word {words : List (List Char)} (h : ∀ w ∈ words, ¬ w <:+: text) :
    NowhereIn text (word words) := by
  intro c hc
  rw [hits_word, List.filterMap_eq_nil_iff]
  exact fun w hw => afterWord?_eq_none (hc ▸ h w hw)

end Shape

end RouteAudit
