import Mathlib.Data.List.Basic
import RouteAudit.Proofs.Shape
import RouteAudit.Proofs.Split

/-!
# How a shape fits

The ways in which a shape fits at a place, said shape by shape. A way without a value passes from one
place to another (`Passes`), a way with a value finds it on the way (`Finds`); a sequence passes by way
of a place in between, a choice as one of its alternatives. What lies between the two places is the
text that was read (`Cursor.Reads`).

Two facts carry over to the matches in a text. A value stands in what was read between two equal quotes
that it does not hold (`Finds.exists_reads`), and there is a match exactly if the shape fits somewhere
(`matchesIn_eq_nil_iff`).
-/

namespace RouteAudit

namespace Cursor

/-- Whether the text between the first place and the second one is the given text. -/
def Reads (c : Cursor) (x : List Char) (d : Cursor) : Prop :=
  c.rest = x ++ d.rest ∧ d.done = x.reverse ++ c.done

variable {c d : Cursor} {x y : List Char}

theorem Reads.text_eq (h : c.Reads x d) : d.text = c.text := by
  rw [text, text, h.1, h.2]
  simp

theorem reads_nil_iff : c.Reads [] d ↔ d = c := by
  obtain ⟨done, rest⟩ := c
  obtain ⟨done', rest'⟩ := d
  simp [Reads, eq_comm, and_comm]

theorem reads_cons_iff {z : Char} {done rest : List Char} :
    Reads ⟨done, rest⟩ (z :: x) d ↔ ∃ r, rest = z :: r ∧ Reads ⟨z :: done, r⟩ x d := by
  simp [Reads]

theorem reads_append_iff : c.Reads (x ++ y) d ↔ ∃ e, c.Reads x e ∧ e.Reads y d := by
  constructor
  · rintro ⟨hrest, hdone⟩
    exact ⟨⟨x.reverse ++ c.done, y ++ d.rest⟩, ⟨by simpa using hrest, rfl⟩, rfl, by simpa using hdone⟩
  · rintro ⟨e, ⟨hrest, hdone⟩, hrest', hdone'⟩
    exact ⟨by rw [hrest, hrest', List.append_assoc],
      by rw [hdone', hdone, List.reverse_append, List.append_assoc]⟩

theorem reads_advance_iff {w : List Char} :
    (w.isPrefixOf c.rest = true ∧ d = c.advance w.length) ↔ c.Reads w d := by
  rw [List.isPrefixOf_iff_prefix]
  constructor
  · rintro ⟨⟨r, hr⟩, rfl⟩
    simp [Reads, advance, ← hr]
  · rintro ⟨hrest, hdone⟩
    refine ⟨⟨d.rest, hrest.symm⟩, ?_⟩
    obtain ⟨done, rest⟩ := d
    simp_all [advance]

end Cursor

namespace Shape

/-- The shape leads from one place to another and holds no value. -/
def Passes (s : Shape) (c d : Cursor) : Prop :=
  ⟨none, d⟩ ∈ s.hits c

/-- The shape leads from one place to another and holds the value. -/
def Finds (s : Shape) (c : Cursor) (v : List Char) (d : Cursor) : Prop :=
  ⟨some v, d⟩ ∈ s.hits c

/-- Whether the shape never holds a value. -/
def isBare : Shape → Bool
  | word _ | boundary | run _ | shortRun _ => true
  | quoted _ _ => false
  | seq a b | choice a b => a.isBare && b.isBare

/-- Whether the shape always holds a value. -/
def isValued : Shape → Bool
  | word _ | boundary | run _ | shortRun _ => false
  | quoted _ _ => true
  | seq a b => a.isValued || b.isValued
  | choice a b => a.isValued && b.isValued

variable {a b s : Shape} {c d : Cursor} {v : List Char}

/-! ## Passing -/

theorem passes_word_iff {words : List (List Char)} :
    (word words).Passes c d ↔ ∃ w ∈ words, c.Reads w d := by
  simp only [Passes, hits_word, List.mem_filterMap, afterWord?, ← Cursor.reads_advance_iff]
  refine exists_congr fun w => and_congr_right fun _ => ?_
  split_ifs with h <;> simp [h, eq_comm]

theorem passes_literal_iff {text : String} : (literal text).Passes c d ↔ c.Reads text.toList d := by
  simp [literal, passes_word_iff]

theorem passes_boundary_iff : boundary.Passes c d ↔ c.atBoundary = true ∧ d = c := by
  rw [Passes, hits_boundary]
  split_ifs with h <;> simp [h]

theorem mem_runPlaces_iff {member : Char → Bool} {done rest : List Char} :
    d ∈ runPlaces member done rest ↔
      ∃ x, Cursor.Reads ⟨done, rest⟩ x d ∧ ∀ e ∈ x, member e = true := by
  induction rest generalizing done with
  | nil =>
    simp only [runPlaces, List.mem_singleton]
    constructor
    · rintro rfl
      exact ⟨[], Cursor.reads_nil_iff.mpr rfl, by simp⟩
    · rintro ⟨x, hreads, -⟩
      obtain ⟨rfl, -⟩ := List.append_eq_nil_iff.mp hreads.1.symm
      exact Cursor.reads_nil_iff.mp hreads
  | cons z r ih =>
    rw [runPlaces, List.mem_cons]
    constructor
    · rintro (rfl | h)
      · exact ⟨[], Cursor.reads_nil_iff.mpr rfl, by simp⟩
      · split_ifs at h with hz
        · obtain ⟨x, hreads, hx⟩ := ih.mp h
          exact ⟨z :: x, Cursor.reads_cons_iff.mpr ⟨r, rfl, hreads⟩, List.forall_mem_cons.mpr ⟨hz, hx⟩⟩
        · cases h
    · rintro ⟨x, hreads, hx⟩
      cases x with
      | nil => exact Or.inl (Cursor.reads_nil_iff.mp hreads)
      | cons z' x =>
        obtain ⟨r', hr, hreads⟩ := Cursor.reads_cons_iff.mp hreads
        obtain ⟨rfl, rfl⟩ := List.cons.inj hr
        obtain ⟨hz, hx⟩ := List.forall_mem_cons.mp hx
        rw [if_pos hz]
        exact Or.inr (ih.mpr ⟨x, hreads, hx⟩)

theorem passes_run_iff {member : Char → Bool} :
    (run member).Passes c d ↔ ∃ x, c.Reads x d ∧ ∀ e ∈ x, member e = true := by
  rw [← mem_runPlaces_iff]
  simp [Passes, hits]

theorem passes_shortRun_iff {member : Char → Bool} :
    (shortRun member).Passes c d ↔ ∃ x, c.Reads x d ∧ ∀ e ∈ x, member e = true := by
  rw [← mem_runPlaces_iff]
  simp [Passes, hits]

theorem passes_seq_iff : (seq a b).Passes c d ↔ ∃ e, a.Passes c e ∧ b.Passes e d := by
  simp only [Passes, hits_seq, List.mem_flatMap, List.mem_map, Hit.mk.injEq]
  constructor
  · rintro ⟨⟨v, e⟩, ha, ⟨w, d'⟩, hb, hvalue, rfl⟩
    cases v <;> cases w <;> simp_all
    exact ⟨e, ha, hb⟩
  · rintro ⟨e, ha, hb⟩
    exact ⟨⟨none, e⟩, ha, ⟨none, d⟩, hb, rfl, rfl⟩

theorem passes_choice_iff : (choice a b).Passes c d ↔ a.Passes c d ∨ b.Passes c d := by
  rw [Passes, hits_choice, List.mem_append]
  rfl

/-! ## Finding -/

/-- Between two quotes stands the value, if it passes the test. -/
theorem quotedHit?_append {quote : Char} {test : List Char → Bool} (h : quote ∉ v)
    (done rest : List Char) : quotedHit? quote test ⟨done, quote :: (v ++ quote :: rest)⟩ =
      if test v then some ⟨some v, ⟨quote :: (v.reverse ++ quote :: done), rest⟩⟩ else none := by
  simp only [quotedHit?, if_true, Text.takeWhile_ne_append_sep h, Text.dropWhile_ne_append_sep h]

theorem mem_hits_quoted_iff {quote : Char} {test : List Char → Bool} {h : Hit} :
    h ∈ (quoted quote test).hits c ↔ ∃ v, c.Reads (quote :: (v ++ [quote])) h.after ∧ quote ∉ v ∧
      test v = true ∧ h.value = some v := by
  obtain ⟨done, rest⟩ := c
  obtain ⟨value, done', rest'⟩ := h
  rw [hits, Option.mem_toList]
  constructor
  · intro h
    obtain ⟨r, rfl⟩ : ∃ r, rest = quote :: r := by
      cases rest with
      | nil => cases h
      | cons q r =>
        by_cases hq : q = quote
        · exact ⟨r, by rw [hq]⟩
        · simp [quotedHit?, hq] at h
    rcases Text.notMem_or_exists_first quote r with hr | ⟨v, r, rfl, hv⟩
    · simp only [quotedHit?, if_true, Text.dropWhile_ne_of_notMem hr] at h
      cases h
    · rw [quotedHit?_append hv, Option.ite_none_right_eq_some] at h
      obtain ⟨htest, hhit⟩ := h
      cases hhit
      exact ⟨v, ⟨by simp, by simp⟩, hv, htest, rfl⟩
  · rintro ⟨v, ⟨hrest, hdone⟩, hquote, htest, rfl⟩
    have hrest : rest = quote :: (v ++ quote :: rest') := by simpa using hrest
    have hdone : done' = quote :: (v.reverse ++ quote :: done) := by simpa using hdone
    rw [hrest, quotedHit?_append hquote, if_pos htest, hdone]

theorem finds_quoted_iff {quote : Char} {test : List Char → Bool} : (quoted quote test).Finds c v d ↔
    c.Reads (quote :: (v ++ [quote])) d ∧ quote ∉ v ∧ test v = true := by
  rw [Finds, mem_hits_quoted_iff]
  constructor
  · rintro ⟨w, hreads, hquote, htest, hvalue⟩
    obtain rfl := Option.some.inj hvalue
    exact ⟨hreads, hquote, htest⟩
  · rintro ⟨hreads, hquote, htest⟩
    exact ⟨v, hreads, hquote, htest, rfl⟩

theorem finds_choice_iff : (choice a b).Finds c v d ↔ a.Finds c v d ∨ b.Finds c v d := by
  rw [Finds, hits_choice, List.mem_append]
  rfl

/-- A sequence finds a value with its first part, or with its second part behind the first one. -/
theorem finds_seq_iff : (seq a b).Finds c v d ↔
    ∃ e, (a.Finds c v e ∧ ∃ w, ⟨w, d⟩ ∈ b.hits e) ∨ (a.Passes c e ∧ b.Finds e v d) := by
  simp only [Passes, Finds, hits_seq, List.mem_flatMap, List.mem_map, Hit.mk.injEq]
  constructor
  · rintro ⟨⟨v', e⟩, ha, ⟨w, d'⟩, hb, hvalue, rfl⟩
    cases v' with
    | none => exact ⟨e, Or.inr ⟨ha, by simp_all⟩⟩
    | some v' => exact ⟨e, Or.inl ⟨by simp_all, w, hb⟩⟩
  · rintro ⟨e, ⟨ha, w, hb⟩ | ⟨ha, hb⟩⟩
    · exact ⟨⟨some v, e⟩, ha, ⟨w, d⟩, hb, rfl, rfl⟩
    · exact ⟨⟨none, e⟩, ha, ⟨some v, d⟩, hb, rfl, rfl⟩

theorem value_eq_none_of_isBare (hs : s.isBare = true) {h : Hit} (hh : h ∈ s.hits c) :
    h.value = none := by
  induction s generalizing c h with
  | word words =>
    obtain ⟨w, -, hw⟩ := List.mem_filterMap.mp hh
    rw [afterWord?, Option.ite_none_right_eq_some] at hw
    rw [← Option.some.inj hw.2]
  | boundary =>
    rw [hits_boundary] at hh
    split_ifs at hh
    · rw [List.mem_singleton.mp hh]
    · cases hh
  | run member =>
    obtain ⟨p, -, rfl⟩ := List.mem_map.mp hh
    rfl
  | shortRun member =>
    obtain ⟨p, -, rfl⟩ := List.mem_map.mp hh
    rfl
  | quoted quote test => cases hs
  | seq a b iha ihb =>
    rw [isBare, Bool.and_eq_true] at hs
    obtain ⟨h₁, hh₁, hh₂⟩ := List.mem_flatMap.mp hh
    obtain ⟨h₂, hmem, rfl⟩ := List.mem_map.mp hh₂
    rw [iha hs.1 hh₁, ihb hs.2 hmem]
    rfl
  | choice a b iha ihb =>
    rw [isBare, Bool.and_eq_true] at hs
    rcases List.mem_append.mp hh with hh | hh
    · exact iha hs.1 hh
    · exact ihb hs.2 hh

theorem isSome_value_of_isValued (hs : s.isValued = true) {h : Hit} (hh : h ∈ s.hits c) :
    h.value.isSome = true := by
  induction s generalizing c h with
  | word words | boundary | run member | shortRun member => cases hs
  | quoted quote test =>
    obtain ⟨v, -, -, -, hvalue⟩ := mem_hits_quoted_iff.mp hh
    rw [hvalue]
    rfl
  | seq a b iha ihb =>
    rw [isValued, Bool.or_eq_true] at hs
    obtain ⟨h₁, hh₁, hh₂⟩ := List.mem_flatMap.mp hh
    obtain ⟨h₂, hmem, rfl⟩ := List.mem_map.mp hh₂
    rcases hs with hs | hs
    · simp [iha hs hh₁]
    · simp [ihb hs hmem]
  | choice a b iha ihb =>
    rw [isValued, Bool.and_eq_true] at hs
    rcases List.mem_append.mp hh with hh | hh
    · exact iha hs.1 hh
    · exact ihb hs.2 hh

/-- Behind a part that holds no value, the value is that of the rest. -/
theorem finds_seq_iff_of_isBare (ha : a.isBare = true) :
    (seq a b).Finds c v d ↔ ∃ e, a.Passes c e ∧ b.Finds e v d := by
  rw [finds_seq_iff]
  refine exists_congr fun e => or_iff_right fun hfinds => ?_
  cases value_eq_none_of_isBare ha hfinds.1

theorem finds_oneOf_iff {shapes : List Shape} :
    (oneOf shapes).Finds c v d ↔ ∃ s ∈ shapes, s.Finds c v d := by
  induction shapes using oneOf.induct with
  | case1 => simp [oneOf, Finds, hits]
  | case2 s => simp [oneOf]
  | case3 s rest hrest ih =>
    rw [oneOf.eq_3 s rest hrest, finds_choice_iff, ih]
    simp

/-! ## What is read -/

/-- Whether the shape reads only characters of the class. A quoted value may hold any. -/
def ReadsOnly (member : Char → Bool) : Shape → Prop
  | word words => ∀ w ∈ words, ∀ e ∈ w, member e = true
  | boundary => True
  | run m | shortRun m => ∀ e, m e = true → member e = true
  | quoted _ _ => ∀ e, member e = true
  | seq a b | choice a b => a.ReadsOnly member ∧ b.ReadsOnly member

theorem readsOnly_word {member : Char → Bool} {words : List (List Char)}
    (h : ∀ w ∈ words, w.all member = true) : (word words).ReadsOnly member :=
  fun w hw => List.all_eq_true.mp (h w hw)

theorem ReadsOnly.exists_reads {member : Char → Bool} (hs : s.ReadsOnly member) {h : Hit}
    (hh : h ∈ s.hits c) : ∃ x, c.Reads x h.after ∧ ∀ e ∈ x, member e = true := by
  induction s generalizing c h with
  | word words =>
    obtain ⟨w, hw, hword⟩ := List.mem_filterMap.mp hh
    rw [afterWord?, Option.ite_none_right_eq_some] at hword
    obtain ⟨hbegins, hhit⟩ := hword
    rw [← Option.some.inj hhit]
    exact ⟨w, Cursor.reads_advance_iff.mp ⟨hbegins, rfl⟩, hs w hw⟩
  | boundary =>
    rw [hits_boundary] at hh
    split_ifs at hh
    · rw [List.mem_singleton.mp hh]
      exact ⟨[], Cursor.reads_nil_iff.mpr rfl, by simp⟩
    · cases hh
  | run m =>
    obtain ⟨p, hp, rfl⟩ := List.mem_map.mp hh
    obtain ⟨x, hreads, hx⟩ := mem_runPlaces_iff.mp (List.mem_reverse.mp hp)
    exact ⟨x, hreads, fun e he => hs e (hx e he)⟩
  | shortRun m =>
    obtain ⟨p, hp, rfl⟩ := List.mem_map.mp hh
    obtain ⟨x, hreads, hx⟩ := mem_runPlaces_iff.mp hp
    exact ⟨x, hreads, fun e he => hs e (hx e he)⟩
  | quoted quote test =>
    obtain ⟨v, hreads, -⟩ := mem_hits_quoted_iff.mp hh
    exact ⟨_, hreads, fun e _ => hs e⟩
  | seq a b iha ihb =>
    obtain ⟨h₁, hh₁, hh₂⟩ := List.mem_flatMap.mp hh
    obtain ⟨h₂, hmem, rfl⟩ := List.mem_map.mp hh₂
    obtain ⟨x, hx, hmember⟩ := iha hs.1 hh₁
    obtain ⟨y, hy, hmember'⟩ := ihb hs.2 hmem
    exact ⟨x ++ y, Cursor.reads_append_iff.mpr ⟨_, hx, hy⟩,
      List.forall_mem_append.mpr ⟨hmember, hmember'⟩⟩
  | choice a b iha ihb =>
    rcases List.mem_append.mp hh with hh | hh
    · exact iha hs.1 hh
    · exact ihb hs.2 hh

theorem readsOnly_true (s : Shape) : s.ReadsOnly fun _ => true := by
  induction s with
  | seq a b iha ihb => exact ⟨iha, ihb⟩
  | choice a b iha ihb => exact ⟨iha, ihb⟩
  | _ => simp [ReadsOnly]

/-- The quotes that the values of a shape stand in. -/
def quotes : Shape → List Char
  | word _ | boundary | run _ | shortRun _ => []
  | quoted quote _ => [quote]
  | seq a b | choice a b => a.quotes ++ b.quotes

theorem quotes_eq_nil_of_isBare (hs : s.isBare = true) : s.quotes = [] := by
  induction s with
  | word words => rfl
  | boundary => rfl
  | run member => rfl
  | shortRun member => rfl
  | quoted quote test => cases hs
  | seq a b iha ihb =>
    rw [isBare, Bool.and_eq_true] at hs
    rw [quotes, iha hs.1, ihb hs.2, List.nil_append]
  | choice a b iha ihb =>
    rw [isBare, Bool.and_eq_true] at hs
    rw [quotes, iha hs.1, ihb hs.2, List.nil_append]

/-- Whether every quoted value that the shape may hold has the property, given its quote. -/
def Values (p : Char → List Char → Prop) : Shape → Prop
  | word _ | boundary | run _ | shortRun _ => True
  | quoted quote test => ∀ v, test v = true → p quote v
  | seq a b | choice a b => a.Values p ∧ b.Values p

theorem values_of_isBare {p : Char → List Char → Prop} (hs : s.isBare = true) : s.Values p := by
  induction s with
  | word words | boundary | run member | shortRun member => trivial
  | quoted quote test => cases hs
  | seq a b iha ihb =>
    rw [isBare, Bool.and_eq_true] at hs
    exact ⟨iha hs.1, ihb hs.2⟩
  | choice a b iha ihb =>
    rw [isBare, Bool.and_eq_true] at hs
    exact ⟨iha hs.1, ihb hs.2⟩

/-- **A value stands in its match between two equal quotes** that it does not hold. -/
theorem Finds.exists_reads {p : Char → List Char → Prop} (h : s.Finds c v d) (hs : s.Values p) :
    ∃ q before after,
    c.Reads (before ++ q :: (v ++ q :: after)) d ∧ q ∉ v ∧ p q v := by
  induction s generalizing c d with
  | word words | boundary | run member | shortRun member => cases value_eq_none_of_isBare rfl h
  | quoted quote test =>
    obtain ⟨hreads, hquote, htest⟩ := finds_quoted_iff.mp h
    exact ⟨quote, [], [], hreads, hquote, hs v htest⟩
  | seq a b iha ihb =>
    obtain ⟨e, ⟨ha, w, hb⟩ | ⟨ha, hb⟩⟩ := finds_seq_iff.mp h
    · obtain ⟨q, before, after, hreads, hv⟩ := iha ha hs.1
      obtain ⟨x, hx, -⟩ := b.readsOnly_true.exists_reads hb
      refine ⟨q, before, after ++ x, ?_, hv⟩
      simpa using Cursor.reads_append_iff.mpr ⟨e, hreads, hx⟩
    · obtain ⟨x, hx, -⟩ := a.readsOnly_true.exists_reads ha
      obtain ⟨q, before, after, hreads, hv⟩ := ihb hb hs.2
      refine ⟨q, x ++ before, after, ?_, hv⟩
      simpa using Cursor.reads_append_iff.mpr ⟨e, hx, hreads⟩
  | choice a b iha ihb =>
    rcases finds_choice_iff.mp h with h | h
    · exact iha h hs.1
    · exact ihb h hs.2

theorem Values.imp {p p' : Char → List Char → Prop} (hp : ∀ q v, p q v → p' q v) (hs : s.Values p) :
    s.Values p' := by
  induction s with
  | word words | boundary | run member | shortRun member => trivial
  | quoted quote test => exact fun v hv => hp quote v (hs v hv)
  | seq a b iha ihb | choice a b iha ihb => exact ⟨iha hs.1, ihb hs.2⟩

theorem values_quotes (s : Shape) : s.Values fun q _ => q ∈ s.quotes := by
  induction s with
  | word words | boundary | run member | shortRun member => trivial
  | quoted quote test => exact fun _ _ => List.mem_singleton_self quote
  | seq a b iha ihb | choice a b iha ihb =>
    exact ⟨iha.imp fun _ _ => List.mem_append_left _, ihb.imp fun _ _ => List.mem_append_right _⟩

/-- The quotes are those of the shape. -/
theorem Finds.between (h : s.Finds c v d) : ∃ q ∈ s.quotes, ∃ before after,
    c.rest = before ++ q :: (v ++ q :: after) ∧ q ∉ v := by
  obtain ⟨q, before, after, ⟨hrest, -⟩, hquote, hq⟩ := h.exists_reads s.values_quotes
  exact ⟨q, hq, before, after ++ d.rest, by simp [hrest], hquote⟩

/-! ## The preferred way -/

/-- The shape fits, and this is the preferred way. -/
def Prefers (s : Shape) (c : Cursor) (h : Hit) : Prop :=
  (s.hits c).head? = some h

variable {h : Hit}

theorem Prefers.seq {e : Cursor} (ha : a.Prefers c ⟨none, e⟩) (hb : b.Prefers e h) :
    (Shape.seq a b).Prefers c h := by
  obtain ⟨as, ha⟩ := List.head?_eq_some_iff.mp ha
  obtain ⟨bs, hb⟩ := List.head?_eq_some_iff.mp hb
  rw [Prefers, hits_seq, ha, List.flatMap_cons, hb]
  rfl

theorem Prefers.choice_left (ha : a.Prefers c h) (b : Shape) : (choice a b).Prefers c h := by
  obtain ⟨as, ha⟩ := List.head?_eq_some_iff.mp ha
  rw [Prefers, hits_choice, ha]
  rfl

theorem Prefers.choice_right (hb : b.Prefers c h) (ha : a.hits c = []) : (choice a b).Prefers c h := by
  rw [Prefers, hits_choice, ha]
  exact hb

/-- A short run ends at once if what follows fits there. -/
theorem Prefers.shortRun {member : Char → Bool} (hb : b.Prefers c h) :
    (Shape.seq (Shape.shortRun member) b).Prefers c h := by
  obtain ⟨bs, hb⟩ := List.head?_eq_some_iff.mp hb
  obtain ⟨done, rest⟩ := c
  cases rest <;> simp [Prefers, hits, runPlaces, hb]

/-- A short run goes on where what follows does not fit. -/
theorem Prefers.shortRun_cons {member : Char → Bool} {z : Char} {done rest : List Char}
    (hs : (Shape.seq (Shape.shortRun member) b).Prefers ⟨z :: done, rest⟩ h)
    (hb : b.hits ⟨done, z :: rest⟩ = []) (hz : member z = true) :
    (Shape.seq (Shape.shortRun member) b).Prefers ⟨done, z :: rest⟩ h := by
  have hhits : (Shape.seq (Shape.shortRun member) b).hits ⟨done, z :: rest⟩ =
      (Shape.seq (Shape.shortRun member) b).hits ⟨z :: done, rest⟩ := by
    simp [hits, runPlaces, hz, hb]
  rw [Prefers, hhits]
  exact hs

theorem prefers_quoted {quote : Char} {test : List Char → Bool} (hv : quote ∉ v)
    (htest : test v = true) (done rest : List Char) :
    (quoted quote test).Prefers ⟨done, quote :: (v ++ quote :: rest)⟩
      ⟨some v, ⟨quote :: (v.reverse ++ quote :: done), rest⟩⟩ := by
  rw [Prefers, hits, quotedHit?_append hv, if_pos htest]
  rfl

/-! ## Matches in a text -/

theorem of_mem_matchesFrom {skip : Nat} {done rest : List Char} {m : Match}
    (h : m ∈ s.matchesFrom skip done rest) :
    m.start.text = done.reverse ++ rest ∧ ⟨m.value, m.after⟩ ∈ s.hits m.start := by
  induction rest generalizing skip done with
  | nil => cases skip <;> cases h
  | cons z r ih =>
    have hnext : (z :: done).reverse ++ r = done.reverse ++ z :: r := by simp
    cases skip with
    | succ skip => exact hnext ▸ ih h
    | zero =>
      rw [matchesFrom] at h
      cases hhead : (s.hits ⟨done, z :: r⟩).head? with
      | none =>
        rw [hhead] at h
        exact hnext ▸ ih h
      | some hit =>
        rw [hhead] at h
        rcases List.mem_cons.mp h with rfl | h
        · exact ⟨rfl, List.mem_of_head? hhead⟩
        · exact hnext ▸ ih h

theorem of_mem_matchesIn {text : List Char} {m : Match} (h : m ∈ s.matchesIn text) :
    m.start.text = text ∧ ⟨m.value, m.after⟩ ∈ s.hits m.start :=
  of_mem_matchesFrom h

theorem matchesFrom_eq_nil_iff {done rest : List Char} : s.matchesFrom 0 done rest = [] ↔
    ∀ x y, rest = x ++ y → y ≠ [] → s.hits ⟨x.reverse ++ done, y⟩ = [] := by
  induction rest generalizing done with
  | nil =>
    refine iff_of_true rfl fun x y hxy hy => ?_
    exact absurd (List.append_eq_nil_iff.mp hxy.symm).2 hy
  | cons z r ih =>
    rw [matchesFrom]
    cases hhead : (s.hits ⟨done, z :: r⟩).head? with
    | some hit =>
      refine iff_of_false (List.cons_ne_nil _ _) fun h => ?_
      have hnone : s.hits ⟨done, z :: r⟩ = [] := h [] (z :: r) rfl (List.cons_ne_nil z r)
      rw [hnone] at hhead
      cases hhead
    | none =>
      rw [ih]
      constructor
      · intro h x y hxy hy
        cases x with
        | nil =>
          obtain rfl : z :: r = y := hxy
          exact List.head?_eq_none_iff.mp hhead
        | cons z' x =>
          obtain ⟨rfl, hr⟩ := List.cons.inj hxy
          simpa using h x y hr hy
      · intro h x y hxy hy
        simpa using h (z :: x) y (by rw [hxy, List.cons_append]) hy

/-- A text has no match exactly if the shape fits at none of its places. -/
theorem matchesIn_eq_nil_iff {text : List Char} : s.matchesIn text = [] ↔
    ∀ c : Cursor, c.text = text → c.rest ≠ [] → s.hits c = [] := by
  rw [matchesIn, matchesFrom_eq_nil_iff]
  constructor
  · rintro h ⟨done, rest⟩ rfl hrest
    simpa using h done.reverse rest rfl hrest
  · intro h x y hxy hy
    exact h _ (by simp [Cursor.text, hxy]) hy

end Shape

end RouteAudit
