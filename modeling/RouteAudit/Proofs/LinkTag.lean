import Mathlib.Data.List.Infix
import Mathlib.Tactic.IntervalCases
import RouteAudit.Proofs.Extracted
import RouteAudit.Proofs.Vocabulary

/-!
# The link of an opening tag

An opening tag is an element with attributes (`OpenTag`). The form of links asks for a word boundary
behind the element and in front of the attribute, and inside a name a boundary stands at each hyphen,
dot and colon. So what it finds is the value of the first attribute whose name ends with `href` behind
a boundary, if a word of the configuration ends at a boundary in the element (`linksIn_text`). That is the
target of the tag exactly if no part of a name passes for the whole.

Proof. `held` lists the values of all ways to fit, the preferred one first. Over a tag the short run of
the form leads to the target at each place in turn; the target does not fit where the text goes on to no
equals sign (`silentOn_target_of_not_startsSign`), to one in the name only where the name is left with
`href` (`silentOn_target_name`), and in a value to none. So an attribute adds its value or nothing, and
the list is that of the attributes that show the target (`held_targets_attributes`).
-/

namespace RouteAudit

namespace Shape

variable {s a b : Shape} {c d : Cursor} {v : List Char}

/-! ## The values of all ways to fit -/

/-- The values that a shape may hold at a place, the preferred one first. -/
def held (s : Shape) (c : Cursor) : List (List Char) :=
  (s.hits c).filterMap (·.value)

theorem held_choice : (choice a b).held c = a.held c ++ b.held c :=
  List.filterMap_append

/-- Behind a part that holds no value, the values are those of the rest. -/
theorem held_seq_of_isBare (ha : a.isBare = true) :
    (seq a b).held c = (a.hits c).flatMap fun h => b.held h.after := by
  rw [held, hits_seq, List.filterMap_flatMap]
  refine List.flatMap_congr fun h hh => ?_
  rw [List.filterMap_map, held, value_eq_none_of_isBare ha hh]
  rfl

/-- A part with one way to fit leads to the rest. -/
theorem held_seq_of_hits_eq (ha : a.hits c = [⟨none, d⟩]) : (seq a b).held c = b.held d := by
  rw [held, hits_seq, ha, List.flatMap_singleton, List.filterMap_map]
  rfl

theorem held_seq_boundary : (seq boundary b).held c = if c.atBoundary then b.held c else [] := by
  rw [held_seq_of_isBare rfl, hits_boundary]
  split_ifs
  · exact List.flatMap_singleton ..
  · rfl

theorem held_seq_words {words : List String} : (seq (word (words.map String.toList)) b).held c =
    words.flatMap fun w =>
      if w.toList.isPrefixOf c.rest then b.held (c.advance w.toList.length) else [] := by
  rw [held_seq_of_isBare rfl, hits_word]
  induction words with
  | nil => rfl
  | cons w words ih =>
    rw [List.map_cons, List.filterMap_cons, List.flatMap_cons, ← ih, afterWord?]
    split_ifs <;> simp

theorem held_seq_shortRun_cons {member : Char → Bool} {z : Char} {done rest : List Char} :
    (seq (shortRun member) b).held ⟨done, z :: rest⟩ = b.held ⟨done, z :: rest⟩ ++
      if member z then (seq (shortRun member) b).held ⟨z :: done, rest⟩ else [] := by
  rw [held_seq_of_isBare rfl, held_seq_of_isBare rfl, hits, runPlaces]
  split_ifs <;> simp [hits]

theorem held_eq_nil (h : s.hits c = []) : s.held c = [] := by
  rw [held, h, List.filterMap_nil]

variable {done rest x y : List Char}

theorem silentOn_append_iff :
    s.SilentOn done (x ++ y) rest ↔
      s.SilentOn done x (y ++ rest) ∧ s.SilentOn (x.reverse ++ done) y rest := by
  induction x generalizing done with
  | nil => simp [SilentOn]
  | cons z x ih => simp [SilentOn, ih, and_assoc]

/-- A short run passes over a piece where the rest of the shape does not fit. -/
theorem SilentOn.held_append {member : Char → Bool} (h : b.SilentOn done x rest)
    (hx : ∀ z ∈ x, member z = true) : (seq (shortRun member) b).held ⟨done, x ++ rest⟩ =
      (seq (shortRun member) b).held ⟨x.reverse ++ done, rest⟩ := by
  induction x generalizing done with
  | nil => rfl
  | cons z x ih =>
    obtain ⟨hz, hx⟩ := List.forall_mem_cons.mp hx
    rw [List.cons_append, held_seq_shortRun_cons, held_eq_nil h.1, if_pos hz, ih h.2 hx]
    simp

/-! ## A text with one `<` -/

theorem matchesFrom_eq_nil_of_begins {z : Char} (hs : s.Begins [[z]]) {skip : Nat}
    {done rest : List Char} (hrest : z ∉ rest) : s.matchesFrom skip done rest = [] := by
  induction rest generalizing skip done with
  | nil => cases skip <;> rfl
  | cons z' r ih =>
    obtain ⟨hz, hr⟩ := not_or.mp (mt List.mem_cons.mpr hrest)
    cases skip with
    | succ skip => exact ih hr
    | zero =>
      have hhits : s.hits ⟨done, z' :: r⟩ = [] := by
        by_contra hne
        obtain ⟨w, hw, t, ht⟩ := hs _ hne
        obtain rfl := List.mem_singleton.mp hw
        exact hz (List.cons.inj ht).1
      rw [matchesFrom, hhits]
      exact ih hr

/-- Where the first word of the shape stands only at the front of the text, there is one match at most. -/
theorem filterMap_value_matchesIn {z : Char} {rest : List Char} (hs : s.Begins [[z]])
    (hvalued : s.isValued = true) (hrest : z ∉ rest) :
    (s.matchesIn (z :: rest)).filterMap (·.value) = (s.held ⟨[], z :: rest⟩).head?.toList := by
  rw [matchesIn, matchesFrom, held]
  cases hhits : s.hits ⟨[], z :: rest⟩ with
  | nil =>
    rw [List.head?_nil, matchesFrom_eq_nil_of_begins hs hrest]
    rfl
  | cons h hs' =>
    obtain ⟨v, hv⟩ := Option.isSome_iff_exists.mp
      (isSome_value_of_isValued hvalued (hhits ▸ List.mem_cons_self : h ∈ s.hits ⟨[], z :: rest⟩))
    simp [hv, matchesFrom_eq_nil_of_begins hs hrest]

/-! ## The attribute -/

/-- The attribute with a target, behind a word boundary. -/
def target : Shape :=
  seq boundary (signed (literal "href") '=' attributeValue)

theorem exists_rest_of_hits_target (h : target.hits c ≠ []) : ∃ x r,
    c.rest = "href".toList ++ (x ++ '=' :: r) ∧ ∀ z ∈ x, Text.isBlank z = true := by
  obtain ⟨h, hh⟩ := List.exists_mem_of_ne_nil _ h
  obtain ⟨v, hv⟩ := Option.isSome_iff_exists.mp (isSome_value_of_isValued rfl hh)
  have hfinds : target.Finds c v h.after := by
    rw [Finds, ← hv]
    exact hh
  rw [target, finds_seq_boundary_signed_iff rfl] at hfinds
  obtain ⟨e, f, x, y, hpasses, ⟨hreads, -⟩, hx, -, -⟩ := (finds_signed_iff rfl).mp hfinds
  obtain ⟨e', hboundary, hword⟩ := passes_seq_iff.mp hpasses
  obtain ⟨-, rfl⟩ := passes_boundary_iff.mp hboundary
  obtain ⟨hrest, -⟩ := passes_literal_iff.mp hword
  exact ⟨x, y ++ f.rest, by rw [hrest, hreads]; simp, hx⟩

/-- At the name of the attribute its value is held if a word begins there. -/
theorem held_target (hv : doubleQuote ∉ v) (done rest : List Char) :
    target.held ⟨done, "href=".toList ++ doubleQuote :: (v ++ doubleQuote :: rest)⟩ =
      if (⟨done, "href".toList⟩ : Cursor).atBoundary then [v] else [] := by
  have hvalue : attributeValue.held
      ⟨"href=".toList.reverse ++ done, doubleQuote :: (v ++ doubleQuote :: rest)⟩ = [v] := by
    have hfirst : (anyQuoted doubleQuote).held
        ⟨"href=".toList.reverse ++ done, doubleQuote :: (v ++ doubleQuote :: rest)⟩ = [v] := by
      rw [anyQuoted, held, hits, quotedHit?_append hv]
      rfl
    change (choice (anyQuoted doubleQuote) _).held _ = [v]
    rw [held_choice, hfirst]
    rfl
  rw [target, held_seq_boundary]
  have hsigned : (signed (literal "href") '=' attributeValue).held
      ⟨done, "href=".toList ++ doubleQuote :: (v ++ doubleQuote :: rest)⟩ = [v] := by
    rw [← hvalue]
    exact (held_seq_of_hits_eq rfl).trans ((held_seq_of_hits_eq rfl).trans
      ((held_seq_of_hits_eq rfl).trans (held_seq_of_hits_eq rfl)))
  rw [hsigned]
  rfl

end Shape

/-! ## Tags -/

/-- An attribute of an opening tag. -/
structure Attribute where
  name : String
  value : String
  deriving DecidableEq, Repr

/-- An opening tag with its attributes. -/
structure OpenTag where
  element : String
  attributes : List Attribute
  deriving DecidableEq, Repr

def Attribute.text (a : Attribute) : List Char :=
  ' ' :: (a.name.toList ++ '=' :: doubleQuote :: (a.value.toList ++ [doubleQuote]))

/-- What stands behind the element of a tag. -/
def OpenTag.back (tag : OpenTag) : List Char :=
  tag.attributes.flatMap Attribute.text ++ ['>']

def OpenTag.text (tag : OpenTag) : String :=
  String.ofList ('<' :: (tag.element.toList ++ tag.back))

/-- A character of the names in a tag. -/
def isNameChar (c : Char) : Bool :=
  Text.isWord c || c ∈ ['-', '.', ':']

/-- The name is made of words, and the value has no quotes and no signs of markup. -/
structure Attribute.IsPlain (a : Attribute) : Prop where
  name_ne_nil : a.name.toList ≠ []
  name : ∀ c ∈ a.name.toList, isNameChar c = true
  value : ∀ c ∈ a.value.toList, c ∉ [doubleQuote, singleQuote, backtick, '<', '>', '=']

structure OpenTag.IsPlain (tag : OpenTag) : Prop where
  element : ∀ c ∈ tag.element.toList, isNameChar c = true
  attributes : ∀ a ∈ tag.attributes, a.IsPlain

instance (a : Attribute) : Decidable a.IsPlain :=
  decidable_of_iff (a.name.toList ≠ [] ∧ a.name.toList.all isNameChar = true ∧
      a.value.toList.all (fun c => decide (c ∉ [doubleQuote, singleQuote, backtick, '<', '>', '='])) = true) <| by
    simp only [List.all_eq_true, decide_eq_true_iff]
    exact ⟨fun ⟨hne, hname, hvalue⟩ => ⟨hne, hname, hvalue⟩, fun h => ⟨h.name_ne_nil, h.name, h.value⟩⟩

instance (tag : OpenTag) : Decidable tag.IsPlain :=
  decidable_of_iff (tag.element.toList.all isNameChar = true ∧ ∀ a ∈ tag.attributes, a.IsPlain) <| by
    rw [List.all_eq_true]
    exact ⟨fun ⟨helement, hattributes⟩ => ⟨helement, hattributes⟩, fun h => ⟨h.element, h.attributes⟩⟩

/-- The codes of the blank characters. -/
def Text.blankCodes : List Nat :=
  [9, 10, 11, 12, 13, 0x20, 0x85, 0xA0, 0x1680, 0x2000, 0x2001, 0x2002, 0x2003, 0x2004, 0x2005, 0x2006,
    0x2007, 0x2008, 0x2009, 0x200A, 0x2028, 0x2029, 0x202F, 0x205F, 0x3000]

/-- No blank character belongs to a word. -/
theorem Text.isWord_eq_false_of_isBlank {c : Char} (h : isBlank c = true) : isWord c = false := by
  have hcode : c.toNat ∈ blankCodes := by
    simp only [isBlank, Bool.or_eq_true, Bool.and_eq_true, decide_eq_true_iff, beq_iff_eq] at h
    obtain (((((((((h | h) | h) | h) | h) | h) | h) | h) | h) | h) | h := h
    case inl.inl.inl.inl.inl.inl.inl.inl.inl.inl | inl.inl.inl.inl.inl.inr =>
      obtain ⟨hlow, hhigh⟩ := h
      interval_cases c.toNat <;> decide
    all_goals
      rw [h]
      decide
  have hcodes : ∀ n ∈ blankCodes, isWord (Char.ofNat n) = false := by decide +kernel
  rw [← c.ofNat_toNat]
  exact hcodes _ hcode

theorem isNameChar_head?_sign (rest : List Char) : ∀ z ∈ ('=' :: rest).head?, isNameChar z = false :=
  fun _ hz => Option.some.inj hz ▸ by decide

theorem isNameChar_eq_false_of_isBlank {c : Char} (h : Text.isBlank c = true) :
    isNameChar c = false := by
  have hsigns : c ∉ ['-', '.', ':'] := by
    simp only [List.mem_cons, List.not_mem_nil, or_false]
    rintro (rfl | rfl | rfl) <;> cases h
  rw [isNameChar, Text.isWord_eq_false_of_isBlank h, decide_eq_false hsigns]
  rfl

namespace Shape

variable {done rest w x u v : List Char}

/-- A sign stands here, perhaps behind blanks. -/
def StartsSign (rest : List Char) : Prop :=
  ∃ x r, rest = x ++ '=' :: r ∧ ∀ z ∈ x, Text.isBlank z = true

theorem startsSign_cons_iff {z : Char} :
    StartsSign (z :: rest) ↔ z = '=' ∨ Text.isBlank z = true ∧ StartsSign rest := by
  constructor
  · rintro ⟨x, r, heq, hx⟩
    cases x with
    | nil => exact Or.inl (List.cons.inj heq).1
    | cons z' x =>
      obtain ⟨rfl, hrest⟩ := List.cons.inj heq
      obtain ⟨hz, hx⟩ := List.forall_mem_cons.mp hx
      exact Or.inr ⟨hz, x, r, hrest, hx⟩
  · rintro (rfl | ⟨hz, x, r, rfl, hx⟩)
    · exact ⟨[], rest, rfl, by simp⟩
    · exact ⟨z :: x, r, rfl, List.forall_mem_cons.mpr ⟨hz, hx⟩⟩

theorem StartsSign.isNameChar_head? (h : StartsSign rest) : ∀ z ∈ rest.head?, isNameChar z = false := by
  obtain ⟨x, r, rfl, hx⟩ := h
  cases x with
  | nil => exact isNameChar_head?_sign r
  | cons z x => simpa using isNameChar_eq_false_of_isBlank (hx z List.mem_cons_self)

theorem takeWhile_isNameChar_append (hw : ∀ z ∈ w, isNameChar z = true)
    (hrest : ∀ z ∈ rest.head?, isNameChar z = false) : (w ++ rest).takeWhile isNameChar = w := by
  rw [List.takeWhile_append_of_pos hw]
  cases rest with
  | nil => simp
  | cons z r => rw [List.takeWhile_cons_of_neg (by simpa using hrest z rfl), List.append_nil]

/-- In front of the end of a name the target fits only if it is that name, with its sign behind it. -/
theorem eq_href_of_hits_target (hw : ∀ z ∈ w, isNameChar z = true)
    (hrest : ∀ z ∈ rest.head?, isNameChar z = false) (h : target.hits ⟨done, w ++ rest⟩ ≠ []) :
    w = "href".toList ∧ StartsSign rest := by
  obtain ⟨x, r, heq : w ++ rest = _, hx⟩ := exists_rest_of_hits_target h
  have hsign : StartsSign (x ++ '=' :: r) := ⟨x, r, rfl, hx⟩
  have hword : w = "href".toList := by
    rw [← takeWhile_isNameChar_append hw hrest, heq]
    exact takeWhile_isNameChar_append (List.all_eq_true.mp rfl) hsign.isNameChar_head?
  rw [hword] at heq
  exact ⟨hword, List.append_cancel_left heq ▸ hsign⟩

/-- The target does not fit in a piece in front of which no sign stands. -/
theorem silentOn_target_of_not_startsSign (hx : ∀ z ∈ x, isNameChar z = true)
    (hrest : ∀ z ∈ rest.head?, isNameChar z = false) (hsign : ¬ StartsSign rest) :
    target.SilentOn done x rest := by
  induction x generalizing done with
  | nil => trivial
  | cons z x ih =>
    refine ⟨?_, ih (List.forall_mem_cons.mp hx).2⟩
    by_contra hhits
    exact hsign (eq_href_of_hits_target hx hrest hhits).2

/-- The target does not fit where it does not begin. -/
theorem hits_target_of_ne {z : Char} (hz : z ≠ 'h') : target.hits ⟨done, z :: rest⟩ = [] := by
  by_contra hhits
  obtain ⟨x, r, heq, -⟩ := exists_rest_of_hits_target hhits
  exact hz (List.cons.inj heq).1

/-- The target does not fit inside a value, for it would need a sign before the quote. -/
theorem silentOn_target_value (hv : '=' ∉ v) : target.SilentOn done v (doubleQuote :: rest) := by
  induction v generalizing done with
  | nil => trivial
  | cons z v ih =>
    refine ⟨?_, ih (List.not_mem_of_not_mem_cons hv)⟩
    by_contra hhits
    obtain ⟨x, r, heq, hx⟩ := exists_rest_of_hits_target hhits
    have hquote : doubleQuote ∉ "href".toList ++ (x ++ ['=']) := by
      have hx : doubleQuote ∉ x := fun hmem => by cases hx _ hmem
      simpa [doubleQuote] using hx
    obtain ⟨u, hu, -⟩ := Text.eq_append_of_append_sep_eq (a := z :: v) (b := rest) (r := r) hquote
      (by simpa using heq)
    exact hv (by simp [hu])

/-- In the name of an attribute the target fits only where the name ends with it behind a boundary. -/
theorem silentOn_target_name {a : List Char} (hx : ∀ z ∈ x ++ a, isNameChar z = true)
    (h : ∀ u w, x = u ++ w → w ≠ [] → w ++ a = "href".toList →
      (⟨u.reverse ++ done, "href".toList⟩ : Cursor).atBoundary = false) :
    target.SilentOn done x (a ++ '=' :: rest) := by
  induction x generalizing done with
  | nil => trivial
  | cons z x ih =>
    refine ⟨?_, ih (List.forall_mem_cons.mp hx).2 fun u w hu => ?_⟩
    · by_contra hhits
      rw [← List.append_assoc, ← List.cons_append] at hhits
      obtain ⟨hword, -⟩ := eq_href_of_hits_target hx (isNameChar_head?_sign rest) hhits
      have hboundary : (⟨done, "href".toList ++ '=' :: rest⟩ : Cursor).atBoundary = false :=
        h [] (z :: x) rfl (List.cons_ne_nil z x) hword
      rw [← List.cons_append, hword, target, hits_seq, hits_boundary, hboundary] at hhits
      exact hhits rfl
    · simpa using h (z :: u) w (by simp [hu])

end Shape

/-! ## What is found in a tag -/

instance (words : List String) (t : String) : Decidable (HasLastWord words t) :=
  decidable_of_iff (∃ w ∈ words, ∃ u ∈ t.toList.inits, t.toList = u ++ w.toList ∧
    (⟨u.reverse, w.toList⟩ : Cursor).atBoundary = true) <| by
    refine exists_congr fun w => and_congr_right fun _ => exists_congr fun u => ?_
    rw [and_iff_right_iff_imp]
    rintro ⟨h, -⟩
    exact (List.mem_inits u _).mpr ⟨_, h.symm⟩

instance (words : List String) (t : String) : Decidable (HasFirstWord words t) :=
  decidable_of_iff (∃ w ∈ words, ∃ u ∈ t.toList.tails, t.toList = w.toList ++ u ∧
    (⟨w.toList.reverse, u⟩ : Cursor).atBoundary = true) <| by
    refine exists_congr fun w => and_congr_right fun _ => exists_congr fun u => ?_
    rw [and_iff_right_iff_imp]
    rintro ⟨h, -⟩
    exact (List.mem_tails u _).mpr ⟨_, h.symm⟩

/-- The name of the attribute ends with the word that is looked for, behind a word boundary. -/
def Attribute.ShowsTarget (a : Attribute) : Prop :=
  HasLastWord ["href"] a.name

instance (a : Attribute) : Decidable a.ShowsTarget :=
  inferInstanceAs (Decidable (HasLastWord ["href"] a.name))

variable {a : Attribute}

theorem Attribute.showsTarget_iff : a.ShowsTarget ↔
    ∃ u, a.name.toList = u ++ "href".toList ∧ (⟨u.reverse, "href".toList⟩ : Cursor).atBoundary = true := by
  rw [Attribute.ShowsTarget, HasLastWord]
  simp

theorem Attribute.IsPlain.notMem_text (ha : a.IsPlain) : '>' ∉ a.text := by
  have hname : '>' ∉ a.name.toList := fun hmem => absurd (ha.name _ hmem) (by decide)
  have hvalue : '>' ∉ a.value.toList := fun hmem => ha.value _ hmem (by decide)
  simp [Attribute.text, hname, hvalue, doubleQuote]

namespace Shape

variable {done rest : List Char}

/-- The run over the attributes of a tag and the target behind it. -/
def targets : Shape :=
  seq (shortRun (· ≠ '>')) target

theorem held_targets_cons {z : Char} (hz : z ≠ '>') : targets.held ⟨done, z :: rest⟩ =
    target.held ⟨done, z :: rest⟩ ++ targets.held ⟨z :: done, rest⟩ := by
  rw [targets, held_seq_shortRun_cons, if_pos (decide_eq_true hz)]

theorem SilentOn.held_targets {x : List Char} (h : target.SilentOn done x rest) (hx : '>' ∉ x) :
    targets.held ⟨done, x ++ rest⟩ = targets.held ⟨x.reverse ++ done, rest⟩ :=
  h.held_append fun _ hz => decide_eq_true fun heq => hx (heq ▸ hz)

/-- Behind the blank in front of it, the name of an attribute begins like a text of its own. -/
theorem atBoundary_name {u : List Char} : (⟨u.reverse ++ ' ' :: done, "href".toList⟩ : Cursor).atBoundary =
    (⟨u.reverse, "href".toList⟩ : Cursor).atBoundary := by
  have hname : (⟨(done.reverse ++ ' ' :: u).reverse, "href".toList ++ []⟩ : Cursor).atBoundary =
      (⟨u.reverse, "href".toList⟩ : Cursor).atBoundary := atBoundary_append rfl (by decide)
  simpa using hname

/-- Behind the name of an attribute the target does not fit. -/
theorem silentOn_target_back (ha : a.IsPlain) : target.SilentOn done
    ('=' :: doubleQuote :: (a.value.toList ++ [doubleQuote])) rest := by
  have hvalue : '=' ∉ a.value.toList := fun hmem => ha.value _ hmem (by decide)
  refine ⟨hits_target_of_ne (by decide), hits_target_of_ne (by decide), ?_⟩
  exact silentOn_append_iff.mpr
    ⟨silentOn_target_value hvalue, hits_target_of_ne (by decide), trivial⟩

theorem held_targets_of_not_showsTarget (ha : a.IsPlain) (hshows : ¬ a.ShowsTarget) :
    targets.held ⟨done, a.text ++ rest⟩ = targets.held ⟨a.text.reverse ++ done, rest⟩ := by
  have hname : ∀ z ∈ a.name.toList ++ [], isNameChar z = true := by simpa using ha.name
  have hfront : target.SilentOn (' ' :: done) a.name.toList
      ([] ++ '=' :: (doubleQuote :: (a.value.toList ++ doubleQuote :: rest))) := by
    refine silentOn_target_name hname fun u w hu _ hw => ?_
    rw [List.append_nil] at hw
    rw [atBoundary_name, ← Bool.not_eq_true]
    exact fun hboundary => hshows (Attribute.showsTarget_iff.mpr ⟨u, hw ▸ hu, hboundary⟩)
  have hsilent : target.SilentOn done a.text rest := ⟨hits_target_of_ne (by decide),
    silentOn_append_iff.mpr ⟨by simpa using hfront, silentOn_target_back ha⟩⟩
  exact hsilent.held_targets ha.notMem_text

/-- The run passes over the name up to the word and finds the value, then it passes over what is left. -/
theorem held_targets_of_showsTarget (ha : a.IsPlain) (hshows : a.ShowsTarget) :
    targets.held ⟨done, a.text ++ rest⟩ =
      a.value.toList :: targets.held ⟨a.text.reverse ++ done, rest⟩ := by
  obtain ⟨u, hname, hboundary⟩ := Attribute.showsTarget_iff.mp hshows
  obtain ⟨x, hx⟩ : ∃ x, x = "ref".toList ++ '=' :: doubleQuote :: (a.value.toList ++ [doubleQuote]) :=
    ⟨_, rfl⟩
  have hsplit : a.text = (' ' :: u) ++ 'h' :: x := by simp [hx, Attribute.text, hname]
  have hrest : 'h' :: (x ++ rest) =
      "href".toList ++ '=' :: (doubleQuote :: (a.value.toList ++ doubleQuote :: rest)) := by simp [hx]
  have hu : '>' ∉ ' ' :: u := fun hmem => ha.notMem_text (hsplit ▸ List.mem_append_left _ hmem)
  have hx' : '>' ∉ x := fun hmem => ha.notMem_text (by simp [hsplit, hmem])
  have hfront : target.SilentOn done (' ' :: u) ('h' :: (x ++ rest)) := by
    rw [hrest]
    refine ⟨hits_target_of_ne (by decide), silentOn_target_name (hname ▸ ha.name) fun u' w _ hw heq => ?_⟩
    exact absurd (List.append_left_eq_self.mp heq) hw
  have hhref : target.held ⟨u.reverse ++ ' ' :: done, 'h' :: (x ++ rest)⟩ = [a.value.toList] := by
    rw [hrest]
    exact (held_target (fun hmem => ha.value _ hmem (by decide)) _ rest).trans
      (if_pos (atBoundary_name.trans hboundary))
  have hback : target.SilentOn ('h' :: (u.reverse ++ ' ' :: done)) x rest := by
    rw [hx]
    refine silentOn_append_iff.mpr ⟨?_, silentOn_target_back ha⟩
    exact ⟨hits_target_of_ne (by decide), hits_target_of_ne (by decide),
      hits_target_of_ne (by decide), trivial⟩
  calc targets.held ⟨done, a.text ++ rest⟩
    _ = targets.held ⟨done, (' ' :: u) ++ 'h' :: (x ++ rest)⟩ := by rw [hsplit]; simp
    _ = targets.held ⟨u.reverse ++ ' ' :: done, 'h' :: (x ++ rest)⟩ := by
      simpa using hfront.held_targets hu
    _ = a.value.toList :: targets.held ⟨'h' :: (u.reverse ++ ' ' :: done), x ++ rest⟩ := by
      rw [held_targets_cons (by decide), hhref, List.singleton_append]
    _ = a.value.toList :: targets.held ⟨a.text.reverse ++ done, rest⟩ := by
      rw [hback.held_targets hx', hsplit]
      simp

/-- The values of the targets in a tag are those of the attributes that show one, in their order. -/
theorem held_targets_attributes {attributes : List Attribute} (h : ∀ a ∈ attributes, a.IsPlain) :
    targets.held ⟨done, attributes.flatMap Attribute.text ++ ['>']⟩ =
      (attributes.filter (·.ShowsTarget)).map (·.value.toList) := by
  induction attributes generalizing done with
  | nil =>
    have hend : target.hits ⟨done, ['>']⟩ = [] := hits_target_of_ne (by decide)
    rw [targets, List.flatMap_nil, List.nil_append, held_seq_shortRun_cons, held_eq_nil hend]
    rfl
  | cons a attributes ih =>
    obtain ⟨ha, hattributes⟩ := List.forall_mem_cons.mp h
    rw [List.flatMap_cons, List.append_assoc, List.filter_cons]
    split_ifs with hshows
    · rw [held_targets_of_showsTarget ha (of_decide_eq_true hshows), ih hattributes, List.map_cons]
    · rw [held_targets_of_not_showsTarget ha fun h => hshows (decide_eq_true h), ih hattributes]

end Shape

namespace OpenTag

variable {tag : OpenTag} {words : List String}

/-- Behind its element a tag ends or goes on with a blank, and no sign follows it. -/
theorem exists_back_eq (h : tag.IsPlain) :
    ∃ z r, tag.back = z :: r ∧ z ∈ [' ', '>'] ∧ ¬ Shape.StartsSign tag.back := by
  have hattributes := h.attributes
  unfold back
  cases hcases : tag.attributes with
  | nil =>
    refine ⟨'>', [], rfl, by decide, ?_⟩
    rw [List.flatMap_nil, List.nil_append, Shape.startsSign_cons_iff]
    rintro (heq | ⟨hblank, -⟩)
    · cases heq
    · cases hblank
  | cons a attributes =>
    have ha := hattributes a (hcases ▸ List.mem_cons_self)
    obtain ⟨c, n, hname⟩ := List.exists_cons_of_ne_nil ha.name_ne_nil
    refine ⟨' ', _, rfl, by decide, ?_⟩
    rw [List.flatMap_cons, Attribute.text, hname, List.cons_append, List.cons_append,
      Shape.startsSign_cons_iff]
    rintro (heq | ⟨-, hsign⟩)
    · cases heq
    · have hc := hsign.isNameChar_head? c rfl
      rw [ha.name c (hname ▸ List.mem_cons_self)] at hc
      cases hc

theorem notMem_back (h : tag.IsPlain) : '<' ∉ tag.element.toList ++ tag.back := by
  have helement : '<' ∉ tag.element.toList := fun hmem => absurd (h.element _ hmem) (by decide)
  have hattributes : ∀ a ∈ tag.attributes, '<' ∉ a.text := by
    intro a ha
    have hname : '<' ∉ a.name.toList :=
      fun hmem => absurd ((h.attributes a ha).name _ hmem) (by decide)
    have hvalue : '<' ∉ a.value.toList :=
      fun hmem => (h.attributes a ha).value _ hmem (by decide)
    simp [Attribute.text, hname, hvalue, doubleQuote]
  simpa [back, helement] using hattributes

/-- A word finds the targets of a tag if it ends at a boundary in the element. -/
theorem held_targets_of_word (h : tag.IsPlain) {w : String} (hw : IsIdentifier w) :
    (if w.toList.isPrefixOf (tag.element.toList ++ tag.back) then
      (Shape.seq .boundary Shape.targets).held
        (Cursor.advance ⟨['<'], tag.element.toList ++ tag.back⟩ w.toList.length) else []) =
      if HasFirstWord [w] tag.element then
        (tag.attributes.filter (·.ShowsTarget)).map (·.value.toList) else [] := by
  obtain ⟨z, r, hback, hz, hsign⟩ := exists_back_eq h
  have hzw : z ∉ w.toList := hw.notMem (by rcases List.mem_pair.mp hz with rfl | rfl <;> rfl)
  have hzword : Text.isWord z = false := by rcases List.mem_pair.mp hz with rfl | rfl <;> rfl
  have hzname : isNameChar z = false := by rcases List.mem_pair.mp hz with rfl | rfl <;> decide
  by_cases hprefix : w.toList.isPrefixOf (tag.element.toList ++ tag.back) = true
  · obtain ⟨rest, hrest⟩ := List.isPrefixOf_iff_prefix.mp hprefix
    obtain ⟨u, hu, -⟩ := Text.eq_append_of_append_sep_eq hzw (hback ▸ hrest.symm)
    have hadvance : Cursor.advance ⟨['<'], tag.element.toList ++ tag.back⟩ w.toList.length =
        ⟨w.toList.reverse ++ ['<'], u ++ tag.back⟩ := by
      simp [Cursor.advance, hu]
    have hfirst : (⟨w.toList.reverse ++ ['<'], u ++ tag.back⟩ : Cursor).atBoundary = true ↔
        HasFirstWord [w] tag.element := by
      rw [hback, Shape.atBoundary_append_right hzword hw.ne_nil, HasFirstWord]
      simp [hu]
    have hchars : ∀ c ∈ u, isNameChar c = true :=
      fun c hc => h.element c (hu ▸ List.mem_append_right _ hc)
    have hsilent : Shape.target.SilentOn (w.toList.reverse ++ ['<']) u tag.back :=
      Shape.silentOn_target_of_not_startsSign hchars (by simpa [hback] using hzname) hsign
    rw [if_pos hprefix, hadvance, Shape.held_seq_boundary]
    refine if_congr hfirst ?_ rfl
    rw [hsilent.held_targets fun hmem => absurd (hchars _ hmem) (by decide)]
    exact Shape.held_targets_attributes h.attributes
  · rw [if_neg hprefix, if_neg]
    rintro ⟨w', hw', u, hu, -⟩
    obtain rfl := List.mem_singleton.mp hw'
    rw [hu, List.append_assoc, List.isPrefixOf_iff_prefix] at hprefix
    exact hprefix (List.prefix_append ..)

/-- The values that the link form finds in a tag, the preferred one first. -/
theorem held_linkShape (h : tag.IsPlain) (hwords : ∀ w ∈ words, IsIdentifier w) :
    (linkShape (Shape.word (words.map String.toList))).held ⟨[], '<' :: (tag.element.toList ++ tag.back)⟩ =
      words.flatMap fun w => if HasFirstWord [w] tag.element then
        (tag.attributes.filter (·.ShowsTarget)).map (·.value.toList) else [] := by
  have hlink : linkShape (Shape.word (words.map String.toList)) = .seq (.word [['<']])
      (.seq (.word (words.map String.toList)) (.seq .boundary Shape.targets)) := rfl
  rw [hlink, Shape.held_seq_of_hits_eq (d := ⟨['<'], tag.element.toList ++ tag.back⟩) rfl,
    Shape.held_seq_words]
  exact List.flatMap_congr fun w hw => held_targets_of_word h (hwords w hw)

theorem head?_flatMap_ite {α β : Type} {p : α → Prop} [DecidablePred p] {xs : List α} {l : List β} :
    (xs.flatMap fun x => if p x then l else []).head? = if ∃ x ∈ xs, p x then l.head? else none := by
  induction xs with
  | nil => simp
  | cons x xs ih =>
    rw [List.flatMap_cons, List.head?_append, ih]
    by_cases hx : p x
    · cases l <;> simp [hx]
    · simp [hx]

theorem hasFirstWord_iff {t : String} : HasFirstWord words t ↔ ∃ w ∈ words, HasFirstWord [w] t := by
  simp [HasFirstWord]

/-- What the form of links finds in a tag: the value of the first attribute that shows the target, if a
word shows in the element. -/
def shownTarget? (tag : OpenTag) (words : List String) : Option String :=
  if HasFirstWord words tag.element then
    (tag.attributes.find? (·.ShowsTarget)).map (·.value)
  else none

/-- The target of a link: the value of the attribute `href`, if the tag is one of the elements. -/
def target? (tag : OpenTag) (elements : List String) : Option String :=
  if tag.element ∈ elements then (tag.attributes.find? (·.name = "href")).map (·.value) else none

/-- The form of links finds one value in a tag at most, the preferred one. -/
theorem filterMap_value_matchesIn (h : tag.IsPlain) (hwords : ∀ w ∈ words, IsIdentifier w) :
    ((linkShape (Shape.word (words.map String.toList))).matchesIn tag.text.toList).filterMap (·.value) =
      ((tag.shownTarget? words).map String.toList).toList := by
  have hbegins : (linkShape (Shape.word (words.map String.toList))).Begins [['<']] :=
    Shape.begins_word.seq _
  rw [text, String.toList_ofList, Shape.filterMap_value_matchesIn hbegins rfl (notMem_back h),
    held_linkShape h hwords, head?_flatMap_ite, shownTarget?, if_congr hasFirstWord_iff.symm rfl rfl]
  split_ifs
  · rw [List.head?_map, List.head?_filter, Option.map_map]
    rfl
  · rfl

end OpenTag

/-- The addresses of the links in a text, in their order. -/
def ScannerConfig.linksIn (config : ScannerConfig) (content file : String) : List String :=
  ((extractReferences (Form.ofConfig config) content file).filter (·.kind = .link)).map (·.raw)

theorem ScannerConfig.linksIn_eq {config : ScannerConfig} {s : Shape}
    (hshape : Form.shape? config .link = some s) (content file : String) :
    config.linksIn content file =
      ((s.matchesIn content.toList).filterMap (·.value)).map String.ofList := by
  rw [linksIn, filter_extractReferences, referencesOf, hshape, Option.map_some, Option.getD_some,
    Form.references, List.map_filterMap, List.map_filterMap]
  refine List.filterMap_congr fun m _ => ?_
  rw [Form.referenceOf?, Option.map_map]
  rfl

/-- **The link of a tag** is the value of the first attribute that shows the target, if a word shows in
the element. It is the target of the tag exactly if no foreign element shows a word along with a target,
and a link shows no other value before that of its `href`. -/
theorem OpenTag.linksIn_text (tag : OpenTag) (h : tag.IsPlain) (file : String) :
    let config : ScannerConfig := {}
    config.linksIn tag.text file = (tag.shownTarget? config.linkElements).toList ∧
      (config.linksIn tag.text file = (tag.target? config.linkElements).toList ↔
        (tag.element ∈ config.linkElements ∨ ¬ HasFirstWord config.linkElements tag.element ∨
          ∀ a ∈ tag.attributes, ¬ a.ShowsTarget) ∧
        (tag.element ∈ config.linkElements → (tag.attributes.find? (·.ShowsTarget)).map (·.value) =
          (tag.attributes.find? (·.name = "href")).map (·.value))) := by
  intro config
  have hlinks : config.linksIn tag.text file = (tag.shownTarget? config.linkElements).toList := by
    have hwords : ∀ w ∈ config.linkElements, IsIdentifier w := by decide
    rw [ScannerConfig.linksIn_eq rfl, filterMap_value_matchesIn h hwords]
    cases tag.shownTarget? config.linkElements <;> simp
  refine ⟨hlinks, ?_⟩
  have htoList : ∀ x y : Option String, x.toList = y.toList ↔ x = y := by
    intro x y
    cases x <;> cases y <;> simp
  rw [hlinks, htoList, shownTarget?, target?]
  by_cases helement : tag.element ∈ config.linkElements
  · have hwords : ∀ e ∈ config.linkElements, HasFirstWord config.linkElements e := by decide
    have hword := hwords _ helement
    simp [helement, hword]
  · by_cases hword : HasFirstWord config.linkElements tag.element
    · simp [helement, hword]
    · simp [helement, hword]

/-- The attribute may stand anywhere in the tag. -/
theorem OpenTag.linksIn_text_link :
    let tag : OpenTag := ⟨"Link", [⟨"class", "big"⟩, ⟨"href", "/x"⟩]⟩
    tag.IsPlain ∧ ({} : ScannerConfig).linksIn tag.text "a.tsx" = ["/x"] := by
  have hplain : (⟨"Link", [⟨"class", "big"⟩, ⟨"href", "/x"⟩]⟩ : OpenTag).IsPlain := by decide
  exact ⟨hplain, (OpenTag.linksIn_text _ hplain "a.tsx").1⟩

/-- A boundary stands inside a name, so a part of it passes for an element or for the attribute. -/
theorem OpenTag.linksIn_text_of_parts :
    let config : ScannerConfig := {}
    let foreign : OpenTag := ⟨"a-b", [⟨"href", "/x"⟩]⟩
    let link : OpenTag := ⟨"Link", [⟨"data-href", "/x"⟩, ⟨"href", "/y"⟩]⟩
    (foreign.IsPlain ∧ foreign.text = "<a-b href=\x22/x\x22>" ∧
      foreign.target? config.linkElements = none ∧ config.linksIn foreign.text "a.tsx" = ["/x"]) ∧
    (link.IsPlain ∧ link.text = "<Link data-href=\x22/x\x22 href=\x22/y\x22>" ∧
      link.target? config.linkElements = some "/y" ∧ config.linksIn link.text "a.tsx" = ["/x"]) := by
  decide

end RouteAudit
