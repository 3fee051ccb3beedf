import RouteAudit.Proofs.Interpolated
import RouteAudit.Proofs.LineText
import RouteAudit.Proofs.Lines
import RouteAudit.Proofs.Signed

/-!
# Extracted references

Every reference of a text stands where a match of its kind holds it: its address stands between two equal
quotes in the match, its line and its context are those of the place where the match begins
(`Reference.StandsAt`). The references are grouped by kind, and within a kind they follow the matches,
which do not overlap and never go back (`extractReferences_sound`).

Proof. `Shape.Values` says of a shape what every value in it has, and `isValued` that a match always holds
one; both are read off the shape of a kind (`Form.values_of_shape?`). The matches are found one behind the
other, each no earlier than the end of the one before (`pairwise_matchesFrom`), so neither their places nor
their lines go back.
-/

namespace RouteAudit

namespace Shape

variable {s : Shape}

/-! ## The order of the matches -/

theorem le_offset_of_mem_matchesFrom {skip : Nat} {done rest : List Char} {m : Match}
    (h : m ∈ s.matchesFrom skip done rest) : done.length + skip ≤ m.start.offset := by
  induction rest generalizing skip done with
  | nil => cases skip <;> cases h
  | cons z r ih =>
    cases skip with
    | succ skip =>
      have hle := ih h
      rw [List.length_cons] at hle
      omega
    | zero =>
      rw [matchesFrom] at h
      cases hhead : (s.hits ⟨done, z :: r⟩).head? with
      | none =>
        rw [hhead] at h
        have hle := ih h
        rw [List.length_cons] at hle
        omega
      | some hit =>
        rw [hhead] at h
        rcases List.mem_cons.mp h with rfl | h
        · exact Nat.le_refl _
        · have hle := ih h
          rw [List.length_cons] at hle
          omega

/-- A match ends before the next one begins. -/
theorem pairwise_matchesFrom {skip : Nat} {done rest : List Char} :
    (s.matchesFrom skip done rest).Pairwise fun m m' => m.after.offset ≤ m'.start.offset := by
  induction rest generalizing skip done with
  | nil => cases skip <;> exact .nil
  | cons z r ih =>
    cases skip with
    | succ skip => exact ih
    | zero =>
      rw [matchesFrom]
      cases hhead : (s.hits ⟨done, z :: r⟩).head? with
      | none => exact ih
      | some hit =>
        refine .cons (fun m hm => ?_) ih
        have hle := le_offset_of_mem_matchesFrom hm
        rw [List.length_cons] at hle
        change hit.after.offset ≤ m.start.offset
        omega

end Shape

/-! ## The forms -/

/-- The value may stand in these quotes in a reference of the kind. -/
structure ReferenceKind.Allows (kind : ReferenceKind) (quote : Char) (value : List Char) : Prop where
  mem_quoteChars : quote ∈ quoteChars
  template : kind = .template → quote = backtick ∧ value.head? = some '/' ∧ ['$', '{'] <:+: value
  property : kind = .property → quote ≠ backtick ∧ value.head? = some '/'

namespace Form

open Shape

variable {config : ScannerConfig} {kind : ReferenceKind} {s : Shape}

theorem isBare_of_anyWord? {words : List String} (h : anyWord? words = some s) : s.isBare = true := by
  rw [anyWord?, Option.ite_none_left_eq_some] at h
  rw [← Option.some.inj h.2]
  rfl

theorem isBare_of_calleeShape? {handle : String} {verbs functions : List String}
    (h : calleeShape? handle verbs functions = some s) : s.isBare = true := by
  have hmethod : ∀ m, (if handle.isEmpty then none else anyWord? verbs).map (methodShape handle) =
      some m → m.isBare = true := by
    intro m hm
    obtain ⟨verb, hverb, rfl⟩ := Option.map_eq_some_iff.mp hm
    rw [Option.ite_none_left_eq_some] at hverb
    simp [methodShape, inOrder, literal, blanks, isBare, isBare_of_anyWord? hverb.2]
  have hfunction : ∀ f, ((anyWord? functions).map fun f => seq boundary f) = some f →
      f.isBare = true := by
    intro f hf
    obtain ⟨word, hword, rfl⟩ := Option.map_eq_some_iff.mp hf
    rw [isBare, isBare_of_anyWord? hword]
    rfl
  unfold calleeShape? at h
  dsimp only at h
  split at h
  case h_1 => cases h
  case h_2 m hm hf => exact Option.some.inj h ▸ hmethod m hm
  case h_3 f hm hf => exact Option.some.inj h ▸ hfunction f hf
  case h_4 m f hm hf =>
    rw [← Option.some.inj h, isBare, hmethod m hm, hfunction f hf]
    rfl

theorem isBare_openerShape (calls : List String) : (openerShape calls).isBare = true := by
  unfold openerShape
  cases h : anyWord? calls with
  | none => rfl
  | some call =>
    have hcall := isBare_of_anyWord? h
    simp [inOrder, oneOf, literal, blanks, nothing, isBare, hcall]

theorem isRooted_iff {v : List Char} : isRooted v = true ↔ v.head? = some '/' :=
  decide_eq_true_iff

theorem isRootedTemplate_iff {v : List Char} :
    isRootedTemplate v = true ↔ v.head? = some '/' ∧ ['$', '{'] <:+: v := by
  rw [isRootedTemplate, Bool.and_eq_true, isRooted_iff, Address.hasInterpolation_iff_isInfix]

theorem values_anyQuoted {q : Char} (hq : q ∈ quoteChars) (htemplate : kind ≠ .template)
    (hproperty : kind ≠ .property) : (anyQuoted q).Values kind.Allows :=
  fun _ _ => ⟨hq, fun h => absurd h htemplate, fun h => absurd h hproperty⟩

theorem values_quoted_isRooted {q : Char} (hq : q ∈ quoteChars) (hbacktick : q ≠ backtick) :
    (quoted q isRooted).Values ReferenceKind.property.Allows :=
  fun _ hv => ⟨hq, fun heq => absurd heq (by decide), fun _ => ⟨hbacktick, isRooted_iff.mp hv⟩⟩

/-- Every match of a kind of references holds a value in quotes that the kind allows. -/
theorem values_of_shape? (h : shape? config kind = some s) :
    s.Values kind.Allows ∧ s.isValued = true := by
  have hbare : ∀ b : Shape, b.isBare = true → b.Values kind.Allows := fun _ => values_of_isBare
  have hquoted : ∀ q ∈ quoteChars, kind ≠ .template → kind ≠ .property →
      (anyQuoted q).Values kind.Allows := fun _ => values_anyQuoted
  simp only [quoteChars, List.forall_mem_cons] at hquoted
  cases kind with
  | link =>
    obtain ⟨element, helement, rfl⟩ := Option.map_eq_some_iff.mp h
    have helement := hbare element (isBare_of_anyWord? helement)
    constructor
    · simp [linkShape, inOrder, oneOf, braced, literal, blanks, Values, helement, hquoted]
    · simp [linkShape, inOrder, oneOf, braced, anyQuoted, isValued]
  | navigation =>
    obtain ⟨callee, hcallee, rfl⟩ := Option.map_eq_some_iff.mp h
    have hcallee := hbare callee (isBare_of_calleeShape? hcallee)
    constructor
    · simp [navigationShape, inOrder, oneOf, literal, blanks, Values, hcallee, hquoted]
    · simp [navigationShape, inOrder, oneOf, anyQuoted, isValued]
  | template =>
    obtain rfl := Option.some.inj h
    refine ⟨⟨hbare _ (isBare_openerShape _), fun v hv => ?_⟩, Bool.or_true _⟩
    exact ⟨by decide, fun _ => ⟨rfl, isRootedTemplate_iff.mp hv⟩, fun heq => absurd heq (by decide)⟩
  | property =>
    obtain ⟨key, hkey, rfl⟩ := Option.map_eq_some_iff.mp h
    have hkey := hbare key (isBare_of_anyWord? hkey)
    have hdouble : (quoted doubleQuote isRooted).Values ReferenceKind.property.Allows :=
      values_quoted_isRooted (by decide) (by decide)
    have hsingle : (quoted singleQuote isRooted).Values ReferenceKind.property.Allows :=
      values_quoted_isRooted (by decide) (by decide)
    constructor
    · exact ⟨trivial, hkey, trivial, trivial, trivial, hdouble, hsingle⟩
    · simp [propertyShape, inOrder, oneOf, isValued]

end Form

/-! ## Kind by kind -/

namespace ScannerConfig

/-- The matches of a kind of references in a text, from left to right. -/
def matchesOf (config : ScannerConfig) (kind : ReferenceKind) (text : List Char) : List Shape.Match :=
  ((Form.shape? config kind).map (·.matchesIn text)).getD []

/-- The references of a kind in a text. -/
def referencesOf (config : ScannerConfig) (kind : ReferenceKind) (text : List Char) (file : String) :
    List Reference :=
  ((Form.shape? config kind).map fun s => (⟨kind, s⟩ : Form).references text file).getD []

variable {config : ScannerConfig} {kind : ReferenceKind} {text : List Char} {file : String}

theorem kind_of_mem_referencesOf {r : Reference} (h : r ∈ config.referencesOf kind text file) :
    r.kind = kind := by
  unfold referencesOf at h
  cases hshape : Form.shape? config kind with
  | none =>
    rw [hshape] at h
    cases h
  | some s =>
    rw [hshape] at h
    obtain ⟨m, -, hm⟩ := List.mem_filterMap.mp h
    obtain ⟨v, -, rfl⟩ := Option.map_eq_some_iff.mp hm
    rfl

theorem extractReferences_eq_flatMap (config : ScannerConfig) (content file : String) :
    extractReferences (Form.ofConfig config) content file =
      ReferenceKind.all.flatMap fun kind => config.referencesOf kind content.toList file := by
  rw [extractReferences, Form.ofConfig]
  induction ReferenceKind.all with
  | nil => rfl
  | cons kind kinds ih =>
    rw [List.filterMap_cons, List.flatMap_cons, ← ih, referencesOf]
    cases Form.shape? config kind <;> rfl

/-- Among all references, those of a kind are the ones that its own form finds. -/
theorem filter_extractReferences (config : ScannerConfig) (kind : ReferenceKind)
    (content file : String) : (extractReferences (Form.ofConfig config) content file).filter
      (·.kind = kind) = config.referencesOf kind content.toList file := by
  have hkinds : ∀ k, (config.referencesOf k content.toList file).filter (·.kind = kind) =
      if k = kind then config.referencesOf k content.toList file else [] := by
    intro k
    split_ifs with hk
    · exact List.filter_eq_self.mpr fun r hr => by simp [kind_of_mem_referencesOf hr, hk]
    · exact List.filter_eq_nil_iff.mpr fun r hr => by simp [kind_of_mem_referencesOf hr, hk]
  rw [extractReferences_eq_flatMap, List.filter_flatMap, List.flatMap_congr fun k _ => hkinds k]
  cases kind <;> simp [ReferenceKind.all]

end ScannerConfig

/-- The reference is what the match of its kind stands for in the text: its address is in quotes in the
match, its line counts the line breaks before the match, and its context is that line. -/
structure Reference.StandsAt (r : Reference) (kind : ReferenceKind) (text : List Char)
    (m : Shape.Match) : Prop where
  kind_eq : r.kind = kind
  text_eq : m.start.text = text
  quoted : ∃ q before after, m.start.Reads (before ++ q :: (r.raw.toList ++ q :: after)) m.after ∧
    q ∉ r.raw.toList ∧ kind.Allows q r.raw.toList
  line_eq : r.line = (text.take m.start.offset).count '\n' + 1
  context_eq : ∃ line, (Text.split '\n' text)[r.line - 1]? = some line ∧
    r.context.toList = Text.trim line

/-- One match ends before the other begins, and it is not empty. -/
def Shape.Match.Precedes (m m' : Shape.Match) : Prop :=
  m.start.offset < m.after.offset ∧ m.after.offset ≤ m'.start.offset

/-- The reference that a match gives. -/
def Shape.Match.reference (m : Shape.Match) (kind : ReferenceKind) (file : String) : Reference :=
  Reference.ofRaw (String.ofList (m.value.getD [])) kind file m.start.line
    (String.ofList m.start.lineText)

variable {config : ScannerConfig} {kind : ReferenceKind} {text : List Char} {file : String}
  {m : Shape.Match}

theorem exists_shape_of_mem_matchesOf (hm : m ∈ config.matchesOf kind text) :
    ∃ s, Form.shape? config kind = some s ∧ m ∈ s.matchesIn text := by
  unfold ScannerConfig.matchesOf at hm
  cases hshape : Form.shape? config kind with
  | none =>
    rw [hshape] at hm
    cases hm
  | some s =>
    rw [hshape] at hm
    exact ⟨s, rfl, hm⟩

/-- Every match of a kind holds a value. -/
theorem exists_value_of_mem_matchesOf (hm : m ∈ config.matchesOf kind text) :
    ∃ v, m.value = some v ∧ ∃ q before after,
      m.start.Reads (before ++ q :: (v ++ q :: after)) m.after ∧ q ∉ v ∧ kind.Allows q v := by
  obtain ⟨s, hshape, hm⟩ := exists_shape_of_mem_matchesOf hm
  obtain ⟨hvalues, hvalued⟩ := Form.values_of_shape? hshape
  obtain ⟨-, hhit⟩ := Shape.of_mem_matchesIn hm
  obtain ⟨v, hv : m.value = some v⟩ :=
    Option.isSome_iff_exists.mp (Shape.isSome_value_of_isValued hvalued hhit)
  rw [hv] at hhit
  exact ⟨v, hv, Shape.Finds.exists_reads hhit hvalues⟩

theorem referencesOf_eq_map : config.referencesOf kind text file =
    (config.matchesOf kind text).map (·.reference kind file) := by
  have hvalue : ∀ m ∈ config.matchesOf kind text, ∃ v, m.value = some v := by
    intro m hm
    obtain ⟨v, hv, -⟩ := exists_value_of_mem_matchesOf hm
    exact ⟨v, hv⟩
  unfold ScannerConfig.referencesOf ScannerConfig.matchesOf at *
  cases hshape : Form.shape? config kind with
  | none => rfl
  | some s =>
    rw [hshape] at hvalue
    rw [Option.map_some, Option.map_some, Option.getD_some, Option.getD_some, Form.references_eq,
      ← List.filterMap_eq_map']
    refine List.filterMap_congr fun m hm => ?_
    obtain ⟨v, hv⟩ := hvalue m hm
    rw [Form.placedReference?, Shape.Match.reference, hv]
    rfl

theorem standsAt_reference (hm : m ∈ config.matchesOf kind text) :
    (m.reference kind file).StandsAt kind text m := by
  obtain ⟨v, hv, hquoted⟩ := exists_value_of_mem_matchesOf hm
  obtain ⟨s, -, hmatch⟩ := exists_shape_of_mem_matchesOf hm
  obtain ⟨htext, -⟩ := Shape.of_mem_matchesIn hmatch
  exact {
    kind_eq := rfl
    text_eq := htext
    quoted := by
      simpa only [Shape.Match.reference, Reference.ofRaw, hv, Option.getD_some, String.toList_ofList]
        using hquoted
    line_eq := htext ▸ m.start.line_eq
    context_eq := ⟨_, htext ▸ m.start.getElem?_split_text, String.toList_ofList⟩ }

/-- The matches of a kind follow each other in the text. -/
theorem pairwise_matchesOf : (config.matchesOf kind text).Pairwise Shape.Match.Precedes := by
  have hmatches : (config.matchesOf kind text).Pairwise fun m m' => m.after.offset ≤ m'.start.offset := by
    unfold ScannerConfig.matchesOf
    cases Form.shape? config kind with
    | none => exact .nil
    | some s => exact Shape.pairwise_matchesFrom
  refine hmatches.imp_of_mem fun {m m'} hm _ hle => ⟨?_, hle⟩
  -- a match holds its quotes at least
  obtain ⟨v, -, q, before, after, ⟨-, hdone⟩, -⟩ := exists_value_of_mem_matchesOf hm
  rw [Cursor.offset, Cursor.offset, hdone, List.length_append]
  exact Nat.lt_add_of_pos_left (List.length_pos_of_ne_nil (by simp))

/-- Further on among the references of a kind stands no earlier line. -/
theorem pairwise_line_referencesOf :
    (config.referencesOf kind text file).Pairwise (·.line ≤ ·.line) := by
  rw [referencesOf_eq_map, List.pairwise_map]
  refine pairwise_matchesOf.imp_of_mem fun {m m'} hm hm' hprecedes => ?_
  have hstands : (m.reference kind file).StandsAt kind text m := standsAt_reference hm
  have hstands' : (m'.reference kind file).StandsAt kind text m' := standsAt_reference hm'
  have htext : m.start.text = m'.start.text := hstands.text_eq.trans hstands'.text_eq.symm
  exact Cursor.line_mono htext (hprecedes.1.le.trans hprecedes.2)

/-- **Extraction is sound.** The references of a text are grouped by kind, in the order of the kinds; those
of a kind stand one by one for the matches of its form, which follow each other in the text, so their
lines never go back. -/
theorem extractReferences_sound (config : ScannerConfig) (content file : String) :
    let found := extractReferences (Form.ofConfig config) content file
    found = [.link, .navigation, .template, .property].flatMap (fun kind => found.filter (·.kind = kind)) ∧
      ∀ kind, List.Forall₂ (fun r m => r.StandsAt kind content.toList m) (found.filter (·.kind = kind))
          (config.matchesOf kind content.toList) ∧
        (config.matchesOf kind content.toList).Pairwise Shape.Match.Precedes ∧
        (found.filter (·.kind = kind)).Pairwise (·.line ≤ ·.line) := by
  simp only [ScannerConfig.filter_extractReferences]
  refine ⟨config.extractReferences_eq_flatMap content file,
    fun _ => ⟨?_, pairwise_matchesOf, pairwise_line_referencesOf⟩⟩
  rw [referencesOf_eq_map, List.forall₂_map_left_iff, List.forall₂_same]
  exact fun m hm => standsAt_reference hm

end RouteAudit
