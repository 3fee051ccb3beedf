import Mathlib.Data.List.Basic
import RouteAudit.Proofs.Signed

/-!
# Which words are recognised

The words of a configuration stand for identifiers: a handle with its verbs, functions, markup
elements and object keys. Each form asks for a word boundary in front of its first word, and behind
the name of a markup element. A boundary has a character of a word on one side, and the `$` of an
identifier is none; so a word is recognised if it shows such a character at that end, and
otherwise only where another configured word happens to stand at a boundary inside it
(`recognises_iff`).

Proof. The text of a word has one pair of quotes, so the word is recognised exactly if its form finds
the path between them. A call and a keyed path are signed values: their words end before the sign, and
what is left is where the last word begins. A link is read from the other side: its element begins
behind the `<`, and what is left is where the first word ends.
-/

namespace RouteAudit

/-! ## Identifiers -/

/-- A character of an identifier. -/
def isIdentifierChar (c : Char) : Bool :=
  c.isAlphanum || c == '_' || c == '$'

/-- A name of ASCII letters, digits, `_` and `$` that does not begin with a digit. -/
structure IsIdentifier (w : String) : Prop where
  ne_nil : w.toList ≠ []
  chars : ∀ c ∈ w.toList, isIdentifierChar c = true
  head : ∀ c ∈ w.toList.head?, c.isDigit = false

/-- The words of the configuration are identifiers. -/
structure ScannerConfig.OfIdentifiers (config : ScannerConfig) : Prop where
  handle : IsIdentifier config.navigationHandle
  verbs : ∀ w ∈ config.navigationVerbs, IsIdentifier w
  functions : ∀ w ∈ config.navigationFunctions, IsIdentifier w
  elements : ∀ w ∈ config.linkElements, IsIdentifier w
  keys : ∀ w ∈ config.linkKeys, IsIdentifier w

theorem isIdentifier_iff (w : String) : IsIdentifier w ↔
    w.toList ≠ [] ∧ w.toList.all isIdentifierChar = true ∧ w.toList.head?.any Char.isDigit = false := by
  rw [List.all_eq_true, Option.any_eq_false]
  constructor
  · rintro ⟨hne, hchars, hhead⟩
    exact ⟨hne, hchars, by simpa using hhead⟩
  · rintro ⟨hne, hchars, hhead⟩
    exact ⟨hne, hchars, by simpa using hhead⟩

instance (w : String) : Decidable (IsIdentifier w) :=
  decidable_of_iff _ (isIdentifier_iff w).symm

instance (config : ScannerConfig) : Decidable config.OfIdentifiers :=
  decidable_of_iff (IsIdentifier config.navigationHandle ∧
      (∀ w ∈ config.navigationVerbs, IsIdentifier w) ∧
      (∀ w ∈ config.navigationFunctions, IsIdentifier w) ∧
      (∀ w ∈ config.linkElements, IsIdentifier w) ∧ ∀ w ∈ config.linkKeys, IsIdentifier w)
    ⟨fun ⟨h, hv, hf, he, hk⟩ => ⟨h, hv, hf, he, hk⟩,
      fun h => ⟨h.handle, h.verbs, h.functions, h.elements, h.keys⟩⟩

theorem toNat_of_isAlphanum {c : Char} (h : c.isAlphanum = true) :
    0x30 ≤ c.toNat ∧ c.toNat ≤ 0x7A := by
  have hranges : ((decide (c.val ≥ 'A'.val ∧ c.val ≤ 'Z'.val) || (c.val ≥ 'a'.val && c.val ≤ 'z'.val)) ||
      (c.val ≥ '0'.val && c.val ≤ '9'.val)) = true := h
  simp only [Bool.or_eq_true, Bool.and_eq_true, decide_eq_true_iff, ge_iff_le,
    UInt32.le_iff_toNat_le] at hranges
  change ((65 ≤ c.toNat ∧ c.toNat ≤ 90) ∨ 97 ≤ c.toNat ∧ c.toNat ≤ 122) ∨
    48 ≤ c.toNat ∧ c.toNat ≤ 57 at hranges
  omega

theorem isIdentifierChar_iff {c : Char} :
    isIdentifierChar c = true ↔ c.isAlphanum = true ∨ c = '_' ∨ c = '$' := by
  simp [isIdentifierChar, or_assoc]

theorem not_isBlank_of_isIdentifierChar {c : Char} (h : isIdentifierChar c = true) :
    Text.isBlank c = false := by
  rcases isIdentifierChar_iff.mp h with h | rfl | rfl
  · have hrange := toNat_of_isAlphanum h
    simp [Text.isBlank]
    omega
  · rfl
  · rfl

/-- Of the characters of identifiers, only the `$` is not one of words. -/
theorem isWord_iff_ne {c : Char} (h : isIdentifierChar c = true) :
    Text.isWord c = true ↔ c ≠ '$' := by
  rcases isIdentifierChar_iff.mp h with h | rfl | rfl
  · have hrange := toNat_of_isAlphanum h
    have hc : c ≠ '$' := by
      rintro rfl
      cases h
    rw [Text.isWord, if_pos (by omega), h]
    exact iff_of_true rfl hc
  · decide
  · decide

namespace IsIdentifier

variable {w : String}

theorem notMem (h : IsIdentifier w) {c : Char} (hc : isIdentifierChar c = false) : c ∉ w.toList := by
  intro hmem
  rw [h.chars c hmem] at hc
  cases hc

/-- A text that ends with an identifier does not end in a blank. -/
theorem not_isBlank_last (h : IsIdentifier w) (pre : List Char) :
    ∀ c ∈ (pre ++ w.toList).getLast?, Text.isBlank c = false := by
  intro c hc
  rw [List.getLast?_append_of_ne_nil pre h.ne_nil] at hc
  exact not_isBlank_of_isIdentifierChar (h.chars c (List.mem_of_getLast? hc))

/-- An identifier begins a word unless it begins with the `$`. -/
theorem inWord_head?_iff (h : IsIdentifier w) :
    Text.inWord w.toList.head? = true ↔ w.toList.head? ≠ some '$' := by
  obtain ⟨c, r, hw⟩ := List.exists_cons_of_ne_nil h.ne_nil
  rw [hw, List.head?_cons, Ne, Option.some.injEq]
  exact isWord_iff_ne (h.chars c (by simp [hw]))

/-- An identifier ends a word unless it ends with the `$`. -/
theorem inWord_getLast?_iff (h : IsIdentifier w) :
    Text.inWord w.toList.getLast? = true ↔ w.toList.getLast? ≠ some '$' := by
  rw [List.getLast?_eq_some_getLast h.ne_nil, Ne, Option.some.injEq]
  exact isWord_iff_ne (h.chars _ (List.getLast_mem h.ne_nil))

theorem unquoted (h : IsIdentifier w) : Unquoted w.toList := by
  intro q hq
  simp only [quoteChars, List.mem_cons, List.not_mem_nil, or_false] at hq
  rcases hq with rfl | rfl | rfl <;> exact h.notMem rfl

end IsIdentifier

/-! ## The words before the sign -/

/-- One of the words stands at the end of the text, and it begins at a word boundary. -/
def HasLastWord (words : List String) (t : String) : Prop :=
  ∃ w ∈ words, ∃ u, t.toList = u ++ w.toList ∧
    (⟨u.reverse, w.toList⟩ : Cursor).atBoundary = true

/-- One of the words stands at the beginning of the text, and it ends at a word boundary. -/
def HasFirstWord (words : List String) (t : String) : Prop :=
  ∃ w ∈ words, ∃ u, t.toList = w.toList ++ u ∧
    (⟨w.toList.reverse, u⟩ : Cursor).atBoundary = true

namespace Shape

variable {c d : Cursor} {z : Char} {words : List String} {handle : String}

theorem passes_words_iff :
    (word (words.map String.toList)).Passes c d ↔ ∃ w ∈ words, c.Reads w.toList d := by
  simp only [passes_word_iff, List.mem_map, exists_exists_and_eq_and]

theorem passes_boundary_words_iff : (seq boundary (word (words.map String.toList))).Passes c d ↔
    c.atBoundary = true ∧ ∃ w ∈ words, c.Reads w.toList d := by
  simp only [passes_seq_iff, passes_boundary_iff, passes_words_iff]
  constructor
  · rintro ⟨e, ⟨hboundary, rfl⟩, hreads⟩
    exact ⟨hboundary, hreads⟩
  · rintro ⟨hboundary, hreads⟩
    exact ⟨c, ⟨hboundary, rfl⟩, hreads⟩

/-- What stands before a character that is none of words does not matter to the boundaries behind
it. -/
theorem atBoundary_append (hz : Text.isWord z = false) {pre u w rest : List Char} (hw : w ≠ []) :
    (⟨(pre ++ z :: u).reverse, w ++ rest⟩ : Cursor).atBoundary =
      (⟨u.reverse, w⟩ : Cursor).atBoundary := by
  have hrest : (w ++ rest).head? = w.head? := List.head?_append_of_ne_nil w hw
  have hdone : Text.inWord (pre ++ z :: u).reverse.head? = Text.inWord u.reverse.head? := by
    rw [List.head?_reverse, List.head?_reverse]
    by_cases hu : u = []
    · simp [hu, Text.inWord, hz]
    · rw [List.append_cons pre z u, List.getLast?_append_of_ne_nil _ hu]
  rw [Cursor.atBoundary, Cursor.atBoundary, hrest, hdone]

/-- A word ends behind the last `z` exactly if it ends the text there. -/
theorem exists_passes_boundary_words_iff (hz : Text.isWord z = false)
    (hwords : ∀ w ∈ words, w.toList ≠ [] ∧ z ∉ w.toList) (pre : List Char) {rest : List Char}
    {t : String} :
    (∃ c, (seq boundary (word (words.map String.toList))).Passes c
      ⟨(pre ++ z :: t.toList).reverse, rest⟩) ↔ HasLastWord words t := by
  simp only [passes_boundary_words_iff]
  constructor
  · rintro ⟨⟨done, rest'⟩, hboundary, w, hw, hrest, hdone⟩
    obtain ⟨hne, hzw⟩ := hwords w hw
    obtain rfl : rest' = w.toList ++ rest := hrest
    have hreads : pre ++ z :: t.toList = done.reverse ++ w.toList := by
      simpa using congrArg List.reverse hdone
    obtain ⟨u, ht, hu⟩ := Text.eq_append_of_append_sep_eq' hzw hreads
    obtain rfl : done = (pre ++ z :: u).reverse := by rw [← hu, List.reverse_reverse]
    exact ⟨w, hw, u, ht, (atBoundary_append hz hne).symm.trans hboundary⟩
  · rintro ⟨w, hw, u, ht, hboundary⟩
    refine ⟨⟨(pre ++ z :: u).reverse, w.toList ++ rest⟩,
      (atBoundary_append hz (hwords w hw).1).trans hboundary, w, hw, rfl, ?_⟩
    simp [ht]

/-- The name of a method with one of the verbs. -/
def method (handle : String) (verbs : List String) : Shape :=
  methodShape handle (word (verbs.map String.toList))

theorem passes_method_iff : (method handle words).Passes c d ↔ c.atBoundary = true ∧
    ∃ x y, ∃ w ∈ words, (∀ z ∈ x, Text.isBlank z = true) ∧ (∀ z ∈ y, Text.isBlank z = true) ∧
      c.Reads (handle.toList ++ (x ++ (['.'] ++ (y ++ w.toList)))) d := by
  simp only [method, methodShape, inOrder, passes_seq_iff, passes_boundary_iff, passes_literal_iff,
    passes_blanks_iff, passes_words_iff, Cursor.reads_append_iff]
  constructor
  · rintro ⟨_, ⟨hboundary, rfl⟩, c₁, hhandle, c₂, ⟨x, hx, hblank⟩, c₃, hdot, c₄, ⟨y, hy, hblank'⟩, w,
      hw, hreads⟩
    exact ⟨hboundary, x, y, w, hw, hblank, hblank', c₁, hhandle, c₂, hx, c₃, hdot, c₄, hy, hreads⟩
  · rintro ⟨hboundary, x, y, w, hw, hblank, hblank', c₁, hhandle, c₂, hx, c₃, hdot, c₄, hy, hreads⟩
    exact ⟨c, ⟨hboundary, rfl⟩, c₁, hhandle, c₂, ⟨x, hx, hblank⟩, c₃, hdot, c₄, ⟨y, hy, hblank'⟩, w,
      hw, hreads⟩

/-- No method ends in a text without a dot. -/
theorem not_passes_method (hdot : '.' ∉ d.done) : ¬ (method handle words).Passes c d := by
  intro hpasses
  obtain ⟨-, x, y, w, -, -, -, -, hdone⟩ := passes_method_iff.mp hpasses
  exact hdot (by simp [hdone])

/-- Behind a line break a method ends with its verb exactly if its handle begins a word. -/
theorem exists_passes_method_iff {verb : String} (hhandle : IsIdentifier handle)
    (hverb : '.' ∉ verb.toList) (hmem : verb ∈ words) {rest : List Char} :
    (∃ c, (method handle words).Passes c
      ⟨('\n' :: (handle.toList ++ '.' :: verb.toList)).reverse, rest⟩) ↔
      handle.toList.head? ≠ some '$' := by
  simp only [passes_method_iff]
  have hboundary : (⟨['\n'], handle.toList ++ '.' :: (verb.toList ++ rest)⟩ : Cursor).atBoundary =
      Text.inWord handle.toList.head? := by
    rw [Cursor.atBoundary, List.head?_append_of_ne_nil _ hhandle.ne_nil]
    exact Bool.false_bne _
  rw [← hhandle.inWord_head?_iff, ← hboundary]
  constructor
  · rintro ⟨⟨done, rest'⟩, hatBoundary, x, y, w, hw, hx, -, hrest, hdone⟩
    have hsplit : ('\n' :: handle.toList) ++ '.' :: verb.toList =
        (done.reverse ++ (handle.toList ++ x)) ++ '.' :: (y ++ w.toList) := by
      simpa using congrArg List.reverse hdone
    have hdot : '.' ∉ '\n' :: handle.toList := by
      simpa using hhandle.notMem (c := '.') rfl
    obtain ⟨hhead, -, htail⟩ := (List.append_cons_inj_of_notMem hdot hverb).mp hsplit
    obtain rfl := eq_nil_of_blank (u := done.reverse ++ handle.toList) (by simpa using hhead.symm) hx
      (hhandle.not_isBlank_last ['\n'])
    have hdone : done.reverse = ['\n'] := by
      rw [List.append_nil] at hhead
      exact (List.append_cancel_right (show ['\n'] ++ _ = _ from hhead)).symm
    obtain rfl : done = ['\n'] := by simpa using congrArg List.reverse hdone
    obtain rfl : rest' = handle.toList ++ '.' :: (verb.toList ++ rest) := by simpa [htail] using hrest
    exact hatBoundary
  · intro hatBoundary
    refine ⟨_, hatBoundary, [], [], verb, hmem, by simp, by simp, ?_, ?_⟩
    all_goals simp

/-! ## The three keys -/

/-- A callee is a method or a function. -/
theorem exists_calleeShape? {verbs functions : List String} (hhandle : handle ≠ "")
    (hwords : verbs ≠ [] ∨ functions ≠ []) :
    ∃ callee, calleeShape? handle verbs functions = some callee ∧ callee.isBare = true ∧
      ∀ c d, callee.Passes c d ↔ (method handle verbs).Passes c d ∨
        (seq boundary (word (functions.map String.toList))).Passes c d := by
  have hempty : handle.isEmpty = false := by simpa using hhandle
  unfold calleeShape? anyWord?
  rw [hempty]
  by_cases hverbs : verbs = []
  · have hfunctions : functions ≠ [] := hwords.resolve_left (not_not_intro hverbs)
    refine ⟨seq boundary (word (functions.map String.toList)), ?_, rfl, fun c d => ?_⟩
    · simp [hverbs, hfunctions]
    · simp [hverbs, passes_method_iff]
  · by_cases hfunctions : functions = []
    · refine ⟨method handle verbs, ?_, rfl, fun c d => ?_⟩
      · simp [hverbs, hfunctions, method]
      · rw [passes_boundary_words_iff]
        simp [hfunctions]
    · refine ⟨choice (method handle verbs) (seq boundary (word (functions.map String.toList))), ?_, rfl,
        fun c d => passes_choice_iff⟩
      simp [hverbs, hfunctions, method]

/-! ## The element of a link -/

/-- Behind a word, what begins with a character that is none of words does not matter to the
boundaries before it. -/
theorem atBoundary_append_right (hz : Text.isWord z = false) {pre u w rest : List Char}
    (hw : w ≠ []) : (⟨w.reverse ++ pre, u ++ z :: rest⟩ : Cursor).atBoundary =
      (⟨w.reverse, u⟩ : Cursor).atBoundary := by
  have hdone : (w.reverse ++ pre).head? = w.reverse.head? :=
    List.head?_append_of_ne_nil _ (by simpa using hw)
  have hrest : Text.inWord (u ++ z :: rest).head? = Text.inWord u.head? := by
    cases u with
    | nil => simp [Text.inWord, hz]
    | cons c u => rfl
  rw [Cursor.atBoundary, Cursor.atBoundary, hrest, hdone]

/-- The value of an attribute, with or without braces around it. -/
def attributeValue : Shape :=
  oneOf [anyQuoted doubleQuote, anyQuoted singleQuote, braced (anyQuoted doubleQuote),
    braced (anyQuoted singleQuote), braced (anyQuoted backtick)]

variable {v path after text : List Char} {element w : String}

theorem finds_linkShape_iff {element : Shape} (helement : element.isBare = true) :
    (linkShape element).Finds c v d ↔ ∃ e f, c.Reads ['<'] e ∧ element.Passes e f ∧
      f.atBoundary = true ∧ ∃ x g, f.Reads x g ∧ (∀ z ∈ x, z ≠ '>') ∧ g.atBoundary = true ∧
      (signed (literal "href") '=' attributeValue).Finds g v d := by
  have hlink : linkShape element = seq (word [['<']]) (seq element (seq boundary
      (seq (shortRun (· ≠ '>')) (seq boundary (signed (literal "href") '=' attributeValue))))) := rfl
  have hopen : (word [['<']]).isBare = true := rfl
  have hboundary : boundary.isBare = true := rfl
  have hrun : (shortRun fun z : Char => z ≠ '>').isBare = true := rfl
  rw [hlink]
  simp only [finds_seq_iff_of_isBare hopen, finds_seq_iff_of_isBare helement,
    finds_seq_iff_of_isBare hboundary, finds_seq_iff_of_isBare hrun, passes_sign_iff,
    passes_boundary_iff, passes_shortRun_iff, decide_eq_true_iff]
  constructor
  · rintro ⟨e, hsign, _, hpasses, f, ⟨hatBoundary, rfl⟩, _, ⟨x, hx, hmember⟩, g, ⟨hatBoundary', rfl⟩, h⟩
    exact ⟨e, f, hsign, hpasses, hatBoundary, x, g, hx, hmember, hatBoundary', h⟩
  · rintro ⟨e, f, hsign, hpasses, hatBoundary, x, g, hx, hmember, hatBoundary', h⟩
    exact ⟨e, hsign, f, hpasses, f, ⟨hatBoundary, rfl⟩, g, ⟨x, hx, hmember⟩, g, ⟨hatBoundary', rfl⟩, h⟩

theorem quotes_linkShape : (linkShape (word (words.map String.toList))).quotes ⊆ quoteChars := by
  change [doubleQuote, singleQuote, doubleQuote, singleQuote, backtick] ⊆ quoteChars
  decide

/-- What stands between the quotes is the value of the attribute. -/
theorem finds_attribute (hpath : doubleQuote ∉ path) (front after : List Char) :
    ∃ d, (signed (literal "href") '=' attributeValue).Finds
      ⟨front, "href=".toList ++ doubleQuote :: (path ++ doubleQuote :: after)⟩ path d := by
  have hvalue : attributeValue.Finds
      ⟨"href=".toList.reverse ++ front, doubleQuote :: (path ++ doubleQuote :: after)⟩ path
      ⟨(doubleQuote :: (path ++ [doubleQuote])).reverse ++ ("href=".toList.reverse ++ front), after⟩ :=
    finds_choice_iff.mpr (Or.inl (finds_quoted_iff.mpr ⟨⟨by simp, rfl⟩, hpath, rfl⟩))
  exact ⟨_, (finds_signed_iff rfl).mpr ⟨⟨_, _⟩, ⟨_, _⟩, [], [], passes_literal_iff.mpr ⟨rfl, rfl⟩,
    ⟨rfl, rfl⟩, by simp, by simp, hvalue⟩⟩

/-- A link whose place is behind a line break has a word at the beginning of its element. -/
theorem hasFirstWord_of_finds (helement : IsIdentifier element)
    (hwords : ∀ w ∈ words, IsIdentifier w)
    (htext : QuotedOnce c.text ('\n' :: '<' :: (element.toList ++ " href=".toList)) path after)
    (hfinds : (linkShape (word (words.map String.toList))).Finds c path d) :
    HasFirstWord words element := by
  obtain ⟨done, rest⟩ := c
  obtain ⟨-, x, rfl, hdone⟩ := hfinds.of_quotedOnce htext quotes_linkShape
  rw [finds_linkShape_iff rfl] at hfinds
  obtain ⟨⟨done₁, rest₁⟩, ⟨done₂, rest₂⟩, ⟨hrest₁, rfl⟩, hword, hatBoundary, -⟩ := hfinds
  -- The `<` is the one in front of the element, for no other stands before the quotes.
  obtain ⟨x, rfl⟩ : ∃ x', x = '<' :: x' := by
    cases x with
    | nil => cases hrest₁
    | cons z x => exact ⟨x, by rw [(List.cons.inj hrest₁).1]⟩
  obtain rfl : x ++ doubleQuote :: (path ++ doubleQuote :: after) = rest₁ := by simpa using hrest₁
  have hsign : '<' ∉ element.toList ++ " href=".toList := by
    simpa using helement.notMem (c := '<') rfl
  have hdone : ['\n'] ++ '<' :: (element.toList ++ " href=".toList) = done.reverse ++ '<' :: x :=
    hdone.symm
  obtain ⟨-, -, rfl⟩ := (List.append_cons_inj_of_notMem (by decide) hsign).mp hdone
  obtain ⟨w, hw, hrest, rfl⟩ := passes_words_iff.mp hword
  have hblank : ' ' ∉ w.toList := (hwords w hw).notMem rfl
  obtain ⟨u, hu, rfl⟩ := Text.eq_append_of_append_sep_eq hblank
    (b := "href=".toList ++ doubleQuote :: (path ++ doubleQuote :: after)) (by simpa using hrest)
  exact ⟨w, hw, u, hu, (atBoundary_append_right rfl (hwords w hw).ne_nil).symm.trans hatBoundary⟩

/-- A word that ends at a boundary in the element finds the link: what is left of the element and the
blank behind it is passed over. -/
theorem finds_link_of_atBoundary {u : List Char} (hw : w ∈ words) (hidentifier : IsIdentifier w)
    (hu : '>' ∉ u) (hatBoundary : (⟨w.toList.reverse, u⟩ : Cursor).atBoundary = true)
    (hpath : doubleQuote ∉ path) (after : List Char) :
    ∃ d, (linkShape (word (words.map String.toList))).Finds
      ⟨['\n'], '<' :: (w.toList ++ (u ++ ' ' :: ("href=".toList ++
        doubleQuote :: (path ++ doubleQuote :: after))))⟩ path d := by
  obtain ⟨d, hattribute⟩ := finds_attribute hpath
    ((u ++ [' ']).reverse ++ (w.toList.reverse ++ ['<', '\n'])) after
  refine ⟨d, (finds_linkShape_iff rfl).mpr ⟨⟨_, _⟩, ⟨_, _⟩, ⟨rfl, rfl⟩,
    passes_words_iff.mpr ⟨w, hw, rfl, rfl⟩, ?_, u ++ [' '], ⟨_, _⟩, ⟨List.append_cons _ _ _, rfl⟩, ?_, ?_,
    hattribute⟩⟩
  · exact (atBoundary_append_right rfl hidentifier.ne_nil).trans hatBoundary
  · rintro z hz rfl
    exact hu (by simpa using hz)
  · rw [List.reverse_append]
    change (Text.inWord (some ' ') != Text.inWord (some 'h')) = true
    decide

/-- Behind a line break a link is found exactly if a word begins its element. -/
theorem exists_finds_linkShape_iff (helement : IsIdentifier element)
    (hwords : ∀ w ∈ words, IsIdentifier w)
    (htext : QuotedOnce text ('\n' :: '<' :: (element.toList ++ " href=".toList)) path after) :
    (∃ c d, c.text = text ∧ (linkShape (word (words.map String.toList))).Finds c path d) ↔
      HasFirstWord words element := by
  constructor
  · rintro ⟨c, d, rfl, hfinds⟩
    exact hasFirstWord_of_finds helement hwords htext hfinds
  · rintro ⟨w, hw, u, hu, hatBoundary⟩
    have hclosing : '>' ∉ u := fun hmem => helement.notMem (c := '>') rfl (by simp [hu, hmem])
    obtain ⟨d, hfinds⟩ := finds_link_of_atBoundary hw (hwords w hw) hclosing hatBoundary
      (htext.path doubleQuote (by decide)) after
    exact ⟨_, d, by rw [htext.eq, hu]; simp [Cursor.text], hfinds⟩

end Shape

/-! ## The four texts -/

/-- The text of a file holds a reference of the kind with the address. -/
def Recognises (config : ScannerConfig) (kind : ReferenceKind) (content path file : String) : Prop :=
  ∃ r ∈ extractReferences (Form.ofConfig config) content file, r.raw = path ∧ r.kind = kind

def methodCall (handle verb path : String) : String :=
  "\n" ++ handle ++ "." ++ verb ++ "(\"" ++ path ++ "\")"

def functionCall (function path : String) : String :=
  "\n" ++ function ++ "(\"" ++ path ++ "\")"

def linkElement (element path : String) : String :=
  "\n<" ++ element ++ " href=\"" ++ path ++ "\">"

def keyedPath (key path : String) : String :=
  "\n" ++ key ++ ": \"" ++ path ++ "\""

open Shape

variable {config : ScannerConfig} {kind : ReferenceKind} {s : Shape} {content path file : String}

theorem recognises_iff_exists_match (hshape : Form.shape? config kind = some s) :
    Recognises config kind content path file ↔
      ∃ m ∈ s.matchesIn content.toList, m.value = some path.toList := by
  unfold Recognises extractReferences Form.ofConfig
  simp only [List.mem_flatMap, List.mem_filterMap, Option.map_eq_some_iff, Form.references,
    Form.referenceOf?]
  constructor
  · rintro ⟨r, ⟨form, ⟨kind', -, s', hs', rfl⟩, m, hm, v, hv, rfl⟩, rfl, rfl⟩
    obtain rfl : s' = s := Option.some.inj (hs'.symm.trans hshape)
    exact ⟨m, hm, hv.trans (by rw [Reference.ofRaw, String.toList_ofList])⟩
  · rintro ⟨m, hm, hv⟩
    refine ⟨_, ⟨⟨kind, s⟩, ⟨kind, by cases kind <;> decide, s, hshape, rfl⟩, m, hm, _, hv, rfl⟩, ?_, rfl⟩
    rw [Reference.ofRaw, String.ofList_toList]

/-- A quoted path is recognised exactly if the shape of its kind finds it. -/
theorem recognises_iff_finds {before after : List Char} (hshape : Form.shape? config kind = some s)
    (hquotes : s.quotes ⊆ quoteChars) (hvalued : s.isValued = true)
    (htext : QuotedOnce content.toList before path.toList after) :
    Recognises config kind content path file ↔
      ∃ c d, c.text = content.toList ∧ s.Finds c path.toList d := by
  rw [recognises_iff_exists_match hshape, exists_match_iff_finds htext hquotes hvalued]

theorem hasLastWord_of_head {words : List String} {w : String} (hw : w ∈ words)
    (hidentifier : IsIdentifier w) (hhead : w.toList.head? ≠ some '$') : HasLastWord words w := by
  refine ⟨w, hw, [], rfl, ?_⟩
  rw [Cursor.atBoundary, hidentifier.inWord_head?_iff.mpr hhead]
  rfl

theorem hasFirstWord_of_last {words : List String} {w : String} (hw : w ∈ words)
    (hidentifier : IsIdentifier w) (hlast : w.toList.getLast? ≠ some '$') :
    HasFirstWord words w := by
  refine ⟨w, hw, [], by simp, ?_⟩
  rw [Cursor.atBoundary, List.head?_reverse, hidentifier.inWord_getLast?_iff.mpr hlast]
  rfl

/-- An identifier has no separator, so it is not split by one. -/
theorem IsIdentifier.ne_nil_and_notMem {words : List String} (hwords : ∀ w ∈ words, IsIdentifier w)
    {z : Char} (hz : isIdentifierChar z = false) : ∀ w ∈ words, w.toList ≠ [] ∧ z ∉ w.toList :=
  fun w hw => ⟨(hwords w hw).ne_nil, (hwords w hw).notMem hz⟩

/-- A call is recognised exactly if a method or a function ends before its parenthesis. -/
theorem recognises_call_iff (hconfig : config.OfIdentifiers)
    (hcalls : config.navigationVerbs ≠ [] ∨ config.navigationFunctions ≠ [])
    {before after : List Char} (hsign : '(' ∉ before)
    (hlast : ∀ z ∈ before.getLast?, Text.isBlank z = false)
    (htext : QuotedOnce content.toList (before ++ ['(']) path.toList after) :
    Recognises config .navigation content path file ↔
      (∃ c, (method config.navigationHandle config.navigationVerbs).Passes c
        ⟨before.reverse, '(' :: doubleQuote :: (path.toList ++ doubleQuote :: after)⟩) ∨
      ∃ c, (seq boundary (word (config.navigationFunctions.map String.toList))).Passes c
        ⟨before.reverse, '(' :: doubleQuote :: (path.toList ++ doubleQuote :: after)⟩ := by
  have hhandle : config.navigationHandle ≠ "" := by
    intro hempty
    exact hconfig.handle.ne_nil (by rw [hempty]; rfl)
  obtain ⟨callee, hcallee, hbare, hpasses⟩ := exists_calleeShape? hhandle hcalls
  have hshape : Form.shape? config .navigation = some (signed callee '('
      (quotedIn [doubleQuote, singleQuote, backtick] fun _ => true)) := by
    rw [Form.shape?, hcallee]
    rfl
  have hquotes : (signed callee '(' (quotedIn [doubleQuote, singleQuote, backtick]
      fun _ => true)).quotes ⊆ quoteChars := by
    change callee.quotes ++ quoteChars ⊆ quoteChars
    rw [quotes_eq_nil_of_isBare hbare]
    exact List.Subset.refl _
  have hvalued : (signed callee '(' (quotedIn [doubleQuote, singleQuote, backtick]
      fun _ => true)).isValued = true := Bool.or_true _
  rw [recognises_iff_finds hshape hquotes hvalued htext,
    exists_finds_signed_iff hbare (by decide) (by decide) rfl hsign hlast (by simp) (by simp) htext,
    ← exists_or]
  exact exists_congr fun c => hpasses c _

section Texts

variable (hconfig : config.OfIdentifiers) (hpath : Unquoted path.toList)
include hconfig hpath

theorem recognises_methodCall_iff {verb : String} (hmem : verb ∈ config.navigationVerbs) :
    Recognises config .navigation (methodCall config.navigationHandle verb path) path file ↔
      config.navigationHandle.toList.head? ≠ some '$' ∨
        HasLastWord config.navigationFunctions verb := by
  have hverb := hconfig.verbs verb hmem
  have hhandle := hconfig.handle
  have htext : QuotedOnce (methodCall config.navigationHandle verb path).toList
      (('\n' :: (config.navigationHandle.toList ++ '.' :: verb.toList)) ++ ['(']) path.toList
      [')'] := {
    eq := by simp [methodCall, String.toList_append, doubleQuote]
    before := .append (.cons (by decide) (hhandle.unquoted.append (.cons (by decide) hverb.unquoted)))
      (by decide)
    path := hpath
    after := by decide }
  have hsign : '(' ∉ '\n' :: (config.navigationHandle.toList ++ '.' :: verb.toList) := by
    simp [hhandle.notMem (c := '(') rfl, hverb.notMem (c := '(') rfl]
  have hlast := hverb.not_isBlank_last ('\n' :: (config.navigationHandle.toList ++ ['.']))
  rw [recognises_call_iff hconfig (Or.inl (List.ne_nil_of_mem hmem)) hsign (by simpa using hlast) htext,
    exists_passes_method_iff hhandle (hverb.notMem rfl) hmem]
  exact or_congr_right (exists_passes_boundary_words_iff rfl
    (IsIdentifier.ne_nil_and_notMem hconfig.functions rfl)
    ('\n' :: config.navigationHandle.toList))

theorem recognises_functionCall_iff {function : String}
    (hmem : function ∈ config.navigationFunctions) :
    Recognises config .navigation (functionCall function path) path file ↔
      HasLastWord config.navigationFunctions function := by
  have hfunction := hconfig.functions function hmem
  have htext : QuotedOnce (functionCall function path).toList (('\n' :: function.toList) ++ ['('])
      path.toList [')'] := {
    eq := by simp [functionCall, String.toList_append, doubleQuote]
    before := .append (.cons (by decide) hfunction.unquoted) (by decide)
    path := hpath
    after := by decide }
  have hsign : '(' ∉ '\n' :: function.toList := by simp [hfunction.notMem (c := '(') rfl]
  have hdot : '.' ∉ ('\n' :: function.toList).reverse := by
    simp [hfunction.notMem (c := '.') rfl]
  rw [recognises_call_iff hconfig (Or.inr (List.ne_nil_of_mem hmem)) hsign
    (hfunction.not_isBlank_last ['\n']) htext]
  rw [or_iff_right fun ⟨c, hpasses⟩ => not_passes_method hdot hpasses]
  exact exists_passes_boundary_words_iff rfl
    (IsIdentifier.ne_nil_and_notMem hconfig.functions rfl) []

theorem recognises_linkElement_iff {element : String} (hmem : element ∈ config.linkElements) :
    Recognises config .link (linkElement element path) path file ↔
      HasFirstWord config.linkElements element := by
  have helement := hconfig.elements element hmem
  have htext : QuotedOnce (linkElement element path).toList
      ('\n' :: '<' :: (element.toList ++ " href=".toList)) path.toList ['>'] := {
    eq := by simp [linkElement, String.toList_append, doubleQuote]
    before := .cons (by decide) (.cons (by decide) (helement.unquoted.append (by decide)))
    path := hpath
    after := by decide }
  have hshape : Form.shape? config .link =
      some (linkShape (word (config.linkElements.map String.toList))) := by
    rw [Form.shape?, anyWord?, if_neg (List.ne_nil_of_mem hmem)]
    rfl
  rw [recognises_iff_finds hshape quotes_linkShape rfl htext,
    exists_finds_linkShape_iff helement hconfig.elements htext]

theorem recognises_keyedPath_iff {key : String} (hmem : key ∈ config.linkKeys)
    (hrooted : path.toList.head? = some '/') :
    Recognises config .property (keyedPath key path) path file ↔
      HasLastWord config.linkKeys key := by
  have hkey := hconfig.keys key hmem
  have htext : QuotedOnce (keyedPath key path).toList (('\n' :: key.toList) ++ ':' :: [' '])
      path.toList [] := {
    eq := by simp [keyedPath, String.toList_append, doubleQuote]
    before := .append (.cons (by decide) hkey.unquoted) (by decide)
    path := hpath
    after := by decide }
  have hshape : Form.shape? config .property = some (seq boundary
      (signed (word (config.linkKeys.map String.toList)) ':'
        (quotedIn [doubleQuote, singleQuote] isRooted))) := by
    rw [Form.shape?, anyWord?, if_neg (List.ne_nil_of_mem hmem)]
    rfl
  have hquotes : (seq boundary (signed (word (config.linkKeys.map String.toList)) ':'
      (quotedIn [doubleQuote, singleQuote] isRooted))).quotes ⊆ quoteChars := by
    change [doubleQuote, singleQuote] ⊆ quoteChars
    decide
  have hsign : ':' ∉ '\n' :: key.toList := by simp [hkey.notMem (c := ':') rfl]
  have htest : isRooted path.toList = true := by simp [isRooted, hrooted]
  have hbare : (word (config.linkKeys.map String.toList)).isBare = true := rfl
  rw [recognises_iff_finds hshape hquotes rfl htext]
  simp only [finds_seq_boundary_signed_iff hbare]
  rw [exists_finds_signed_iff rfl (by decide) (by decide) htest hsign (hkey.not_isBlank_last ['\n'])
    (List.forall_mem_singleton.mpr rfl) (by decide) htext]
  exact exists_passes_boundary_words_iff rfl
    (IsIdentifier.ne_nil_and_notMem hconfig.keys rfl) []

end Texts

/-- **Which words are recognised.** A call, a link and a keyed path are recognised if their word does
not show a `$` where its boundary is asked for, and otherwise exactly if another word of the
configuration stands at a boundary inside it. -/
theorem ScannerConfig.recognises_iff (hconfig : config.OfIdentifiers)
    (hrooted : path.toList.head? = some '/') (hpath : Unquoted path.toList) (file : String) :
    (∀ verb ∈ config.navigationVerbs,
      Recognises config .navigation (methodCall config.navigationHandle verb path) path file ↔
        config.navigationHandle.toList.head? ≠ some '$' ∨
          HasLastWord config.navigationFunctions verb) ∧
    (∀ function ∈ config.navigationFunctions,
      Recognises config .navigation (functionCall function path) path file ↔
        function.toList.head? ≠ some '$' ∨ HasLastWord config.navigationFunctions function) ∧
    (∀ element ∈ config.linkElements,
      Recognises config .link (linkElement element path) path file ↔
        element.toList.getLast? ≠ some '$' ∨ HasFirstWord config.linkElements element) ∧
    ∀ key ∈ config.linkKeys,
      Recognises config .property (keyedPath key path) path file ↔
        key.toList.head? ≠ some '$' ∨ HasLastWord config.linkKeys key := by
  refine ⟨fun verb hverb => recognises_methodCall_iff hconfig hpath hverb, fun function hfunction => ?_,
    fun element helement => ?_, fun key hkey => ?_⟩
  · rw [recognises_functionCall_iff hconfig hpath hfunction, iff_or_self]
    exact hasLastWord_of_head hfunction (hconfig.functions function hfunction)
  · rw [recognises_linkElement_iff hconfig hpath helement, iff_or_self]
    exact hasFirstWord_of_last helement (hconfig.elements element helement)
  · rw [recognises_keyedPath_iff hconfig hpath hkey hrooted, iff_or_self]
    exact hasLastWord_of_head hkey (hconfig.keys key hkey)

/-- The boundary that `$go` lacks in front is the one inside it, where `go` begins. -/
theorem recognises_dollar_function :
    let config : ScannerConfig := { navigationFunctions := ["go", "$go"] }
    config.OfIdentifiers ∧ Recognises config .navigation (functionCall "$go" "/x") "/x" "a.tsx" := by
  have hconfig : ({ navigationFunctions := ["go", "$go"] } : ScannerConfig).OfIdentifiers := by decide
  have hrooted : "/x".toList.head? = some '/' := by decide
  have hpath : Unquoted "/x".toList := by decide
  have hfunction := (ScannerConfig.recognises_iff hconfig hrooted hpath "a.tsx").2.1 "$go" (by decide)
  exact ⟨hconfig, hfunction.mpr (Or.inr ⟨"go", by decide, ['$'], rfl, rfl⟩)⟩

/-- Without another word inside it, a handle that begins with the `$` is not recognised. -/
theorem not_recognises_dollar_handle :
    let config : ScannerConfig := { navigationHandle := "$nav" }
    config.OfIdentifiers ∧ "push" ∈ config.navigationVerbs ∧
      ¬ Recognises config .navigation (methodCall "$nav" "push" "/x") "/x" "a.tsx" := by
  have hnone : extractReferences (Form.ofConfig { navigationHandle := "$nav" })
      (methodCall "$nav" "push" "/x") "a.tsx" = [] := by decide
  refine ⟨by decide, by decide, ?_⟩
  rintro ⟨r, hr, -⟩
  rw [hnone] at hr
  cases hr

end RouteAudit
