import Mathlib.Data.List.Basic
import RouteAudit.Grammar.Forms
import RouteAudit.Proofs.Hits

/-!
# Signed values

A call and a keyed path are written alike: some words, a sign (the parenthesis or the colon) with
blanks around it, and a value in quotes (`signed`). In a text with one pair of quotes a shape finds
nothing but the path between them (`Finds.of_quotedOnce`), and a signed value is led back from the
opening quote to the sign, so its words end exactly where the text before the sign does
(`exists_finds_signed_iff`).
-/

namespace RouteAudit

/-! ## One pair of quotes -/

/-- The quote characters. -/
def quoteChars : List Char :=
  [doubleQuote, singleQuote, backtick]

/-- A text without quotes. -/
def Unquoted (s : List Char) : Prop :=
  ∀ q ∈ quoteChars, q ∉ s

instance (s : List Char) : Decidable (Unquoted s) :=
  List.decidableBAll (fun q => q ∉ s) quoteChars

theorem Unquoted.append {s t : List Char} (hs : Unquoted s) (ht : Unquoted t) : Unquoted (s ++ t) :=
  fun q hq hmem => (List.mem_append.mp hmem).elim (hs q hq) (ht q hq)

theorem Unquoted.cons {c : Char} {s : List Char} (hc : c ∉ quoteChars) (hs : Unquoted s) :
    Unquoted (c :: s) := by
  intro q hq hmem
  rcases List.mem_cons.mp hmem with rfl | hmem
  · exact hc hq
  · exact hs q hq hmem

/-- Where there is one pair of quotes, every quoted value is the one in it. -/
theorem quoted_unique {q : Char} {a v r before p after : List Char} (hq : q ∈ quoteChars)
    (hv : q ∉ v) (hbefore : Unquoted before) (hp : Unquoted p) (hafter : Unquoted after)
    (h : a ++ q :: (v ++ q :: r) = before ++ doubleQuote :: (p ++ doubleQuote :: after)) :
    a = before ∧ v = p := by
  obtain rfl : q = doubleQuote := by
    by_contra hne
    have hmem : q ∈ before ++ doubleQuote :: (p ++ doubleQuote :: after) := by
      rw [← h]
      simp
    simp [hbefore q hq, hp q hq, hafter q hq, hne] at hmem
  have hsplit := congrArg (Text.split doubleQuote) h
  simp only [Text.split_append_sep, Text.split_of_notMem hv, Text.split_of_notMem (hbefore _ hq),
    Text.split_of_notMem (hp _ hq), Text.split_of_notMem (hafter _ hq)] at hsplit
  have hlength := congrArg List.length hsplit
  have hr := List.length_pos_of_ne_nil (Text.split_ne_nil doubleQuote r)
  have ha := List.length_pos_of_ne_nil (Text.split_ne_nil doubleQuote a)
  simp only [List.length_append, List.length_cons, List.length_nil] at hlength
  obtain ⟨a', ha'⟩ := List.length_eq_one_iff.mp (show (Text.split doubleQuote a).length = 1 by omega)
  have hjoin := Text.intercalate_split doubleQuote a
  rw [ha'] at hsplit hjoin
  simp_all

/-- The text has one pair of quotes, with the path between them. -/
structure QuotedOnce (text before path after : List Char) : Prop where
  eq : text = before ++ doubleQuote :: (path ++ doubleQuote :: after)
  before : Unquoted before
  path : Unquoted path
  after : Unquoted after

namespace Shape

variable {s key value : Shape} {c d : Cursor} {text before path after v : List Char}

/-- In a text with one pair of quotes a shape finds the path between them, from a place before it. -/
theorem Finds.of_quotedOnce (htext : QuotedOnce c.text before path after)
    (hquotes : s.quotes ⊆ quoteChars) (h : s.Finds c v d) :
    v = path ∧ ∃ x, c.rest = x ++ doubleQuote :: (path ++ doubleQuote :: after) ∧
      c.done.reverse ++ x = before := by
  obtain ⟨q, hq, x, r, hrest, hv⟩ := h.between
  have heq := htext.eq
  rw [Cursor.text, hrest, ← List.append_assoc] at heq
  obtain ⟨hx, rfl⟩ := quoted_unique (hquotes hq) hv htext.before htext.path htext.after heq
  rw [hx] at heq
  exact ⟨rfl, x, by rw [hrest, List.append_cancel_left heq], hx⟩

/-- In a text with one pair of quotes there is a match exactly if the shape finds the path. -/
theorem exists_match_iff_finds (htext : QuotedOnce text before path after)
    (hquotes : s.quotes ⊆ quoteChars) (hvalued : s.isValued = true) :
    (∃ m ∈ s.matchesIn text, m.value = some path) ↔ ∃ c d, c.text = text ∧ s.Finds c path d := by
  constructor
  · rintro ⟨m, hm, hvalue⟩
    obtain ⟨hstart, hhit⟩ := of_mem_matchesIn hm
    rw [hvalue] at hhit
    exact ⟨m.start, m.after, hstart, hhit⟩
  · rintro ⟨c, d, hc, hfinds⟩
    have hsome : s.matchesIn text ≠ [] := by
      intro hnil
      obtain ⟨-, x, hrest, -⟩ := hfinds.of_quotedOnce (hc ▸ htext) hquotes
      have hnone := matchesIn_eq_nil_iff.mp hnil c hc (by simp [hrest])
      rw [Finds, hnone] at hfinds
      cases hfinds
    obtain ⟨m, hm⟩ := List.exists_mem_of_ne_nil _ hsome
    obtain ⟨hstart, hhit⟩ := of_mem_matchesIn hm
    obtain ⟨v, hv : m.value = some v⟩ :=
      Option.isSome_iff_exists.mp (isSome_value_of_isValued hvalued hhit)
    rw [hv] at hhit
    obtain ⟨rfl, -⟩ := Finds.of_quotedOnce (hstart ▸ htext) hquotes hhit
    exact ⟨m, hm, hv⟩

/-! ## Back from the quote to the sign -/

/-- A key, a sign with blanks around it, and a value. -/
def signed (key : Shape) (sign : Char) (value : Shape) : Shape :=
  inOrder [key, blanks, word [[sign]], blanks, value]

/-- A value in one of the quotes that passes the test. -/
def quotedIn (quotes : List Char) (test : List Char → Bool) : Shape :=
  oneOf (quotes.map (quoted · test))

variable {sign : Char} {quotes : List Char} {test : List Char → Bool}

theorem passes_blanks_iff :
    blanks.Passes c d ↔ ∃ x, c.Reads x d ∧ ∀ z ∈ x, Text.isBlank z = true :=
  passes_run_iff

theorem passes_sign_iff : (word [[sign]]).Passes c d ↔ c.Reads [sign] d := by
  simp [passes_word_iff]

theorem finds_signed_iff (hkey : key.isBare = true) : (signed key sign value).Finds c v d ↔
    ∃ e f x y, key.Passes c e ∧ e.Reads (x ++ ([sign] ++ y)) f ∧
      (∀ z ∈ x, Text.isBlank z = true) ∧ (∀ z ∈ y, Text.isBlank z = true) ∧ value.Finds f v d := by
  have hblanks : blanks.isBare = true := rfl
  have hsign : (word [[sign]]).isBare = true := rfl
  simp only [signed, inOrder, finds_seq_iff_of_isBare hkey, finds_seq_iff_of_isBare hblanks,
    finds_seq_iff_of_isBare hsign, passes_blanks_iff, passes_sign_iff]
  constructor
  · rintro ⟨e, hpasses, e₁, ⟨x, hx, hblank⟩, e₂, hsign, f, ⟨y, hy, hblank'⟩, hvalue⟩
    have hreads : e.Reads (x ++ ([sign] ++ y)) f :=
      Cursor.reads_append_iff.mpr ⟨e₁, hx, Cursor.reads_append_iff.mpr ⟨e₂, hsign, hy⟩⟩
    exact ⟨e, f, x, y, hpasses, hreads, hblank, hblank', hvalue⟩
  · rintro ⟨e, f, x, y, hpasses, hreads, hblank, hblank', hvalue⟩
    obtain ⟨e₁, hx, hrest⟩ := Cursor.reads_append_iff.mp hreads
    obtain ⟨e₂, hsign, hy⟩ := Cursor.reads_append_iff.mp hrest
    exact ⟨e, hpasses, e₁, ⟨x, hx, hblank⟩, e₂, hsign, f, ⟨y, hy, hblank'⟩, hvalue⟩

theorem finds_quotedIn_iff : (quotedIn quotes test).Finds c v d ↔
    ∃ q ∈ quotes, c.Reads (q :: (v ++ [q])) d ∧ q ∉ v ∧ test v = true := by
  simp only [quotedIn, finds_oneOf_iff, List.mem_map, exists_exists_and_eq_and, finds_quoted_iff]

/-- A text that does not end in a blank ends in no blanks. -/
theorem eq_nil_of_blank {u x : List Char} (heq : u ++ x = before)
    (hx : ∀ z ∈ x, Text.isBlank z = true) (hlast : ∀ z ∈ before.getLast?, Text.isBlank z = false) :
    x = [] := by
  rcases List.eq_nil_or_concat x with rfl | ⟨x, z, rfl⟩
  · rfl
  · have hblank := hx z (by simp)
    rw [hlast z (by simp [← heq])] at hblank
    cases hblank

section QuotedOnce

variable {y : List Char} (hkey : key.isBare = true) (hquotes : quotes ⊆ quoteChars)
  (hquote : doubleQuote ∈ quotes) (htest : test path = true)
  (hsign : sign ∉ before) (hlast : ∀ z ∈ before.getLast?, Text.isBlank z = false)
  (hy : ∀ z ∈ y, Text.isBlank z = true) (hy' : sign ∉ y)

include hkey hquotes hsign hlast hy' in
/-- A key leads to the sign: it ends where the text before the sign does. -/
theorem Finds.passes_key (htext : QuotedOnce c.text (before ++ sign :: y) path after)
    (hfinds : (signed key sign (quotedIn quotes test)).Finds c path d) :
    key.Passes c ⟨before.reverse, sign :: (y ++ doubleQuote :: (path ++ doubleQuote :: after))⟩ := by
  simp only [finds_signed_iff hkey, finds_quotedIn_iff] at hfinds
  obtain ⟨e, f, x, y', hpasses, hreads, hx, -, q, hq, hquoted, hv, -⟩ := hfinds
  have hf : f.text = c.text := by rw [hreads.text_eq, text_of_mem_hits hpasses]
  have hrest : f.rest = q :: (path ++ q :: d.rest) := by simpa using hquoted.1
  have heq := htext.eq
  rw [← hf, Cursor.text, hrest] at heq
  obtain ⟨hdone, -⟩ := quoted_unique (hquotes hq) hv htext.before htext.path htext.after heq
  rw [hdone] at heq
  have hafter := List.append_cancel_left heq
  rw [hreads.2] at hdone
  have hsplit : before ++ sign :: y = (e.done.reverse ++ x) ++ sign :: y' := by simp [← hdone]
  obtain ⟨hbefore, -, rfl⟩ := (List.append_cons_inj_of_notMem hsign hy').mp hsplit
  obtain rfl := eq_nil_of_blank hbefore.symm hx hlast
  have he : e = ⟨before.reverse, sign :: (y ++ doubleQuote :: (path ++ doubleQuote :: after))⟩ := by
    obtain ⟨done, rest⟩ := e
    obtain ⟨hreads, -⟩ := hreads
    simp_all
  exact he ▸ hpasses

include hkey hquote htest hy in
/-- Behind a key the sign and the quotes are read on. -/
theorem Passes.finds_signed (hpath : doubleQuote ∉ path)
    (hpasses : key.Passes c
      ⟨before.reverse, sign :: (y ++ doubleQuote :: (path ++ doubleQuote :: after))⟩) :
    ∃ d, (signed key sign (quotedIn quotes test)).Finds c path d := by
  have hvalue : (quotedIn quotes test).Finds
      ⟨y.reverse ++ sign :: before.reverse, doubleQuote :: (path ++ doubleQuote :: after)⟩ path
      ⟨(doubleQuote :: (path ++ [doubleQuote])).reverse ++ (y.reverse ++ sign :: before.reverse), after⟩ :=
    finds_quotedIn_iff.mpr ⟨doubleQuote, hquote, ⟨by simp, rfl⟩, hpath, htest⟩
  exact ⟨_, (finds_signed_iff hkey).mpr ⟨_, ⟨_, _⟩, [], y, hpasses, ⟨by simp, by simp⟩, by simp, hy,
    hvalue⟩⟩

include hkey hquotes hquote htest hsign hlast hy hy' in
/-- Between the key and the quote stands the sign, so the value is found exactly from where a key leads
to the sign. -/
theorem exists_finds_signed_iff (htext : QuotedOnce text (before ++ sign :: y) path after) :
    (∃ c d, c.text = text ∧ (signed key sign (quotedIn quotes test)).Finds c path d) ↔
      ∃ c, key.Passes c
        ⟨before.reverse, sign :: (y ++ doubleQuote :: (path ++ doubleQuote :: after))⟩ := by
  constructor
  · rintro ⟨c, d, rfl, hfinds⟩
    exact ⟨c, hfinds.passes_key hkey hquotes hsign hlast hy' htext⟩
  · rintro ⟨c, hpasses⟩
    obtain ⟨d, hfinds⟩ :=
      hpasses.finds_signed hkey hquote htest hy (htext.path doubleQuote (by decide))
    refine ⟨c, d, ?_, hfinds⟩
    rw [← text_of_mem_hits hpasses, htext.eq]
    simp [Cursor.text]

end QuotedOnce

/-- In front of a signed key, a word boundary is one in front of the key. -/
theorem finds_seq_boundary_signed_iff (hkey : key.isBare = true) :
    (seq boundary (signed key sign value)).Finds c v d ↔
      (signed (seq boundary key) sign value).Finds c v d := by
  have hboundary : boundary.isBare = true := rfl
  rw [finds_seq_iff_of_isBare hboundary, finds_signed_iff (by rw [isBare, hkey, hboundary]; rfl)]
  simp only [finds_signed_iff hkey, passes_seq_iff]
  constructor
  · rintro ⟨e, hboundary, e', f, x, y, hkey, hrest⟩
    exact ⟨e', f, x, y, ⟨e, hboundary, hkey⟩, hrest⟩
  · rintro ⟨e', f, x, y, ⟨e, hboundary, hkey⟩, hrest⟩
    exact ⟨e, hboundary, e', f, x, y, hkey, hrest⟩

end Shape

end RouteAudit
