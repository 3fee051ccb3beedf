import Mathlib.Data.List.Forall2
import RouteAudit.Proofs.Split
import RouteAudit.Route.Pattern

/-!
# What a pattern accepts

A compiled route matches a text piece by piece (`RoutePattern.matchPieces`). Read by names this is:
the text is a slash followed by as many names as there are pieces, each name fitting its piece
(`matchPieces_iff`, `accepts_iff`). The pieces of a compiled route are literal names of the declared
path and wildcards, so a literal is never empty and holds no slash (`literal_of_mem_pieces`).
-/

namespace RouteAudit

/-- Whether a name of a path fits a piece. -/
def Piece.Fits : Piece → List Char → Prop
  | .literal l, name => name = l
  | .wildcard, name => name ≠ []

namespace RoutePattern

/-! ## Matching, one name at a time -/

theorem afterLiteral?_eq_some_iff {l text rest : List Char} :
    afterLiteral? l text = some rest ↔ text = l ++ rest := by
  induction l generalizing text with
  | nil => simp [afterLiteral?, eq_comm]
  | cons c l ih =>
    cases text with
    | nil => simp [afterLiteral?]
    | cons d text =>
      rw [afterLiteral?]
      split_ifs with hc
      · rw [ih, hc, List.cons_append, List.cons.injEq, eq_self_iff_true, true_and]
      · simp [Ne.symm hc]

/-- What is matched to the end is empty or goes on with a slash. -/
theorem eq_nil_or_slash_of_matchPieces {ps : List Piece} {text : List Char}
    (h : matchPieces ps text = true) : text = [] ∨ ∃ r, text = '/' :: r := by
  cases ps with
  | nil => exact Or.inl (by simpa [matchPieces] using h)
  | cons p ps =>
    unfold matchPieces at h
    split at h <;> simp_all

theorem matchPieces_literal {l text : List Char} {ps : List Piece} :
    matchPieces (.literal l :: ps) ('/' :: text) = true ↔
      ∃ rest, text = l ++ rest ∧ matchPieces ps rest = true := by
  simp only [← afterLiteral?_eq_some_iff]
  rw [matchPieces]
  cases afterLiteral? l text <;> simp

theorem matchPieces_wildcard {text : List Char} {ps : List Piece} :
    matchPieces (.wildcard :: ps) ('/' :: text) = true ↔
      text.takeWhile (· ≠ '/') ≠ [] ∧ matchPieces ps (text.dropWhile (· ≠ '/')) = true := by
  show (!(text.takeWhile (· ≠ '/')).isEmpty && matchPieces ps (text.dropWhile (· ≠ '/'))) = true ↔ _
  rw [Bool.and_eq_true]
  simp

theorem matchPieces_nil_right {ps : List Piece} : matchPieces ps [] = true ↔ ps = [] := by
  cases ps with
  | nil => exact iff_of_true rfl rfl
  | cons p ps =>
    refine iff_of_false ?_ (List.cons_ne_nil p ps)
    cases p <;> exact Bool.false_ne_true

/-- A last name fits the only piece that is left. -/
theorem matchPieces_last {p : Piece} {ps : List Piece} {name : List Char} (hname : '/' ∉ name) :
    matchPieces (p :: ps) ('/' :: name) = true ↔ p.Fits name ∧ ps = [] := by
  cases p with
  | literal l =>
    rw [matchPieces_literal]
    constructor
    · rintro ⟨rest, rfl, hrest⟩
      rcases eq_nil_or_slash_of_matchPieces hrest with rfl | ⟨r, rfl⟩
      · exact ⟨by simp [Piece.Fits], matchPieces_nil_right.mp hrest⟩
      · simp at hname
    · rintro ⟨rfl, rfl⟩
      exact ⟨[], by simp, rfl⟩
  | wildcard =>
    rw [matchPieces_wildcard, Text.takeWhile_ne_of_notMem hname, Text.dropWhile_ne_of_notMem hname,
      matchPieces_nil_right]
    rfl

/-- A name before a slash fits the first piece, and the other pieces match from the slash on. -/
theorem matchPieces_name {p : Piece} {ps : List Piece} {name rest : List Char} (hname : '/' ∉ name)
    (hp : ∀ l, p = .literal l → '/' ∉ l) :
    matchPieces (p :: ps) ('/' :: (name ++ '/' :: rest)) = true ↔
      p.Fits name ∧ matchPieces ps ('/' :: rest) = true := by
  cases p with
  | literal l =>
    rw [matchPieces_literal]
    constructor
    · rintro ⟨rest', htext, hrest⟩
      -- what follows the literal begins at a slash, so the literal is the whole name
      have hl := hp l rfl
      have hnames := congrArg (List.takeWhile (· ≠ '/')) htext
      have hrests := congrArg (List.dropWhile (· ≠ '/')) htext
      rw [Text.takeWhile_ne_append_sep hname] at hnames
      rw [Text.dropWhile_ne_append_sep hname] at hrests
      rcases eq_nil_or_slash_of_matchPieces hrest with rfl | ⟨r, rfl⟩
      · rw [List.append_nil, Text.dropWhile_ne_of_notMem hl] at hrests
        cases hrests
      · rw [Text.takeWhile_ne_append_sep hl] at hnames
        rw [Text.dropWhile_ne_append_sep hl] at hrests
        rw [hrests]
        exact ⟨hnames, hrest⟩
    · rintro ⟨rfl, hrest⟩
      exact ⟨'/' :: rest, rfl, hrest⟩
  | wildcard =>
    rw [matchPieces_wildcard, Text.takeWhile_ne_append_sep hname, Text.dropWhile_ne_append_sep hname]
    rfl

/-- Pieces match a slash and a text exactly if the names of the text fit them one by one. -/
theorem matchPieces_iff {p : Piece} {ps : List Piece}
    (hslash : ∀ l, Piece.literal l ∈ p :: ps → '/' ∉ l) (text : List Char) :
    matchPieces (p :: ps) ('/' :: text) = true ↔
      List.Forall₂ Piece.Fits (p :: ps) (Text.split '/' text) := by
  induction ps generalizing p text with
  | nil =>
    rcases Text.notMem_or_exists_first '/' text with hname | ⟨name, rest, rfl, hname⟩
    · rw [matchPieces_last hname, Text.split_of_notMem hname]
      simp
    · rw [matchPieces_name hname (fun l hl => hslash l (by simp [hl])),
        Text.split_append_sep_of_notMem hname]
      have hrest : matchPieces [] ('/' :: rest) = false := rfl
      simp [hrest, Text.split_ne_nil]
  | cons q ps ih =>
    rcases Text.notMem_or_exists_first '/' text with hname | ⟨name, rest, rfl, hname⟩
    · rw [matchPieces_last hname, Text.split_of_notMem hname]
      simp
    · rw [matchPieces_name hname (fun l hl => hslash l (by simp [hl])),
        Text.split_append_sep_of_notMem hname, List.forall₂_cons,
        ih (fun l hl => hslash l (List.mem_cons_of_mem _ hl))]

/-! ## The pieces of a compiled route -/

/-- A name is compiled to itself if it has no brackets, and to a wildcard if it is a placeholder. -/
theorem pieceOf_eq_ok_iff {name : List Char} {p : Piece} :
    pieceOf name = .ok p ↔ (name.any Segment.isBracket = false ∧ p = .literal name) ∨
      ((∃ token, Segment.bracketed? name = some token ∧ Segment.isToken token = true) ∧
        p = .wildcard) := by
  have hbracket : ∀ token, Segment.bracketed? name = some token →
      name.any Segment.isBracket = true := by
    intro token h
    unfold Segment.bracketed? at h
    split at h
    · simp [Segment.isBracket]
    · cases h
  unfold pieceOf Segment.ofText
  rw [String.toList_ofList]
  cases hname : Segment.bracketed? name with
  | some token =>
    have hany := hbracket token hname
    by_cases htoken : Segment.isToken token = true
    · simp only [htoken, hany, if_true, Except.ok.injEq]
      simp [htoken, eq_comm (a := p)]
    · simp [htoken, hany]
  | none =>
    by_cases hany : name.any Segment.isBracket = true
    · simp [hany]
    · simp [hany, eq_comm (a := p)]

theorem piecesOf_eq_ok_iff {ns : List (List Char)} {ps : List Piece} :
    piecesOf ns = .ok ps ↔ List.Forall₂ (fun n p => pieceOf n = .ok p) ns ps := by
  induction ns generalizing ps with
  | nil => simp [piecesOf, eq_comm]
  | cons n ns ih =>
    rw [piecesOf]
    cases hn : pieceOf n with
    | error e => simp [List.forall₂_cons_left_iff, hn]
    | ok p =>
      simp only [List.forall₂_cons_left_iff, hn, Except.ok.injEq, ← ih]
      cases hns : piecesOf ns with
      | error e => simp [Except.map]
      | ok qs => simp [Except.map, eq_comm]

theorem ofDeclared_eq_ok_iff {declared : String} {p : RoutePattern} :
    ofDeclared declared = .ok p ↔ piecesOf (names declared) = .ok p.pieces := by
  unfold ofDeclared
  cases h : piecesOf (names declared) with
  | error e => simp
  | ok ps => cases p; simp

theorem mem_names {declared : String} {name : List Char} :
    name ∈ names declared ↔ name ∈ Text.split '/' declared.toList ∧ name ≠ [] := by
  simp [names]

/-- A literal piece is a name of the declared route. -/
theorem mem_names_of_literal_mem {declared : String} {p : RoutePattern} {l : List Char}
    (h : ofDeclared declared = .ok p) (hl : .literal l ∈ p.pieces) : l ∈ names declared := by
  have hpieces := piecesOf_eq_ok_iff.mp (ofDeclared_eq_ok_iff.mp h)
  obtain ⟨i, hi, hat⟩ := List.getElem_of_mem hl
  obtain ⟨hlength, hget⟩ := List.forall₂_iff_get.mp hpieces
  have hpiece := hget i (hlength ▸ hi) hi
  simp only [List.get_eq_getElem, hat, pieceOf_eq_ok_iff] at hpiece
  rcases hpiece with ⟨_, hname⟩ | ⟨_, hname⟩
  · rw [Piece.literal.injEq] at hname
    exact hname ▸ List.getElem_mem _
  · cases hname

/-- A literal piece is neither empty nor does it hold a slash. -/
theorem literal_of_mem_pieces {declared : String} {p : RoutePattern} {l : List Char}
    (h : ofDeclared declared = .ok p) (hl : .literal l ∈ p.pieces) :
    l ≠ [] ∧ '/' ∉ l ∧ l ⊆ declared.toList := by
  obtain ⟨hmem, hne⟩ := mem_names.mp (mem_names_of_literal_mem h hl)
  exact ⟨hne, Text.of_mem_split hmem⟩

theorem pieces_eq_nil_iff {declared : String} {p : RoutePattern} (h : ofDeclared declared = .ok p) :
    p.pieces = [] ↔ names declared = [] := by
  have hlength := (piecesOf_eq_ok_iff.mp (ofDeclared_eq_ok_iff.mp h)).length_eq
  rw [← List.length_eq_zero_iff, ← hlength, List.length_eq_zero_iff]

/-- **What a pattern with pieces accepts**: a slash and names that fit the pieces one by one. -/
theorem accepts_iff {declared : String} {p : RoutePattern} (h : ofDeclared declared = .ok p)
    (hne : p.pieces ≠ []) (path : List Char) :
    p.accepts path = true ↔
      ∃ text, path = '/' :: text ∧ List.Forall₂ Piece.Fits p.pieces (Text.split '/' text) := by
  obtain ⟨q, qs, hpieces⟩ := List.exists_cons_of_ne_nil hne
  have hslash : ∀ l, Piece.literal l ∈ q :: qs → '/' ∉ l :=
    fun l hl => (literal_of_mem_pieces h (hpieces ▸ hl)).2.1
  rw [accepts, if_neg hne, hpieces]
  constructor
  · intro hmatch
    rcases eq_nil_or_slash_of_matchPieces hmatch with rfl | ⟨text, rfl⟩
    · cases matchPieces_nil_right.mp hmatch
    · exact ⟨text, rfl, (matchPieces_iff hslash text).mp hmatch⟩
  · rintro ⟨text, rfl, hfits⟩
    exact (matchPieces_iff hslash text).mpr hfits

/-- Only the route without names accepts `/`. -/
theorem accepts_slash_iff {declared : String} {p : RoutePattern} (h : ofDeclared declared = .ok p) :
    p.accepts ['/'] = true ↔ names declared = [] := by
  rw [← pieces_eq_nil_iff h]
  constructor
  · intro haccepts
    by_contra hne
    obtain ⟨text, htext, hfits⟩ := (accepts_iff h hne _).mp haccepts
    obtain rfl : text = [] := by simpa using htext.symm
    -- the only name of the text is empty, and no piece fits an empty name
    obtain ⟨q, qs, hpieces⟩ := List.exists_cons_of_ne_nil hne
    rw [hpieces, Text.split_nil] at hfits
    have hfit := (List.forall₂_cons.mp hfits).1
    cases q with
    | literal l => exact (literal_of_mem_pieces h (hpieces ▸ List.mem_cons_self)).1 hfit.symm
    | wildcard => exact hfit rfl
  · intro hnil
    rw [accepts, if_pos hnil, decide_eq_true_iff]

end RoutePattern

end RouteAudit
