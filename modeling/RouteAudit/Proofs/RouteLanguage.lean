import RouteAudit.Proofs.Pattern

/-!
# The language of a declared route

A declared route compiles unless one of its names has stray brackets, and the error then tells the route
and the first such name. A route that compiles accepts exactly its language (`InLanguage`): for each name
of the route one piece of the path between slashes, the same text for a fixed name and any text but the
empty one for a placeholder; the route without names stands for `/` (`ofDeclared_language`).

The names are told apart here by the text alone: a placeholder is a token in brackets
(`IsBracketed`), brackets of any other kind are stray (`IsStray`). `pieceOf_cases_text` ties these three
kinds of names to the pieces that they compile to; all else follows name by name.
-/

namespace RouteAudit

namespace RoutePattern

/-! ## Kinds of names -/

/-- A token in brackets: some text without brackets between an opening and a closing one. -/
def IsBracketed (name : List Char) : Prop :=
  ∃ token, name = '[' :: (token ++ [']']) ∧ token ≠ [] ∧ '[' ∉ token ∧ ']' ∉ token

/-- A name with brackets that is no token in brackets. -/
def IsStray (name : List Char) : Prop :=
  ('[' ∈ name ∨ ']' ∈ name) ∧ ¬ IsBracketed name

/-- The name is the first one of the list with stray brackets. -/
def IsFirstStray (names : List (List Char)) (name : List Char) : Prop :=
  ∃ before after, names = before ++ name :: after ∧ IsStray name ∧ ∀ n ∈ before, ¬ IsStray n

/-- A piece of a path can stand where the name stands in the route. -/
def IsStoodFor (name piece : List Char) : Prop :=
  (IsBracketed name ∧ piece ≠ []) ∨ (¬ IsBracketed name ∧ piece = name)

/-- The paths that the names of a route stand for. -/
def InLanguage (names : List (List Char)) (path : List Char) : Prop :=
  (names = [] ∧ path = ['/']) ∨
    (names ≠ [] ∧ ∃ text, path = '/' :: text ∧ List.Forall₂ IsStoodFor names (Text.split '/' text))

theorem bracketed?_eq_some_iff {name token : List Char} :
    Segment.bracketed? name = some token ↔ name = '[' :: (token ++ [']']) := by
  unfold Segment.bracketed?
  split
  case h_1 r =>
    rw [Option.ite_none_right_eq_some, Option.some.injEq, List.cons.injEq, eq_self_iff_true, true_and]
    constructor
    · rintro ⟨hlast, rfl⟩
      obtain ⟨s, rfl⟩ := List.getLast?_eq_some_iff.mp hlast
      rw [List.dropLast_concat]
    · rintro rfl
      exact ⟨List.getLast?_concat, List.dropLast_concat⟩
  case h_2 hopen =>
    refine iff_of_false (Option.some_ne_none token).symm ?_
    rintro rfl
    exact hopen _ rfl

theorem isBracketed_iff {name : List Char} (hslash : '/' ∉ name) : IsBracketed name ↔
    ∃ token, Segment.bracketed? name = some token ∧ Segment.isToken token = true := by
  refine exists_congr fun token => ?_
  rw [bracketed?_eq_some_iff]
  refine and_congr_right ?_
  rintro rfl
  have htoken : '/' ∉ token := fun hmem => hslash (by simp [hmem])
  simp only [Segment.isToken, Segment.isBracket, Bool.and_eq_true, decide_eq_true_iff,
    List.all_eq_true, Bool.not_eq_true', Bool.or_eq_false_iff, decide_eq_false_iff_not]
  refine and_congr_right fun _ => ⟨fun h c hc => ?_, fun h => ⟨?_, ?_⟩⟩
  · exact ⟨⟨fun heq => h.1 (heq ▸ hc), fun heq => h.2 (heq ▸ hc)⟩, fun heq => htoken (heq ▸ hc)⟩
  · exact fun hmem => (h _ hmem).1.1 rfl
  · exact fun hmem => (h _ hmem).1.2 rfl

/-- A name compiles to a wildcard, to itself or to an error that holds it. -/
theorem pieceOf_cases_text {name : List Char} (hslash : '/' ∉ name) :
    (IsBracketed name ∧ pieceOf name = .ok .wildcard) ∨
      (¬ IsBracketed name ∧ ¬ IsStray name ∧ pieceOf name = .ok (.literal name)) ∨
      (IsStray name ∧ pieceOf name = .error (String.ofList name)) := by
  have hbracketed := isBracketed_iff hslash
  have hany : name.any Segment.isBracket = true ↔ '[' ∈ name ∨ ']' ∈ name := by
    simp only [List.any_eq_true, Segment.isBracket, Bool.or_eq_true, decide_eq_true_iff, and_or_left,
      exists_or, exists_eq_right]
  by_cases hname : IsBracketed name
  · exact Or.inl ⟨hname, pieceOf_eq_ok_iff.mpr (Or.inr ⟨hbracketed.mp hname, rfl⟩)⟩
  · by_cases hbrackets : '[' ∈ name ∨ ']' ∈ name
    · refine Or.inr (Or.inr ⟨⟨hbrackets, hname⟩, ?_⟩)
      rw [hbracketed, not_exists] at hname
      unfold pieceOf Segment.ofText
      rw [String.toList_ofList]
      cases htoken : Segment.bracketed? name with
      | none => simp only [hany.mpr hbrackets, if_true]
      | some token => simp only [if_neg fun h => hname token ⟨htoken, h⟩]
    · have hplain : name.any Segment.isBracket = false := by
        rwa [← Bool.not_eq_true, hany]
      exact Or.inr (Or.inl ⟨hname, fun hstray => hbrackets hstray.1,
        pieceOf_eq_ok_iff.mpr (Or.inl ⟨hplain, rfl⟩)⟩)

theorem pieceOf_eq_error_iff {name : List Char} (hslash : '/' ∉ name) {e : String} :
    pieceOf name = .error e ↔ IsStray name ∧ e.toList = name := by
  rcases pieceOf_cases_text hslash with ⟨hname, hpiece⟩ | ⟨-, hname, hpiece⟩ | ⟨hname, hpiece⟩
  · simp [hpiece, IsStray, hname]
  · simp [hpiece, hname]
  · simp only [hpiece, hname, Except.error.injEq, true_and]
    constructor
    · rintro rfl
      exact String.toList_ofList
    · rintro rfl
      exact String.ofList_toList

/-- What fits the piece of a name is what the name stands for. -/
theorem fits_iff_of_pieceOf_eq_ok {name piece : List Char} {p : Piece} (hslash : '/' ∉ name)
    (hp : pieceOf name = .ok p) : p.Fits piece ↔ IsStoodFor name piece := by
  rcases pieceOf_cases_text hslash with ⟨hname, hpiece⟩ | ⟨hname, -, hpiece⟩ | ⟨-, hpiece⟩
  · rw [hpiece, Except.ok.injEq] at hp
    simp [← hp, Piece.Fits, IsStoodFor, hname]
  · rw [hpiece, Except.ok.injEq] at hp
    simp [← hp, Piece.Fits, IsStoodFor, hname]
  · rw [hpiece] at hp
    cases hp

/-! ## All names -/

variable {ns : List (List Char)} (hslash : ∀ name ∈ ns, '/' ∉ name)
include hslash

/-- Pieces fit the names of a path one by one as the names of the route stand for them. -/
theorem forall₂_fits_iff {ps : List Piece} (hps : piecesOf ns = .ok ps) (names : List (List Char)) :
    List.Forall₂ Piece.Fits ps names ↔ List.Forall₂ IsStoodFor ns names := by
  have hpieces := piecesOf_eq_ok_iff.mp hps
  clear hps
  induction hpieces generalizing names with
  | nil => simp
  | cons hpiece _ ih =>
    obtain ⟨hname, hns⟩ := List.forall_mem_cons.mp hslash
    simp only [List.forall₂_cons_left_iff, fits_iff_of_pieceOf_eq_ok hname hpiece, ih hns]

/-- The names compile up to the first one with stray brackets. -/
theorem piecesOf_eq_error_iff {e : String} :
    piecesOf ns = .error e ↔ IsFirstStray ns e.toList := by
  induction ns with
  | nil => simp [piecesOf, IsFirstStray]
  | cons name ns ih =>
    obtain ⟨hname, hns⟩ := List.forall_mem_cons.mp hslash
    have hfirst : IsFirstStray (name :: ns) e.toList ↔
        (IsStray name ∧ e.toList = name) ∨ (¬ IsStray name ∧ IsFirstStray ns e.toList) := by
      constructor
      · rintro ⟨before, after, hsplit, hstray, hbefore⟩
        cases before with
        | nil =>
          obtain ⟨rfl, rfl⟩ := List.cons.inj hsplit
          exact Or.inl ⟨hstray, rfl⟩
        | cons n before =>
          obtain ⟨rfl, rfl⟩ := List.cons.inj hsplit
          obtain ⟨hn, hbefore⟩ := List.forall_mem_cons.mp hbefore
          exact Or.inr ⟨hn, before, after, rfl, hstray, hbefore⟩
      · rintro (⟨hstray, rfl⟩ | ⟨hn, before, after, rfl, hstray, hbefore⟩)
        · exact ⟨[], ns, rfl, hstray, by simp⟩
        · exact ⟨name :: before, after, rfl, hstray, List.forall_mem_cons.mpr ⟨hn, hbefore⟩⟩
    rw [hfirst, ← pieceOf_eq_error_iff hname, ← ih hns, piecesOf]
    cases hpiece : pieceOf name with
    | error text =>
      have hstray := ((pieceOf_eq_error_iff hname).mp hpiece).1
      simp [hstray]
    | ok piece =>
      have hnot : ¬ IsStray name := fun hstray => by
        have herror := (pieceOf_eq_error_iff (e := String.ofList name) hname).mpr
          ⟨hstray, String.toList_ofList⟩
        rw [hpiece] at herror
        cases herror
      cases piecesOf ns <;> simp [Except.map, hnot]

omit hslash in
theorem exists_isFirstStray_iff : (∃ name, IsFirstStray ns name) ↔ ∃ name ∈ ns, IsStray name := by
  constructor
  · rintro ⟨name, before, after, rfl, hstray, -⟩
    exact ⟨name, by simp, hstray⟩
  · rintro ⟨name, hname, hstray⟩
    induction ns with
    | nil => cases hname
    | cons n ns ih =>
      by_cases hn : IsStray n
      · exact ⟨n, [], ns, rfl, hn, by simp⟩
      · have hne : name ≠ n := by
          rintro rfl
          exact hn hstray
        obtain ⟨first, before, after, rfl, hfirst, hbefore⟩ :=
          ih (List.mem_of_ne_of_mem hne hname)
        exact ⟨first, n :: before, after, rfl, hfirst, List.forall_mem_cons.mpr ⟨hn, hbefore⟩⟩

/-! ## Declared routes -/

omit hslash

variable {declared : String}

theorem slash_notMem_of_mem_names : ∀ name ∈ names declared, '/' ∉ name :=
  fun _ hname => (Text.of_mem_split (mem_names.mp hname).1).1

theorem ofDeclared_eq_error_iff {e : MalformedPattern} : ofDeclared declared = .error e ↔
    e.pattern = declared ∧ IsFirstStray (names declared) e.segment.toList := by
  rw [← piecesOf_eq_error_iff slash_notMem_of_mem_names]
  obtain ⟨pattern, segment⟩ := e
  unfold ofDeclared
  cases piecesOf (names declared) <;> simp [eq_comm]

/-- A route that compiles accepts the paths of its language. -/
theorem accepts_iff_inLanguage {p : RoutePattern} (h : ofDeclared declared = .ok p)
    (path : List Char) : p.accepts path = true ↔ InLanguage (names declared) path := by
  have hnil := pieces_eq_nil_iff h
  by_cases hp : p.pieces = []
  · rw [accepts, if_pos hp, decide_eq_true_iff]
    simp [InLanguage, hnil.mp hp]
  · rw [accepts_iff h hp]
    simp only [forall₂_fits_iff slash_notMem_of_mem_names (ofDeclared_eq_ok_iff.mp h), InLanguage,
      Ne, ← hnil, hp, false_and, not_false_eq_true, true_and, false_or]

/-- **A declared route compiles unless a name has stray brackets, and accepts exactly its language.** The
error tells the route and its first name with stray brackets. -/
theorem ofDeclared_language (declared : String) :
    (∀ e, ofDeclared declared = .error e ↔
      e.pattern = declared ∧ IsFirstStray (names declared) e.segment.toList) ∧
    ((∃ e, ofDeclared declared = .error e) ↔ ∃ name ∈ names declared, IsStray name) ∧
    ∀ p, ofDeclared declared = .ok p →
      ∀ path, p.accepts path = true ↔ InLanguage (names declared) path := by
  refine ⟨fun e => ofDeclared_eq_error_iff, ?_, fun p hp path => accepts_iff_inLanguage hp path⟩
  simp only [ofDeclared_eq_error_iff, ← exists_isFirstStray_iff]
  constructor
  · rintro ⟨e, -, hfirst⟩
    exact ⟨_, hfirst⟩
  · rintro ⟨name, hfirst⟩
    exact ⟨⟨declared, String.ofList name⟩, rfl, by rwa [String.toList_ofList]⟩

end RoutePattern

end RouteAudit
