import RouteAudit.Proofs.Group
import RouteAudit.Proofs.Rooted
import RouteAudit.Proofs.Template
import RouteAudit.Proofs.Unused

/-!
# The addresses of a page

An address of a page is its declared path with a value for each placeholder (`Filling.address`). A
value is one name, in which text and interpolations may be mixed, or one interpolation alone, whose
expression may hold anything. Every address of a page is valid and uses the page
(`valid_of_address`).

Proof. All of the address belongs to the path (`PathText.pathPartFrom_eq`), so the path of the group
is the address itself. If no value holds a slash, the names of the
address fit the pattern one by one (`forall₂_fits_substitute`). If some value does, the first one is
an interpolation, so the literal part of the address ends where the declared path has its first
placeholder (`beforeInterpolation?_substitute`), and the page accepts by its literal part.
-/

namespace RouteAudit

namespace Address

/-- `${…}` around an expression. -/
def interpolation (body : List Char) : List Char :=
  '$' :: '{' :: (body ++ ['}'])

/-- One interpolation and nothing else. -/
def IsInterpolation (v : List Char) : Prop :=
  ∃ body, Balanced body ∧ v = interpolation body

/-- Characters that do not end the path and balanced interpolations, one after the other. -/
inductive PathText : List Char → Prop
  | nil : PathText []
  | text {c : Char} {s : List Char} : endsPath c = false → PathText s → PathText (c :: s)
  | interpolation {body s : List Char} : Balanced body → PathText s →
    PathText (Address.interpolation body ++ s)

/-- One name in which text and interpolations may be mixed. -/
def IsMixedName (v : List Char) : Prop :=
  Text.IsName v ∧ PathText v

/-! ## Text that belongs to the path -/

theorem pathText_of_any {t : List Char} (h : t.any endsPath = false) : PathText t := by
  induction t with
  | nil => exact .nil
  | cons c t ih =>
    rw [List.any_cons, Bool.or_eq_false_iff] at h
    exact .text h.1 (ih h.2)

theorem IsInterpolation.pathText {v : List Char} (h : IsInterpolation v) : PathText v := by
  obtain ⟨body, hbody, rfl⟩ := h
  rw [← List.append_nil (interpolation body)]
  exact .interpolation hbody .nil

theorem PathText.append {s s' : List Char} (h : PathText s) (h' : PathText s') :
    PathText (s ++ s') := by
  induction h with
  | nil => exact h'
  | text hc _ ih => exact .text hc ih
  | interpolation hbody _ ih =>
    rw [List.append_assoc]
    exact .interpolation hbody ih

/-- A brace is no interpolation, so what follows it is path text again. -/
theorem PathText.of_brace {s : List Char} (h : PathText ('{' :: s)) : PathText s := by
  generalize hs : '{' :: s = t at h
  cases h with
  | nil => cases hs
  | text _ hrest =>
    obtain ⟨-, rfl⟩ := List.cons.inj hs
    exact hrest
  | interpolation _ _ => simp [Address.interpolation] at hs

theorem Within.mono {depth depth' : Nat} {s : List Char} (h : Within depth s)
    (hle : depth ≤ depth') : Within depth' s := by
  intro p hp
  have hcount := h p hp
  omega

/-- The path goes through an interpolation, be it inside another one. -/
theorem pathPartFrom_interpolation {body : List Char} (h : Balanced body) (depth : Nat)
    (r : List Char) :
    pathPartFrom depth (interpolation body ++ r) = interpolation body ++ pathPartFrom depth r := by
  have hassoc : ∀ s, interpolation body ++ s = '$' :: '{' :: (body ++ '}' :: s) := by
    simp [interpolation]
  rw [hassoc, hassoc]
  cases depth with
  | zero => exact pathPart_interpolation h r
  | succ n =>
    have hopen : ∀ t, pathPartFrom (n + 1) ('$' :: '{' :: t) = '$' :: '{' :: pathPartFrom (n + 2) t := by
      intro t
      rw [pathPartFrom_succ, show braces (n + 1) '$' = n + 1 from rfl, pathPartFrom_succ]
      rfl
    have hclose : pathPartFrom (n + 2) ('}' :: r) = '}' :: pathPartFrom (n + 1) r := by
      rw [pathPartFrom_succ]
      rfl
    have hwithin : Within (n + 2) body := h.within.mono (by omega)
    rw [hopen, pathPartFrom_append_within hwithin, h.2, Nat.add_sub_cancel, hclose]

/-- Path text is kept whole, in whatever number of braces it stands. The induction is on the length,
since a dollar before a brace takes the brace along. -/
theorem PathText.pathPartFrom_eq {s : List Char} (h : PathText s) (depth : Nat) :
    pathPartFrom depth s = s := by
  induction hlength : s.length using Nat.strong_induction_on generalizing s depth with
  | h n ih =>
    subst hlength
    cases h with
    | nil => exact pathPartFrom_nil depth
    | @text c s hc hs =>
      have hrest := fun depth => ih s.length (by simp) hs depth rfl
      cases depth with
      | succ n => rw [pathPartFrom_succ, hrest]
      | zero =>
        by_cases hopen : c = '$' ∧ ∃ r, s = '{' :: r
        · obtain ⟨rfl, r, rfl⟩ := hopen
          have hshorter : r.length < ('$' :: '{' :: r).length := by
            simp only [List.length_cons]
            omega
          rw [pathPartFrom_open, ih r.length hshorter hs.of_brace 1 rfl]
        · have hcut : ¬ (c = '?' ∨ c = '#') := by simpa [endsPath] using hc
          rw [pathPartFrom_zero fun r hdollar hbrace => hopen ⟨hdollar, r, hbrace⟩, if_neg hcut, hrest]
    | @interpolation body s hbody hs =>
      have hshorter : s.length < (Address.interpolation body ++ s).length := by
        simp only [Address.interpolation, List.length_append, List.length_cons]
        omega
      rw [pathPartFrom_interpolation hbody, ih s.length hshorter hs depth rfl]

theorem pathText_rooted {names : List (List Char)} (h : ∀ name ∈ names, PathText name) :
    PathText (Text.rooted names) := by
  induction names with
  | nil => exact .text (by decide) .nil
  | cons a names ih =>
    have ha := h a List.mem_cons_self
    cases names with
    | nil =>
      rw [Text.rooted_singleton]
      exact .text (by decide) ha
    | cons b names =>
      rw [Text.rooted_cons_cons]
      exact .text (by decide) (ha.append (ih fun n hn => h n (List.mem_cons_of_mem _ hn)))

theorem head?_flatMap_slash (names : List (List Char)) :
    (names.flatMap ('/' :: ·)).head? ≠ some '{' := by
  cases names <;> simp

end Address

/-! ## Values for placeholders -/

namespace RoutePattern

/-- Whether a name of a declared path is a placeholder. -/
def isPlaceholder (name : List Char) : Bool :=
  (Segment.ofText (String.ofList name)).isPlaceholder

/-- The names with the values in the places of the placeholders, in order. -/
def substitute : (names values : List (List Char)) → List (List Char)
  | [], _ => []
  | names, [] => names
  | name :: names, value :: values =>
    if isPlaceholder name then value :: substitute names values
    else name :: substitute names (value :: values)

theorem substitute_fixed {name : List Char} (h : isPlaceholder name = false)
    (names values : List (List Char)) :
    substitute (name :: names) values = name :: substitute names values := by
  cases values with
  | nil => cases names <;> simp [substitute]
  | cons value values => rw [substitute, if_neg (by simp [h])]

theorem substitute_placeholder {name : List Char} (h : isPlaceholder name = true)
    (names : List (List Char)) (value : List Char) (values : List (List Char)) :
    substitute (name :: names) (value :: values) = value :: substitute names values := by
  rw [substitute, if_pos h]

theorem substitute_eq_self {names : List (List Char)} (h : ∀ name ∈ names, isPlaceholder name = false)
    (values : List (List Char)) : substitute names values = names := by
  induction names with
  | nil => cases values <;> rfl
  | cons name names ih =>
    rw [substitute_fixed (h name List.mem_cons_self),
      ih fun n hn => h n (List.mem_cons_of_mem _ hn)]

theorem ofText_eq_fixed {text t : String} (h : Segment.ofText text = .fixed t) : t = text := by
  unfold Segment.ofText at h
  split at h <;> split at h <;> simp_all

theorem pieceOf_cases {name : List Char} {p : Piece} (h : pieceOf name = .ok p) :
    (isPlaceholder name = true ∧ p = .wildcard) ∨
      (isPlaceholder name = false ∧ p = .literal name) := by
  unfold pieceOf at h
  unfold isPlaceholder
  cases hname : Segment.ofText (String.ofList name) with
  | fixed text =>
    simp only [hname, Except.ok.injEq] at h
    rw [ofText_eq_fixed hname, String.toList_ofList] at h
    exact Or.inr ⟨rfl, h.symm⟩
  | placeholder token =>
    simp only [hname, Except.ok.injEq] at h
    exact Or.inl ⟨rfl, h.symm⟩
  | malformed text => simp [hname] at h

/-- Every name of the result is a fixed name of the declared path or one of the values. -/
theorem forall_mem_substitute {P : List Char → Prop} {names values : List (List Char)}
    (hcount : values.length = names.countP isPlaceholder)
    (hnames : ∀ name ∈ names, isPlaceholder name = false → P name) (hvalues : ∀ v ∈ values, P v) :
    ∀ name ∈ substitute names values, P name := by
  induction names generalizing values with
  | nil => simp [substitute]
  | cons name names ih =>
    have htail : ∀ n ∈ names, isPlaceholder n = false → P n :=
      fun n hn => hnames n (List.mem_cons_of_mem _ hn)
    cases hname : isPlaceholder name with
    | true =>
      rw [List.countP_cons_of_pos hname] at hcount
      obtain ⟨value, values, rfl⟩ := List.exists_cons_of_length_eq_add_one hcount
      rw [substitute_placeholder hname, List.forall_mem_cons]
      exact ⟨hvalues value List.mem_cons_self, ih (by simpa using hcount) htail
        fun v hv => hvalues v (List.mem_cons_of_mem _ hv)⟩
    | false =>
      rw [List.countP_cons_of_neg (by simp [hname])] at hcount
      rw [substitute_fixed hname, List.forall_mem_cons]
      exact ⟨hnames name List.mem_cons_self hname, ih hcount htail hvalues⟩

/-- The names with values fit the pieces one by one: a fixed name its own, a value a wildcard. -/
theorem forall₂_fits_substitute {names values : List (List Char)} {pieces : List Piece}
    (hpieces : List.Forall₂ (fun n p => pieceOf n = .ok p) names pieces)
    (hcount : values.length = names.countP isPlaceholder) (hvalues : ∀ v ∈ values, v ≠ []) :
    List.Forall₂ Piece.Fits pieces (substitute names values) := by
  induction hpieces generalizing values with
  | nil => simp [substitute]
  | cons hpiece _ ih =>
    rcases pieceOf_cases hpiece with ⟨hname, rfl⟩ | ⟨hname, rfl⟩
    · rw [List.countP_cons_of_pos hname] at hcount
      obtain ⟨value, values, rfl⟩ := List.exists_cons_of_length_eq_add_one hcount
      rw [substitute_placeholder hname]
      exact .cons (hvalues value List.mem_cons_self)
        (ih (by simpa using hcount) fun v hv => hvalues v (List.mem_cons_of_mem _ hv))
    · rw [List.countP_cons_of_neg (by simp [hname])] at hcount
      rw [substitute_fixed hname]
      exact .cons rfl (ih hcount hvalues)

theorem exists_eq_of_isPlaceholder {name : List Char} (h : isPlaceholder name = true) :
    ∃ r, name = '[' :: r := by
  cases name with
  | nil => exact absurd h (by decide)
  | cons c r =>
    by_cases hc : c = '['
    · exact ⟨r, by rw [hc]⟩
    · have hnone : Segment.bracketed? (c :: r) = none := by
        unfold Segment.bracketed?
        split <;> simp_all
      unfold isPlaceholder Segment.ofText at h
      rw [String.toList_ofList, hnone] at h
      dsimp only at h
      split at h <;> cases h

theorem bracket_notMem_of_fixed {name : List Char} {p : Piece} (h : pieceOf name = .ok p)
    (hname : isPlaceholder name = false) : '[' ∉ name := by
  rcases pieceOf_eq_ok_iff.mp h with ⟨hany, -⟩ | ⟨-, rfl⟩
  · intro hmem
    rw [List.any_eq_false] at hany
    exact hany _ hmem (by decide)
  · rcases pieceOf_cases h with ⟨hname', -⟩ | ⟨-, hp⟩
    · rw [hname] at hname'
      cases hname'
    · cases hp

theorem beforeBracket?_append {a : List Char} (h : '[' ∉ a) (r : List Char) :
    RouteEntry.beforeBracket? (a ++ r) = (RouteEntry.beforeBracket? r).map (a ++ ·) := by
  induction a with
  | nil => simp
  | cons c a ih =>
    rw [List.mem_cons, not_or] at h
    rw [List.cons_append, RouteEntry.beforeBracket?, if_neg (Ne.symm h.1), ih h.2, Option.map_map]
    rfl

open Address in
/-- Where the first value is an interpolation, the literal part of the address ends where the declared
path has its first placeholder. -/
theorem beforeInterpolation?_substitute {names : List (List Char)} (values : List (List Char))
    {value : List Char}
    (hfixed : ∀ name ∈ names, isPlaceholder name = false → Plain name ∧ '[' ∉ name)
    (hplaceholder : ∃ name ∈ names, isPlaceholder name = true) (hvalue : IsInterpolation value) :
    ∃ literal,
      beforeInterpolation? ((substitute names (value :: values)).flatMap ('/' :: ·)) = some literal ∧
      RouteEntry.beforeBracket? (names.flatMap ('/' :: ·)) = some literal := by
  induction names with
  | nil => simp at hplaceholder
  | cons name names ih =>
    cases hname : isPlaceholder name with
    | true =>
      obtain ⟨r, rfl⟩ := exists_eq_of_isPlaceholder hname
      obtain ⟨body, -, rfl⟩ := hvalue
      rw [substitute_placeholder hname]
      exact ⟨['/'], by simp [beforeInterpolation?, interpolation], by simp [RouteEntry.beforeBracket?]⟩
    | false =>
      obtain ⟨hplain, hbracket⟩ := hfixed name List.mem_cons_self hname
      have hplaceholder' : ∃ n ∈ names, isPlaceholder n = true := by
        obtain ⟨n, hn, hplace⟩ := hplaceholder
        rcases List.mem_cons.mp hn with rfl | hn
        · rw [hname] at hplace
          cases hplace
        · exact ⟨n, hn, hplace⟩
      obtain ⟨literal, hliteral, hdeclared⟩ :=
        ih (fun n hn => hfixed n (List.mem_cons_of_mem _ hn)) hplaceholder'
      have hslash : Plain ('/' :: name) := by
        intro hinfix
        rcases List.infix_cons_iff.mp hinfix with hprefix | hinfix
        · simp [List.cons_prefix_cons] at hprefix
        · exact hplain hinfix
      refine ⟨'/' :: name ++ literal, ?_, ?_⟩
      · rw [substitute_fixed hname, List.flatMap_cons,
          beforeInterpolation?_plain_append hslash (head?_flatMap_slash _), hliteral]
        rfl
      · rw [List.flatMap_cons, beforeBracket?_append (by simp [hbracket]), hdeclared]
        rfl

end RoutePattern

open RoutePattern Address

/-! ## The address as a path -/

/-- What each name of an address is: path text, not empty, and without a slash at its ends. -/
structure Address.IsAddressName (name : List Char) : Prop where
  pathText : PathText name
  ne_nil : name ≠ []
  head : name.head? ≠ some '/'
  last : name.getLast? ≠ some '/'

namespace Address

theorem isAddressName_of_isName {name : List Char} (htext : PathText name) (h : Text.IsName name) :
    IsAddressName name :=
  ⟨htext, h.1, fun hhead => h.2 (List.mem_of_head? hhead),
    fun hlast => h.2 (List.mem_of_getLast? hlast)⟩

theorem IsInterpolation.isAddressName {v : List Char} (h : IsInterpolation v) : IsAddressName v := by
  have htext := h.pathText
  obtain ⟨body, -, rfl⟩ := h
  refine ⟨htext, by simp [interpolation], by simp [interpolation], ?_⟩
  rw [interpolation, ← List.cons_append, ← List.cons_append, List.getLast?_concat]
  decide

variable {names : List (List Char)}

theorem clean_rooted (h : ∀ name ∈ names, IsAddressName name) :
    clean (Text.rooted names) = Text.rooted names := by
  by_cases hne : names = []
  · rw [hne]
    decide
  · have hlast := Text.getLast?_rooted hne fun name hname => ⟨(h name hname).ne_nil, (h name hname).last⟩
    have hpath : pathPart (Text.rooted names) = Text.rooted names :=
      (pathText_rooted fun name hname => (h name hname).pathText).pathPartFrom_eq 0
    have hcons : Text.rooted names ≠ [] := List.cons_ne_nil _ _
    rw [clean, hpath, Text.dropTrailingSlash, if_neg hlast, if_neg hcons, if_neg hcons]

theorem isExternal_rooted (h : ∀ name ∈ names, IsAddressName name) :
    isExternal (String.ofList (Text.rooted names)) = false := by
  have hhead : (['/'].intercalate names).head? ≠ some '/' := by
    cases names with
    | nil => simp
    | cons name names =>
      obtain ⟨c, r, rfl⟩ := List.exists_cons_of_ne_nil (h name List.mem_cons_self).ne_nil
      have hc := (h _ List.mem_cons_self).head
      cases names <;> simpa [List.intercalate_cons_cons] using hc
  unfold isExternal Text.rooted
  rw [List.any_eq_false]
  intro s hs
  rw [String.toList_ofList, Bool.not_eq_true, Bool.eq_false_iff, Ne, List.isPrefixOf_iff_prefix]
  simp only [externalStarts, List.mem_cons, List.not_mem_nil, or_false] at hs
  rcases hs with rfl | rfl | rfl | rfl | rfl
  · simp [List.cons_prefix_cons]
  · simp [List.cons_prefix_cons]
  · rintro ⟨r, hr⟩
    have hslash : '/' :: r = ['/'].intercalate names := by simpa using hr
    simp [← hslash] at hhead
  · simp [List.cons_prefix_cons]
  · simp [List.cons_prefix_cons]

theorem isSpecial_rooted (names : List (List Char)) :
    isSpecial (String.ofList (Text.rooted names)) = false := by
  simp [isSpecial, Text.rooted]

end Address

namespace RouteEntry

/-- Values for the placeholders of a page. An interpolation that holds a slash is allowed if the first
value is an interpolation and nothing else. -/
structure Filling (e : RouteEntry) where
  values : List (List Char)
  length_values : values.length = e.placeholderCount
  fills : ∀ v ∈ values, IsMixedName v ∨ IsInterpolation v
  first : (∃ v ∈ values, '/' ∈ v) → ∃ v ∈ values.head?, IsInterpolation v

/-- The declared path with the values in the places of its placeholders. -/
def Filling.address {e : RouteEntry} (f : e.Filling) : List Char :=
  Text.rooted (substitute (names e.declaredPath) f.values)

/-- A page whose declared path is a slash and names, compiles, and has no query, fragment or
interpolation in its fixed names. -/
structure Addressable (e : RouteEntry) : Prop where
  normalized : ∃ names, (∀ name ∈ names, Text.IsName name) ∧
    e.declaredPath.toList = Text.rooted names
  compiles : ∃ p, ofDeclared e.declaredPath = .ok p
  fixed : ∀ name ∈ names e.declaredPath, isPlaceholder name = false →
    Plain name ∧ name.any endsPath = false

namespace Addressable

variable {e : RouteEntry}

theorem isName_of_mem_names {declared : String} {name : List Char} (h : name ∈ names declared) :
    Text.IsName name := by
  obtain ⟨hmem, hne⟩ := mem_names.mp h
  exact ⟨hne, (Text.of_mem_split hmem).1⟩

theorem declaredPath_eq (h : e.Addressable) :
    e.declaredPath.toList = Text.rooted (names e.declaredPath) := by
  obtain ⟨ns, hnames, hdeclared⟩ := h.normalized
  rw [names, hdeclared, Text.filter_split_rooted hnames]

theorem placeholderCount_eq : e.placeholderCount = (names e.declaredPath).countP isPlaceholder := by
  unfold placeholderCount names
  rw [List.countP_filter]
  refine List.countP_congr fun name _ => ?_
  -- the empty pieces that do not count as names are no placeholders
  by_cases hname : name = []
  · subst hname
    decide
  · simp [isPlaceholder, hname]

theorem isAddressName_of_mem (h : e.Addressable) (f : e.Filling) :
    ∀ name ∈ substitute (names e.declaredPath) f.values, IsAddressName name := by
  refine forall_mem_substitute (f.length_values.trans placeholderCount_eq) ?_ ?_
  · intro name hname hfixed
    have hends := (h.fixed name hname hfixed).2
    exact isAddressName_of_isName (pathText_of_any hends) (isName_of_mem_names hname)
  · intro v hv
    rcases f.fills v hv with hv | hv
    · exact isAddressName_of_isName hv.2 hv.1
    · exact hv.isAddressName

theorem pathPart_address (h : e.Addressable) (f : e.Filling) : pathPart f.address = f.address :=
  (pathText_rooted fun name hname => (h.isAddressName_of_mem f name hname).pathText).pathPartFrom_eq 0

/-- A route without placeholders has its declared path for its only address. -/
theorem hitsDirect_address (h : e.Addressable) (f : e.Filling)
    (hfixed : ∀ name ∈ names e.declaredPath, isPlaceholder name = false) :
    e.hitsDirect f.address = true := by
  rw [hitsDirect_iff, Filling.address, clean_rooted (h.isAddressName_of_mem f),
    substitute_eq_self hfixed, h.declaredPath_eq]

variable {p : RoutePattern}

/-- Values without slashes are names, so the pattern accepts the address. -/
theorem accepts_address (h : e.Addressable) (f : e.Filling)
    (hpattern : ofDeclared e.declaredPath = .ok p) (hnames : names e.declaredPath ≠ [])
    (hslash : ∀ v ∈ f.values, '/' ∉ v) : p.accepts (clean f.address) = true := by
  have hpieces := piecesOf_eq_ok_iff.mp (ofDeclared_eq_ok_iff.mp hpattern)
  have hcount := f.length_values.trans placeholderCount_eq
  have hvalues : ∀ v ∈ f.values, v ≠ [] := by
    intro v hv
    rcases f.fills v hv with hv | hv
    · exact hv.1.1
    · exact hv.isAddressName.ne_nil
  have hfits := forall₂_fits_substitute hpieces hcount hvalues
  have hne : substitute (names e.declaredPath) f.values ≠ [] := by
    intro hnil
    rw [hnil, List.forall₂_nil_right_iff, pieces_eq_nil_iff hpattern] at hfits
    exact hnames hfits
  have hnoslash : ∀ name ∈ substitute (names e.declaredPath) f.values, '/' ∉ name :=
    forall_mem_substitute hcount (fun name hname _ => (isName_of_mem_names hname).2) hslash
  have hsplit := Text.split_rooted hne hnoslash
  rw [Text.rooted, Text.split_cons_sep, List.cons.injEq] at hsplit
  rw [Filling.address, clean_rooted (h.isAddressName_of_mem f),
    accepts_iff hpattern (fun hnil => hnames ((pieces_eq_nil_iff hpattern).mp hnil))]
  exact ⟨_, rfl, by rw [hsplit.2]; exact hfits⟩

/-- A first value that is an interpolation ends the literal part where the placeholder begins. -/
theorem literalPart?_address (h : e.Addressable) (f : e.Filling) {v : List Char}
    (hv : v ∈ f.values.head?) (hinterpolation : IsInterpolation v) :
    ∃ literal, Address.literalPart? f.address = some literal ∧
      placeholderPrefix? e.declaredPath.toList = some literal := by
  obtain ⟨p, hpattern⟩ := h.compiles
  have hpieces := piecesOf_eq_ok_iff.mp (ofDeclared_eq_ok_iff.mp hpattern)
  have hfixed : ∀ name ∈ names e.declaredPath, isPlaceholder name = false →
      Plain name ∧ '[' ∉ name := by
    intro name hname hfixed
    obtain ⟨i, hi, rfl⟩ := List.getElem_of_mem hname
    obtain ⟨hlength, hget⟩ := List.forall₂_iff_get.mp hpieces
    exact ⟨(h.fixed _ hname hfixed).1, bracket_notMem_of_fixed (hget i hi (hlength ▸ hi)) hfixed⟩
  obtain ⟨values, hvalues⟩ : ∃ values, f.values = v :: values := by
    cases hf : f.values with
    | nil => simp [hf] at hv
    | cons u values =>
      obtain rfl : u = v := by simpa [hf] using hv
      exact ⟨values, rfl⟩
  have hplaceholder : ∃ name ∈ names e.declaredPath, isPlaceholder name = true := by
    have hcount := f.length_values.trans placeholderCount_eq
    rw [hvalues, List.length_cons] at hcount
    exact List.countP_pos_iff.mp (by omega)
  obtain ⟨literal, hliteral, hdeclared⟩ :=
    beforeInterpolation?_substitute values hfixed hplaceholder hinterpolation
  have hnames : names e.declaredPath ≠ [] := by
    obtain ⟨name, hname, -⟩ := hplaceholder
    exact List.ne_nil_of_mem hname
  have hne : substitute (names e.declaredPath) (v :: values) ≠ [] := by
    intro hnil
    rw [hnil] at hliteral
    cases hliteral
  refine ⟨Text.dropTrailingSlash literal, ?_, ?_⟩
  · rw [Address.literalPart?, Filling.address, hvalues, Text.rooted_eq_flatMap hne, hliteral]
    rfl
  · rw [placeholderPrefix?, h.declaredPath_eq, Text.rooted_eq_flatMap hnames, hdeclared]
    rfl

/-- **A page accepts each of its addresses.** -/
theorem isSome_accepts?_address {path file : String} {kind : LeafKind}
    (h : (ofPath path file kind).Addressable) (f : (ofPath path file kind).Filling) :
    ((ofPath path file kind).accepts? (String.ofList f.address)).isSome = true := by
  rw [isSome_accepts?_iff_hits, String.toList_ofList]
  by_cases hfixed : ∀ name ∈ names path, isPlaceholder name = false
  · exact Or.inl (h.hitsDirect_address f hfixed)
  · simp only [not_forall, Bool.not_eq_false] at hfixed
    obtain ⟨name, hname, hplaceholder⟩ := hfixed
    obtain ⟨p, hpattern⟩ := h.compiles
    have hparameters : (ofPath path file kind).hasParameters = true := by
      obtain ⟨r, rfl⟩ := exists_eq_of_isPlaceholder hplaceholder
      have hbracket := (Text.of_mem_split (mem_names.mp hname).1).2 List.mem_cons_self
      simpa [ofPath] using hbracket
    have hmatcher := matcher_eq_wildcard_iff.mpr ⟨hparameters, hpattern⟩
    by_cases hslash : ∀ v ∈ f.values, '/' ∉ v
    · refine Or.inr (Or.inl (hitsDynamic_iff.mpr ⟨p, hmatcher, ?_⟩))
      exact h.accepts_address f hpattern (List.ne_nil_of_mem hname) hslash
    · simp only [not_forall, not_not] at hslash
      obtain ⟨u, hu, hslash⟩ := hslash
      obtain ⟨v, hv, hinterpolation⟩ := f.first ⟨u, hu, hslash⟩
      obtain ⟨literal, hliteral, hprefix⟩ := h.literalPart?_address f hv hinterpolation
      exact Or.inr (Or.inr (hitsStructural_iff.mpr ⟨p, literal, hmatcher, hliteral, hprefix⟩))

end Addressable

end RouteEntry

/-- **Every address of a page is valid and uses the page.** -/
theorem UsageGroup.valid_of_address {pages : RouteTable} (hpages : pages.OfPages) {e : RouteEntry}
    (he : e ∈ pages.entries) (haddressable : e.Addressable) (f : e.Filling) {g : UsageGroup}
    (hg : g.OfAddress f.address) :
    g.verdict pages = .valid ∧
      ∀ groups, g ∈ groups → ∀ exclusions appRoot,
        e ∉ unusedRoutes pages (Classification.ofGroups groups pages).groups exclusions appRoot := by
  have hpath : g.path = String.ofList f.address := by
    rw [hg.path_eq, haddressable.pathPart_address f]
  have haccepts : (e.accepts? g.path).isSome = true := by
    rw [hpath]
    obtain ⟨path, file, rfl⟩ := hpages.eq_ofPath he
    exact haddressable.isSome_accepts?_address f
  have hinternal : (g.verdict pages).isInternal = true := by
    rw [verdict, isInternal_verdictOn_iff, hpath]
    exact ⟨isExternal_rooted (haddressable.isAddressName_of_mem f), isSpecial_rooted _⟩
  have hvalid : g.verdict pages = .valid :=
    (verdictOn_eq_valid_iff hpages).mpr ⟨hinternal, e, he, haccepts⟩
  refine ⟨hvalid, fun groups hgroups exclusions appRoot hunused => ?_⟩
  have hclassified : ⟨g, g.verdict pages⟩ ∈ (Classification.ofGroups groups pages).groups :=
    Classification.mem_ofGroups.mpr ⟨g, hgroups, rfl⟩
  have hused : g.path ∈ Classification.internalPaths (Classification.ofGroups groups pages).groups :=
    List.mem_map.mpr ⟨_, List.mem_filter.mpr ⟨hclassified, hinternal⟩, rfl⟩
  rw [unusedRoutes, List.mem_filter] at hunused
  have hnone := hunused.2
  simp only [Bool.and_eq_true, Bool.not_eq_true', List.any_eq_false] at hnone
  exact hnone.2 g.path hused haccepts

/-- A slash and a `?` inside the first interpolation do no harm, and the last name is a mixed one. -/
theorem UsageGroup.valid_of_address_lesson :
    let lesson : RouteEntry := .ofPath "/course/[id]/lesson/[number]" "app/a/page.tsx" .page
    let pages : RouteTable := ⟨[.ofPath "/" "app/page.tsx" .page, lesson]⟩
    let references : List Reference := ["/", "/course/${a/b?c:d}/lesson/x-${n}", "/course/7"].map
      fun raw => .ofRaw raw .link "src/a.tsx" 1 ""
    let g := gather references "/course/${a/b?c:d}/lesson/x-${n}"
    g.verdict pages = .valid ∧
      lesson ∉ unusedRoutes pages (Classification.ofGroups (ofReferences references) pages).groups
        [] "app" := by
  intro lesson pages references g
  have hinterpolation : IsInterpolation "${a/b?c:d}".toList := ⟨"a/b?c:d".toList, by decide, rfl⟩
  have hbody : Balanced ['n'] := by decide
  have hmixed : IsMixedName "x-${n}".toList :=
    ⟨⟨by decide, by decide⟩, .text (by decide) (.text (by decide) (.interpolation hbody .nil))⟩
  let f : lesson.Filling :=
    { values := ["${a/b?c:d}".toList, "x-${n}".toList]
      length_values := by decide
      fills := by
        intro v hv
        simp only [List.mem_cons, List.not_mem_nil, or_false] at hv
        rcases hv with rfl | rfl
        · exact Or.inr hinterpolation
        · exact Or.inl hmixed
      first := fun _ => ⟨_, rfl, hinterpolation⟩ }
  have haddressable : lesson.Addressable :=
    { normalized := ⟨["course".toList, "[id]".toList, "lesson".toList, "[number]".toList],
        by simp only [Text.IsName]; decide, by decide⟩
      compiles := ⟨⟨[.literal "course".toList, .wildcard, .literal "lesson".toList, .wildcard]⟩,
        by rw [ofDeclared_eq_ok_iff]; decide⟩
      fixed := by decide }
  have hreferences : ∀ r ∈ references, r.OfRaw := by decide
  have haddress : f.address = "/course/${a/b?c:d}/lesson/x-${n}".toList := by
    change Text.rooted (substitute _ ["${a/b?c:d}".toList, "x-${n}".toList]) = _
    decide
  have hg : g.OfAddress f.address := by
    rw [haddress]
    exact ⟨references, hreferences, by decide, by decide⟩
  have hpages : pages.OfPages := by decide
  have hlesson : lesson ∈ pages.entries := by decide
  obtain ⟨hvalid, hused⟩ := valid_of_address hpages hlesson haddressable f hg
  exact ⟨hvalid, hused _ (by decide) [] "app"⟩

end RouteAudit
