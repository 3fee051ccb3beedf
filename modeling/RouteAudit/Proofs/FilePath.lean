import RouteAudit.Proofs.Split
import RouteAudit.Proofs.Tree
import RouteAudit.Route.Entry

/-!
# The paths of the files below a root

A walk builds the path of a file by appending names to the path of the root (`Path.below`). Whatever
the spelling of the root, the components of such a path are those of the root followed by the names
(`components_below`). So of two of these paths the names below the root decide the order
(`less_below_iff`), and the directories that a file lies under are those on its way
(`RouteEntry.isUnder_below`).
-/

namespace RouteAudit

namespace Path

/-- The path that the names lead to from a directory. -/
def below (dir : String) (names : List String) : String :=
  names.foldl child dir

theorem below_cons (dir name : String) (names : List String) :
    below dir (name :: names) = below (child dir name) names := rfl

/-! ## Components -/

theorem ofPiece?_of_isFileName {name : String} (h : IsFileName name) :
    Component.ofPiece? name.toList = some (.name name) := by
  obtain ⟨⟨hne, -⟩, hhere, hup⟩ := h
  have hhere' : name.toList ≠ ['.'] := fun heq => hhere (by rw [← String.ofList_toList (s := name), heq])
  have hup' : name.toList ≠ ['.', '.'] :=
    fun heq => hup (by rw [← String.ofList_toList (s := name), heq])
  rw [Component.ofPiece?, if_neg (not_or.mpr ⟨hne, hhere'⟩), if_neg hup', String.ofList_toList]

/-- What the first piece of a path is when others follow. -/
def leading (piece : List Char) : List Component :=
  if piece = [] then [.root] else if piece = ['.'] then [.here]
  else (Component.ofPiece? piece).toList

theorem components_of_split {path : String} {first : List Char} {rest : List (List Char)}
    (h : Text.split '/' path.toList = first :: rest) (hne : path.toList ≠ []) :
    components path = leading first ++ rest.filterMap Component.ofPiece? := by
  rw [components, h]
  by_cases hfirst : first = []
  · have hrest : rest ≠ [] := by
      rintro rfl
      have hjoin := Text.intercalate_split '/' path.toList
      rw [h, hfirst] at hjoin
      exact hne (by simpa using hjoin.symm)
    simp [leading, hfirst, hrest]
  · by_cases hhere : first = ['.'] <;> simp [leading, hfirst, hhere]

/-- To append a name to a path appends a component, whether or not the path ends in a slash. -/
theorem components_child {name : String} (h : IsFileName name) (dir : String) :
    components (child dir name) = components dir ++ [.name name] := by
  have hpiece := ofPiece?_of_isFileName h
  have hname : '/' ∉ name.toList := h.1.2
  by_cases hempty : dir.toList = []
  · obtain rfl : dir = "" := String.toList_inj.mp hempty
    have hchild : (child "" name).toList = name.toList := by simp [child]
    rw [components_of_split (hchild ▸ Text.split_of_notMem hname) (hchild ▸ h.1.1), leading,
      if_neg h.1.1, if_neg, hpiece]
    · rfl
    · intro hhere
      rw [hhere] at hpiece
      cases hpiece
  · obtain ⟨first, rest, hsplit⟩ := List.exists_cons_of_ne_nil (Text.split_ne_nil '/' dir.toList)
    have hdir := components_of_split hsplit hempty
    by_cases hslash : dir.toList.getLast? = some '/'
    · -- the name takes the place of the empty piece after the slash
      have hchild : (child dir name).toList = dir.toList ++ name.toList := by
        simp [child, hslash, String.toList_append]
      obtain ⟨front, hfront⟩ := List.getLast?_eq_some_iff.mp hslash
      obtain ⟨f, r, hpieces⟩ := List.exists_cons_of_ne_nil (Text.split_ne_nil '/' front)
      have hold : Text.split '/' dir.toList = f :: (r ++ [[]]) := by
        rw [hfront, Text.split_append_sep, hpieces]
        rfl
      have hnew : Text.split '/' (child dir name).toList = f :: (r ++ [name.toList]) := by
        rw [hchild, hfront, List.append_assoc, List.singleton_append, Text.split_append_sep,
          hpieces, Text.split_of_notMem hname]
        rfl
      rw [components_of_split hold hempty,
        components_of_split hnew (by rw [hchild]; simp [hempty]), List.filterMap_append,
        List.filterMap_append, List.filterMap_cons_some hpiece]
      simp [Component.ofPiece?]
    · have hchild : (child dir name).toList = dir.toList ++ '/' :: name.toList := by
        have hisEmpty : dir.isEmpty = false := by
          rw [Bool.eq_false_iff, Ne, String.isEmpty_iff]
          rintro rfl
          exact hempty rfl
        simp [child, hslash, hisEmpty, String.toList_append]
      have hnew : Text.split '/' (child dir name).toList = first :: (rest ++ [name.toList]) := by
        rw [hchild, Text.split_append_sep, hsplit, Text.split_of_notMem hname]
        rfl
      rw [hdir, components_of_split hnew (by rw [hchild]; simp), List.filterMap_append,
        List.filterMap_cons_some hpiece, List.filterMap_nil, List.append_assoc]

/-- **The components of a path below a directory** are those of the directory and the names. -/
theorem components_below {names : List String} (h : ∀ name ∈ names, IsFileName name) (dir : String) :
    components (below dir names) = components dir ++ names.map .name := by
  induction names generalizing dir with
  | nil => simp [below]
  | cons name names ih =>
    rw [List.forall_mem_cons] at h
    rw [below_cons, ih h.2, components_child h.1, List.map_cons, List.append_assoc,
      List.singleton_append]

theorem below?_append (dir rest : List Component) : below? dir (dir ++ rest) = some rest := by
  induction dir with
  | nil => rfl
  | cons c dir ih => rw [List.cons_append, below?, if_pos rfl, ih]

/-! ## Order -/

theorem Component.less_irrefl (c : Component) : c.less c = false := by
  cases c with
  | name text => exact decide_eq_false (String.lt_irrefl text)
  | root => rfl
  | here => rfl
  | up => rfl

theorem componentsLess_append (c a b : List Component) :
    componentsLess (c ++ a) (c ++ b) = componentsLess a b := by
  induction c with
  | nil => rfl
  | cons x c ih => simp [componentsLess, Component.less_irrefl, ih]

theorem componentsLess_irrefl (c : List Component) : componentsLess c c = false := by
  have hsame := componentsLess_append c [] []
  rwa [List.append_nil] at hsame

/-- The order of two places: at the first names that differ, or the shorter one first. -/
def placeLess (a b : List String) : Bool :=
  componentsLess (a.map .name) (b.map .name)

theorem placeLess_append (c a b : List String) : placeLess (c ++ a) (c ++ b) = placeLess a b := by
  simp only [placeLess, List.map_append, componentsLess_append]

theorem placeLess_cons_of_lt {m n : String} (h : m < n) (a b : List String) :
    placeLess (m :: a) (n :: b) = true := by
  simp [placeLess, componentsLess, Component.less, h]

theorem less_irrefl (path : String) : less path path = false :=
  componentsLess_irrefl (components path)

/-- **Two paths below one directory stand in the order of their names.** -/
theorem less_below_iff {a b : List String} (ha : ∀ name ∈ a, IsFileName name)
    (hb : ∀ name ∈ b, IsFileName name) (dir : String) :
    less (below dir a) (below dir b) = placeLess a b := by
  rw [less, components_below ha, components_below hb, componentsLess_append, placeLess]

end Path

/-- A file below a root lies under the directories that lead to it, and under no others. -/
theorem RouteEntry.isUnder_below {e : RouteEntry} {root name : String} {dirs : List String}
    (hdirs : ∀ d ∈ dirs, Path.IsFileName d) (hname : Path.IsFileName name)
    (hfile : e.file = Path.below root (dirs ++ [name])) (dir : String) :
    e.isUnder root dir = decide (dir ∈ dirs) := by
  have hnames : ∀ n ∈ dirs ++ [name], Path.IsFileName n := by
    simpa [or_imp, forall_and] using ⟨hdirs, hname⟩
  have hinside : ((dirs ++ [name]).map Path.Component.name).dropLast = dirs.map .name := by simp
  rw [isUnder, hfile, Path.components_below hnames]
  simp only [Path.below?_append, Option.getD_some]
  rw [hinside, List.any_map, Bool.eq_iff_iff, List.any_eq_true, decide_eq_true_iff]
  exact ⟨fun ⟨d, hd, heq⟩ => of_decide_eq_true heq ▸ hd, fun h => ⟨dir, h, decide_eq_true rfl⟩⟩

end RouteAudit
