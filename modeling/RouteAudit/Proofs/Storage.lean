import RouteAudit.Proofs.Lead

/-!
# A tree below a directory

A relative path in a tree that a directory holds names the same wherever the directory is
(`Stores.stat_child`), if it does not leave the tree by `..` or a link and is not too long.

Proof. The names of the directory lead to its place, with some of the links to be followed used up
(`walkLinks_append`), since a turn at a name that is not the last one does not depend on those that are left
(`extends_turn`). From there on the path goes as in the tree alone, turn by turn (`below_turn`,
`follow_below`).
-/

namespace RouteAudit.FileSystem

variable {fs : FileSystem} {tree : List (String × Node)} {dir path : String}

/-- The tree and nothing else. -/
def ofTree (tree : List (String × Node)) : FileSystem :=
  ⟨.dir tree, []⟩

/-- The directory holds the tree and nothing else; the empty path is the working directory. -/
def Stores (fs : FileSystem) (dir : String) (tree : List (String × Node)) : Prop :=
  fs.stat (Path.child dir ".") = .ok (.dir tree)

/-- The path is relative and does not leave the tree, by `..` or by a link. -/
structure StaysIn (tree : List (String × Node)) (path : String) : Prop where
  isRelative : Path.isAbsolute path = false
  up_notMem : ".." ∉ Path.route path
  links : (ofTree tree).PassesNoLink path

/-- The node of an answer. -/
def nodeOf : Except FileFault Found → Except FileFault Node
  | .error fault => .error fault
  | .ok ⟨_, none⟩ => .error .notFound
  | .ok ⟨_, some node⟩ => .ok node

theorem stat_eq_nodeOf (fs : FileSystem) (path : String) :
    fs.stat path = nodeOf (fs.locate .target path) := by
  unfold stat nodeOf
  cases fs.locate .target path with
  | error fault => rfl
  | ok found =>
    obtain ⟨place, node⟩ := found
    cases node <;> rfl

/-- What a path names in a tree. -/
def statIn (tree : List (String × Node)) (path : String) : Except FileFault Node :=
  if '\x00' ∈ path.toList then .error .nulByte
  else nodeOf ((ofTree tree).walkLinks .target maxLinks [] (Path.route path))

/-! ## Up to the directory -/

/-- A turn that does not end goes the same way whatever names are left. -/
inductive Turn.Extends (rest : List String) (turn : List String → Turn) : Turn → Prop
  | on (here : List String) (h : ∀ rest', turn rest' = .on here) : Extends rest turn (.on here)
  | jump (dir front : List String) (h : ∀ rest', turn rest' = .jump dir (front ++ rest')) :
    Extends rest turn (.jump dir (front ++ rest))
  | fault (fault : FileFault) : Extends rest turn (.ends (.error fault))

theorem extends_turn (fs : FileSystem) (here : List String) (name : String) {rest : List String}
    (h : rest ≠ []) :
    Turn.Extends rest (fs.turn .target here name) (fs.turn .target here name rest) := by
  have hturn : ∀ rest, fs.turn .target here name rest =
      if name = "." ∨ name = "" then .on here else if name = ".." then .on here.dropLast
      else if Path.maxNameBytes < name.utf8ByteSize then .ends (.error .nameTooLong)
      else .ofNode .target here name rest (fs.at? (here ++ [name])) := by
    intro rest
    have hfile : ¬ (Aim.target = .newFile ∧ rest = [""]) := by simp
    rw [turn, if_neg hfile]
  have hlink : ∀ rest target, Turn.ofNode .target here name rest (some (.link target)) =
      .jump (if Path.isAbsolute target then [] else here) (Path.route target ++ rest) := by
    intro rest target
    have hend : ¬ (rest = [] ∧ Aim.target = .itself) := by simp
    rw [Turn.ofNode, if_neg hend]
  rw [funext hturn]
  dsimp only
  split_ifs with hstay hup hlong
  · exact .on here fun _ => rfl
  · exact .on here.dropLast fun _ => rfl
  · exact .fault _
  cases fs.at? (here ++ [name]) with
  | none =>
    rw [Turn.ofNode, if_neg h]
    exact .fault _
  | some node =>
    cases node with
    | dir children => exact .on _ fun _ => rfl
    | file bytes =>
      rw [Turn.ofNode, if_neg h]
      exact .fault _
    | link target =>
      rw [hlink]
      exact .jump _ _ fun rest' => hlink rest' target

theorem follow_append {jump : List String → List String → Except FileFault Found}
    {here names place : List String}
    (hjump : ∀ here names, jump here (names ++ ["."]) = .ok ⟨place, some (.dir tree)⟩ →
      ∃ left, ∀ rest, jump here (names ++ rest) = fs.walkLinks .target left place rest)
    (hself : ∃ left, ∀ rest, fs.follow .target jump place rest = fs.walkLinks .target left place rest)
    (h : fs.follow .target jump here (names ++ ["."]) = .ok ⟨place, some (.dir tree)⟩) :
    ∃ left, ∀ rest, fs.follow .target jump here (names ++ rest) =
      fs.walkLinks .target left place rest := by
  induction names generalizing here with
  | nil =>
    obtain rfl : here = place := by
      rw [List.nil_append, follow, if_pos (Or.inl rfl), follow] at h
      exact congrArg Found.place (Except.ok.inj h)
    exact hself
  | cons name names ih =>
    have hmore : names ++ ["."] ≠ [] := by simp
    have hturn : Turn.Extends _ _ (fs.turn .target here name (names ++ ["."])) :=
      extends_turn fs here name hmore
    rw [List.cons_append, follow_cons] at h
    generalize fs.turn .target here name (names ++ ["."]) = t at h hturn
    cases hturn with
    | on here' hnext =>
      obtain ⟨left, hleft⟩ := ih h
      refine ⟨left, fun rest => ?_⟩
      rw [List.cons_append, follow_cons, hnext]
      exact hleft rest
    | jump dir front hnext =>
      have hend : jump dir ((front ++ names) ++ ["."]) = .ok ⟨place, some (.dir tree)⟩ := by
        rw [List.append_assoc]
        exact h
      obtain ⟨left, hleft⟩ := hjump _ _ hend
      refine ⟨left, fun rest => ?_⟩
      rw [List.cons_append, follow_cons, hnext, ← hleft, List.append_assoc]
      rfl
    | fault fault => cases h

/-- From a directory that some names lead to, all other names go on. -/
theorem walkLinks_append {links : Nat} {here names place : List String}
    (h : fs.walkLinks .target links here (names ++ ["."]) = .ok ⟨place, some (.dir tree)⟩) :
    ∃ left, ∀ rest, fs.walkLinks .target links here (names ++ rest) =
      fs.walkLinks .target left place rest := by
  induction links generalizing here names with
  | zero => exact follow_append (fun _ _ hjump => nomatch hjump) ⟨0, fun _ => rfl⟩ h
  | succ links ih => exact follow_append (fun _ _ hjump => ih hjump) ⟨links + 1, fun _ => rfl⟩ h

/-! ## Below the directory -/

/-- The same in a tree below the place. -/
def Found.below (place : List String) (found : Found) : Found :=
  ⟨place ++ found.place, found.node⟩

theorem nodeOf_map_below (place : List String) (answer : Except FileFault Found) :
    nodeOf (answer.map (Found.below place)) = nodeOf answer := by
  cases answer with
  | error fault => rfl
  | ok found =>
    obtain ⟨other, node⟩ := found
    cases node <;> rfl

/-- Two turns are the same below the place and in the tree: on to a directory, or to the end. -/
inductive Turn.Below (place next : List String) : Turn → Turn → Prop
  | on : Below place next (.on (place ++ next)) (.on next)
  | ends {answer answer' : Except FileFault Found} (h : answer = answer'.map (Found.below place)) :
    Below place next (.ends answer) (.ends answer')

/-- A name that does not leave a tree, up or by a link, leads the same way wherever the tree is. -/
theorem below_turn {place : List String} (hplace : fs.at? place = some (.dir tree))
    {here : List String} {name : String} (hup : name ≠ "..")
    (hlink : ∀ target, (ofTree tree).at? (Path.step here name) ≠ some (.link target)) (rest : List String) :
    Turn.Below place (Path.step here name) (fs.turn .target (place ++ here) name rest)
      ((ofTree tree).turn .target here name rest) := by
  have hfile : ¬ (Aim.target = .newFile ∧ rest = [""]) := by simp
  have hat : fs.at? (place ++ here ++ [name]) = (ofTree tree).at? (here ++ [name]) := by
    rw [List.append_assoc, at?_append hplace]
    rfl
  rw [turn, turn, if_neg hfile, if_neg hfile, if_neg hup, if_neg hup, hat]
  by_cases hstay : name = "." ∨ name = ""
  · rw [if_pos hstay, if_pos hstay, Path.step, if_pos hstay]
    exact .on
  rw [if_neg hstay, if_neg hstay]
  rw [Path.step, if_neg hstay, if_neg hup] at hlink ⊢
  by_cases hlong : Path.maxNameBytes < name.utf8ByteSize
  · rw [if_pos hlong, if_pos hlong]
    exact .ends rfl
  rw [if_neg hlong, if_neg hlong]
  cases hnode : (ofTree tree).at? (here ++ [name]) with
  | none =>
    refine .ends ?_
    rw [List.append_assoc]
    split_ifs <;> rfl
  | some node =>
    rw [hnode] at hlink
    cases node with
    | dir children =>
      rw [Turn.ofNode, List.append_assoc]
      exact .on
    | file bytes =>
      refine .ends ?_
      rw [List.append_assoc]
      split_ifs <;> rfl
    | link target => exact absurd rfl (hlink target)

/-- Names that do not leave a tree lead the same way wherever the tree is. -/
theorem follow_below {place : List String} (hplace : fs.at? place = some (.dir tree))
    (jump jump' : List String → List String → Except FileFault Found) {here names : List String}
    (hup : ".." ∉ names) (hlinks : ∀ other ∈ Path.placesFrom here names,
      ∀ target, (ofTree tree).at? other ≠ some (.link target)) :
    fs.follow .target jump (place ++ here) names =
      ((ofTree tree).follow .target jump' here names).map (Found.below place) := by
  induction names generalizing here with
  | nil =>
    rw [follow, follow, at?_append hplace]
    rfl
  | cons name rest ih =>
    rw [List.mem_cons, not_or] at hup
    rw [Path.placesFrom, List.forall_mem_cons] at hlinks
    have hturn : Turn.Below place _ _ ((ofTree tree).turn .target here name rest) :=
      below_turn hplace (Ne.symm hup.1) hlinks.1 rest
    rw [follow_cons, follow_cons]
    generalize fs.turn .target (place ++ here) name rest = t,
      (ofTree tree).turn .target here name rest = t' at hturn ⊢
    cases hturn with
    | on => exact ih hup.2 hlinks.2
    | ends h => exact h

theorem exists_walkLinks_eq (fs : FileSystem) (aim : Aim) (links : Nat) :
    ∃ jump, fs.walkLinks aim links = fs.follow aim jump := by
  cases links with
  | zero => exact ⟨_, rfl⟩
  | succ links => exact ⟨_, rfl⟩

theorem walkLinks_below {place : List String} (hplace : fs.at? place = some (.dir tree))
    (hpath : StaysIn tree path) (links links' : Nat) :
    nodeOf (fs.walkLinks .target links place (Path.route path)) =
      nodeOf ((ofTree tree).walkLinks .target links' [] (Path.route path)) := by
  obtain ⟨jump, hjump⟩ := exists_walkLinks_eq fs .target links
  obtain ⟨jump', hjump'⟩ := exists_walkLinks_eq (ofTree tree) .target links'
  have hstart : (ofTree tree).start path = [] := by
    rw [start, hpath.isRelative]
    rfl
  have hlinks := hpath.links
  rw [PassesNoLink, hstart] at hlinks
  have hbelow := follow_below hplace jump jump' hpath.up_notMem hlinks
  rw [List.append_nil] at hbelow
  rw [hjump, hjump', hbelow, nodeOf_map_below]

/-! ## The whole path -/

theorem pathFault?_eq_of_short {path : String} (hne : path ≠ "")
    (hshort : path.utf8ByteSize ≤ Path.maxBytes) :
    pathFault? path = if '\x00' ∈ path.toList then some .nulByte else none := by
  have hempty : path.isEmpty = false := by rwa [Bool.eq_false_iff, Ne, String.isEmpty_iff]
  unfold pathFault?
  rw [hempty, if_neg (Nat.not_lt.mpr hshort)]
  simp only [List.contains_iff_mem, Bool.false_eq_true, if_false]

theorem nul_notMem_of_locate {aim : Aim} {found : Found} (h : fs.locate aim path = .ok found) :
    '\x00' ∉ path.toList := by
  intro hnul
  have hfault : pathFault? path = some .nulByte := if_pos (List.contains_iff_mem.mpr hnul)
  rw [locate, hfault] at h
  cases h

/-- The names of a path in the directory go on from the place of the tree. -/
theorem Stores.exists_walkLinks (h : fs.Stores dir tree) : ∃ place,
    fs.at? place = some (.dir tree) ∧ '\x00' ∉ (Path.lead dir).toList ∧
      ∃ left, ∀ path, Path.isAbsolute path = false → Path.child dir path ≠ "" →
        fs.walkLinks .target maxLinks (fs.start (Path.child dir path)) (Path.route (Path.child dir path)) =
          fs.walkLinks .target left place (Path.route path) := by
  obtain ⟨place, hlocate⟩ := stat_eq_ok_iff.mp h
  have hnul := nul_notMem_of_locate hlocate
  rw [Path.child_eq_lead_append, String.toList_append, List.mem_append, not_or] at hnul
  refine ⟨place, at?_of_locate hlocate, hnul.1, ?_⟩
  have hstart : ∀ path, Path.isAbsolute path = false →
      fs.start (Path.child dir path) = fs.start (Path.lead dir) := by
    intro path hpath
    rw [start, start, Path.isAbsolute_child hpath]
  have hwalk := walkLinks_of_locate hlocate
  have hhere : Path.route "." = ["."] := by decide
  rw [hstart "." (by decide), Path.route_child (by decide), hhere] at hwalk
  obtain ⟨left, hleft⟩ := walkLinks_append hwalk
  refine ⟨left, fun path hpath hne => ?_⟩
  rw [hstart path hpath]
  by_cases hempty : path = ""
  · -- the slash at the end of the directory is an empty name, which leads nowhere else
    subst hempty
    obtain ⟨jump, hjump⟩ := exists_walkLinks_eq fs .target left
    change fs.walkLinks .target maxLinks _ (Path.route (Path.lead dir)) = _
    rw [Path.route_lead hne, hleft, hjump, follow, if_pos (Or.inr rfl)]
    rfl
  · rw [Path.route_child hempty, hleft]

/-- **A path in a tree** names the same whatever directory holds the tree. -/
theorem Stores.stat_child (h : fs.Stores dir tree) (hpath : StaysIn tree path)
    (hne : Path.child dir path ≠ "") (hshort : (Path.child dir path).utf8ByteSize ≤ Path.maxBytes) :
    fs.stat (Path.child dir path) = statIn tree path := by
  obtain ⟨place, hplace, hnul, left, hwalk⟩ := h.exists_walkLinks
  have hmem : '\x00' ∈ (Path.child dir path).toList ↔ '\x00' ∈ path.toList := by
    rw [Path.child_eq_lead_append, String.toList_append, List.mem_append]
    exact or_iff_right hnul
  rw [stat_eq_nodeOf, locate, pathFault?_eq_of_short hne hshort, statIn]
  by_cases hfault : '\x00' ∈ path.toList
  · rw [if_pos (hmem.mpr hfault), if_pos hfault]
    rfl
  · rw [if_neg (mt hmem.mp hfault), if_neg hfault]
    dsimp only
    rw [hwalk path hpath.isRelative hne, walkLinks_below hplace hpath]

/-- What is found in a tree with ordered names has ordered names. -/
theorem wellFormed_of_statIn (hwell : (Node.dir tree).WellFormed) {node : Node}
    (h : statIn tree path = .ok node) : node.WellFormed := by
  unfold statIn at h
  split_ifs at h
  have hagree : Agree (ofTree tree)
      ((ofTree tree).walkLinks .target maxLinks [] (Path.route path)) _ :=
    (Keeps.refl (ofTree tree)).walkLinks maxLinks [] (Path.route path)
  cases hanswer : (ofTree tree).walkLinks .target maxLinks [] (Path.route path) with
  | error fault =>
    rw [hanswer] at h
    cases h
  | ok found =>
    obtain ⟨place, found⟩ := found
    rw [hanswer] at h hagree
    cases found with
    | none => cases h
    | some found =>
      obtain rfl := Except.ok.inj h
      have hat : some found = (ofTree tree).at? place :=
        congrArg Found.node (Except.ok.inj (hagree.resolve_left fun habsent => nomatch habsent))
      exact hwell.at? hat.symm

/-! ## Roots -/

/-- A root in a tree: its children, or nothing if it does not exist and need not. There is no answer if it
is no directory, cannot be reached, or has to exist. -/
def rootIn (tree : List (String × Node)) (strict : Bool) (root : String) :
    Option (Option (List (String × Node))) :=
  match statIn tree root with
  | .ok (.dir children) => some (some children)
  | .error .notFound => if strict then none else some none
  | _ => none

/-- A root is opened in the directory as it is in the tree. -/
theorem Stores.openRoot_cases (h : fs.Stores dir tree) (hwell : (Node.dir tree).WellFormed)
    (hpath : StaysIn tree path) (hne : Path.child dir path ≠ "")
    (hshort : (Path.child dir path).utf8ByteSize ≤ Path.maxBytes) (role : RootRole) (strict : Bool) :
    (rootIn tree strict path = none ∧ ∃ e, fs.openRoot role strict (Path.child dir path) = .error e) ∨
      (rootIn tree strict path = some none ∧ fs.openRoot role strict (Path.child dir path) =
        .ok (.missing (.missingRoot role (Path.child dir path)))) ∨
      ∃ children, rootIn tree strict path = some (some children) ∧
        fs.stat (Path.child dir path) = .ok (.dir children) ∧ (Node.dir children).WellFormed := by
  unfold openRoot rootIn
  rw [h.stat_child hpath hne hshort]
  cases hnode : statIn tree path with
  | error fault =>
    cases fault with
    | notFound =>
      cases strict with
      | true => exact Or.inl ⟨rfl, _, rfl⟩
      | false => exact Or.inr (Or.inl ⟨rfl, rfl⟩)
    | _ => exact Or.inl ⟨rfl, _, rfl⟩
  | ok node =>
    cases node with
    | dir children => exact Or.inr (Or.inr ⟨children, rfl, rfl, wellFormed_of_statIn hwell hnode⟩)
    | file bytes => exact Or.inl ⟨rfl, _, rfl⟩
    | link target => exact Or.inl ⟨rfl, _, rfl⟩

end RouteAudit.FileSystem
