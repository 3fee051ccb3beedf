import RouteAudit.Proofs.FilePath
import RouteAudit.Proofs.Located

/-!
# The way of a path

A path that is found leads to a directory, or to a name in a directory, be it there or not
(`locate_cases`); if no link is on its way, this name is the last one of the path. Once something is put
there, the path leads to it (`Keeps.locate_of_at?`).

Proof. By induction on the names, from what one turn does (`leads_turn`, `Keeps.arrives_turn`), and then on
the links that may still be followed.
-/

namespace RouteAudit

namespace Path

/-- Where a name leads from a directory, unless it is a link. -/
def step (here : List String) (name : String) : List String :=
  if name = "." ∨ name = "" then here else if name = ".." then here.dropLast else here ++ [name]

/-- The places that names lead to from a directory, one after the other. -/
def placesFrom (here : List String) : List String → List (List String)
  | [] => []
  | name :: names => step here name :: placesFrom (step here name) names

theorem slash_notMem_of_mem_route {path name : String} (h : name ∈ route path) : '/' ∉ name.toList := by
  have hsteps : ∀ name ∈ steps path, '/' ∉ name.toList := by
    intro name hname
    obtain ⟨piece, hpiece, rfl⟩ := List.mem_map.mp hname
    rw [String.toList_ofList]
    exact (Text.of_mem_split (List.mem_filter.mp hpiece).1).1
  unfold route at h
  split_ifs at h
  · rcases List.mem_append.mp h with h | h
    · exact hsteps name h
    · rw [List.mem_singleton.mp h]
      simp
  · exact hsteps name h

/-- The name of the file that a path names, if its last component is a name. -/
def fileName? (path : String) : Option String :=
  match (components path).getLast? with
  | some (.name name) => some name
  | _ => none

theorem fileName?_child {name : String} (h : IsFileName name) (dir : String) :
    fileName? (child dir name) = some name := by
  rw [fileName?, components_child h, List.getLast?_concat]

theorem steps_append_sep (a b : List Char) :
    steps (String.ofList (a ++ '/' :: b)) = steps (String.ofList a) ++ steps (String.ofList b) := by
  simp only [steps, String.toList_ofList, Text.split_append_sep, List.filter_append, List.map_append]

theorem steps_of_notMem {s : List Char} (hne : s ≠ []) (h : '/' ∉ s) :
    steps (String.ofList s) = [String.ofList s] := by
  simp [steps, Text.split_of_notMem h, hne]

/-- The last name to follow is the file name. -/
theorem fileName?_of_route {path name : String} {init : List String} (hname : IsFileName name)
    (h : route path = init ++ [name]) : fileName? path = some name := by
  have hslash : path.toList.getLast? ≠ some '/' := by
    intro hslash
    rw [route, hasTrailingSlash, if_pos (decide_eq_true hslash)] at h
    obtain ⟨-, rfl⟩ := List.append_singleton_inj.mp h
    exact hname.1.1 rfl
  rw [route, hasTrailingSlash, if_neg (by simpa using hslash)] at h
  have hpath : path = String.ofList path.toList := String.ofList_toList.symm
  rcases Text.notMem_or_exists_last '/' path.toList with hnone | ⟨a, b, hlast, hb⟩
  · have hne : path.toList ≠ [] := by
      intro hempty
      rw [hpath, hempty] at h
      simp [steps] at h
    rw [hpath, steps_of_notMem hne hnone, String.ofList_toList] at h
    obtain ⟨-, rfl⟩ := List.append_singleton_inj.mp (show [] ++ [path] = init ++ [name] from h)
    simpa [child] using fileName?_child hname ""
  · have hne : b ≠ [] := by
      rintro rfl
      exact hslash (by rw [hlast, List.getLast?_append_of_ne_nil _ (by simp)]; rfl)
    rw [hpath, hlast, steps_append_sep, steps_of_notMem hne hb] at h
    obtain ⟨-, rfl⟩ := List.append_singleton_inj.mp h
    have hchild : path = child (String.ofList (a ++ ['/'])) (String.ofList b) := by
      rw [child, String.toList_ofList, List.getLast?_concat]
      simp [← String.toList_inj, hlast]
    rw [hchild]
    exact fileName?_child hname _

end Path

namespace FileSystem

/-- The tree has ordered names, and the working directory is there. -/
structure WellFormed (fs : FileSystem) : Prop where
  top : fs.top.WellFormed
  workDir : ∃ children, fs.at? fs.workDir = some (.dir children)

/-- No symbolic link is on the way of the path, or at its end. -/
def PassesNoLink (fs : FileSystem) (path : String) : Prop :=
  ∀ place ∈ Path.placesFrom (fs.start path) (Path.route path),
    ∀ target, fs.at? place ≠ some (.link target)

instance (fs : FileSystem) (path : String) : Decidable (fs.PassesNoLink path) :=
  decidable_of_iff (∀ place ∈ Path.placesFrom (fs.start path) (Path.route path),
      (fs.at? place).all (fun node => node matches .file _ | .dir _) = true) <| by
    refine forall₂_congr fun place _ => ?_
    cases fs.at? place with
    | none => simp
    | some node => cases node <;> simp

/-- What is found is what stands under a name in a directory. -/
def IsSlot (fs : FileSystem) (name : String) (found : Found) : Prop :=
  ∃ dir children, fs.at? dir = some (.dir children) ∧ Path.IsFileName name ∧
    found.place = dir ++ [name] ∧ found.node = children.lookup name

variable {fs fs' : FileSystem} {aim aim' : Aim}

theorem IsSlot.isFileName {name : String} {found : Found} (h : fs.IsSlot name found) :
    Path.IsFileName name := by
  obtain ⟨-, -, -, hname, -⟩ := h
  exact hname

theorem IsSlot.at?_place {name : String} {found : Found} (h : fs.IsSlot name found) :
    fs.at? found.place = found.node := by
  obtain ⟨dir, children, hdir, -, hplace, hnode⟩ := h
  rw [hplace, hnode, at?_append hdir, Node.at?_cons_dir]
  exact Option.bind_fun_some _

theorem exists_dir_top {place : List String} {children : List (String × Node)}
    (h : fs.at? place = some (.dir children)) : ∃ children, fs.at? [] = some (.dir children) := by
  cases place with
  | nil => exact ⟨children, h⟩
  | cons name place =>
    obtain ⟨below, htop⟩ := Node.exists_dir_of_at?_cons h
    exact ⟨below, congrArg some htop⟩

theorem exists_dir_dropLast {place : List String} {children : List (String × Node)}
    (h : fs.at? place = some (.dir children)) :
    ∃ children, fs.at? place.dropLast = some (.dir children) := by
  rcases List.eq_nil_or_concat' place with rfl | ⟨above, name, rfl⟩
  · exact ⟨children, h⟩
  · rw [List.dropLast_concat]
    obtain ⟨found, habove, hbelow⟩ := Option.bind_eq_some_iff.mp ((Node.at?_append _ _ _).symm.trans h)
    obtain ⟨below, rfl⟩ := Node.exists_dir_of_at?_cons hbelow
    exact ⟨below, habove⟩

/-- A turn at a name goes on to a directory, jumps with the link that stands there, or ends with what stands
under the last name. -/
inductive Turn.Leads (fs : FileSystem) (here : List String) (name : String) (rest : List String) :
    Turn → Prop
  | on {here' : List String} (hstep : here' = Path.step here name)
    (hdir : ∃ children, fs.at? here' = some (.dir children)) : Leads fs here name rest (.on here')
  | jump {dir names : List String} (target : String)
    (hlink : fs.at? (Path.step here name) = some (.link target))
    (hdir : ∃ children, fs.at? dir = some (.dir children)) (hnames : ∀ n ∈ names, '/' ∉ n.toList) :
    Leads fs here name rest (.jump dir names)
  | fault (fault : FileFault) : Leads fs here name rest (.ends (.error fault))
  | slot {found : Found} (hlast : rest = []) (hplace : found.place = Path.step here name)
    (hslot : fs.IsSlot name found) : Leads fs here name rest (.ends (.ok found))

theorem leads_turn {here rest : List String} {name : String}
    (hhere : ∃ children, fs.at? here = some (.dir children))
    (hnames : ∀ n ∈ name :: rest, '/' ∉ n.toList) :
    Turn.Leads fs here name rest (fs.turn aim here name rest) := by
  obtain ⟨children, hdir⟩ := hhere
  rw [List.forall_mem_cons] at hnames
  unfold turn
  split_ifs with hstay hfile hup hlong
  · exact .on (if_pos hstay).symm ⟨children, hdir⟩
  · exact .fault _
  · exact .on ((if_neg hstay).trans (if_pos hup)).symm (exists_dir_dropLast hdir)
  · exact .fault _
  have hstep : Path.step here name = here ++ [name] := (if_neg hstay).trans (if_neg hup)
  have hname : Path.IsFileName name := by
    rw [not_or] at hstay
    exact ⟨⟨fun hempty => hstay.2 (String.toList_inj.mp hempty), hnames.1⟩, hstay.1, hup⟩
  have hslot : rest = [] → Turn.Leads fs here name rest
      (.ends (.ok ⟨here ++ [name], fs.at? (here ++ [name])⟩)) := by
    intro hlast
    refine .slot hlast hstep.symm ⟨here, children, hdir, hname, rfl, ?_⟩
    rw [at?_append hdir, Node.at?_cons_dir]
    exact Option.bind_fun_some _
  cases hat : fs.at? (here ++ [name]) with
  | none =>
    rw [hat] at hslot
    rw [Turn.ofNode]
    split_ifs with hlast
    · exact hslot hlast
    · exact .fault _
  | some node =>
    rw [hat] at hslot
    cases node with
    | dir below => exact .on hstep.symm ⟨below, hat⟩
    | file bytes =>
      rw [Turn.ofNode]
      split_ifs with hlast
      · exact hslot hlast
      · exact .fault _
    | link target =>
      rw [Turn.ofNode]
      have hjump : Turn.Leads fs here name rest
          (.jump (if Path.isAbsolute target then [] else here) (Path.route target ++ rest)) := by
        refine .jump target (hstep ▸ hat) ?_ fun n hn => ?_
        · split_ifs
          · exact exists_dir_top hdir
          · exact ⟨children, hdir⟩
        · exact (List.mem_append.mp hn).elim Path.slash_notMem_of_mem_route (hnames.2 n)
      by_cases hlast : rest = [] ∧ aim = .itself
      · rw [if_pos hlast]
        exact hslot hlast.1
      · rw [if_neg hlast]
        exact hjump

/-- Where names lead from a directory: to a directory, or to the last name, in a directory; or a link is
on the way, and the jump goes on from a directory. -/
inductive Reaches (fs : FileSystem) (jump : List String → List String → Except FileFault Found)
    (here names : List String) (found : Found) : Prop
  | dir (children : List (String × Node)) (hnode : found.node = some (.dir children))
  | slot (init : List String) (name : String) (hlast : names = init ++ [name])
    (hplace : found.place ∈ Path.placesFrom here names) (hslot : fs.IsSlot name found)
  | link (place : List String) (hplace : place ∈ Path.placesFrom here names) (target : String)
    (hlink : fs.at? place = some (.link target)) (dir rest : List String)
    (hdir : ∃ children, fs.at? dir = some (.dir children)) (hrest : ∀ n ∈ rest, '/' ∉ n.toList)
    (hjump : jump dir rest = .ok found)

theorem Reaches.cons {jump : List String → List String → Except FileFault Found}
    {here rest : List String} {name : String} {found : Found}
    (h : fs.Reaches jump (Path.step here name) rest found) :
    fs.Reaches jump here (name :: rest) found := by
  cases h with
  | dir children hnode => exact .dir children hnode
  | slot init last hlast hplace hslot =>
    exact .slot (name :: init) last (by rw [hlast]; rfl) (List.mem_cons_of_mem _ hplace) hslot
  | link place hplace target hlink dir rest hdir hrest hjump =>
    exact .link place (List.mem_cons_of_mem _ hplace) target hlink dir rest hdir hrest hjump

theorem reaches_of_follow {jump : List String → List String → Except FileFault Found}
    {here names : List String} {found : Found} (hhere : ∃ children, fs.at? here = some (.dir children))
    (hnames : ∀ n ∈ names, '/' ∉ n.toList) (h : follow fs aim jump here names = .ok found) :
    fs.Reaches jump here names found := by
  induction names generalizing here with
  | nil =>
    obtain ⟨children, hdir⟩ := hhere
    obtain rfl := Except.ok.inj h
    exact .dir children hdir
  | cons name rest ih =>
    have hturn : Turn.Leads fs here name rest (fs.turn aim here name rest) := leads_turn hhere hnames
    rw [follow_cons] at h
    generalize fs.turn aim here name rest = t at h hturn
    cases hturn with
    | on hstep hdir =>
      have hrest : ∀ n ∈ rest, '/' ∉ n.toList := fun n hn => hnames n (List.mem_cons_of_mem _ hn)
      exact .cons (hstep ▸ ih hdir hrest h)
    | jump target hlink hdir hrest =>
      exact .link _ List.mem_cons_self target hlink _ _ hdir hrest h
    | fault fault => cases h
    | slot hlast hplace hslot =>
      obtain rfl := Except.ok.inj h
      refine .slot [] name (by rw [hlast]; rfl) ?_ hslot
      rw [hplace]
      exact List.mem_cons_self

theorem WellFormed.exists_dir_start (h : fs.WellFormed) (path : String) :
    ∃ children, fs.at? (fs.start path) = some (.dir children) := by
  obtain ⟨children, hdir⟩ := h.workDir
  rw [start]
  split_ifs
  · exact exists_dir_top hdir
  · exact ⟨children, hdir⟩

theorem walkLinks_of_locate {path : String} {found : Found} (h : fs.locate aim path = .ok found) :
    walkLinks fs aim maxLinks (fs.start path) (Path.route path) = .ok found := by
  unfold locate at h
  cases hfault : pathFault? path with
  | none => rwa [hfault] at h
  | some fault =>
    rw [hfault] at h
    cases h

/-- With any number of links to follow, names lead to a directory or to a name in a directory. -/
theorem exists_of_walkLinks {links : Nat} {here names : List String} {found : Found}
    (hhere : ∃ children, fs.at? here = some (.dir children)) (hnames : ∀ n ∈ names, '/' ∉ n.toList)
    (h : walkLinks fs aim links here names = .ok found) :
    (∃ children, found.node = some (.dir children)) ∨ ∃ name, fs.IsSlot name found := by
  induction links generalizing here names with
  | zero =>
    cases reaches_of_follow hhere hnames h with
    | dir children hnode => exact Or.inl ⟨children, hnode⟩
    | slot init name hlast hplace hslot => exact Or.inr ⟨name, hslot⟩
    | link place hplace target hlink dir rest hdir hrest hjump => cases hjump
  | succ links ih =>
    cases reaches_of_follow hhere hnames h with
    | dir children hnode => exact Or.inl ⟨children, hnode⟩
    | slot init name hlast hplace hslot => exact Or.inr ⟨name, hslot⟩
    | link place hplace target hlink dir rest hdir hrest hjump => exact ih hdir hrest hjump

/-- **A path that is found** leads to a directory or to a name in a directory. -/
theorem WellFormed.locate_cases (hwell : fs.WellFormed) {path : String} {found : Found}
    (h : fs.locate aim path = .ok found) :
    (∃ children, found.node = some (.dir children)) ∨ ∃ name, fs.IsSlot name found :=
  exists_of_walkLinks (hwell.exists_dir_start path) (fun _ => Path.slash_notMem_of_mem_route)
    (walkLinks_of_locate h)

/-- Without a link on the way, a path leads to a directory, or to its file name in a directory, where no
link is. -/
theorem PassesNoLink.locate_cases {path : String} (hlinks : fs.PassesNoLink path)
    (hwell : fs.WellFormed) {found : Found} (h : fs.locate aim path = .ok found) :
    (∃ children, found.node = some (.dir children)) ∨
      ∃ name, Path.fileName? path = some name ∧ fs.IsSlot name found ∧
        ∀ target, found.node ≠ some (.link target) := by
  cases reaches_of_follow (hwell.exists_dir_start path) (fun n => Path.slash_notMem_of_mem_route)
    (walkLinks_of_locate h) with
  | dir children hnode => exact Or.inl ⟨children, hnode⟩
  | slot init name hlast hplace hslot =>
    refine Or.inr ⟨name, Path.fileName?_of_route hslot.isFileName hlast, hslot, fun target heq => ?_⟩
    exact hlinks _ hplace target (hslot.at?_place.trans heq)
  | link place hplace target hlink dir rest hdir hrest hjump =>
    exact absurd hlink (hlinks place hplace target)

/-! ## What is put at the end of a path -/

/-- The answer is something that is there, and it is the node at the place unless a link may be the
answer. -/
def IsAt (aim : Aim) (place : List String) (node : Node) (answer : Except FileFault Found) : Prop :=
  ∃ found, answer = .ok found ∧ found.node.isSome ∧ (aim ≠ .itself → found = ⟨place, some node⟩)

theorem isAt_ok (aim : Aim) (place : List String) (node : Node) :
    IsAt aim place node (.ok ⟨place, some node⟩) :=
  ⟨_, rfl, rfl, fun _ => rfl⟩

/-- If a turn ends at the place, another one goes on to it or ends with what is there; else both go the same
way, unless the other ends with a link. -/
inductive Turn.Arrives (aim : Aim) (place : List String) (node : Node) (rest : List String) :
    Turn → Turn → Prop
  | on (here : List String) : Arrives aim place node rest (.on here) (.on here)
  | jump (dir names : List String) : Arrives aim place node rest (.jump dir names) (.jump dir names)
  | link (dir names : List String) {answer : Except FileFault Found} (h : IsAt aim place node answer) :
    Arrives aim place node rest (.jump dir names) (.ends answer)
  | fault (fault : FileFault) (t : Turn) : Arrives aim place node rest (.ends (.error fault)) t
  | elsewhere {found : Found} (h : found.place ≠ place) (t : Turn) :
    Arrives aim place node rest (.ends (.ok found)) t
  | dir (found : Found) (hlast : rest = []) :
    Arrives aim place node rest (.ends (.ok found)) (.on place)
  | ends (found : Found) {answer : Except FileFault Found} (h : IsAt aim place node answer) :
    Arrives aim place node rest (.ends (.ok found)) (.ends answer)

theorem Keeps.arrives_turn (h : Keeps fs fs') (haim : aim' = .newFile → aim = .newFile)
    {place : List String} {node' : Node} (hat' : fs'.at? place = some node')
    (hlink : ∀ target, node' ≠ .link target) (here : List String) (name : String) (rest : List String) :
    Turn.Arrives aim' place node' rest (fs.turn aim here name rest) (fs'.turn aim' here name rest) := by
  unfold FileSystem.turn
  by_cases hstay : name = "." ∨ name = ""
  · rw [if_pos hstay, if_pos hstay]
    exact .on here
  rw [if_neg hstay, if_neg hstay]
  by_cases hfile : aim = .newFile ∧ rest = [""]
  · rw [if_pos hfile]
    exact .fault _ _
  have hfile' : ¬ (aim' = .newFile ∧ rest = [""]) := fun hfile' => hfile (hfile'.imp_left haim)
  rw [if_neg hfile, if_neg hfile']
  split_ifs with hup hlong
  · exact .on here.dropLast
  · exact .fault _ _
  have hend : rest = [] → ∀ node, Turn.Arrives aim' place node' rest
      (.ends (.ok ⟨here ++ [name], node⟩)) (.ofNode aim' here name rest (fs'.at? (here ++ [name]))) := by
    intro hlast node
    by_cases hplace : here ++ [name] = place
    · subst hplace
      rw [hat']
      cases node' with
      | dir children => exact .dir _ hlast
      | file bytes =>
        rw [Turn.ofNode, if_pos hlast]
        exact .ends _ (isAt_ok aim' _ _)
      | link target => exact absurd rfl (hlink target)
    · exact .elsewhere hplace _
  cases hat : fs.at? (here ++ [name]) with
  | none =>
    rw [Turn.ofNode]
    split_ifs with hlast
    · exact hend hlast none
    · exact .fault _ _
  | some node =>
    obtain ⟨found, hfound, hkind⟩ := h.at? hat
    cases hkind with
    | dir a b =>
      rw [hfound]
      exact .on _
    | file a b =>
      rw [Turn.ofNode]
      split_ifs with hlast
      · exact hend hlast _
      · exact .fault _ _
    | link target =>
      by_cases hlast : rest = [] ∧ aim = .itself
      · rw [Turn.ofNode, if_pos hlast]
        exact hend hlast.1 _
      · rw [hfound, Turn.ofNode, Turn.ofNode, if_neg hlast]
        by_cases hlast' : rest = [] ∧ aim' = .itself
        · rw [if_pos hlast']
          exact .link _ _ ⟨_, rfl, rfl, fun hnot => absurd hlast'.2 hnot⟩
        · rw [if_neg hlast']
          exact .jump _ _

/-- Something other than a link stands in the second tree where names lead to in the first. Then they
lead to something in the second tree too, and to it unless they are followed to what may be a link. -/
theorem Keeps.follow_of_at? (h : Keeps fs fs') (haim : aim' = .newFile → aim = .newFile)
    {node : Option Node} {node' : Node} {place here names : List String}
    {jump jump' : List String → List String → Except FileFault Found}
    (hjump : ∀ here names, jump here names = .ok ⟨place, node⟩ → IsAt aim' place node' (jump' here names))
    (hat' : fs'.at? place = some node') (hlink : ∀ target, node' ≠ .link target)
    (hfollow : fs.follow aim jump here names = .ok ⟨place, node⟩) :
    IsAt aim' place node' (fs'.follow aim' jump' here names) := by
  have hplace : IsAt aim' place node' (.ok ⟨place, fs'.at? place⟩) := hat' ▸ isAt_ok aim' place node'
  induction names generalizing here with
  | nil =>
    obtain ⟨rfl, -⟩ := Found.mk.inj (Except.ok.inj hfollow)
    exact hplace
  | cons name rest ih =>
    have hturn : Turn.Arrives aim' place node' rest (fs.turn aim here name rest) _ :=
      h.arrives_turn haim hat' hlink here name rest
    rw [follow_cons] at hfollow ⊢
    generalize fs.turn aim here name rest = t, fs'.turn aim' here name rest = t' at hturn hfollow ⊢
    cases hturn with
    | on here' => exact ih hfollow
    | jump dir names => exact hjump dir names hfollow
    | link dir names hanswer => exact hanswer
    | fault fault => cases hfollow
    | elsewhere hother => exact absurd (congrArg Found.place (Except.ok.inj hfollow)) hother
    | dir found hlast =>
      subst hlast
      exact hplace
    | ends found hanswer => exact hanswer

theorem Keeps.walkLinks_of_at? (h : Keeps fs fs') (haim : aim' = .newFile → aim = .newFile)
    {links : Nat} {node : Option Node} {node' : Node} {place here names : List String}
    (hat' : fs'.at? place = some node') (hlink : ∀ target, node' ≠ .link target)
    (hwalk : fs.walkLinks aim links here names = .ok ⟨place, node⟩) :
    IsAt aim' place node' (fs'.walkLinks aim' links here names) := by
  induction links generalizing here names with
  | zero =>
    refine h.follow_of_at? haim ?_ hat' hlink hwalk
    intro here names hjump
    cases hjump
  | succ links ih => exact h.follow_of_at? haim (fun _ _ => ih) hat' hlink hwalk

/-- **What is put at the end of a path** is found by it. -/
theorem Keeps.locate_of_at? (h : Keeps fs fs') (aim' : Aim) (haim : aim' = .newFile → aim = .newFile)
    {path : String} {place : List String} {node : Option Node} {node' : Node}
    (hlocate : fs.locate aim path = .ok ⟨place, node⟩) (hat' : fs'.at? place = some node')
    (hlink : ∀ target, node' ≠ .link target) :
    IsAt aim' place node' (fs'.locate aim' path) := by
  have hwalk := h.walkLinks_of_at? haim hat' hlink (walkLinks_of_locate hlocate)
  have hstart : fs'.start path = fs.start path := by rw [start, start, h.workDir]
  unfold FileSystem.locate at hlocate ⊢
  cases hfault : pathFault? path with
  | none =>
    dsimp only
    rw [hstart]
    exact hwalk
  | some fault =>
    rw [hfault] at hlocate
    cases hlocate

end FileSystem

end RouteAudit
