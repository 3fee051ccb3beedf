import RouteAudit.FileSystem.Walk
import RouteAudit.Proofs.Tree

/-!
# Following one path in two trees

A path is followed turn by turn, one at each name (`follow_cons`).

A tree keeps another one if it has a node of the same kind wherever the other has one (`Keeps`); so it
may hold more, and its files other bytes. To follow a path in it goes the same way as in the other,
as long as the other has what the path asks for: at every name both trees have a directory, both a
file, or both the same link (`Keeps.turn`, `Keeps.follow`). So a path that names something in one tree names what
stands at the same place of the other (`Keeps.locate_of_some`), and two trees that keep each other
answer alike (`Keeps.stat_cases`).
-/

namespace RouteAudit

/-- Two directories, two files, or two links to one target. -/
inductive Node.SameKind : Node → Node → Prop
  | dir (a b : List (String × Node)) : SameKind (.dir a) (.dir b)
  | file (a b : ByteArray) : SameKind (.file a) (.file b)
  | link (target : String) : SameKind (.link target) (.link target)

theorem Node.SameKind.refl (node : Node) : node.SameKind node := by
  cases node with
  | file bytes => exact .file bytes bytes
  | dir children => exact .dir children children
  | link target => exact .link target

/-- The second tree has a node of the same kind wherever the first has one. -/
def Node.Keeps (a b : Node) : Prop :=
  ∀ place node, at? place a = some node → ∃ node', at? place b = some node' ∧ node.SameKind node'

namespace Node.Keeps

theorem refl (node : Node) : node.Keeps node :=
  fun _ _ h => ⟨_, h, .refl _⟩

theorem file (a b : ByteArray) : (Node.file a).Keeps (Node.file b) := by
  intro place node hat
  cases place with
  | nil =>
    obtain rfl := Option.some.inj hat
    exact ⟨_, rfl, .file a b⟩
  | cons name place => cases hat

theorem dir {a b : List (String × Node)}
    (h : ∀ name node, a.lookup name = some node → b.lookup name = some node) :
    (Node.dir a).Keeps (Node.dir b) := by
  intro place node hat
  cases place with
  | nil =>
    obtain rfl := Option.some.inj hat
    exact ⟨_, rfl, .dir a b⟩
  | cons name place =>
    obtain ⟨child, hchild, hrest⟩ := Option.bind_eq_some_iff.mp hat
    refine ⟨node, ?_, .refl node⟩
    rw [at?_cons_dir, h name child hchild, Option.bind_some, hrest]

/-- One of two trees keeps the other if what they have at one place does, and they are the same
elsewhere. -/
theorem putAt {a b : Node} (h : a.Keeps b) (place : List String) (node : Node) :
    (Node.putAt a place node).Keeps (Node.putAt b place node) := by
  induction place generalizing node with
  | nil => exact h
  | cons name place ih =>
    intro other found hat
    cases other with
    | nil =>
      obtain rfl := Option.some.inj hat
      exact ⟨_, rfl, .dir _ _⟩
    | cons m other =>
      rw [Node.putAt, at?_cons_dir] at hat ⊢
      by_cases heq : m = name
      · subst heq
        rw [lookup_putChild_self, Option.bind_some] at hat ⊢
        exact ih _ other found hat
      · rw [lookup_putChild_of_ne heq] at hat ⊢
        exact ⟨found, hat, .refl found⟩

end Node.Keeps

namespace FileSystem

/-! ## One name of a path -/

/-- What follows on a name: the way goes on from a directory, it jumps with a link, or it ends. -/
inductive Turn where
  | on (here : List String)
  | jump (dir names : List String)
  | ends (answer : Except FileFault Found)

/-- What follows on a name under which a node stands or nothing, with the others left. -/
def Turn.ofNode (aim : Aim) (here : List String) (name : String) (rest : List String) : Option Node → Turn
  | none => ends (if rest = [] then .ok ⟨here ++ [name], none⟩ else .error .notFound)
  | some (.dir _) => on (here ++ [name])
  | some (.file bytes) =>
    ends (if rest = [] then .ok ⟨here ++ [name], some (.file bytes)⟩ else .error .notDirectory)
  | some (.link target) =>
    if rest = [] ∧ aim = .itself then ends (.ok ⟨here ++ [name], some (.link target)⟩)
    else jump (if Path.isAbsolute target then [] else here) (Path.route target ++ rest)

/-- What follows on a name in a directory, with the others left. -/
def turn (fs : FileSystem) (aim : Aim) (here : List String) (name : String) (rest : List String) :
    Turn :=
  if name = "." ∨ name = "" then .on here
  else if aim = .newFile ∧ rest = [""] then .ends (.error .isDirectory)
  else if name = ".." then .on here.dropLast
  else if Path.maxNameBytes < name.utf8ByteSize then .ends (.error .nameTooLong)
  else .ofNode aim here name rest (fs.at? (here ++ [name]))

/-- The answer after a turn. -/
def Turn.answer (fs : FileSystem) (aim : Aim)
    (jump : List String → List String → Except FileFault Found) (rest : List String) :
    Turn → Except FileFault Found
  | on here => fs.follow aim jump here rest
  | .jump dir names => jump dir names
  | ends answer => answer

/-- A path is followed turn by turn. -/
theorem follow_cons (fs : FileSystem) (aim : Aim)
    (jump : List String → List String → Except FileFault Found) (here : List String) (name : String)
    (rest : List String) : fs.follow aim jump here (name :: rest) =
      (fs.turn aim here name rest).answer fs aim jump rest := by
  rw [follow, turn]
  by_cases hstay : name = "." ∨ name = ""
  · rw [if_pos hstay, if_pos hstay, Turn.answer]
  rw [if_neg hstay, if_neg hstay]
  by_cases hfile : aim = .newFile ∧ rest = [""]
  · rw [if_pos hfile, if_pos hfile, Turn.answer]
  rw [if_neg hfile, if_neg hfile]
  by_cases hup : name = ".."
  · rw [if_pos hup, if_pos hup, Turn.answer]
  rw [if_neg hup, if_neg hup]
  by_cases hlong : Path.maxNameBytes < name.utf8ByteSize
  · rw [if_pos hlong, if_pos hlong, Turn.answer]
  rw [if_neg hlong, if_neg hlong]
  cases fs.at? (here ++ [name]) with
  | none => rfl
  | some node =>
    cases node with
    | dir children => rfl
    | file bytes => rfl
    | link target =>
      rw [Turn.ofNode, apply_ite (Turn.answer fs aim jump rest)]
      rfl

/-! ## Two trees -/

/-- The second file system has a node of the same kind wherever the first has one. -/
structure Keeps (fs fs' : FileSystem) : Prop where
  workDir : fs'.workDir = fs.workDir
  top : fs.top.Keeps fs'.top

theorem Keeps.at? {fs fs' : FileSystem} (h : Keeps fs fs') {place : List String} {node : Node}
    (hat : fs.at? place = some node) : ∃ node', fs'.at? place = some node' ∧ node.SameKind node' :=
  h.top place node hat

theorem Keeps.refl (fs : FileSystem) : Keeps fs fs :=
  ⟨rfl, .refl fs.top⟩

theorem Keeps.put {a b : Node} (h : a.Keeps b) (fs : FileSystem) (place : List String) :
    Keeps (fs.put place a) (fs.put place b) :=
  ⟨rfl, h.putAt place fs.top⟩

/-- The same place of another tree. -/
def Found.inTree (fs : FileSystem) (found : Found) : Found :=
  ⟨found.place, fs.at? found.place⟩

/-- Nothing is there. -/
def IsAbsent : Except FileFault Found → Prop
  | .ok found => found.node = none
  | .error fault => fault = .notFound

/-- Two answers agree: there is nothing in the first tree, or both name one place. -/
def Agree (fs' : FileSystem) (answer answer' : Except FileFault Found) : Prop :=
  IsAbsent answer ∨ answer' = answer.map (Found.inTree fs')

variable {fs fs' : FileSystem} {aim : Aim}

theorem Agree.error (fault : FileFault) : Agree fs' (.error fault) (.error fault) :=
  Or.inr rfl

theorem Agree.found {place : List String} {node' : Node} (h : fs'.at? place = some node')
    (node : Option Node) : Agree fs' (.ok ⟨place, node⟩) (.ok ⟨place, some node'⟩) :=
  Or.inr (by rw [← h]; rfl)

/-- Two turns agree: there is nothing in the first tree, or both go the same way. -/
inductive Turn.Agree (fs' : FileSystem) : Turn → Turn → Prop
  | on (here : List String) : Agree fs' (.on here) (.on here)
  | jump (dir names : List String) : Agree fs' (.jump dir names) (.jump dir names)
  | absent {answer : Except FileFault Found} (h : IsAbsent answer) (t : Turn) : Agree fs' (.ends answer) t
  | ends {answer answer' : Except FileFault Found} (h : FileSystem.Agree fs' answer answer') :
    Agree fs' (.ends answer) (.ends answer')

/-- A name leads the same way in a tree that keeps the other. -/
theorem Keeps.turn (h : Keeps fs fs') (here : List String) (name : String) (rest : List String) :
    Turn.Agree fs' (fs.turn aim here name rest) (fs'.turn aim here name rest) := by
  unfold FileSystem.turn
  split_ifs with hstay hfile hup hlong
  · exact .on here
  · exact .ends (.error _)
  · exact .on here.dropLast
  · exact .ends (.error _)
  · cases hat : fs.at? (here ++ [name]) with
    | none =>
      refine .absent ?_ _
      split_ifs <;> rfl
    | some node =>
      obtain ⟨node', hat', hkind⟩ := h.at? hat
      rw [hat']
      cases hkind with
      | dir a b => exact .on _
      | file a b =>
        refine .ends ?_
        split_ifs with hlast
        · exact Agree.found hat' _
        · exact Agree.error _
      | link target =>
        rw [Turn.ofNode]
        split_ifs with hlast
        · exact .ends (Agree.found hat' _)
        · exact .jump _ _
        · exact .jump _ _

/-- **A path leads the same way in a tree that keeps the other.** -/
theorem Keeps.follow (h : Keeps fs fs')
    {jump jump' : List String → List String → Except FileFault Found}
    (hjump : ∀ here names, Agree fs' (jump here names) (jump' here names)) (here names : List String) :
    Agree fs' (follow fs aim jump here names) (follow fs' aim jump' here names) := by
  induction names generalizing here with
  | nil => exact Or.inr rfl
  | cons name rest ih =>
    rw [follow_cons, follow_cons]
    have hturn : Turn.Agree fs' _ (fs'.turn aim here name rest) := h.turn here name rest
    generalize fs.turn aim here name rest = t, fs'.turn aim here name rest = t' at hturn ⊢
    cases hturn with
    | on here' => exact ih here'
    | jump dir names => exact hjump dir names
    | absent habsent t => exact Or.inl habsent
    | ends hagree => exact hagree

theorem Keeps.walkLinks (h : Keeps fs fs') (links : Nat) (here names : List String) :
    Agree fs' (walkLinks fs aim links here names) (walkLinks fs' aim links here names) := by
  induction links generalizing here names with
  | zero => exact h.follow (fun _ _ => Agree.error _) here names
  | succ links ih => exact h.follow ih here names

theorem Keeps.locate (h : Keeps fs fs') (path : String) :
    Agree fs' (fs.locate aim path) (fs'.locate aim path) := by
  have hstart : fs'.start path = fs.start path := by rw [start, start, h.workDir]
  rw [FileSystem.locate, FileSystem.locate]
  cases pathFault? path with
  | some fault => exact Agree.error fault
  | none =>
    rw [hstart]
    exact h.walkLinks maxLinks (fs.start path) (Path.route path)

theorem Keeps.locate_of_some (h : Keeps fs fs') {path : String} {place : List String} {node : Node}
    (hlocate : fs.locate aim path = .ok ⟨place, some node⟩) :
    fs'.locate aim path = .ok ⟨place, fs'.at? place⟩ := by
  rcases h.locate path with habsent | hagree
  · rw [hlocate] at habsent
    cases habsent
  · rw [hagree, hlocate]
    rfl

/-- What a path names stands at the place that is found for it. -/
theorem at?_of_locate {path : String} {place : List String} {node : Node}
    (hlocate : fs.locate aim path = .ok ⟨place, some node⟩) : fs.at? place = some node := by
  have hsame := (Keeps.refl fs).locate_of_some hlocate
  rw [hlocate] at hsame
  exact (congrArg Found.node (Except.ok.inj hsame)).symm

/-- A path that names something in a tree names a node of the same kind, at the same place, in every
tree that keeps it. -/
theorem Keeps.locate_eq_ok (h : Keeps fs fs') {path : String} {place : List String} {node : Node}
    (hlocate : fs.locate aim path = .ok ⟨place, some node⟩) :
    ∃ node', fs'.locate aim path = .ok ⟨place, some node'⟩ ∧ node.SameKind node' := by
  obtain ⟨node', hat', hkind⟩ := h.at? (at?_of_locate hlocate)
  exact ⟨node', by rw [h.locate_of_some hlocate, hat'], hkind⟩

/-! ## The node of a path -/

theorem stat_eq_ok_iff {path : String} {node : Node} :
    fs.stat path = .ok node ↔ ∃ place, fs.locate .target path = .ok ⟨place, some node⟩ := by
  unfold stat
  cases hlocate : fs.locate .target path with
  | error fault => simp
  | ok found =>
    obtain ⟨place, found⟩ := found
    cases found <;> simp

theorem stat_of_isAbsent {path : String} (h : IsAbsent (fs.locate .target path)) :
    fs.stat path = .error .notFound := by
  unfold stat
  cases hlocate : fs.locate .target path with
  | error fault =>
    rw [hlocate] at h
    rw [show fault = .notFound from h]
  | ok found =>
    rw [hlocate] at h
    obtain ⟨place, found⟩ := found
    obtain rfl : found = none := h
    rfl

theorem exists_of_isDir {path : String} (h : fs.isDir path = true) :
    ∃ children, fs.stat path = .ok (.dir children) := by
  unfold isDir at h
  cases hstat : fs.stat path with
  | error fault =>
    rw [hstat] at h
    cases h
  | ok node =>
    rw [hstat] at h
    cases node with
    | dir children => exact ⟨children, rfl⟩
    | file bytes => cases h
    | link target => cases h

theorem isDir_of_stat {path : String} {children : List (String × Node)}
    (h : fs.stat path = .ok (.dir children)) : fs.isDir path = true := by
  rw [isDir, h]
  rfl

theorem Keeps.isDir (h : Keeps fs fs') {path : String} (hdir : fs.isDir path = true) :
    fs'.isDir path = true := by
  obtain ⟨children, hstat⟩ := exists_of_isDir hdir
  obtain ⟨place, hlocate⟩ := stat_eq_ok_iff.mp hstat
  obtain ⟨node, hlocate', hkind⟩ := h.locate_eq_ok hlocate
  cases hkind with
  | dir a b => exact isDir_of_stat (stat_eq_ok_iff.mpr ⟨place, hlocate'⟩)

theorem openRoot_of_stat {path : String} {children : List (String × Node)}
    (h : fs.stat path = .ok (.dir children)) (role : RootRole) (strict : Bool) :
    fs.openRoot role strict path = .ok (.present children) := by
  rw [openRoot, h]

/-- What a path does not name in a tree, it does not name in one that the tree keeps. -/
theorem Keeps.isAbsent (h : Keeps fs' fs) {path : String} (habsent : IsAbsent (fs.locate aim path)) :
    IsAbsent (fs'.locate aim path) := by
  rcases h.locate path with habsent' | hagree
  · exact habsent'
  · rw [hagree] at habsent
    cases hlocate : fs'.locate aim path with
    | error fault =>
      rw [hlocate] at habsent
      exact habsent
    | ok found =>
      obtain ⟨place, found⟩ := found
      cases found with
      | none => rfl
      | some node' =>
        obtain ⟨node, hat, -⟩ := h.at? (at?_of_locate hlocate)
        have hnone : fs.at? place = none := by
          rw [hlocate] at habsent
          exact habsent
        rw [hnone] at hat
        cases hat

/-- **Two trees that keep each other** answer alike: with one fault, or with nodes of one kind at one
place. -/
theorem Keeps.stat_cases (h : Keeps fs fs') (h' : Keeps fs' fs) (path : String) :
    (∃ fault, fs.stat path = .error fault ∧ fs'.stat path = .error fault) ∨
      ∃ place node node', fs.locate .target path = .ok ⟨place, some node⟩ ∧
        fs'.locate .target path = .ok ⟨place, some node'⟩ ∧ node.SameKind node' := by
  rcases h.locate path with habsent | hagree
  · exact Or.inl ⟨_, stat_of_isAbsent habsent, stat_of_isAbsent (h'.isAbsent habsent)⟩
  · cases hlocate : fs.locate .target path with
    | error fault =>
      rw [hlocate] at hagree
      refine Or.inl ⟨fault, ?_, ?_⟩
      · rw [stat, hlocate]
      · rw [stat, hagree]
        rfl
    | ok found =>
      obtain ⟨place, found⟩ := found
      cases found with
      | none =>
        have habsent : IsAbsent (fs.locate .target path) := by rw [hlocate]; rfl
        exact Or.inl ⟨_, stat_of_isAbsent habsent, stat_of_isAbsent (h'.isAbsent habsent)⟩
      | some node =>
        obtain ⟨node', hlocate', hkind⟩ := h.locate_eq_ok hlocate
        exact Or.inr ⟨place, node, node', rfl, hlocate', hkind⟩

end FileSystem

end RouteAudit
