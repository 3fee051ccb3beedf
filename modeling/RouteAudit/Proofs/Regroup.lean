import RouteAudit.Proofs.Located
import RouteAudit.Proofs.Walk

/-!
# Moving children into a new directory

Some children of a directory are moved into a new directory beside the others (`Regrouping`). A walk
that enters the new directory, and meets no path that is too long, then comes to the same files: each
with the name of the new directory among those on its way, or not, and in another order
(`perm_filesBut_walk`). What a file is apart from this is its name, its bytes and the other
directories on its way (`FoundFile.but`).

Proof. A walk finds the same in a directory whatever the names above it (`filesBut_visits`), so in the
new directory it finds what it found of these children before. The children that move and those that
stay are all of them in another order, and everything outside the directory is as before.
-/

namespace RouteAudit

/-! ## Files apart from one name on their way -/

/-- The file without its path, and without a name among the directories on its way. -/
def FoundFile.but (name : String) (f : FoundFile) : FoundFile :=
  { f with path := "", dirs := f.dirs.filter (· ≠ name) }

/-- The files of a walk apart from one name on their way. -/
def filesBut (name : String) (visits : List Visit) : List FoundFile :=
  (visits.filterMap Visit.file?).map (FoundFile.but name)

theorem filesBut_append (name : String) (a b : List Visit) :
    filesBut name (a ++ b) = filesBut name a ++ filesBut name b := by
  simp [filesBut]

theorem perm_filesBut {a b : List Visit} (h : a.Perm b) (name : String) :
    (filesBut name a).Perm (filesBut name b) :=
  (h.filterMap _).map _

namespace Node

variable {enter : String → Bool} {group : String}

/-- A walk that opens what it enters finds the same in a node, whatever the names above it. -/
def SameBelow (enter : String → Bool) (group : String) (node : Node) : Prop :=
  ∀ name path path' dirs dirs', dirs.filter (· ≠ group) = dirs'.filter (· ≠ group) →
    Unhindered (visits enter path dirs name node) → Unhindered (visits enter path' dirs' name node) →
    filesBut group (visits enter path dirs name node) =
      filesBut group (visits enter path' dirs' name node)

theorem filesBut_visitsBelow_of {children : List (String × Node)}
    (hbelow : ∀ c ∈ children, SameBelow enter group c.2) {path path' : String}
    {dirs dirs' : List String} (hdirs : dirs.filter (· ≠ group) = dirs'.filter (· ≠ group))
    (h : Unhindered (visitsBelow enter path dirs children))
    (h' : Unhindered (visitsBelow enter path' dirs' children)) :
    filesBut group (visitsBelow enter path dirs children) =
      filesBut group (visitsBelow enter path' dirs' children) := by
  induction children with
  | nil => rfl
  | cons c children ih =>
    obtain ⟨name, node⟩ := c
    rw [List.forall_mem_cons] at hbelow
    rw [visitsBelow_cons, Unhindered.append_iff] at h h'
    rw [visitsBelow_cons, visitsBelow_cons, filesBut_append, filesBut_append, ih hbelow.2 h.2 h'.2,
      hbelow.1 name _ _ dirs dirs' hdirs h.1 h'.1]

/-- A directory that is entered without a fault is opened. -/
theorem visits_dir_of_unhindered {path name : String} {dirs : List String}
    {children : List (String × Node)} (henter : enter name = true)
    (h : Unhindered (visits enter path dirs name (dir children))) :
    visits enter path dirs name (dir children) = visitsBelow enter path (dirs ++ [name]) children := by
  rw [visits_dir, if_pos henter] at h ⊢
  by_cases hshort : path.utf8ByteSize ≤ Path.maxBytes
  · rw [if_pos hshort]
  · rw [if_neg hshort] at h
    exact absurd List.mem_cons_self (h path)

theorem filesBut_visits (enter : String → Bool) (group : String) (node : Node) :
    SameBelow enter group node := by
  induction node using Node.induction with
  | file bytes =>
    intro name path path' dirs dirs' hdirs _ _
    change [FoundFile.but group _] = [FoundFile.but group _]
    simp only [FoundFile.but, hdirs]
  | link target =>
    intro name path path' dirs dirs' _ _ _
    rfl
  | dir children ih =>
    intro name path path' dirs dirs' hdirs h h'
    by_cases henter : enter name = true
    · have hopen := visits_dir_of_unhindered henter h
      have hopen' := visits_dir_of_unhindered henter h'
      rw [hopen] at h
      rw [hopen'] at h'
      rw [hopen, hopen']
      refine filesBut_visitsBelow_of ih ?_ h h'
      rw [List.filter_append, List.filter_append, hdirs]
    · rw [visits_dir, visits_dir, if_neg henter, if_neg henter]

variable {children : List (String × Node)}

theorem filesBut_visitsBelow {path path' : String} {dirs dirs' : List String}
    (hdirs : dirs.filter (· ≠ group) = dirs'.filter (· ≠ group))
    (h : Unhindered (visitsBelow enter path dirs children))
    (h' : Unhindered (visitsBelow enter path' dirs' children)) :
    filesBut group (visitsBelow enter path dirs children) =
      filesBut group (visitsBelow enter path' dirs' children) :=
  filesBut_visitsBelow_of (fun c _ => filesBut_visits enter group c.2) hdirs h h'

/-! ## One directory -/

theorem perm_visitsBelow {children' : List (String × Node)} (h : children.Perm children')
    (path : String) (dirs : List String) :
    (visitsBelow enter path dirs children).Perm (visitsBelow enter path dirs children') := by
  rw [visitsBelow_eq_flatMap, visitsBelow_eq_flatMap]
  exact h.flatMap_right _

/-- The children after some of them were moved into a new directory. -/
def regrouped (moves : String → Bool) (group : String) (children : List (String × Node)) :
    List (String × Node) :=
  putChild group (dir (children.filter fun c => moves c.1)) (children.filter fun c => !moves c.1)

/-- **The walk of a directory whose children were regrouped** comes to the same files. -/
theorem perm_filesBut_regrouped (moves : String → Bool) (hnew : ∀ c ∈ children, c.1 ≠ group)
    (henter : enter group = true) {path : String} {dirs : List String}
    (h : Unhindered (visitsBelow enter path dirs children))
    (h' : Unhindered (visitsBelow enter path dirs (regrouped moves group children))) :
    (filesBut group (visitsBelow enter path dirs (regrouped moves group children))).Perm
      (filesBut group (visitsBelow enter path dirs children)) := by
  let moved := children.filter fun c => moves c.1
  let kept := children.filter fun c => !moves c.1
  have hsplit : (moved ++ kept).Perm children := List.filter_append_perm _ children
  have hput : (regrouped moves group children).Perm ((group, dir moved) :: kept) :=
    putChild_perm (fun c hc => hnew c (List.mem_of_mem_filter hc)) _
  have hwalk : (visitsBelow enter path dirs (regrouped moves group children)).Perm
      (visitsBelow enter path dirs ((group, dir moved) :: kept)) := perm_visitsBelow hput path dirs
  have hall : (visitsBelow enter path dirs (moved ++ kept)).Perm (visitsBelow enter path dirs children) :=
    perm_visitsBelow hsplit path dirs
  have hmoved : Unhindered (visitsBelow enter path dirs moved) := by
    intro p hp
    refine h p (hall.mem_iff.mp ?_)
    rw [visitsBelow_append]
    exact List.mem_append_left _ hp
  have hgroup : Unhindered (visits enter (Path.child path group) dirs group (dir moved)) := by
    intro p hp
    refine h' p (hwalk.mem_iff.mpr ?_)
    rw [visitsBelow_cons]
    exact List.mem_append_left _ hp
  have hopen := visits_dir_of_unhindered henter hgroup
  rw [hopen] at hgroup
  have hdirs : (dirs ++ [group]).filter (· ≠ group) = dirs.filter (· ≠ group) := by
    simp [List.filter_append]
  have hsame := filesBut_visitsBelow hdirs hgroup hmoved
  refine (perm_filesBut hwalk group).trans ?_
  rw [visitsBelow_cons, filesBut_append, hopen, hsame, ← filesBut_append, ← visitsBelow_append]
  exact perm_filesBut hall group

/-! ## A directory anywhere below the root -/

/-- The walk of a tree in which the children of one directory were regrouped. -/
theorem perm_filesBut_putAt (moves : String → Bool) {node : Node} (hwell : node.WellFormed)
    {place : List String} (hat : at? place node = some (dir children))
    (hnew : ∀ c ∈ children, c.1 ≠ group) (henter : enter group = true) {root : String}
    (h : Unhindered (visitsBelow enter root [] node.children))
    (h' : Unhindered
      (visitsBelow enter root [] (putAt (dir (regrouped moves group children)) place node).children)) :
    (filesBut group
      (visitsBelow enter root [] (putAt (dir (regrouped moves group children)) place node).children)).Perm
      (filesBut group (visitsBelow enter root [] node.children)) := by
  have hsame := putAt_at? hwell hat
  rcases List.eq_nil_or_concat' place with rfl | ⟨ds, name, rfl⟩
  · obtain rfl := Option.some.inj hat
    exact perm_filesBut_regrouped moves hnew henter h h'
  · by_cases hentered : Entered enter root ds
    · obtain ⟨before, after, hput⟩ := visitsBelow_putAt_of_entered hwell hat root [] hentered
      have hold := hput (dir children)
      rw [hsame] at hold
      rw [hput] at h' ⊢
      rw [hold] at h ⊢
      rw [Unhindered.append_iff, Unhindered.append_iff] at h h'
      have hdir : (filesBut group (visits enter (Path.below root (ds ++ [name])) ([] ++ ds) name
            (dir (regrouped moves group children)))).Perm
          (filesBut group (visits enter (Path.below root (ds ++ [name])) ([] ++ ds) name
            (dir children))) := by
        have hvisits := h.1.2
        have hvisits' := h'.1.2
        by_cases hname : enter name = true
        · have hopen := visits_dir_of_unhindered hname hvisits
          have hopen' := visits_dir_of_unhindered hname hvisits'
          rw [hopen] at hvisits
          rw [hopen'] at hvisits'
          rw [hopen, hopen']
          exact perm_filesBut_regrouped moves hnew henter hvisits hvisits'
        · rw [visits_dir, visits_dir, if_neg hname, if_neg hname]
      rw [filesBut_append, filesBut_append, filesBut_append, filesBut_append]
      exact (hdir.append_left _).append_right _
    · rw [visitsBelow_putAt_of_not_entered hwell hat root [] hentered]

end Node

/-! ## Two file systems -/

/-- Some children of a directory are to be moved into a new directory beside the others. -/
structure Regrouping (fs : FileSystem) where
  place : List String
  children : List (String × Node)
  hasDir : fs.at? place = some (.dir children)
  moves : String → Bool
  group : String
  isFileName : Path.IsFileName group
  isNew : ∀ c ∈ children, c.1 ≠ group

namespace Regrouping

variable {fs : FileSystem} (m : Regrouping fs)

/-- The file system after the children were moved. -/
def result : FileSystem :=
  fs.put m.place (.dir (Node.regrouped m.moves m.group m.children))

/-- The file system without the children that move. -/
def rest : FileSystem :=
  fs.put m.place (.dir (m.children.filter fun c => !m.moves c.1))

theorem lookup_of_kept {name : String} {node : Node}
    (h : (m.children.filter fun c => !m.moves c.1).lookup name = some node) :
    m.children.lookup name = some node ∧
      (Node.regrouped m.moves m.group m.children).lookup name = some node := by
  have hne : name ≠ m.group := m.isNew (name, node) (List.mem_of_mem_filter (Node.mem_of_lookup h))
  refine ⟨Node.lookup_filter_eq_some (p := fun c => !m.moves c.1) (fun _ _ => rfl) h, ?_⟩
  rw [Node.regrouped, Node.lookup_putChild_of_ne hne, h]

theorem keeps (hwell : fs.top.WellFormed) : m.rest.Keeps fs ∧ m.rest.Keeps m.result := by
  have hsame := FileSystem.put_at? hwell m.hasDir
  constructor
  · have hkeeps := FileSystem.Keeps.put (Node.Keeps.dir fun _ _ h => (m.lookup_of_kept h).1) fs m.place
    rwa [hsame] at hkeeps
  · exact FileSystem.Keeps.put (Node.Keeps.dir fun _ _ h => (m.lookup_of_kept h).2) fs m.place

theorem wellFormed_regrouped (hwell : fs.top.WellFormed) :
    (Node.dir (Node.regrouped m.moves m.group m.children)).WellFormed := by
  have hchildren : (Node.dir m.children).WellFormed := hwell.at? m.hasDir
  exact (hchildren.filter _).putChild m.isFileName (hchildren.filter _)

theorem wellFormed_result (hwell : fs.top.WellFormed) : m.result.top.WellFormed :=
  hwell.putAt (Node.isFileName_of_at? hwell m.hasDir) (m.wellFormed_regrouped hwell)

/-- A directory that is found without what moves is not changed, or the one with the children is at it or
below it. -/
theorem at?_result {place : List String} {a b r : List (String × Node)}
    (hrest : m.rest.at? place = some (.dir r)) (ha : fs.at? place = some (.dir a))
    (hb : m.result.at? place = some (.dir b)) : b = a ∨
      ∃ ds, Node.at? ds (.dir a) = some (.dir m.children) ∧
        .dir b = Node.putAt (.dir (Node.regrouped m.moves m.group m.children)) ds (.dir a) := by
  by_cases habove : place <+: m.place
  · obtain ⟨ds, hds⟩ := habove
    refine Or.inr ⟨ds, ?_, ?_⟩
    · have hdir := m.hasDir
      rwa [← hds, FileSystem.at?_append ha] at hdir
    · have hput := Node.at?_putAt_above ha (.dir (Node.regrouped m.moves m.group m.children)) ds
      rw [hds] at hput
      exact Option.some.inj (hb.symm.trans hput)
  · refine Or.inl ?_
    by_cases hbelow : m.place <+: place
    · -- the place is in a child that stays
      obtain ⟨names, rfl⟩ := hbelow
      cases names with
      | nil => exact absurd (by simp) habove
      | cons name names =>
        have hrest' := (Node.at?_putAt_append _ m.place (name :: names) fs.top).symm.trans hrest
        have hb' := (Node.at?_putAt_append _ m.place (name :: names) fs.top).symm.trans hb
        rw [FileSystem.at?_append m.hasDir] at ha
        obtain ⟨child, hchild, -⟩ := Option.bind_eq_some_iff.mp hrest'
        obtain ⟨hold, hnew⟩ := m.lookup_of_kept hchild
        rw [Node.at?_cons_dir, hold, Option.bind_some] at ha
        rw [Node.at?_cons_dir, hnew, Option.bind_some, ha] at hb'
        exact (Node.dir.inj (Option.some.inj hb')).symm
    · have hsame := Node.at?_putAt_apart hbelow habove
        (.dir (Node.regrouped m.moves m.group m.children)) fs.top
      have heq := hb.symm.trans (hsame.trans ha)
      exact Node.dir.inj (Option.some.inj heq)

/-- **A root that is found without what moves** is found before and after, and a walk from it comes to
the same files. -/
theorem perm_filesBut_walk (hwell : fs.top.WellFormed) {root : String}
    (hroot : m.rest.isDir root = true) :
    ∃ a b, fs.stat root = .ok (.dir a) ∧ m.result.stat root = .ok (.dir b) ∧
      (Node.dir a).WellFormed ∧ (Node.dir b).WellFormed ∧
      ∀ enter : String → Bool, enter m.group = true → Unhindered (walk root a enter) →
        Unhindered (walk root b enter) →
        (filesBut m.group (walk root b enter)).Perm (filesBut m.group (walk root a enter)) := by
  obtain ⟨r, hstat⟩ := FileSystem.exists_of_isDir hroot
  obtain ⟨place, hrest⟩ := FileSystem.stat_eq_ok_iff.mp hstat
  obtain ⟨hkeeps, hkeeps'⟩ := m.keeps hwell
  obtain ⟨node, ha, hkind⟩ := hkeeps.locate_eq_ok hrest
  obtain ⟨node', hb, hkind'⟩ := hkeeps'.locate_eq_ok hrest
  obtain ⟨_, a⟩ := hkind
  obtain ⟨_, b⟩ := hkind'
  have hata := FileSystem.at?_of_locate ha
  have hatb := FileSystem.at?_of_locate hb
  refine ⟨a, b, FileSystem.stat_eq_ok_iff.mpr ⟨place, ha⟩, FileSystem.stat_eq_ok_iff.mpr ⟨place, hb⟩,
    hwell.at? hata, (m.wellFormed_result hwell).at? hatb, fun enter henter h h' => ?_⟩
  rcases m.at?_result (FileSystem.at?_of_locate hrest) hata hatb with rfl | ⟨ds, hds, hput⟩
  · exact List.Perm.refl _
  · have hchildren : b =
        (Node.putAt (.dir (Node.regrouped m.moves m.group m.children)) ds (.dir a)).children := by
      rw [← hput]
      rfl
    rw [hchildren] at h' ⊢
    exact Node.perm_filesBut_putAt m.moves (hwell.at? hata) hds m.isNew henter h h'

end Regrouping

end RouteAudit
