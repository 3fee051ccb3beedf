import RouteAudit.Proofs.Located
import RouteAudit.Proofs.Walk

/-!
# Adding one node to a tree

A node is put into a directory under a new name, or a file takes the place of a file (`Addition`). All
that was in the tree is still there (`Addition.keeps`), so a root that was a directory is one, and a walk
from it comes to the same as before, but for what it comes to at the new node (`Addition.walk_cases`).

Proof. The root is above the directory, below it, or apart from it. Below it the changed child is not on
the way, since a directory is; and above it a walk depends on the tree place by place.
-/

namespace RouteAudit

namespace Node

theorem Keeps.putChild {children : List (String × Node)} {name : String} {node : Node}
    (h : children.lookup name = none ∨
      ∃ old new, children.lookup name = some (.file old) ∧ node = .file new) :
    (Node.dir children).Keeps (.dir (Node.putChild name node children)) := by
  intro place found hat
  cases place with
  | nil =>
    obtain rfl := Option.some.inj hat
    exact ⟨_, rfl, .dir _ _⟩
  | cons n place =>
    obtain ⟨child, hchild, hrest⟩ := Option.bind_eq_some_iff.mp hat
    by_cases heq : n = name
    · subst heq
      rcases h with hnone | ⟨old, new, hold, rfl⟩
      · rw [show children.lookup n = some child from hchild] at hnone
        cases hnone
      · obtain rfl : child = .file old := Option.some.inj (hchild.symm.trans hold)
        rw [at?_cons_dir, lookup_putChild_self, Option.bind_some]
        exact Keeps.file old new place found hrest
    · rw [at?_cons_dir, lookup_putChild_of_ne heq, show children.lookup n = some child from hchild]
      exact ⟨found, hrest, .refl found⟩

/-- The walk of a directory with one more child, or with another file in it. -/
theorem visitsBelow_putChild_cases {children : List (String × Node)} {name : String} {node : Node}
    (hsorted : children.Pairwise fun a b => a.1 < b.1)
    (h : children.lookup name = none ∨
      ∃ old new, children.lookup name = some (.file old) ∧ node = .file new)
    (enter : String → Bool) (path : String) (dirs : List String) :
    ∃ before after old, visitsBelow enter path dirs children = before ++ old ++ after ∧
      visitsBelow enter path dirs (putChild name node children) =
        before ++ visits enter (Path.child path name) dirs name node ++ after ∧
      (old = [] ∨ ∃ bytes new, old = visits enter (Path.child path name) dirs name (.file bytes) ∧
        node = .file new) := by
  rcases h with hnone | ⟨old, new, hold, rfl⟩
  · obtain ⟨before, after, rfl, hput⟩ := putChild_eq_of_new hnone
    refine ⟨visitsBelow enter path dirs before, visitsBelow enter path dirs after, [], ?_, ?_, Or.inl rfl⟩
    · rw [visitsBelow_append, List.append_nil]
    · rw [hput, visitsBelow_append, visitsBelow_cons, List.append_assoc]
  · obtain ⟨before, after, rfl, hput⟩ := putChild_eq hsorted hold
    refine ⟨visitsBelow enter path dirs before, visitsBelow enter path dirs after, _, ?_, ?_,
      Or.inr ⟨old, new, rfl, rfl⟩⟩
    · rw [visitsBelow_append, visitsBelow_cons, List.append_assoc]
    · rw [hput, visitsBelow_append, visitsBelow_cons, List.append_assoc]

end Node

/-- A node is to be put into a directory, under a new name or as a file in the place of a file. -/
structure Addition (fs : FileSystem) where
  place : List String
  children : List (String × Node)
  hasDir : fs.at? place = some (.dir children)
  name : String
  isFileName : Path.IsFileName name
  node : Node
  fits : children.lookup name = none ∨
    ∃ old new, children.lookup name = some (.file old) ∧ node = .file new

namespace Addition

variable {fs : FileSystem} (m : Addition fs)

/-- The file system with the node. -/
def result : FileSystem :=
  fs.put (m.place ++ [m.name]) m.node

/-- The children of the directory with the node among them. -/
def newChildren : List (String × Node) :=
  Node.putChild m.name m.node m.children

theorem result_eq : m.result = fs.put m.place (.dir m.newChildren) := by
  rw [result, FileSystem.put, Node.putAt_concat m.hasDir]
  rfl

/-- All that was in the tree is still there. -/
theorem keeps (hwell : fs.top.WellFormed) : fs.Keeps m.result := by
  have hput := FileSystem.Keeps.put (Node.Keeps.putChild m.fits) fs m.place
  rwa [FileSystem.put_at? hwell m.hasDir, ← newChildren, ← result_eq] at hput

theorem wellFormed_result (hwell : fs.top.WellFormed) (hnode : m.node.WellFormed) :
    m.result.top.WellFormed := by
  refine hwell.putAt (fun n hn => ?_) hnode
  rcases List.mem_append.mp hn with hn | hn
  · exact Node.isFileName_of_at? hwell m.hasDir n hn
  · rw [List.mem_singleton.mp hn]
    exact m.isFileName

/-- A directory has the old children, or the one with the new child is at it or below it. -/
theorem at?_result_dir {place : List String} {a b : List (String × Node)}
    (ha : fs.at? place = some (.dir a)) (hb : m.result.at? place = some (.dir b)) : b = a ∨
      ∃ ds, Node.at? ds (.dir a) = some (.dir m.children) ∧
        .dir b = Node.putAt (.dir m.newChildren) ds (.dir a) := by
  rw [result_eq] at hb
  by_cases habove : place <+: m.place
  · obtain ⟨ds, hds⟩ := habove
    refine Or.inr ⟨ds, ?_, ?_⟩
    · have hdir := m.hasDir
      rwa [← hds, FileSystem.at?_append ha] at hdir
    · have hput := Node.at?_putAt_above ha (.dir m.newChildren) ds
      rw [hds] at hput
      exact Option.some.inj (hb.symm.trans hput)
  · refine Or.inl ?_
    by_cases hbelow : m.place <+: place
    · obtain ⟨names, rfl⟩ := hbelow
      cases names with
      | nil => exact absurd (by simp) habove
      | cons n names =>
        have hb' := (Node.at?_putAt_append (.dir m.newChildren) m.place (n :: names) fs.top).symm.trans hb
        rw [FileSystem.at?_append m.hasDir] at ha
        -- the way to a directory does not go through the changed child
        have hne : n ≠ m.name := by
          rintro rfl
          rcases m.fits with hnone | ⟨old, new, hold, -⟩
          · rw [Node.at?_cons_dir, hnone] at ha
            cases ha
          · rw [Node.at?_cons_dir, hold] at ha
            cases names <;> cases ha
        rw [Node.at?_cons_dir, newChildren, Node.lookup_putChild_of_ne hne] at hb'
        exact (Node.dir.inj (Option.some.inj (ha.symm.trans hb'))).symm
    · have hsame := Node.at?_putAt_apart hbelow habove (.dir m.newChildren) fs.top
      exact Node.dir.inj (Option.some.inj (hb.symm.trans (hsame.trans ha)))

/-- **A walk after the addition** comes to the same, but for what it comes to at the new node and came to
at the file in its place. -/
theorem walk_cases (hwell : fs.top.WellFormed) {root : String} {a : List (String × Node)}
    (hroot : fs.stat root = .ok (.dir a)) :
    ∃ b, m.result.stat root = .ok (.dir b) ∧ ∀ enter, walk root b enter = walk root a enter ∨
      ∃ before after old path dirs, walk root a enter = before ++ old ++ after ∧
        walk root b enter = before ++ Node.visits enter path dirs m.name m.node ++ after ∧
        (old = [] ∨ ∃ bytes new, old = Node.visits enter path dirs m.name (.file bytes) ∧
          m.node = .file new) := by
  obtain ⟨place, hlocate⟩ := FileSystem.stat_eq_ok_iff.mp hroot
  obtain ⟨node, hlocate', hkind⟩ := (m.keeps hwell).locate_eq_ok hlocate
  obtain ⟨_, b⟩ := hkind
  refine ⟨b, FileSystem.stat_eq_ok_iff.mpr ⟨place, hlocate'⟩, fun enter => ?_⟩
  have hat := FileSystem.at?_of_locate hlocate
  have hdir : (Node.dir a).WellFormed := hwell.at? hat
  have hchildren := (Node.wellFormed_dir_iff.mp (hwell.at? m.hasDir)).1
  have hcases := Node.visitsBelow_putChild_cases hchildren m.fits enter
  rcases m.at?_result_dir hat (FileSystem.at?_of_locate hlocate') with rfl | ⟨ds, hds, hput⟩
  · exact Or.inl rfl
  have hb : b = (Node.putAt (.dir m.newChildren) ds (.dir a)).children := by
    rw [← hput]
    rfl
  have hsame := Node.putAt_at? hdir hds
  rcases List.eq_nil_or_concat' ds with rfl | ⟨above, name, rfl⟩
  · obtain rfl : a = m.children := Node.dir.inj (Option.some.inj hds)
    obtain ⟨before, after, old, hold, hnew, hcase⟩ := hcases root []
    rw [hb]
    exact Or.inr ⟨before, after, old, _, [], hold, hnew, hcase⟩
  · by_cases hentered : Node.Entered enter root above
    · obtain ⟨first, last, hvisits⟩ := Node.visitsBelow_putAt_of_entered hdir hds root [] hentered
      have hwalk := hvisits (.dir m.children)
      have hwalk' := hvisits (.dir m.newChildren)
      rw [hsame] at hwalk
      rw [← hb] at hwalk'
      rw [Node.visits_dir] at hwalk hwalk'
      split_ifs at hwalk hwalk' with henter hshort
      · obtain ⟨before, after, old, hold, hnew, hcase⟩ :=
          hcases (Path.below root (above ++ [name])) ([] ++ above ++ [name])
        refine Or.inr ⟨first ++ before, after ++ last, old, _, _, ?_, ?_, hcase⟩
        · rw [walk, show a = (Node.dir a).children from rfl, hwalk, hold]
          simp only [List.append_assoc]
        · rw [walk, hwalk', newChildren, hnew]
          simp only [List.append_assoc]
      · exact Or.inl (hwalk'.trans hwalk.symm)
      · exact Or.inl (hwalk'.trans hwalk.symm)
    · rw [hb]
      exact Or.inl (Node.visitsBelow_putAt_of_not_entered hdir hds root [] hentered _)

end Addition

end RouteAudit
