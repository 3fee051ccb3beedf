import Mathlib.Data.List.Basic
import RouteAudit.FileSystem.Basic
import RouteAudit.Proofs.Rooted

/-!
# Trees with ordered names

In a tree of files every directory keeps its names in ascending order, and no name is empty, holds a
slash or stands for a step (`WellFormed`). Then a name is found exactly where it stands
(`lookup_eq_some_iff`), and to put another node at a place changes one child of each directory on the
way (`putChild_eq`). What stands at a place of the changed tree is said by `at?_putAt_append`,
`at?_putAt_above` and `at?_putAt_apart`: at and below the place, above it, and anywhere else.
-/

namespace RouteAudit

/-- A name that an entry of a directory can have. -/
def Path.IsFileName (name : String) : Prop :=
  Text.IsName name.toList ∧ name ≠ "." ∧ name ≠ ".."

instance (name : String) : Decidable (Path.IsFileName name) :=
  inferInstanceAs (Decidable ((name.toList ≠ [] ∧ '/' ∉ name.toList) ∧ name ≠ "." ∧ name ≠ ".."))

namespace Node

theorem induction {P : Node → Prop} (file : ∀ bytes, P (.file bytes))
    (link : ∀ target, P (.link target))
    (dir : ∀ children : List (String × Node), (∀ c ∈ children, P c.2) → P (.dir children)) :
    ∀ node, P node
  | .file bytes => file bytes
  | .link target => link target
  | .dir children => dir children fun c hc =>
    have hsmaller : sizeOf c.2 < 1 + sizeOf children := by
      have hlt := List.sizeOf_lt_of_mem hc
      cases c
      simp only [Prod.mk.sizeOf_spec] at hlt ⊢
      omega
    induction file link dir c.2

/-- Every directory of the tree has its names in ascending order. -/
inductive WellFormed : Node → Prop
  | file (bytes : ByteArray) : WellFormed (.file bytes)
  | link (target : String) : WellFormed (.link target)
  | dir {children : List (String × Node)} (sorted : children.Pairwise fun a b => a.1 < b.1)
    (names : ∀ c ∈ children, Path.IsFileName c.1) (below : ∀ c ∈ children, WellFormed c.2) :
    WellFormed (.dir children)

theorem wellFormed_dir_iff {children : List (String × Node)} :
    (dir children).WellFormed ↔ (children.Pairwise fun a b => a.1 < b.1) ∧
      ∀ c ∈ children, Path.IsFileName c.1 ∧ c.2.WellFormed := by
  constructor
  · rintro ⟨⟩
    exact ⟨‹_›, fun c hc => ⟨‹∀ c ∈ children, Path.IsFileName c.1› c hc,
      ‹∀ c ∈ children, WellFormed c.2› c hc⟩⟩
  · rintro ⟨hsorted, hbelow⟩
    exact .dir hsorted (fun c hc => (hbelow c hc).1) fun c hc => (hbelow c hc).2

theorem wellFormed_emptyDir : (dir []).WellFormed :=
  wellFormed_dir_iff.mpr ⟨List.Pairwise.nil, fun _ h => nomatch h⟩

mutual

/-- Whether every directory of the tree has its names in ascending order. -/
def isWellFormed : Node → Bool
  | file _ | link _ => true
  | dir children => decide (children.Pairwise fun a b => a.1 < b.1) && areWellFormed children

def areWellFormed : List (String × Node) → Bool
  | [] => true
  | (name, node) :: rest => decide (Path.IsFileName name) && isWellFormed node && areWellFormed rest

end

theorem areWellFormed_iff {children : List (String × Node)} : areWellFormed children = true ↔
    ∀ c ∈ children, Path.IsFileName c.1 ∧ isWellFormed c.2 = true := by
  induction children with
  | nil => simp [areWellFormed]
  | cons c children ih => simp [areWellFormed, ih, and_assoc]

theorem isWellFormed_iff (node : Node) : isWellFormed node = true ↔ node.WellFormed := by
  induction node using Node.induction with
  | file bytes => simp [isWellFormed, WellFormed.file]
  | link target => simp [isWellFormed, WellFormed.link]
  | dir children ih =>
    rw [isWellFormed, Bool.and_eq_true, decide_eq_true_iff, areWellFormed_iff, wellFormed_dir_iff]
    exact and_congr_right' (forall₂_congr fun c hc => and_congr_right' (ih c hc))

instance : DecidablePred WellFormed := fun node =>
  decidable_of_iff (isWellFormed node = true) (isWellFormed_iff node)

/-! ## Children -/

variable {children : List (String × Node)} {name : String} {node : Node}

theorem lookup_cons_of_ne {n : String} (h : name ≠ n) (child : Node)
    (children : List (String × Node)) :
    ((n, child) :: children).lookup name = children.lookup name := by
  rw [List.lookup_cons, beq_eq_false_iff_ne.mpr h]

theorem mem_of_lookup (h : children.lookup name = some node) : (name, node) ∈ children := by
  obtain ⟨before, after, rfl, -⟩ := List.lookup_eq_some_iff.mp h
  simp

/-- Among ascending names, the child of a name is the one that stands there. -/
theorem lookup_eq_some_iff (hsorted : children.Pairwise fun a b => a.1 < b.1) :
    children.lookup name = some node ↔ (name, node) ∈ children := by
  refine ⟨mem_of_lookup, fun hmem => ?_⟩
  obtain ⟨before, after, rfl⟩ := List.append_of_mem hmem
  refine List.lookup_eq_some_iff.mpr ⟨before, after, rfl, fun p hp => ?_⟩
  have hlt := (List.pairwise_append.mp hsorted).2.2 p hp (name, node) List.mem_cons_self
  simpa using fun h : name = p.1 => String.lt_irrefl name (h ▸ hlt)

theorem lookup_putChild_self (name : String) (node : Node) (children : List (String × Node)) :
    (putChild name node children).lookup name = some node := by
  induction children with
  | nil => simp [putChild]
  | cons c children ih =>
    unfold putChild
    split_ifs with hlt heq
    · simp
    · simp
    · rw [lookup_cons_of_ne heq, ih]

theorem lookup_putChild_of_ne {other : String} (h : other ≠ name) (node : Node)
    (children : List (String × Node)) :
    (putChild name node children).lookup other = children.lookup other := by
  induction children with
  | nil => exact lookup_cons_of_ne h node []
  | cons c children ih =>
    unfold putChild
    split_ifs with hlt heq
    · rw [lookup_cons_of_ne h]
    · subst heq
      rw [lookup_cons_of_ne h, lookup_cons_of_ne h]
    · rw [List.lookup_cons, List.lookup_cons, ih]

/-- To put a node under a name that is there changes this child alone. -/
theorem putChild_eq (hsorted : children.Pairwise fun a b => a.1 < b.1)
    (h : children.lookup name = some node) :
    ∃ before after, children = before ++ (name, node) :: after ∧
      ∀ new, putChild name new children = before ++ (name, new) :: after := by
  induction children with
  | nil => cases h
  | cons c children ih =>
    obtain ⟨n, child⟩ := c
    rw [List.pairwise_cons] at hsorted
    by_cases heq : name = n
    · subst heq
      obtain rfl : child = node := by simpa using h
      refine ⟨[], children, rfl, fun new => ?_⟩
      rw [putChild, if_neg (String.lt_irrefl name), if_pos rfl]
      rfl
    · rw [lookup_cons_of_ne heq] at h
      obtain ⟨before, after, rfl, hput⟩ := ih hsorted.2 h
      have hlt : n < name := hsorted.1 (name, node) (by simp)
      refine ⟨(n, child) :: before, after, rfl, fun new => ?_⟩
      rw [putChild, if_neg (String.lt_asymm hlt), if_neg heq, hput]
      rfl

theorem lookup_eq_none_iff : children.lookup name = none ↔ ∀ c ∈ children, c.1 ≠ name := by
  rw [List.lookup_eq_none_iff]
  simp only [bne_iff_ne, ne_comm]

/-- To put a node under a new name adds it in one place. -/
theorem putChild_eq_of_new (h : children.lookup name = none) :
    ∃ before after, children = before ++ after ∧
      ∀ new, putChild name new children = before ++ (name, new) :: after := by
  induction children with
  | nil => exact ⟨[], [], rfl, fun _ => rfl⟩
  | cons c children ih =>
    rw [lookup_eq_none_iff, List.forall_mem_cons, ← lookup_eq_none_iff] at h
    obtain ⟨before, after, heq, hput⟩ := ih h.2
    by_cases hlt : name < c.1
    · exact ⟨[], c :: children, rfl, fun new => by rw [putChild, if_pos hlt]; rfl⟩
    · refine ⟨c :: before, after, by rw [heq]; rfl, fun new => ?_⟩
      rw [putChild, if_neg hlt, if_neg h.1.symm, hput]
      rfl

/-- To put a node under a new name adds this child alone. -/
theorem putChild_perm (h : ∀ c ∈ children, c.1 ≠ name) (new : Node) :
    (putChild name new children).Perm ((name, new) :: children) := by
  obtain ⟨before, after, heq, hput⟩ := putChild_eq_of_new (lookup_eq_none_iff.mpr h)
  rw [hput, heq]
  exact List.perm_middle

theorem lookup_filter_eq_some {p : String × Node → Bool} (hp : ∀ a b, p (name, a) = p (name, b))
    (h : (children.filter p).lookup name = some node) : children.lookup name = some node := by
  induction children with
  | nil => cases h
  | cons c children ih =>
    obtain ⟨n, child⟩ := c
    by_cases heq : name = n
    · subst heq
      have hpn : p (name, child) = true := by
        rw [hp child node]
        exact (List.mem_filter.mp (mem_of_lookup h)).2
      rw [List.filter_cons_of_pos hpn] at h
      simpa using h
    · rw [lookup_cons_of_ne heq]
      refine ih ?_
      rw [List.filter_cons] at h
      split_ifs at h
      · rwa [lookup_cons_of_ne heq] at h
      · exact h

/-! ## Places -/

theorem at?_append (p q : List String) (node : Node) :
    at? (p ++ q) node = (at? p node).bind (at? q) := by
  induction p generalizing node with
  | nil => simp [at?]
  | cons name p ih =>
    rw [List.cons_append, at?, at?, Option.bind_assoc]
    exact congrArg _ (funext ih)

theorem at?_cons_dir (name : String) (names : List String) (children : List (String × Node)) :
    at? (name :: names) (dir children) = (children.lookup name).bind (at? names) := rfl

/-- Only directories hold something. -/
theorem exists_dir_of_at?_cons {names : List String} {found : Node}
    (h : at? (name :: names) node = some found) : ∃ children, node = dir children := by
  cases node with
  | dir children => exact ⟨children, rfl⟩
  | file bytes => cases h
  | link target => cases h

/-- What stands below a directory stands in a child of it. -/
theorem exists_child_of_at?_cons {names : List String} {found : Node}
    (h : at? (name :: names) node = some found) : ∃ children child, node = dir children ∧
      children.lookup name = some child ∧ at? names child = some found := by
  obtain ⟨children, rfl⟩ := exists_dir_of_at?_cons h
  obtain ⟨child, hchild, hrest⟩ := Option.bind_eq_some_iff.mp h
  exact ⟨children, child, rfl, hchild, hrest⟩

theorem exists_dir_of_at?_append {place : List String} {found : Node}
    (h : at? (place ++ [name]) node = some found) : ∃ children, node = dir children := by
  cases place with
  | nil => exact exists_dir_of_at?_cons h
  | cons n place => exact exists_dir_of_at?_cons h

theorem WellFormed.at? {place : List String} {found : Node} (h : node.WellFormed)
    (hat : Node.at? place node = some found) : found.WellFormed := by
  induction place generalizing node with
  | nil =>
    obtain rfl := Option.some.inj hat
    exact h
  | cons name place ih =>
    obtain ⟨children, child, rfl, hchild, hrest⟩ := exists_child_of_at?_cons hat
    exact ih ((wellFormed_dir_iff.mp h).2 _ (mem_of_lookup hchild)).2 hrest

theorem isFileName_of_at? {place : List String} {found : Node} (h : node.WellFormed)
    (hat : Node.at? place node = some found) : ∀ name ∈ place, Path.IsFileName name := by
  induction place generalizing node with
  | nil => simp
  | cons name place ih =>
    obtain ⟨children, child, rfl, hchild, hrest⟩ := exists_child_of_at?_cons hat
    obtain ⟨hname, hwell⟩ := (wellFormed_dir_iff.mp h).2 _ (mem_of_lookup hchild)
    rw [List.forall_mem_cons]
    exact ⟨hname, ih hwell hrest⟩

/-! ## Putting a node at a place -/

theorem putAt_cons_of_lookup {child : Node} (h : children.lookup name = some child) (new : Node)
    (names : List String) :
    putAt new (name :: names) (dir children) = dir (putChild name (putAt new names child) children) := by
  change dir (putChild name (putAt new names ((children.lookup name).getD (dir []))) children) = _
  rw [h, Option.getD_some]

/-- To put a node into a directory changes the children of the directory. -/
theorem putAt_concat {place : List String} (h : at? place node = some (dir children)) (new : Node)
    (name : String) :
    putAt new (place ++ [name]) node = putAt (dir (putChild name new children)) place node := by
  induction place generalizing node with
  | nil =>
    obtain rfl := Option.some.inj h
    rfl
  | cons n place ih =>
    obtain ⟨below, child, rfl, hchild, hrest⟩ := exists_child_of_at?_cons h
    rw [List.cons_append, putAt_cons_of_lookup hchild, putAt_cons_of_lookup hchild, ih hrest]

theorem exists_dir_of_putAt_append (new : Node) (place : List String) (name : String) (node : Node) :
    ∃ children, putAt new (place ++ [name]) node = dir children := by
  cases place <;> exact ⟨_, rfl⟩

theorem at?_putAt_append (new : Node) (place rest : List String) (node : Node) :
    at? (place ++ rest) (putAt new place node) = at? rest new := by
  induction place generalizing node with
  | nil => rfl
  | cons name place ih =>
    rw [List.cons_append, putAt, at?_cons_dir, lookup_putChild_self, Option.bind_some, ih]

theorem at?_putAt_above {place : List String} {found : Node} (h : at? place node = some found)
    (new : Node) (rest : List String) :
    at? place (putAt new (place ++ rest) node) = some (putAt new rest found) := by
  induction place generalizing node with
  | nil =>
    obtain rfl := Option.some.inj h
    rfl
  | cons name place ih =>
    obtain ⟨child, hchild, hrest⟩ := Option.bind_eq_some_iff.mp h
    rw [List.cons_append, putAt, at?_cons_dir, lookup_putChild_self, Option.bind_some, hchild,
      Option.getD_some, ih hrest]

/-- Places that are neither above nor below the changed one keep what stands there. -/
theorem at?_putAt_apart {place other : List String} (hbelow : ¬ place <+: other)
    (habove : ¬ other <+: place) (new node : Node) :
    at? other (putAt new place node) = at? other node := by
  induction place generalizing other node with
  | nil => exact absurd List.nil_prefix hbelow
  | cons name place ih =>
    cases other with
    | nil => exact absurd List.nil_prefix habove
    | cons m other =>
      rw [putAt, at?_cons_dir, at?]
      by_cases heq : m = name
      · subst heq
        rw [List.cons_prefix_cons] at hbelow habove
        have hchild : ∀ child, at? other (putAt new place child) = at? other child :=
          ih (fun h => hbelow ⟨rfl, h⟩) fun h => habove ⟨rfl, h⟩
        rw [lookup_putChild_self, Option.bind_some, hchild]
        cases node.children.lookup m with
        | some child => rfl
        | none =>
          -- nothing is found in the empty directory that takes the place of a missing one
          cases other with
          | nil => exact absurd List.nil_prefix fun h => habove ⟨rfl, h⟩
          | cons k other => rfl
      · rw [lookup_putChild_of_ne heq]

theorem mem_putChild {c : String × Node} (h : c ∈ putChild name node children) :
    c = (name, node) ∨ c ∈ children := by
  induction children with
  | nil => exact Or.inl (List.mem_singleton.mp h)
  | cons d children ih =>
    unfold putChild at h
    split_ifs at h with hlt heq
    · exact List.mem_cons.mp h
    · exact (List.mem_cons.mp h).imp_right (List.mem_cons_of_mem _)
    · rcases List.mem_cons.mp h with rfl | h
      · exact Or.inr List.mem_cons_self
      · exact (ih h).imp_right (List.mem_cons_of_mem _)

theorem pairwise_putChild (hsorted : children.Pairwise fun a b => a.1 < b.1) (new : Node) :
    (putChild name new children).Pairwise fun a b => a.1 < b.1 := by
  induction children with
  | nil => exact List.pairwise_singleton _ _
  | cons c children ih =>
    obtain ⟨hfirst, hrest⟩ := List.pairwise_cons.mp hsorted
    unfold putChild
    split_ifs with hlt heq
    · refine List.pairwise_cons.mpr ⟨fun d hd => ?_, hsorted⟩
      rcases List.mem_cons.mp hd with rfl | hd
      · exact hlt
      · exact String.lt_trans hlt (hfirst d hd)
    · subst heq
      exact List.pairwise_cons.mpr ⟨hfirst, hrest⟩
    · refine List.pairwise_cons.mpr ⟨fun d hd => ?_, ih hrest⟩
      rcases mem_putChild hd with rfl | hd
      · exact Std.lt_of_le_of_ne (String.not_lt.mp hlt) fun h => heq h.symm
      · exact hfirst d hd

theorem WellFormed.putChild (h : (Node.dir children).WellFormed) (hname : Path.IsFileName name)
    {new : Node} (hnew : new.WellFormed) : (Node.dir (Node.putChild name new children)).WellFormed := by
  obtain ⟨hsorted, hbelow⟩ := wellFormed_dir_iff.mp h
  refine wellFormed_dir_iff.mpr ⟨pairwise_putChild hsorted new, fun c hc => ?_⟩
  rcases mem_putChild hc with rfl | hc
  · exact ⟨hname, hnew⟩
  · exact hbelow c hc

theorem WellFormed.filter (h : (Node.dir children).WellFormed) (p : String × Node → Bool) :
    (Node.dir (children.filter p)).WellFormed := by
  obtain ⟨hsorted, hbelow⟩ := wellFormed_dir_iff.mp h
  exact wellFormed_dir_iff.mpr ⟨hsorted.filter _, fun c hc => hbelow c (List.mem_of_mem_filter hc)⟩

theorem WellFormed.putAt {new : Node} {place : List String} (h : node.WellFormed)
    (hplace : ∀ name ∈ place, Path.IsFileName name) (hnew : new.WellFormed) :
    (Node.putAt new place node).WellFormed := by
  induction place generalizing node with
  | nil => exact hnew
  | cons name place ih =>
    rw [List.forall_mem_cons] at hplace
    have hdir : (Node.dir node.children).WellFormed := by
      cases node with
      | dir children => exact h
      | file bytes => exact wellFormed_emptyDir
      | link target => exact wellFormed_emptyDir
    refine hdir.putChild hplace.1 (ih ?_ hplace.2)
    cases hchild : node.children.lookup name with
    | none => exact wellFormed_emptyDir
    | some child => exact ((wellFormed_dir_iff.mp hdir).2 _ (mem_of_lookup hchild)).2

/-- To put back what stands at a place changes nothing. -/
theorem putAt_at? {place : List String} {found : Node} (h : node.WellFormed)
    (hat : at? place node = some found) : putAt found place node = node := by
  induction place generalizing node with
  | nil => exact (Option.some.inj hat).symm
  | cons name place ih =>
    obtain ⟨children, child, rfl, hchild, hrest⟩ := exists_child_of_at?_cons hat
    obtain ⟨hsorted, hbelow⟩ := wellFormed_dir_iff.mp h
    obtain ⟨before, after, heq, hput⟩ := putChild_eq hsorted hchild
    have hsame := ih (hbelow _ (mem_of_lookup hchild)).2 hrest
    rw [putAt_cons_of_lookup hchild, hsame, hput, ← heq]

end Node

namespace FileSystem

variable {fs : FileSystem} {place : List String} {node : Node}

theorem at?_append (h : fs.at? place = some node) (rest : List String) :
    fs.at? (place ++ rest) = Node.at? rest node := by
  rw [at?, Node.at?_append, show Node.at? place fs.top = some node from h, Option.bind_some]

theorem put_at? (hwell : fs.top.WellFormed) (hat : fs.at? place = some node) :
    fs.put place node = fs := by
  rw [put, Node.putAt_at? hwell hat]

end FileSystem

end RouteAudit
