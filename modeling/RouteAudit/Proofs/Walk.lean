import RouteAudit.FileSystem.Walk
import RouteAudit.Proofs.FilePath

/-!
# What a walk comes to

A walk of a tree with ordered names comes to exactly the files whose directories it enters
(`mem_visitsBelow_iff`), each once and in the order of their places (`pairwise_files_visitsBelow`).
A directory is entered if its name is let through and its path can be opened (`Entered`); a walk that
meets no path that is too long opens every directory whose name is let through
(`entered_of_unhindered`).

The walk also depends on the tree place by place: to put another node at a place changes what the
walk finds there, and nothing before or after it (`visitsBelow_putAt_of_entered`).
-/

namespace RouteAudit

/-- The names on the way to the file, its own included. -/
def FoundFile.place (f : FoundFile) : List String :=
  f.dirs ++ [f.name]

/-- The walk opens every directory that it enters. -/
def Unhindered (visits : List Visit) : Prop :=
  ∀ path, Visit.fault path ∉ visits

theorem mem_files_iff {visits : List Visit} {f : FoundFile} :
    f ∈ visits.filterMap Visit.file? ↔ .file f ∈ visits := by
  rw [List.mem_filterMap]
  constructor
  · rintro ⟨v, hv, hfile⟩
    cases v with
    | file g =>
      obtain rfl := Option.some.inj hfile
      exact hv
    | fault path => cases hfile
  · intro h
    exact ⟨_, h, rfl⟩

instance : DecidablePred Unhindered := fun visits =>
  decidable_of_iff (visits.all (·.issue?.isNone) = true) <| by
    rw [List.all_eq_true]
    constructor
    · intro h path hmem
      cases h _ hmem
    · intro h v hv
      cases v with
      | file f => rfl
      | fault path => exact absurd hv (h path)

namespace Unhindered

theorem append_iff {a b : List Visit} : Unhindered (a ++ b) ↔ Unhindered a ∧ Unhindered b := by
  simp [Unhindered, forall_and]

theorem filterMap_issue? {visits : List Visit} (h : Unhindered visits) :
    visits.filterMap Visit.issue? = [] := by
  rw [List.filterMap_eq_nil_iff]
  intro v hv
  cases v with
  | file f => rfl
  | fault path => exact absurd hv (h path)

end Unhindered

namespace Node

variable {enter : String → Bool}

theorem visitsBelow_eq_flatMap (path : String) (dirs : List String)
    (children : List (String × Node)) :
    visitsBelow enter path dirs children =
      children.flatMap fun c => visits enter (Path.child path c.1) dirs c.1 c.2 := by
  induction children with
  | nil => rfl
  | cons c children ih => rw [visitsBelow, List.flatMap_cons, ih]

theorem visitsBelow_append (path : String) (dirs : List String) (a b : List (String × Node)) :
    visitsBelow enter path dirs (a ++ b) =
      visitsBelow enter path dirs a ++ visitsBelow enter path dirs b := by
  simp only [visitsBelow_eq_flatMap, List.flatMap_append]

theorem mem_visitsBelow {path : String} {dirs : List String} {children : List (String × Node)}
    {v : Visit} : v ∈ visitsBelow enter path dirs children ↔
      ∃ name node, (name, node) ∈ children ∧
        v ∈ visits enter (Path.child path name) dirs name node := by
  rw [visitsBelow_eq_flatMap, List.mem_flatMap, Prod.exists]

/-- The walk enters the directories one after the other: their names are let through, and their paths
can be opened. -/
def Entered (enter : String → Bool) : (path : String) → List String → Prop
  | _, [] => True
  | path, d :: dirs => enter d = true ∧ (Path.child path d).utf8ByteSize ≤ Path.maxBytes ∧
      Entered enter (Path.child path d) dirs

/-- A directory is opened if it is entered, and a fault if its path is too long. -/
theorem visits_dir (path : String) (dirs : List String) (name : String)
    (children : List (String × Node)) :
    visits enter path dirs name (dir children) =
      if enter name = true then
        if path.utf8ByteSize ≤ Path.maxBytes then visitsBelow enter path (dirs ++ [name]) children
        else [.fault path]
      else [] := by
  rw [visits]
  by_cases hname : enter name = true
  · by_cases hlong : path.utf8ByteSize ≤ Path.maxBytes
    · simp [hname, hlong, Nat.not_lt.mpr hlong]
    · simp [hname, hlong, Nat.lt_of_not_le hlong]
  · simp [hname]

theorem mem_visits_dir {path : String} {dirs : List String} {name : String}
    {children : List (String × Node)} {f : FoundFile} :
    .file f ∈ visits enter path dirs name (dir children) ↔ enter name = true ∧
      path.utf8ByteSize ≤ Path.maxBytes ∧ .file f ∈ visitsBelow enter path (dirs ++ [name]) children := by
  rw [visits_dir]
  split_ifs with hname hshort
  · simp [hname, hshort]
  · simp [hshort]
  · simp [hname]

/-! ## Membership -/

/-- **A walk comes to the files whose directories it enters.** -/
theorem mem_visitsBelow_iff {node : Node} (hwell : node.WellFormed) {path : String}
    {dirs : List String} {f : FoundFile} :
    .file f ∈ visitsBelow enter path dirs node.children ↔ ∃ more, f.dirs = dirs ++ more ∧
      f.path = Path.below path (more ++ [f.name]) ∧
      at? (more ++ [f.name]) node = some (.file f.bytes) ∧ Entered enter path more := by
  induction node using Node.induction generalizing path dirs with
  | file bytes =>
    constructor
    · intro h
      cases h
    · rintro ⟨more, -, -, hat, -⟩
      cases more <;> cases hat
  | link target =>
    constructor
    · intro h
      cases h
    · rintro ⟨more, -, -, hat, -⟩
      cases more <;> cases hat
  | dir children ih =>
    obtain ⟨hsorted, hbelow⟩ := wellFormed_dir_iff.mp hwell
    rw [Node.children, mem_visitsBelow]
    constructor
    · rintro ⟨name, node, hmem, hvisit⟩
      have hlookup := (lookup_eq_some_iff hsorted).mpr hmem
      cases node with
      | file bytes =>
        obtain rfl : f = ⟨Path.child path name, dirs, name, bytes⟩ := by simpa [visits] using hvisit
        exact ⟨[], by simp, rfl, by rw [List.nil_append, at?_cons_dir, hlookup]; rfl, trivial⟩
      | link target => cases hvisit
      | dir below =>
        obtain ⟨henter, hshort, hvisit⟩ := mem_visits_dir.mp hvisit
        obtain ⟨more, hdirs, hpath, hat, hentered⟩ := (ih _ hmem (hbelow _ hmem).2).mp hvisit
        refine ⟨name :: more, by simp [hdirs], hpath, ?_, henter, hshort, hentered⟩
        rw [List.cons_append, at?_cons_dir, hlookup, Option.bind_some, hat]
    · rintro ⟨more, hdirs, hpath, hat, hentered⟩
      cases more with
      | nil =>
        rw [List.nil_append, at?_cons_dir] at hat
        obtain ⟨node, hlookup, hnode⟩ := Option.bind_eq_some_iff.mp hat
        obtain rfl := Option.some.inj hnode
        refine ⟨f.name, _, mem_of_lookup hlookup, ?_⟩
        obtain ⟨fpath, fdirs, fname, fbytes⟩ := f
        simp only [List.append_nil, List.nil_append] at hdirs hpath
        rw [hdirs, hpath, visits, List.mem_singleton]
        rfl
      | cons name more =>
        rw [List.cons_append, at?_cons_dir] at hat
        obtain ⟨node, hlookup, hat⟩ := Option.bind_eq_some_iff.mp hat
        obtain ⟨henter, hshort, hentered⟩ := hentered
        have hmem := mem_of_lookup hlookup
        obtain ⟨below, rfl⟩ := exists_dir_of_at?_append hat
        refine ⟨name, _, hmem, mem_visits_dir.mpr ⟨henter, hshort, ?_⟩⟩
        exact (ih _ hmem (hbelow _ hmem).2).mpr ⟨more, by simp [hdirs], hpath, hat, hentered⟩

/-- A walk without faults opens every directory whose name is let through. -/
theorem entered_of_unhindered {node found : Node} {path : String} {dirs more : List String}
    (h : Unhindered (visitsBelow enter path dirs node.children))
    (hat : at? more node = some found) (hfound : found.isDir = true)
    (henter : ∀ d ∈ more, enter d = true) : Entered enter path more := by
  induction more generalizing node path dirs with
  | nil => trivial
  | cons d more ih =>
    rw [List.forall_mem_cons] at henter
    obtain ⟨child, hchild, hat⟩ := Option.bind_eq_some_iff.mp hat
    obtain ⟨below, rfl⟩ : ∃ below, child = dir below := by
      cases more with
      | nil =>
        obtain rfl := Option.some.inj hat
        cases child <;> simp_all [isDir]
      | cons m more => exact exists_dir_of_at?_cons hat
    have hvisits : Unhindered (visits enter (Path.child path d) dirs d (dir below)) :=
      fun p hp => h p (mem_visitsBelow.mpr ⟨d, _, mem_of_lookup hchild, hp⟩)
    rw [visits_dir, if_pos henter.1] at hvisits
    by_cases hshort : (Path.child path d).utf8ByteSize ≤ Path.maxBytes
    · rw [if_pos hshort] at hvisits
      change Unhindered (visitsBelow enter _ (dirs ++ [d]) (dir below).children) at hvisits
      exact ⟨henter.1, hshort, ih hvisits hat henter.2⟩
    · rw [if_neg hshort] at hvisits
      exact absurd List.mem_cons_self (hvisits _)

/-! ## Order -/

theorem Entered.forall_enter {path : String} {dirs : List String} (h : Entered enter path dirs) :
    ∀ d ∈ dirs, enter d = true := by
  induction dirs generalizing path with
  | nil => simp
  | cons d dirs ih =>
    rw [List.forall_mem_cons]
    exact ⟨h.1, ih h.2.2⟩

/-- What is found under a child has its place under the name of the child. -/
theorem place_of_mem_visits {node : Node} (hwell : node.WellFormed) {path name : String}
    {dirs : List String} {f : FoundFile} (h : .file f ∈ visits enter path dirs name node) :
    ∃ more, f.place = dirs ++ name :: more := by
  cases node with
  | file bytes =>
    obtain rfl : f = ⟨path, dirs, name, bytes⟩ := by simpa [visits] using h
    exact ⟨[], rfl⟩
  | link target => cases h
  | dir children =>
    obtain ⟨-, -, h⟩ := mem_visits_dir.mp h
    obtain ⟨more, hdirs, -⟩ := (mem_visitsBelow_iff hwell).mp h
    exact ⟨more ++ [f.name], by simp [FoundFile.place, hdirs]⟩

/-- **A walk comes to the files in the order of their places.** -/
theorem pairwise_files_visitsBelow {node : Node} (hwell : node.WellFormed) (path : String)
    (dirs : List String) :
    ((visitsBelow enter path dirs node.children).filterMap Visit.file?).Pairwise
      fun f g => Path.placeLess f.place g.place = true := by
  induction node using Node.induction generalizing path dirs with
  | file bytes => exact List.Pairwise.nil
  | link target => exact List.Pairwise.nil
  | dir children ih =>
    obtain ⟨hsorted, hbelow⟩ := wellFormed_dir_iff.mp hwell
    rw [Node.children, visitsBelow_eq_flatMap, List.filterMap_flatMap, List.pairwise_flatMap]
    constructor
    · rintro ⟨name, node⟩ hmem
      cases node with
      | file bytes => exact List.pairwise_singleton _ _
      | link target => exact List.Pairwise.nil
      | dir below =>
        rw [visits_dir]
        split_ifs
        · exact ih _ hmem (hbelow _ hmem).2 _ _
        · exact List.Pairwise.nil
        · exact List.Pairwise.nil
    · refine hsorted.imp_of_mem fun {a b} ha hb hlt f hf g hg => ?_
      have hplace : ∀ c ∈ children, ∀ f ∈ (visits enter (Path.child path c.1) dirs c.1 c.2).filterMap
          Visit.file?, ∃ more, f.place = dirs ++ c.1 :: more := by
        intro c hc f hf
        exact place_of_mem_visits (hbelow c hc).2 (mem_files_iff.mp hf)
      obtain ⟨more, hmore⟩ := hplace a ha f hf
      obtain ⟨more', hmore'⟩ := hplace b hb g hg
      rw [hmore, hmore', Path.placeLess_append, Path.placeLess_cons_of_lt hlt]

/-! ## Walks from a root -/

variable {children : List (String × Node)} {root : String}

theorem mem_walk_iff (hwell : (dir children).WellFormed) {f : FoundFile} :
    .file f ∈ walk root children enter ↔ f.path = Path.below root f.place ∧
      at? f.place (dir children) = some (.file f.bytes) ∧ Entered enter root f.dirs := by
  have hiff : .file f ∈ walk root children enter ↔ _ := mem_visitsBelow_iff hwell
  rw [hiff]
  constructor
  · rintro ⟨more, hdirs, hfile⟩
    obtain rfl : f.dirs = more := hdirs
    exact hfile
  · intro hfile
    exact ⟨f.dirs, rfl, hfile⟩

/-- Every name on the way to a file of a walk is the name of an entry of a directory. -/
theorem isFileName_of_mem_walk (hwell : (dir children).WellFormed) {f : FoundFile}
    (h : .file f ∈ walk root children enter) : ∀ name ∈ f.place, Path.IsFileName name :=
  isFileName_of_at? hwell ((mem_walk_iff hwell).mp h).2.1

/-- The files of a walk stand in ascending order of their paths. -/
theorem pairwise_files_walk (hwell : (dir children).WellFormed) :
    ((walk root children enter).filterMap Visit.file?).Pairwise
      fun f g => Path.less f.path g.path = true := by
  have hplaces : ((walk root children enter).filterMap Visit.file?).Pairwise _ :=
    pairwise_files_visitsBelow hwell root []
  refine hplaces.imp_of_mem fun {f g} hf hg hless => ?_
  have hmemf := mem_files_iff.mp hf
  have hmemg := mem_files_iff.mp hg
  rw [((mem_walk_iff hwell).mp hmemf).1, ((mem_walk_iff hwell).mp hmemg).1,
    Path.less_below_iff (isFileName_of_mem_walk hwell hmemf) (isFileName_of_mem_walk hwell hmemg)]
  exact hless

/-- A walk comes to no other file of the path. -/
theorem path_ne_of_walk_eq (hwell : (dir children).WellFormed) {f : FoundFile} {before after : List Visit}
    (hwalk : walk root children enter = before ++ .file f :: after) {g : FoundFile}
    (hg : .file g ∈ before ++ after) : g.path ≠ f.path := by
  have hsorted : ((walk root children enter).filterMap Visit.file?).Pairwise _ :=
    pairwise_files_walk hwell
  rw [hwalk, List.filterMap_append] at hsorted
  change (before.filterMap Visit.file? ++ f :: after.filterMap Visit.file?).Pairwise _ at hsorted
  obtain ⟨-, hafter, hbefore⟩ := List.pairwise_append.mp hsorted
  intro heq
  have hless : Path.less g.path f.path = true ∨ Path.less f.path g.path = true := by
    rcases List.mem_append.mp hg with hg | hg
    · exact Or.inl (hbefore g (mem_files_iff.mpr hg) f List.mem_cons_self)
    · exact Or.inr ((List.pairwise_cons.mp hafter).1 g (mem_files_iff.mpr hg))
  rw [heq, Path.less_irrefl, or_self] at hless
  cases hless

/-! ## Changing one place -/

variable {node : Node}

theorem visitsBelow_cons (path : String) (dirs : List String) (name : String) (node : Node)
    (children : List (String × Node)) :
    visitsBelow enter path dirs ((name, node) :: children) =
      visits enter (Path.child path name) dirs name node ++ visitsBelow enter path dirs children := by
  rw [visitsBelow]

/-- What the walk finds before a place and after it does not depend on what stands there. -/
theorem visitsBelow_putAt_of_entered (hwell : node.WellFormed) {ds : List String} {name : String}
    {old : Node} (hat : at? (ds ++ [name]) node = some old) (path : String) (dirs : List String)
    (hentered : Entered enter path ds) :
    ∃ before after, ∀ new, visitsBelow enter path dirs (putAt new (ds ++ [name]) node).children =
      before ++ visits enter (Path.below path (ds ++ [name])) (dirs ++ ds) name new ++ after := by
  induction ds generalizing node path dirs with
  | nil =>
    obtain ⟨children, child, rfl, hchild, -⟩ := exists_child_of_at?_cons hat
    obtain ⟨before, after, -, hput⟩ := putChild_eq (wellFormed_dir_iff.mp hwell).1 hchild
    refine ⟨visitsBelow enter path dirs before, visitsBelow enter path dirs after, fun new => ?_⟩
    change visitsBelow enter path dirs (putChild name new children) = _
    rw [hput, visitsBelow_append, visitsBelow_cons, List.append_nil, List.append_assoc]
    rfl
  | cons d ds ih =>
    obtain ⟨children, child, rfl, hchild, hrest⟩ := exists_child_of_at?_cons hat
    obtain ⟨hsorted, hbelow⟩ := wellFormed_dir_iff.mp hwell
    obtain ⟨before, after, -, hput⟩ := putChild_eq hsorted hchild
    obtain ⟨henter, hshort, hentered⟩ := hentered
    obtain ⟨before', after', hinside⟩ := ih (hbelow _ (mem_of_lookup hchild)).2 hrest
      (Path.child path d) (dirs ++ [d]) hentered
    have hvisits : ∀ new, visits enter (Path.child path d) dirs d (putAt new (ds ++ [name]) child) =
        visitsBelow enter (Path.child path d) (dirs ++ [d])
          (putAt new (ds ++ [name]) child).children := by
      intro new
      obtain ⟨below, hdir⟩ := exists_dir_of_putAt_append new ds name child
      rw [hdir, visits_dir, if_pos henter, if_pos hshort]
      rfl
    refine ⟨visitsBelow enter path dirs before ++ before', after' ++ visitsBelow enter path dirs after,
      fun new => ?_⟩
    rw [List.cons_append, putAt_cons_of_lookup hchild, Node.children, hput, visitsBelow_append,
      visitsBelow_cons, hvisits, hinside]
    simp [Path.below_cons]

/-- A place that the walk does not get to has no part in it. -/
theorem visitsBelow_putAt_of_not_entered (hwell : node.WellFormed) {ds : List String} {name : String}
    {old : Node} (hat : at? (ds ++ [name]) node = some old) (path : String) (dirs : List String)
    (hentered : ¬ Entered enter path ds) (new : Node) :
    visitsBelow enter path dirs (putAt new (ds ++ [name]) node).children =
      visitsBelow enter path dirs node.children := by
  induction ds generalizing node path dirs with
  | nil => exact absurd trivial hentered
  | cons d ds ih =>
    obtain ⟨children, child, rfl, hchild, hrest⟩ := exists_child_of_at?_cons hat
    obtain ⟨hsorted, hbelow⟩ := wellFormed_dir_iff.mp hwell
    obtain ⟨before, after, hchildren, hput⟩ := putChild_eq hsorted hchild
    have hvisits : visits enter (Path.child path d) dirs d (putAt new (ds ++ [name]) child) =
        visits enter (Path.child path d) dirs d child := by
      obtain ⟨below, rfl⟩ := exists_dir_of_at?_append hrest
      obtain ⟨below', hdir⟩ := exists_dir_of_putAt_append new ds name (dir below)
      rw [hdir, visits_dir, visits_dir]
      split_ifs with henter hshort
      · have hstep := ih (hbelow _ (mem_of_lookup hchild)).2 hrest (Path.child path d) (dirs ++ [d])
          fun h => hentered ⟨henter, hshort, h⟩
        rwa [hdir] at hstep
      · rfl
      · rfl
    rw [List.cons_append, putAt_cons_of_lookup hchild, Node.children, hput, Node.children, hchildren,
      visitsBelow_append, visitsBelow_append, visitsBelow_cons, visitsBelow_cons, hvisits]

end Node

end RouteAudit
