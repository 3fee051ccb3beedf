import RouteAudit.Collection
import RouteAudit.Proofs.Located
import RouteAudit.Proofs.Walk

/-!
# The routes that are collected

Which files below the routing root declare a route, and which one, is said here without the walk and
without the functions that read names (`RouteFile.IsIn`, `RouteFile.declaredPath`). The collector
finds exactly these files, in ascending order of their paths, and one entry for each
(`collect_eq_entries`).

Proof. The names of the directories are turned down while the walk goes on, but read again
for the declared path when a file is found; a name that the walk lets through is either left out of the
path or adds itself (`segment?_ofName`). So the declared path is the rooted path of the names that
are left (`toList_declaredPath`), and `split_rooted` gives them back.
-/

namespace RouteAudit

/-! ## Names of files -/

/-- What the name of a file of the kind begins with. -/
def LeafKind.stem : LeafKind → String
  | page => "page"
  | layout => "layout"

/-- The name is the stem of the kind, a dot, and a configured ending in letters of any case. -/
def LeafKind.Names (kind : LeafKind) (config : CollectorConfig) (name : String) : Prop :=
  ∃ ending : List Char, name.toList = kind.stem.toList ++ '.' :: ending ∧ '.' ∉ ending ∧
    ∃ allowed ∈ config.routeExtensions, ending.map Char.toLower = allowed.toList.map Char.toLower

theorem Path.nameParts_of_ending {name : String} {stem ending : List Char} (hstem : stem ≠ [])
    (hname : name.toList = stem ++ '.' :: ending) (hending : '.' ∉ ending) :
    nameParts name = (String.ofList stem, some (String.ofList ending)) := by
  rw [nameParts, hname, Text.splitLast?_append_sep hending]
  cases stem with
  | nil => exact absurd rfl hstem
  | cons c stem => rfl

theorem Path.exists_of_ending?_eq_some {name ending : String} (h : ending? name = some ending) :
    name.toList = (stem name).toList ++ '.' :: ending.toList ∧ '.' ∉ ending.toList := by
  rcases Text.notMem_or_exists_last '.' name.toList with hnone | ⟨a, b, hname, hb⟩
  · rw [ending?, nameParts, Text.splitLast?_of_notMem hnone] at h
    cases h
  · cases a with
    | nil =>
      rw [ending?, nameParts, hname, Text.splitLast?_append_sep hb] at h
      cases h
    | cons c a =>
      have hparts := nameParts_of_ending (List.cons_ne_nil c a) hname hb
      rw [ending?, hparts] at h
      obtain rfl := Option.some.inj h
      rw [stem, hparts, hname]
      simp [hb]

theorem Path.hasEnding_iff {allowed : List String} {name : String} :
    hasEnding allowed name = true ↔ ∃ ending, ending? name = some ending ∧
      ∃ a ∈ allowed, ending.toList.map Char.toLower = a.toList.map Char.toLower := by
  rw [hasEnding, Option.any_eq_true]
  simp only [List.any_eq_true, sameLetters, beq_iff_eq]

namespace Collection

variable {config : CollectorConfig}

theorem leafKind?_eq_some_iff {name : String} {kind : LeafKind} :
    leafKind? config name = some kind ↔ kind.Names config name := by
  have hstems : leafKind? config name = some kind ↔
      Path.hasEnding config.routeExtensions name = true ∧ Path.stem name = kind.stem := by
    unfold leafKind?
    cases kind <;> split_ifs <;> simp_all [LeafKind.stem]
  rw [hstems, Path.hasEnding_iff]
  constructor
  · rintro ⟨⟨ending, hending, hallowed⟩, hstem⟩
    obtain ⟨hname, hdot⟩ := Path.exists_of_ending?_eq_some hending
    exact ⟨ending.toList, hstem ▸ hname, hdot, hallowed⟩
  · rintro ⟨ending, hname, hdot, hallowed⟩
    have hne : kind.stem.toList ≠ [] := by cases kind <;> decide
    have hparts := Path.nameParts_of_ending hne hname hdot
    refine ⟨⟨String.ofList ending, by rw [Path.ending?, hparts], ?_⟩, ?_⟩
    · rwa [String.toList_ofList]
    · rw [Path.stem, hparts, String.ofList_toList]

end Collection

/-! ## Names of directories -/

namespace DirectoryKind

/-- Parentheses with something between them. -/
def IsGroup (name : String) : Prop :=
  ∃ inner, inner ≠ [] ∧ name.toList = '(' :: inner ++ [')']

theorem isGroupName_iff {name : String} : isGroupName name.toList = true ↔ IsGroup name := by
  constructor
  · intro h
    unfold isGroupName at h
    split at h
    · rename_i c r hname
      obtain ⟨hlast, hr⟩ := Bool.and_eq_true_iff.mp h
      obtain ⟨front, hfront⟩ := List.getLast?_eq_some_iff.mp (of_decide_eq_true hlast)
      refine ⟨front, ?_, by rw [hname, hfront]; rfl⟩
      rintro rfl
      cases hfront
      exact of_decide_eq_true hr rfl
    · cases h
  · rintro ⟨inner, hne, hname⟩
    obtain ⟨c, r, rfl⟩ := List.exists_cons_of_ne_nil hne
    have hlast : (c :: (r ++ [')'])).getLast? = some ')' := by
      rw [← List.cons_append, List.getLast?_concat]
    rw [hname]
    simp [isGroupName, hlast]

/-- The directory adds its name to the path. -/
def Adds (name : String) : Prop :=
  ¬ IsGroup name ∧ name ≠ notFoundName

instance : DecidablePred Adds := fun name =>
  decidable_of_iff (¬ isGroupName name.toList = true ∧ name ≠ notFoundName)
    (and_congr_left' (not_congr isGroupName_iff))

/-- A name that begins with an underscore, but for `_not-found`. -/
def IsPrivate (name : String) : Prop :=
  name.toList.head? = some '_' ∧ name ≠ notFoundName

theorem isTraversed_ofName_iff {name : String} : (ofName name).isTraversed = true ↔ ¬ IsPrivate name := by
  have hgroup : isGroupName name.toList = true → name.toList.head? ≠ some '_' := by
    intro h
    obtain ⟨inner, -, hname⟩ := isGroupName_iff.mp h
    rw [hname]
    simp
  unfold ofName isTraversed IsPrivate
  split_ifs <;> simp_all

/-- **A directory that is entered adds its name, or nothing.** -/
theorem segment?_ofName {name : String} (h : ¬ IsPrivate name) :
    (ofName name).segment? = if Adds name then some name else none := by
  have hadds : Adds name ↔ ¬ isGroupName name.toList = true ∧ name ≠ notFoundName :=
    and_congr_left' (not_congr isGroupName_iff.symm)
  unfold IsPrivate at h
  unfold ofName
  split_ifs <;> simp_all [segment?]

end DirectoryKind

namespace Collection

open DirectoryKind

variable {config : CollectorConfig}

/-- Routes are looked for in directories of the name. -/
structure IsRouteDir (config : CollectorConfig) (name : String) : Prop where
  notSkipped : name ∉ config.skipDirs
  notDot : name.toList.head? ≠ some '.'
  notPrivate : ¬ IsPrivate name

theorem enters_iff {name : String} (hname : Path.IsFileName name) :
    enters config name = true ↔ IsRouteDir config name := by
  have hdot : name ≠ "." := hname.2.1
  have hiff : enters config name = true ↔
      (name.toList.head? ≠ some '.' ∧ name ∉ config.skipDirs) ∧ ¬ IsPrivate name := by
    rw [← isTraversed_ofName_iff]
    simp [enters, isSkippedDir, hdot]
  rw [hiff]
  constructor
  · rintro ⟨⟨hdot, hskip⟩, hprivate⟩
    exact ⟨hskip, hdot, hprivate⟩
  · rintro ⟨hskip, hdot, hprivate⟩
    exact ⟨⟨hdot, hskip⟩, hprivate⟩

theorem toList_declaredPath {dirs : List String} (h : ∀ d ∈ dirs, ¬ IsPrivate d) :
    (declaredPath dirs).toList = Text.rooted ((dirs.filter (Adds ·)).map String.toList) := by
  have hsegments : (dirs.filterMap fun name => (ofName name).segment?) = dirs.filter (Adds ·) := by
    rw [← List.filterMap_eq_filter]
    refine List.filterMap_congr fun d hd => ?_
    rw [segment?_ofName (h d hd)]
    simp [Option.guard]
  rw [declaredPath, hsegments]
  cases hadds : dirs.filter (Adds ·) with
  | nil => rfl
  | cons s segments =>
    rw [Text.rooted_eq_flatMap (by simp)]
    simp [String.toList_join, List.flatMap_def, Function.comp_def, String.toList_append]

end Collection

/-! ## The declared routes of a tree -/

/-- A file that declares a route: the names of the directories between the root and it, its own name,
and what it declares. -/
structure RouteFile where
  dirs : List String
  name : String
  kind : LeafKind

namespace RouteFile

open DirectoryKind

/-- The file stands in the tree below directories in which routes are looked for. -/
structure IsIn (config : CollectorConfig) (top : Node) (r : RouteFile) : Prop where
  file : ∃ bytes, Node.at? (r.dirs ++ [r.name]) top = some (.file bytes)
  dirs : ∀ d ∈ r.dirs, Collection.IsRouteDir config d
  name : r.kind.Names config r.name

/-- The names of the directories that add themselves to the path. -/
def segments (r : RouteFile) : List String :=
  r.dirs.filter (Adds ·)

def declaredPath (r : RouteFile) : String :=
  String.ofList (Text.rooted (r.segments.map String.toList))

def path (root : String) (r : RouteFile) : String :=
  Path.below root (r.dirs ++ [r.name])

def entry (root : String) (r : RouteFile) : RouteEntry :=
  .ofPath r.declaredPath (r.path root) r.kind

/-- The declared path is `/`, or its pieces are nothing before the first slash and then the names. -/
structure ReadsBack (r : RouteFile) : Prop where
  root : r.segments = [] → r.declaredPath = "/"
  split : r.segments ≠ [] → Text.split '/' r.declaredPath.toList = [] :: r.segments.map String.toList
  notEmpty : "" ∉ r.segments
  starts : r.declaredPath.toList.head? = some '/'
  ends : r.declaredPath.toList.getLast? = some '/' → r.declaredPath = "/"

variable {config : CollectorConfig} {top : Node} {r : RouteFile}

theorem IsIn.readsBack (hwell : top.WellFormed) (h : r.IsIn config top) : r.ReadsBack := by
  obtain ⟨bytes, hat⟩ := h.file
  have hnames : ∀ name ∈ r.segments.map String.toList, Text.IsName name := by
    simp only [List.forall_mem_map, segments, List.mem_filter]
    intro d hd
    exact (Node.isFileName_of_at? hwell hat d (List.mem_append_left _ hd.1)).1
  constructor
  · intro hroot
    rw [declaredPath, hroot]
    rfl
  · intro hne
    rw [declaredPath, String.toList_ofList]
    exact Text.split_rooted (by simpa using hne) fun name hname => (hnames name hname).2
  · intro hempty
    exact (hnames _ (List.mem_map_of_mem hempty)).1 rfl
  · rw [declaredPath, String.toList_ofList]
    rfl
  · intro hlast
    rw [declaredPath, String.toList_ofList] at hlast
    by_cases hne : r.segments = []
    · rw [declaredPath, hne]
      rfl
    · refine absurd hlast (Text.getLast?_rooted (by simpa using hne) fun name hname => ?_)
      exact ⟨(hnames name hname).1, fun h => (hnames name hname).2 (List.mem_of_getLast? h)⟩

/-- What a file of a walk declares. -/
def ofFound? (config : CollectorConfig) (f : FoundFile) : Option RouteFile :=
  (Collection.leafKind? config f.name).map fun kind => ⟨f.dirs, f.name, kind⟩

theorem ofFound?_eq_some_iff {f : FoundFile} : ofFound? config f = some r ↔
    f.dirs = r.dirs ∧ f.name = r.name ∧ r.kind.Names config r.name := by
  rw [ofFound?, Option.map_eq_some_iff]
  constructor
  · rintro ⟨kind, hkind, rfl⟩
    exact ⟨rfl, rfl, Collection.leafKind?_eq_some_iff.mp hkind⟩
  · rintro ⟨hdirs, hname, hkind⟩
    refine ⟨r.kind, ?_, by rw [hdirs, hname]⟩
    rw [hname]
    exact Collection.leafKind?_eq_some_iff.mpr hkind

end RouteFile

namespace Collection

variable {config : CollectorConfig} {children : List (String × Node)} {root : String}

theorem isRouteDir_of_mem_walk (hwell : (Node.dir children).WellFormed) {f : FoundFile}
    (h : .file f ∈ walk root children (enters config)) : ∀ d ∈ f.dirs, IsRouteDir config d := by
  intro d hd
  have hname := Node.isFileName_of_mem_walk hwell h d (List.mem_append_left _ hd)
  have hentered := ((Node.mem_walk_iff hwell).mp h).2.2
  exact (enters_iff hname).mp (hentered.forall_enter d hd)

theorem path_eq (hwell : (Node.dir children).WellFormed) {f : FoundFile} {r : RouteFile}
    (h : .file f ∈ walk root children (enters config)) (hfound : RouteFile.ofFound? config f = some r) :
    r.path root = f.path := by
  obtain ⟨hdirs, hname, -⟩ := RouteFile.ofFound?_eq_some_iff.mp hfound
  rw [((Node.mem_walk_iff hwell).mp h).1, RouteFile.path, FoundFile.place, hdirs, hname]

/-- The entry of a file is that of the route file it is. -/
theorem entryOf?_eq (hwell : (Node.dir children).WellFormed) {f : FoundFile}
    (h : .file f ∈ walk root children (enters config)) :
    entryOf? config f = (RouteFile.ofFound? config f).map (RouteFile.entry root) := by
  have hpath := ((Node.mem_walk_iff hwell).mp h).1
  have hdirs := isRouteDir_of_mem_walk hwell h
  have hdeclared := toList_declaredPath fun d hd => (hdirs d hd).notPrivate
  rw [entryOf?, RouteFile.ofFound?, Option.map_map]
  refine congrArg (Option.map · _) (funext fun kind => ?_)
  change RouteEntry.ofPath _ _ _ = RouteEntry.ofPath _ _ _
  congr 1
  rw [← String.toList_inj, hdeclared, RouteFile.declaredPath, String.toList_ofList]
  rfl

/-- The files that a walk finds are those that stand in the tree. -/
theorem mem_ofFound?_iff (hwell : (Node.dir children).WellFormed)
    (hopen : Unhindered (walk root children (enters config))) {r : RouteFile} :
    (∃ f, .file f ∈ walk root children (enters config) ∧ RouteFile.ofFound? config f = some r) ↔
      r.IsIn config (.dir children) := by
  constructor
  · rintro ⟨f, hmem, hfound⟩
    obtain ⟨hdirs, hname, hkind⟩ := RouteFile.ofFound?_eq_some_iff.mp hfound
    refine ⟨⟨f.bytes, ?_⟩, ?_, hkind⟩
    · rw [← hdirs, ← hname]
      exact ((Node.mem_walk_iff hwell).mp hmem).2.1
    · rw [← hdirs]
      exact isRouteDir_of_mem_walk hwell hmem
  · rintro ⟨⟨bytes, hat⟩, hdirs, hkind⟩
    have hnames := Node.isFileName_of_at? hwell hat
    have hentered : Node.Entered (enters config) root r.dirs := by
      rw [Node.at?_append] at hat
      obtain ⟨found, hfound, hlast⟩ := Option.bind_eq_some_iff.mp hat
      obtain ⟨below, rfl⟩ := Node.exists_dir_of_at?_cons hlast
      have hopen' : Unhindered (Node.visitsBelow (enters config) root [] (Node.dir children).children) :=
        hopen
      refine Node.entered_of_unhindered hopen' hfound rfl fun d hd => ?_
      exact (enters_iff (hnames d (List.mem_append_left _ hd))).mpr (hdirs d hd)
    refine ⟨⟨r.path root, r.dirs, r.name, bytes⟩, ?_, ?_⟩
    · exact (Node.mem_walk_iff hwell).mpr ⟨rfl, hat, hentered⟩
    · exact RouteFile.ofFound?_eq_some_iff.mpr ⟨rfl, rfl, hkind⟩

/-- **The collector finds the declared routes.** Below a root that is a directory, and where no path is
too long, the table has one entry for every file that declares a route, in ascending order of their
paths. -/
theorem collect_eq_entries (fs : FileSystem) (config : CollectorConfig) (strict : Bool)
    {root : String} {children : List (String × Node)} (hwell : fs.top.WellFormed)
    (hroot : fs.stat root = .ok (.dir children))
    (hopen : Unhindered (walk root children (enters config))) :
    ∃ (c : Collection) (routes : List RouteFile), fs.collect config strict root = .ok c ∧
      c.table.entries = routes.map (RouteFile.entry root) ∧
      (∀ r, r ∈ routes ↔ r.IsIn config (.dir children)) ∧
      (routes.Pairwise fun r s => Path.less (r.path root) (s.path root) = true) ∧
      (routes.map (RouteFile.path root)).Nodup ∧ ∀ r ∈ routes, r.ReadsBack := by
  obtain ⟨place, hplace⟩ := FileSystem.stat_eq_ok_iff.mp hroot
  have hdir : (Node.dir children).WellFormed := hwell.at? (FileSystem.at?_of_locate hplace)
  let found := (walk root children (enters config)).filterMap Visit.file?
  have hroutes : ∀ r, r ∈ found.filterMap (RouteFile.ofFound? config) ↔ r.IsIn config (.dir children) := by
    intro r
    rw [← mem_ofFound?_iff hdir hopen, List.mem_filterMap]
    exact exists_congr fun f => and_congr_left' mem_files_iff
  have hsorted : (found.filterMap (RouteFile.ofFound? config)).Pairwise
      fun r s => Path.less (r.path root) (s.path root) = true := by
    rw [List.pairwise_filterMap]
    refine (Node.pairwise_files_walk hdir).imp_of_mem fun {f g} hf hg hless r hr s hs => ?_
    rwa [path_eq hdir (mem_files_iff.mp hf) hr, path_eq hdir (mem_files_iff.mp hg) hs]
  refine ⟨.ofVisits config (walk root children (enters config)),
    found.filterMap (RouteFile.ofFound? config), ?_, ?_, hroutes, hsorted, ?_, ?_⟩
  · rw [FileSystem.collect, FileSystem.openRoot_of_stat hroot]
  · rw [List.map_filterMap]
    exact List.filterMap_congr fun f hf => entryOf?_eq hdir (mem_files_iff.mp hf)
  · rw [List.Nodup, List.pairwise_map]
    refine hsorted.imp fun {r s} hless heq => ?_
    rw [heq, Path.less_irrefl] at hless
    cases hless
  · intro r hr
    exact ((hroutes r).mp hr).readsBack hdir

/-- A group adds nothing to the path, and the case of the ending does not matter. -/
theorem collect_eq_entries_about :
    let children : List (String × Node) :=
      [("(site)", .dir [("about", .dir [("page.TSX", .file .empty)])]),
        ("_lib", .dir [("page.tsx", .file .empty)]), ("layout.tsx", .file .empty)]
    let fs : FileSystem := ⟨.dir [("app", .dir children)], []⟩
    ∃ c, fs.collect {} false "app" = .ok c ∧
      (⟨"/about", "app/(site)/about/page.TSX", .page, false⟩ : RouteEntry) ∈ c.table.entries := by
  intro children fs
  have hwell : fs.top.WellFormed := by decide
  have hroot : fs.stat "app" = .ok (.dir children) := by rfl
  have hopen : Unhindered (walk "app" children (enters {})) := by decide
  let about : RouteFile := ⟨["(site)", "about"], "page.TSX", .page⟩
  have hin : about.IsIn {} (.dir children) := by
    refine ⟨⟨.empty, rfl⟩, fun d hd => (enters_iff ?_).mp ?_, leafKind?_eq_some_iff.mp (by decide)⟩
    · revert d
      decide
    · revert d
      decide
  obtain ⟨c, routes, hcollect, hentries, hmem, -⟩ :=
    collect_eq_entries fs {} false hwell hroot hopen
  refine ⟨c, hcollect, ?_⟩
  rw [hentries]
  exact List.mem_map.mpr ⟨about, (hmem about).mpr hin, by decide⟩

end Collection

end RouteAudit
