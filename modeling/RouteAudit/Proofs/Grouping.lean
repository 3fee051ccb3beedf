import RouteAudit.Proofs.Totals
import RouteAudit.Proofs.Without

/-!
# Grouping loses and repeats nothing

The groups of a list of references can be built one reference after the other: each joins the group of
its path, or founds it at the place of its path (`UsageGroup.join`). Both ways give the same groups
(`foldl_join`), and these split the references by their paths (`IsGrouping`).

Proof. One more reference changes the group of its path and no other (`gather_concat_self`,
`gather_concat_of_ne`), and its path is put in order among the paths of the groups as `join` puts the
reference among the groups (`join_map_gather`). What a group says of its path comes from `gather_eq`.
-/

namespace RouteAudit

/-- A path put in behind the others is put in order. -/
theorem Text.sortedDistinct_concat (xs : List String) (k : String) :
    sortedDistinct (xs ++ [k]) = insertKey k (sortedDistinct xs) := by
  refine (eq_sortedDistinct (pairwise_insertKey (pairwise_sortedDistinct xs)) fun a => ?_).symm
  rw [mem_insertKey, mem_sortedDistinct, List.mem_append, List.mem_singleton, or_comm]

namespace UsageGroup

/-! ## One reference after the other -/

/-- The group of a path before any reference joins it. -/
def founded (path : String) : UsageGroup :=
  { path, cleanPath := none, isDynamic := false, occurrences := [] }

/-- The group with one more reference. An interpolated one makes it an interpolated group, whose form
with `*` is that of the first of them. -/
def add (g : UsageGroup) (r : Reference) : UsageGroup :=
  { g with
    isDynamic := g.isDynamic || r.isDynamic
    cleanPath := if r.isDynamic then g.cleanPath.or r.wildcardPath else g.cleanPath
    occurrences := g.occurrences ++ [r] }

/-- The groups after a reference has joined the group of its path, or founded it in its place. -/
def join (r : Reference) : List UsageGroup → List UsageGroup
  | [] => [(founded r.path).add r]
  | g :: groups =>
    if r.path < g.path then (founded r.path).add r :: g :: groups
    else if r.path = g.path then g.add r :: groups
    else g :: join r groups

variable {references : List Reference} {r : Reference}

theorem gather_concat_of_ne {path : String} (h : r.path ≠ path) :
    gather (references ++ [r]) path = gather references path := by
  simp [gather, List.filter_append, h]

theorem gather_concat_self (references : List Reference) (r : Reference) :
    gather (references ++ [r]) r.path = (gather references r.path).add r := by
  cases hdynamic : r.isDynamic <;>
    simp [gather, add, List.filter_append, List.findSome?_append, hdynamic]

theorem gather_of_forall_ne {path : String} (h : ∀ q ∈ references, q.path ≠ path) :
    gather references path = founded path := by
  have hnone : references.filter (·.path = path) = [] := by simpa using h
  simp [gather, founded, hnone]

/-- Joining a group among those of ascending paths is putting its path in order among them. -/
theorem join_map_gather {keys : List String} (hkeys : keys.Pairwise (· < ·))
    (hall : ∀ q ∈ references, q.path = r.path → r.path ∈ keys) :
    join r (keys.map (gather references)) =
      (Text.insertKey r.path keys).map (gather (references ++ [r])) := by
  have hsame : ∀ ks : List String, r.path ∉ ks →
      ks.map (gather references) = ks.map (gather (references ++ [r])) := by
    intro ks hks
    refine List.map_congr_left fun k hk => (gather_concat_of_ne ?_).symm
    exact fun heq => hks (heq ▸ hk)
  induction keys with
  | nil =>
    have hnew : gather references r.path = founded r.path :=
      gather_of_forall_ne fun q hq heq => List.not_mem_nil (hall q hq heq)
    rw [List.map_nil, join, ← hnew, ← gather_concat_self]
    rfl
  | cons k keys ih =>
    obtain ⟨hfirst, hrest⟩ := List.pairwise_cons.mp hkeys
    have hpath : (gather references k).path = k := rfl
    rw [List.map_cons, join, Text.insertKey, hpath]
    by_cases hlt : r.path < k
    · -- the path is less than all of them, so it is that of no reference yet
      have hnotMem : r.path ∉ k :: keys := by
        intro hmem
        rcases List.mem_cons.mp hmem with heq | hmem
        · exact Std.lt_irrefl (heq ▸ hlt)
        · exact String.lt_asymm hlt (hfirst _ hmem)
      have hnew : gather references r.path = founded r.path :=
        gather_of_forall_ne fun q hq heq => hnotMem (hall q hq heq)
      rw [if_pos hlt, if_pos hlt, List.map_cons, gather_concat_self, hnew, ← hsame _ hnotMem,
        List.map_cons]
    · by_cases heq : r.path = k
      · have hnotMem : r.path ∉ keys := fun hmem => Std.lt_irrefl (heq ▸ hfirst _ hmem)
        rw [if_neg hlt, if_neg hlt, if_pos heq, if_pos heq, List.map_cons, ← heq, gather_concat_self,
          hsame _ hnotMem]
      · have hall' : ∀ q ∈ references, q.path = r.path → r.path ∈ keys := fun q hq hqr =>
          (List.mem_cons.mp (hall q hq hqr)).resolve_left heq
        rw [if_neg hlt, if_neg hlt, if_neg heq, if_neg heq, List.map_cons, ih hrest hall',
          gather_concat_of_ne heq]

/-- One more reference joins the groups. -/
theorem ofReferences_concat (references : List Reference) (r : Reference) :
    ofReferences (references ++ [r]) = join r (ofReferences references) := by
  have hall : ∀ q ∈ references, q.path = r.path →
      r.path ∈ Text.sortedDistinct (references.map (·.path)) := by
    intro q hq heq
    rw [Text.mem_sortedDistinct, ← heq]
    exact List.mem_map_of_mem hq
  rw [ofReferences, ofReferences, join_map_gather (Text.pairwise_sortedDistinct _) hall,
    List.map_append, List.map_singleton, Text.sortedDistinct_concat]

/-- **The groups are those that the references form one after the other.** -/
theorem foldl_join (references : List Reference) :
    references.foldl (fun groups r => join r groups) [] = ofReferences references := by
  induction references using List.reverseRecOn with
  | nil => rfl
  | append_singleton references r ih => rw [List.foldl_concat, ih, ofReferences_concat]

/-! ## What the groups are -/

/-- Every group is that of the path of one of its references. -/
theorem exists_of_mem_ofReferences (hreferences : ∀ r ∈ references, r.OfRaw) {g : UsageGroup}
    (hg : g ∈ ofReferences references) :
    ∃ r ∈ g.occurrences, g =
      { path := r.path
        cleanPath := if Address.hasInterpolation r.path.toList then
          some (String.ofList (Address.wildcard r.path.toList)) else none
        isDynamic := Address.hasInterpolation r.path.toList
        occurrences := references.filter (·.path = r.path) } := by
  obtain ⟨r, hr, hgather⟩ := mem_ofReferences_iff.mp hg
  have hpath : r.path = g.path := by rw [← hgather]; rfl
  refine ⟨r, (mem_occurrences_iff hg).mpr ⟨hr, hpath⟩, ?_⟩
  rw [← hgather, gather_eq hreferences hr]

/-- The groups split the references by their paths. -/
structure IsGrouping (references : List Reference) (groups : List UsageGroup) : Prop where
  /-- The paths of the groups are distinct and stand in ascending order. -/
  ascending : (groups.map (·.path)).Pairwise (· < ·)
  nonempty : ∀ g ∈ groups, g.occurrences ≠ []
  /-- A group has the references of its path, in their order. -/
  occurrences : ∀ g ∈ groups, g.occurrences = references.filter (·.path = g.path)
  /-- Every reference is in one group, once. -/
  perm : (groups.flatMap (·.occurrences)).Perm references
  total : (groups.map usageCount).sum = references.length
  isDynamic : ∀ g ∈ groups, g.isDynamic = true ↔ ['$', '{'] <:+: g.path.toList
  cleanPath : ∀ g ∈ groups, g.cleanPath =
    if g.isDynamic then some (String.ofList (Address.wildcard g.path.toList)) else none
  filesAscending : ∀ g ∈ groups, g.files.Pairwise (· < ·)
  files : ∀ g ∈ groups, ∀ file, file ∈ g.files ↔ ∃ r ∈ g.occurrences, r.file = file

/-- **Grouping loses and repeats nothing.** The references form their groups one after the other, and
these split them by their paths. -/
theorem isGrouping_ofReferences (hreferences : ∀ r ∈ references, r.OfRaw) :
    references.foldl (fun groups r => join r groups) [] = ofReferences references ∧
      IsGrouping references (ofReferences references) := by
  refine ⟨foldl_join references, ?_⟩
  constructor
  case ascending => exact pairwise_path_ofReferences references
  case nonempty =>
    intro g hg
    obtain ⟨r, hmem, -⟩ := exists_of_mem_ofReferences hreferences hg
    exact List.ne_nil_of_mem hmem
  case occurrences =>
    intro g hg
    obtain ⟨r, -, rfl⟩ := exists_of_mem_ofReferences hreferences hg
    rfl
  case perm => exact perm_flatMap_occurrences references
  case total => exact sum_usageCount references
  case isDynamic =>
    intro g hg
    obtain ⟨r, -, rfl⟩ := exists_of_mem_ofReferences hreferences hg
    exact Address.hasInterpolation_iff_isInfix
  case cleanPath =>
    intro g hg
    obtain ⟨r, -, rfl⟩ := exists_of_mem_ofReferences hreferences hg
    rfl
  case filesAscending => exact fun g _ => Text.pairwise_sortedDistinct _
  case files =>
    intro g _ file
    rw [UsageGroup.files, Text.mem_sortedDistinct, List.mem_map]

/-- A fragment does not part a reference from its group, and an interpolation in the query does not make
its group an interpolated one. -/
theorem isGrouping_ofReferences_term :
    let references : List Reference :=
      [("/u/${id}?tab=1", "y.tsx"), ("/b", "x.tsx"), ("/s?q=${term}", "a.tsx"), ("/b#top", "w.tsx"),
        ("/b", "x.tsx")].map fun (raw, file) => .ofRaw raw .link file 1 ""
    let groups := references.foldl (fun groups r => join r groups) []
    (∀ r ∈ references, r.OfRaw) ∧ IsGrouping references groups ∧
      groups.map (·.path) = ["/b", "/s", "/u/${id}"] ∧ groups.map usageCount = [3, 1, 1] ∧
      groups.map (·.cleanPath) = [none, none, some "/u/*"] ∧
      groups.map files = [["w.tsx", "x.tsx"], ["a.tsx"], ["y.tsx"]] := by
  intro references groups
  have hreferences : ∀ r ∈ references, r.OfRaw := by decide
  obtain ⟨hfold, hgrouping⟩ := isGrouping_ofReferences hreferences
  have hgroups : groups = ofReferences references := hfold
  refine ⟨hreferences, ?_, ?_, ?_, ?_, ?_⟩
  · rw [hgroups]
    exact hgrouping
  · decide
  · decide
  · decide
  · decide

end UsageGroup

end RouteAudit
