import RouteAudit.Verdict

/-!
# Groups of references

A reference is made from its address, so its path and whether it is interpolated follow from the
address. The references of a group share its path; the group is therefore interpolated exactly if its
path is, and its verdict is the one on the path of any of its references (`OfAddress.verdict_eq`).
-/

namespace RouteAudit

/-- Whether the reference is the one made from its address. -/
def Reference.OfRaw (r : Reference) : Prop :=
  r = .ofRaw r.raw r.kind r.file r.line r.context

instance (r : Reference) : Decidable r.OfRaw :=
  inferInstanceAs (Decidable (r = .ofRaw r.raw r.kind r.file r.line r.context))

theorem Reference.OfRaw.path_eq {r : Reference} (h : r.OfRaw) :
    r.path = String.ofList (Address.pathPart r.raw.toList) := by
  rw [h]
  rfl

theorem Reference.OfRaw.isDynamic_eq {r : Reference} (h : r.OfRaw) :
    r.isDynamic = Address.hasInterpolation r.path.toList := by
  rw [h, ofRaw, String.toList_ofList]

namespace UsageGroup

variable {references : List Reference} {g : UsageGroup} {r : Reference}

/-- The groups are those of the paths of the references. -/
theorem mem_ofReferences_iff :
    g ∈ ofReferences references ↔ ∃ r ∈ references, gather references r.path = g := by
  simp only [ofReferences, List.mem_map, Text.mem_sortedDistinct]
  constructor
  · rintro ⟨path, ⟨r, hr, rfl⟩, hgather⟩
    exact ⟨r, hr, hgather⟩
  · rintro ⟨r, hr, hgather⟩
    exact ⟨r.path, ⟨r, hr, rfl⟩, hgather⟩

/-- The references of a group are those with its path. -/
theorem mem_occurrences_iff (hg : g ∈ ofReferences references) :
    r ∈ g.occurrences ↔ r ∈ references ∧ r.path = g.path := by
  obtain ⟨q, -, rfl⟩ := mem_ofReferences_iff.mp hg
  rw [gather, List.mem_filter, decide_eq_true_iff]

/-- A group is interpolated exactly if its path is. -/
theorem isDynamic_eq (hreferences : ∀ r ∈ references, r.OfRaw) (hg : g ∈ ofReferences references) :
    g.isDynamic = Address.hasInterpolation g.path.toList := by
  obtain ⟨q, hq, hgather⟩ := mem_ofReferences_iff.mp hg
  have hpath : q.path = g.path := by rw [← hgather]; rfl
  have hany : g.isDynamic = g.occurrences.any (·.isDynamic) := by rw [← hgather]; rfl
  have hsame : ∀ r ∈ g.occurrences, r.isDynamic = Address.hasInterpolation g.path.toList := by
    intro r hr
    obtain ⟨hmem, hrpath⟩ := (mem_occurrences_iff hg).mp hr
    rw [(hreferences r hmem).isDynamic_eq, hrpath]
  have hmem : q ∈ g.occurrences := (mem_occurrences_iff hg).mpr ⟨hq, hpath⟩
  rw [hany, Bool.eq_iff_iff, List.any_eq_true]
  constructor
  · rintro ⟨r, hr, hdynamic⟩
    rw [← hsame r hr, hdynamic]
  · intro hdynamic
    exact ⟨q, hmem, by rw [hsame q hmem, hdynamic]⟩

/-- A group, among those of some references, that holds a reference with the given address. -/
def OfAddress (g : UsageGroup) (address : List Char) : Prop :=
  ∃ references : List Reference, (∀ r ∈ references, r.OfRaw) ∧ g ∈ ofReferences references ∧
    ∃ r ∈ g.occurrences, r.raw.toList = address

/-- The path of a group is the path part of the address of any of its references. -/
theorem OfAddress.path_eq {address : List Char} (h : g.OfAddress address) :
    g.path = String.ofList (Address.pathPart address) := by
  obtain ⟨references, hreferences, hg, r, hr, rfl⟩ := h
  obtain ⟨hmem, hpath⟩ := (mem_occurrences_iff hg).mp hr
  rw [← hpath, (hreferences r hmem).path_eq]

theorem OfAddress.isDynamic_eq {address : List Char} (h : g.OfAddress address) :
    g.isDynamic = Address.hasInterpolation (Address.pathPart address) := by
  have hpath := h.path_eq
  obtain ⟨references, hreferences, hg, -⟩ := h
  rw [UsageGroup.isDynamic_eq hreferences hg, hpath, String.toList_ofList]

/-- **The verdict on a group is the verdict on the path part of the address of any of its
references.** -/
theorem OfAddress.verdict_eq {address : List Char} (h : g.OfAddress address) (pages : RouteTable) :
    g.verdict pages = verdictOn (String.ofList (Address.pathPart address))
      (Address.hasInterpolation (Address.pathPart address)) pages := by
  rw [verdict, h.isDynamic_eq, h.path_eq]

end UsageGroup

end RouteAudit
