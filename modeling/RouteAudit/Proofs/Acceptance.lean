import RouteAudit.Proofs.Pattern
import RouteAudit.Proofs.Resolution

/-!
# How an entry accepts an address

The three steps of an entry, each said without its definition: the cleaned address is the declared
path, it is accepted by the compiled pattern, or the literal part of the address is that of the
declared path. An entry for a declared path accepts `/` only by being declared there
(`accepts?_slash_iff`).
-/

namespace RouteAudit

namespace RouteEntry

theorem matcher_eq_wildcard_iff {e : RouteEntry} {p : RoutePattern} :
    e.matcher = .wildcard p ↔
      e.hasParameters = true ∧ RoutePattern.ofDeclared e.declaredPath = .ok p := by
  unfold matcher
  split_ifs with h
  · cases RoutePattern.ofDeclared e.declaredPath <;> simp [h]
  · simp [h]

theorem hitsDirect_iff {e : RouteEntry} {address : List Char} :
    e.hitsDirect address = true ↔ Address.clean address = e.declaredPath.toList := by
  rw [hitsDirect, decide_eq_true_iff]

theorem hitsDynamic_iff {e : RouteEntry} {address : List Char} :
    e.hitsDynamic address = true ↔
      ∃ p, e.matcher = .wildcard p ∧ p.accepts (Address.clean address) = true := by
  unfold hitsDynamic
  cases e.matcher <;> simp

theorem hitsStructural_iff {e : RouteEntry} {address : List Char} :
    e.hitsStructural address = true ↔ ∃ p literal, e.matcher = .wildcard p ∧
      Address.literalPart? address = some literal ∧
      placeholderPrefix? e.declaredPath.toList = some literal := by
  unfold hitsStructural
  cases e.matcher with
  | wildcard p =>
    cases Address.literalPart? address <;> cases placeholderPrefix? e.declaredPath.toList <;>
      simp [eq_comm]
  | exact => simp
  | malformed error => simp

/-- An entry accepts an address by one of the three steps. -/
theorem isSome_accepts?_iff_hits {e : RouteEntry} {address : String} :
    (e.accepts? address).isSome = true ↔ e.hitsDirect address.toList = true ∨
      e.hitsDynamic address.toList = true ∨ e.hitsStructural address.toList = true := by
  rw [isSome_accepts?_iff]
  constructor
  · rintro ⟨k, hk⟩
    cases k with
    | direct => exact Or.inl hk
    | dynamic => exact Or.inr (Or.inl hk)
    | structuralPrefix => exact Or.inr (Or.inr hk)
  · rintro (h | h | h)
    · exact ⟨.direct, h⟩
    · exact ⟨.dynamic, h⟩
    · exact ⟨.structuralPrefix, h⟩

/-! ## The address of the root -/

theorem names_ne_nil_of_bracket {declared : String} (h : '[' ∈ declared.toList) :
    RoutePattern.names declared ≠ [] := by
  obtain ⟨name, hname, hbracket⟩ := Text.exists_mem_split h (by decide : '[' ≠ '/')
  exact List.ne_nil_of_mem (RoutePattern.mem_names.mpr ⟨hname, List.ne_nil_of_mem hbracket⟩)

theorem hitsDynamic_slash (path file : String) (kind : LeafKind) :
    (ofPath path file kind).hitsDynamic ['/'] = false := by
  rw [Bool.eq_false_iff, Ne, hitsDynamic_iff]
  rintro ⟨p, hmatcher, haccepts⟩
  obtain ⟨hparameters, hpattern⟩ := matcher_eq_wildcard_iff.mp hmatcher
  have hbracket : '[' ∈ path.toList := by simpa [ofPath] using hparameters
  exact names_ne_nil_of_bracket hbracket ((RoutePattern.accepts_slash_iff hpattern).mp haccepts)

theorem hitsStructural_slash (e : RouteEntry) : e.hitsStructural ['/'] = false := by
  rw [Bool.eq_false_iff, Ne, hitsStructural_iff]
  rintro ⟨p, literal, -, hliteral, -⟩
  cases hliteral

/-- The only entry for a declared path that accepts `/` is the one declared there. -/
theorem accepts?_slash_iff {path file : String} {kind : LeafKind} :
    ((ofPath path file kind).accepts? "/").isSome = true ↔ path = "/" := by
  have hslash : "/".toList = ['/'] := rfl
  have hclean : Address.clean ['/'] = "/".toList := by decide
  rw [isSome_accepts?_iff_hits, hslash, hitsDynamic_slash, hitsStructural_slash, hitsDirect_iff,
    hclean]
  simp only [Bool.false_eq_true, or_false]
  exact String.toList_inj.trans eq_comm

end RouteEntry

end RouteAudit
