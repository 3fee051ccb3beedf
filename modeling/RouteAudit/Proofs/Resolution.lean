import Mathlib.Data.Prod.Lex
import Mathlib.Order.Bounds.Basic
import RouteAudit.Route.Table

/-!
# Resolution is the least acceptance

A table resolves an address by trying the steps one after the other, each on all entries
(`RouteTable.find?`); an entry accepts an address by the first step that fits it
(`RouteTable.accepts?`). The two search in opposite orders and meet in one place: the entry that an
address resolves to is the least acceptance of the address, by step and then by place in the table
(`isLeast_of_find?_eq_some`, `find?_eq_none_iff`).

Proof. A step that comes first in one search comes first in the other: no entry at all fits an
earlier step than the one that `find?` stops at, so the entry found there accepts by that same step.
-/

namespace RouteAudit

/-! ## The order of the steps -/

namespace MatchKind

/-- The place of the step among the steps that are tried. -/
def rank : MatchKind → Nat
  | direct => 0
  | dynamic => 1
  | structuralPrefix => 2

theorem rank_injective : Function.Injective rank := by
  intro a b h
  cases a <;> cases b <;> simp_all [rank]

/-- Steps that are tried earlier are smaller. -/
instance : LinearOrder MatchKind := LinearOrder.lift' rank rank_injective

theorem lt_iff {a b : MatchKind} : a < b ↔ a.rank < b.rank := Iff.rfl

/-- The first result over the steps is the one at the least step that gives a result. -/
theorem findSome?_precedence_eq_some_iff {β : Type} {f : MatchKind → Option β} {b : β} :
    precedence.findSome? f = some b ↔ ∃ k, f k = some b ∧ ∀ k' < k, f k' = none := by
  constructor
  · intro h
    cases hdirect : f direct with
    | some c =>
      refine ⟨direct, by simpa [precedence, hdirect] using h, fun k' hk' => ?_⟩
      cases k' <;> simp [lt_iff, rank] at hk'
    | none =>
      cases hdynamic : f dynamic with
      | some c =>
        refine ⟨dynamic, by simpa [precedence, hdirect, hdynamic] using h, fun k' hk' => ?_⟩
        cases k' <;> simp_all [lt_iff, rank]
      | none =>
        refine ⟨structuralPrefix, by simpa [precedence, hdirect, hdynamic] using h, fun k' hk' => ?_⟩
        cases k' <;> simp_all [lt_iff, rank]
  · rintro ⟨k, hk, hbefore⟩
    cases k with
    | direct => simp [precedence, hk]
    | dynamic => simp [precedence, hk, hbefore direct (by decide)]
    | structuralPrefix =>
      simp [precedence, hk, hbefore direct (by decide), hbefore dynamic (by decide)]

theorem findSome?_precedence_eq_none_iff {β : Type} {f : MatchKind → Option β} :
    precedence.findSome? f = none ↔ ∀ k, f k = none := by
  constructor
  · intro h k
    simp only [precedence, List.findSome?_eq_none_iff] at h
    cases k <;> simp_all
  · intro h
    simp [precedence, h]

theorem mem_precedence (k : MatchKind) : k ∈ precedence := by
  cases k <;> simp [precedence]

end MatchKind

/-! ## What one entry accepts -/

namespace RouteEntry

theorem accepts?_eq_none_iff {e : RouteEntry} {address : String} :
    e.accepts? address = none ↔ ∀ k, e.hits k address = false := by
  simp only [accepts?, List.find?_eq_none, Bool.not_eq_true]
  exact ⟨fun h k => h k k.mem_precedence, fun h k _ => h k⟩

/-- An entry accepts by the least step that fits. -/
theorem accepts?_eq_some_iff {e : RouteEntry} {address : String} {k : MatchKind} :
    e.accepts? address = some k ↔ e.hits k address = true ∧ ∀ k' < k, e.hits k' address = false := by
  have hguard : e.accepts? address = MatchKind.precedence.findSome?
      (Option.guard fun k => e.hits k address) := by
    rw [accepts?, List.findSome?_guard]
  rw [hguard, MatchKind.findSome?_precedence_eq_some_iff]
  constructor
  · rintro ⟨k₀, hk₀, hbefore⟩
    obtain ⟨rfl, hhit⟩ := Option.guard_eq_some_iff.mp hk₀
    exact ⟨hhit, fun k' hk' => by simpa using hbefore k' hk'⟩
  · rintro ⟨hhit, hbefore⟩
    exact ⟨k, Option.guard_eq_some_iff.mpr ⟨rfl, hhit⟩, fun k' hk' => by simpa using hbefore k' hk'⟩

theorem isSome_accepts?_iff {e : RouteEntry} {address : String} :
    (e.accepts? address).isSome = true ↔ ∃ k, e.hits k address = true := by
  rw [← Option.ne_none_iff_isSome, Ne, accepts?_eq_none_iff]
  simp

end RouteEntry

namespace RouteTable

theorem accepts?_eq_some {t : RouteTable} {i : Nat} {address : String} {k : MatchKind} :
    t.accepts? i address = some k ↔ ∃ e, t.get? i = some e ∧ e.accepts? address = some k := by
  rw [accepts?, Option.bind_eq_some_iff]

/-- No place accepts exactly if no entry fits any step. -/
theorem forall_accepts?_eq_none {t : RouteTable} {address : String} :
    (∀ i, t.accepts? i address = none) ↔ ∀ e ∈ t.entries, e.accepts? address = none := by
  constructor
  · intro h e he
    obtain ⟨i, hi⟩ := List.mem_iff_getElem?.mp he
    have hplace := h i
    rwa [accepts?, get?, hi, Option.bind_some] at hplace
  · intro h i
    rw [accepts?, Option.bind_eq_none_iff]
    intro e he
    exact h e (List.mem_of_getElem? he)

/-! ## The first entry for a step -/

theorem findBy?_eq_none_iff {t : RouteTable} {k : MatchKind} {address : String} :
    t.findBy? k address = none ↔ ∀ e ∈ t.entries, e.hits k address = false := by
  simp only [findBy?, Option.map_eq_none_iff, List.find?_eq_none, Prod.forall, Bool.not_eq_true]
  constructor
  · intro h e he
    obtain ⟨i, hi⟩ := List.mem_iff_getElem?.mp he
    exact h e i (List.mem_zipIdx_iff_getElem?.mpr hi)
  · intro h e i hi
    exact h e (List.mem_of_getElem? (List.mem_zipIdx_iff_getElem?.mp hi))

/-- A step finds the first place whose entry fits it. -/
theorem of_findBy?_eq_some {t : RouteTable} {k : MatchKind} {address : String} {m : RouteMatch}
    (h : t.findBy? k address = some m) :
    m.kind = k ∧ t.get? m.index = some m.entry ∧ m.entry.hits k address = true ∧
      ∀ j e, t.get? j = some e → e.hits k address = true → m.index ≤ j := by
  obtain ⟨⟨e, i⟩, hfind, rfl⟩ := Option.map_eq_some_iff.mp h
  obtain ⟨hhit, n, hn, hat, hbefore⟩ := List.find?_eq_some_iff_getElem.mp hfind
  rw [List.getElem_zipIdx] at hat
  obtain ⟨rfl, hi⟩ := Prod.mk.inj hat
  obtain rfl : n = i := by omega
  rw [List.length_zipIdx] at hn
  refine ⟨rfl, List.getElem?_eq_getElem hn, hhit, fun j e he hj => ?_⟩
  by_contra hlt
  have hmiss := hbefore j (by simpa using hlt)
  obtain ⟨hlen, rfl⟩ := List.getElem?_eq_some_iff.mp he
  rw [List.getElem_zipIdx] at hmiss
  simp [hj] at hmiss

/-! ## The two searches meet -/

/-- The steps and places by which an address is accepted, the step before the place. -/
def acceptances (t : RouteTable) (address : String) : Set (MatchKind ×ₗ Nat) :=
  {p | t.accepts? (ofLex p).2 address = some (ofLex p).1}

theorem mem_acceptances {t : RouteTable} {address : String} {k : MatchKind} {i : Nat} :
    toLex (k, i) ∈ t.acceptances address ↔ t.accepts? i address = some k := Iff.rfl

theorem find?_eq_none_iff {t : RouteTable} {address : String} :
    t.find? address = none ↔ ∀ i, t.accepts? i address = none := by
  rw [find?, MatchKind.findSome?_precedence_eq_none_iff, forall_accepts?_eq_none]
  simp only [findBy?_eq_none_iff, RouteEntry.accepts?_eq_none_iff]
  exact ⟨fun h e he k => h k e he, fun h k e he => h e he k⟩

/-- An address resolves exactly if some entry accepts it. -/
theorem resolves_iff {t : RouteTable} {address : String} :
    t.resolves address = true ↔ ∃ e ∈ t.entries, (e.accepts? address).isSome = true := by
  rw [resolves, ← Option.ne_none_iff_isSome, Ne, find?_eq_none_iff, forall_accepts?_eq_none]
  simp only [not_forall, exists_prop, ← Ne.eq_def, Option.ne_none_iff_isSome]

/-- Whether the address resolves by the given step. -/
def resolvesBy (t : RouteTable) (kind : MatchKind) (address : String) : Bool :=
  (t.findBy? kind address).isSome

theorem resolvesBy_iff {t : RouteTable} {k : MatchKind} {address : String} :
    t.resolvesBy k address = true ↔ ∃ e ∈ t.entries, e.hits k address = true := by
  rw [resolvesBy, ← Option.ne_none_iff_isSome, Ne, findBy?_eq_none_iff]
  simp only [not_forall, exists_prop, Bool.not_eq_false]

theorem resolvesBy_congr {t : RouteTable} {k : MatchKind} {a b : String}
    (h : ∀ e ∈ t.entries, e.hits k a = e.hits k b) : t.resolvesBy k a = t.resolvesBy k b := by
  rw [Bool.eq_iff_iff, resolvesBy_iff, resolvesBy_iff]
  exact exists_congr fun e => and_congr_right fun he => by rw [h e he]

theorem resolves_iff_resolvesBy {t : RouteTable} {address : String} :
    t.resolves address = true ↔ ∃ k, t.resolvesBy k address = true := by
  rw [resolves, ← Option.ne_none_iff_isSome, Ne, find?, MatchKind.findSome?_precedence_eq_none_iff]
  simp only [not_forall, ← Ne.eq_def, Option.ne_none_iff_isSome]
  rfl

theorem isLeast_of_find?_eq_some {t : RouteTable} {address : String} {m : RouteMatch}
    (h : t.find? address = some m) :
    t.get? m.index = some m.entry ∧ IsLeast (t.acceptances address) (toLex (m.kind, m.index)) := by
  obtain ⟨k, hk, hnone⟩ := MatchKind.findSome?_precedence_eq_some_iff.mp h
  obtain ⟨rfl, hget, hhit, hfirst⟩ := of_findBy?_eq_some hk
  -- no entry at all fits an earlier step, so this one accepts by the step that found it
  have hearlier : ∀ k' < m.kind, ∀ e ∈ t.entries, e.hits k' address = false :=
    fun k' hk' => findBy?_eq_none_iff.mp (hnone k' hk')
  refine ⟨hget, ?_, ?_⟩
  · rw [mem_acceptances, accepts?_eq_some]
    exact ⟨m.entry, hget, RouteEntry.accepts?_eq_some_iff.mpr
      ⟨hhit, fun k' hk' => hearlier k' hk' m.entry (List.mem_of_getElem? hget)⟩⟩
  · intro p hp
    obtain ⟨⟨k', j⟩, rfl⟩ := toLex.surjective p
    obtain ⟨e, he, haccepts⟩ := accepts?_eq_some.mp (mem_acceptances.mp hp)
    have hhit' := (RouteEntry.accepts?_eq_some_iff.mp haccepts).1
    rw [Prod.Lex.toLex_le_toLex]
    rcases lt_trichotomy m.kind k' with hlt | heq | hgt
    · exact Or.inl hlt
    · exact Or.inr ⟨heq, hfirst j e he (heq ▸ hhit')⟩
    · rw [hearlier k' hgt e (List.mem_of_getElem? he)] at hhit'
      cases hhit'

/-- **An address resolves to its least acceptance**, by step and then by place, and to nothing
exactly if no place accepts it. This holds of every table, in whatever way it was put together. -/
theorem find?_eq_least_acceptance (t : RouteTable) (address : String) :
    (∀ m : RouteMatch, t.find? address = some m ↔
      t.get? m.index = some m.entry ∧ IsLeast (t.acceptances address) (toLex (m.kind, m.index))) ∧
    (t.find? address = none ↔ ∀ i, t.accepts? i address = none) := by
  refine ⟨fun m => ⟨isLeast_of_find?_eq_some, fun ⟨hget, hleast⟩ => ?_⟩, find?_eq_none_iff⟩
  cases hfind : t.find? address with
  | none =>
    have hmem := mem_acceptances.mp hleast.1
    rw [find?_eq_none_iff.mp hfind] at hmem
    cases hmem
  | some m' =>
    obtain ⟨hget', hleast'⟩ := isLeast_of_find?_eq_some hfind
    obtain ⟨hkind, hindex⟩ := Prod.mk.inj (toLex.injective (hleast'.unique hleast))
    rw [hindex, hget] at hget'
    obtain ⟨index, entry, kind⟩ := m
    obtain ⟨index', entry', kind'⟩ := m'
    simp_all

end RouteTable

end RouteAudit
