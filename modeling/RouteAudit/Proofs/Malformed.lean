import RouteAudit.Proofs.Acceptance
import RouteAudit.Proofs.Collected

/-!
# Declared paths that do not compile

An entry whose declared path does not compile stays in the table. It accepts the one address that is
written like its path, and no search for another address notices it (`IsRejected.isInert`). The collector
reports it exactly if an opening bracket stands in the path (`collect_eq_reported`): only where there is one
is the path compiled at all, so a path whose only brackets are closing ones does not compile either
(`isRejected_iff_of_notMem`) and has no issue (`not_reported_closing_bracket`).
-/

namespace RouteAudit

/-- Pieces are compiled one by one, so all of them have to be. -/
theorem RoutePattern.exists_ofDeclared_eq_ok_iff {declared : String} :
    (∃ p, ofDeclared declared = .ok p) ↔ ∀ name ∈ names declared, ∃ p, pieceOf name = .ok p := by
  have hpieces : ∀ ns : List (List Char), (∃ ps, piecesOf ns = .ok ps) ↔
      ∀ name ∈ ns, ∃ p, pieceOf name = .ok p := by
    intro ns
    induction ns with
    | nil => simp [piecesOf]
    | cons n ns ih =>
      simp only [piecesOf_eq_ok_iff, List.forall₂_cons_left_iff, List.forall_mem_cons] at ih ⊢
      rw [← ih]
      constructor
      · rintro ⟨_, p, ps, hp, hps, rfl⟩
        exact ⟨⟨p, hp⟩, ps, hps⟩
      · rintro ⟨⟨p, hp⟩, ps, hps⟩
        exact ⟨_, p, ps, hp, hps, rfl⟩
  rw [← hpieces]
  constructor
  · rintro ⟨p, hp⟩
    exact ⟨p.pieces, ofDeclared_eq_ok_iff.mp hp⟩
  · rintro ⟨ps, hps⟩
    exact ⟨⟨ps⟩, ofDeclared_eq_ok_iff.mpr hps⟩

namespace RouteEntry

variable {e : RouteEntry} {address : String}

/-- The declared path does not compile. -/
def IsRejected (e : RouteEntry) : Prop :=
  ∃ error, RoutePattern.ofDeclared e.declaredPath = .error error

theorem isRejected_iff : e.IsRejected ↔ ¬ ∃ p, RoutePattern.ofDeclared e.declaredPath = .ok p := by
  unfold IsRejected
  cases RoutePattern.ofDeclared e.declaredPath <;> simp

/-- Without an opening bracket, a closing one alone keeps the path from being compiled. -/
theorem isRejected_iff_of_notMem (h : '[' ∉ e.declaredPath.toList) :
    e.IsRejected ↔ ']' ∈ e.declaredPath.toList := by
  have hpiece : ∀ name ∈ RoutePattern.names e.declaredPath,
      ((∃ p, RoutePattern.pieceOf name = .ok p) ↔ ']' ∉ name) := by
    intro name hname
    have hopen : '[' ∉ name := fun hmem =>
      h ((Text.of_mem_split (RoutePattern.mem_names.mp hname).1).2 hmem)
    have hnone : Segment.bracketed? name = none := by
      unfold Segment.bracketed?
      split
      · exact absurd List.mem_cons_self hopen
      · rfl
    simp only [RoutePattern.pieceOf_eq_ok_iff, hnone, reduceCtorEq, false_and, exists_false, or_false,
      exists_and_left, exists_eq, and_true]
    rw [List.any_eq_false]
    constructor
    · intro hall hmem
      exact hall ']' hmem rfl
    · intro hclose c hc hbracket
      have hcases : c = '[' ∨ c = ']' := by simpa [Segment.isBracket] using hbracket
      rcases hcases with rfl | rfl
      · exact hopen hc
      · exact hclose hc
  rw [isRejected_iff, RoutePattern.exists_ofDeclared_eq_ok_iff]
  constructor
  · intro hnot
    obtain ⟨name, hname, hfails⟩ := by simpa only [not_forall, exists_prop] using hnot
    rw [hpiece name hname, not_not] at hfails
    exact (Text.of_mem_split (RoutePattern.mem_names.mp hname).1).2 hfails
  · intro hclose hall
    obtain ⟨name, hsplit, hmem⟩ := Text.exists_mem_split hclose (by decide : ']' ≠ '/')
    have hname : name ∈ RoutePattern.names e.declaredPath :=
      RoutePattern.mem_names.mpr ⟨hsplit, List.ne_nil_of_mem hmem⟩
    exact (hpiece name hname).mp (hall name hname) hmem

/-! ## Matching -/

/-- The address is written like the declared path. -/
def IsAddressed (e : RouteEntry) (address : String) : Prop :=
  Address.clean address.toList = e.declaredPath.toList

instance : Decidable (e.IsAddressed address) :=
  inferInstanceAs (Decidable (_ = _))

theorem IsRejected.hits_iff (h : e.IsRejected) (kind : MatchKind) :
    e.hits kind address = true ↔ kind = .direct ∧ e.IsAddressed address := by
  obtain ⟨error, herror⟩ := h
  have hmatcher : ∀ p, e.matcher ≠ .wildcard p := by
    intro p hp
    have hok := (matcher_eq_wildcard_iff.mp hp).2
    rw [herror] at hok
    cases hok
  cases kind with
  | direct => simp [hits, hitsDirect_iff, IsAddressed]
  | dynamic => simp [hits, hitsDynamic_iff, hmatcher]
  | structuralPrefix => simp [hits, hitsStructural_iff, hmatcher]

theorem IsRejected.accepts?_eq (h : e.IsRejected) (address : String) :
    e.accepts? address = if e.IsAddressed address then some .direct else none := by
  split_ifs with haddress
  · refine accepts?_eq_some_iff.mpr ⟨(h.hits_iff _).mpr ⟨rfl, haddress⟩, fun k hk => ?_⟩
    rw [Bool.eq_false_iff, Ne, h.hits_iff]
    exact fun hdirect => (ne_of_lt hk) hdirect.1
  · refine accepts?_eq_none_iff.mpr fun k => ?_
    rw [Bool.eq_false_iff, Ne, h.hits_iff]
    exact fun hdirect => haddress hdirect.2

end RouteEntry

/-- What an address resolves to, apart from its place in the table. -/
def RouteMatch.target (m : RouteMatch) : RouteEntry × MatchKind :=
  (m.entry, m.kind)

namespace RouteTable

/-- The search without places: the first entry for the first step for which there is one. -/
theorem map_target_find? (t : RouteTable) (address : String) :
    (t.find? address).map RouteMatch.target = MatchKind.precedence.findSome? fun kind =>
      (t.entries.find? (·.hits kind address)).map (·, kind) := by
  have hstep : ∀ kind, (t.findBy? kind address).map RouteMatch.target =
      (t.entries.find? (·.hits kind address)).map (·, kind) := by
    intro kind
    conv_rhs => rw [← List.zipIdx_map_fst 0 t.entries, List.find?_map]
    rw [findBy?, Option.map_map, Option.map_map]
    rfl
  rw [find?, List.map_findSome?]
  simp only [Function.comp_def, hstep]

/-- An entry that no step fits does not matter for the address. -/
theorem find?_insert_of_not_hits {e : RouteEntry} {address : String}
    (h : ∀ kind, e.hits kind address = false) (before after : List RouteEntry) :
    ((RouteTable.mk (before ++ e :: after)).find? address).map RouteMatch.target =
      ((RouteTable.mk (before ++ after)).find? address).map RouteMatch.target := by
  rw [map_target_find?, map_target_find?]
  simp only [List.find?_append, List.find?_cons_of_neg, h, Bool.false_eq_true, not_false_eq_true]

end RouteTable

/-- The entry is matched by its declared path alone, in a table and on its own, and whatever stands
before and after it is matched as if it were not there. -/
structure RouteEntry.IsInert (e : RouteEntry) : Prop where
  accepts : ∀ address, e.accepts? address = if e.IsAddressed address then some .direct else none
  found : ∀ (t : RouteTable) address m, t.find? address = some m → m.entry = e →
    m.kind = .direct ∧ e.IsAddressed address
  resolution : ∀ before after address, ¬ e.IsAddressed address →
    ((RouteTable.mk (before ++ e :: after)).find? address).map RouteMatch.target =
      ((RouteTable.mk (before ++ after)).find? address).map RouteMatch.target
  others : ∀ before after i address, (RouteTable.mk (before ++ after)).accepts? i address =
    (RouteTable.mk (before ++ e :: after)).accepts? (if i < before.length then i else i + 1) address

theorem RouteEntry.IsRejected.isInert {e : RouteEntry} (h : e.IsRejected) : e.IsInert where
  accepts := h.accepts?_eq
  found := by
    rintro t address m hfind rfl
    obtain ⟨hget, hleast⟩ := RouteTable.isLeast_of_find?_eq_some hfind
    obtain ⟨e, he, haccepts⟩ := RouteTable.accepts?_eq_some.mp (RouteTable.mem_acceptances.mp hleast.1)
    obtain rfl : m.entry = e := Option.some.inj (hget.symm.trans he)
    exact (h.hits_iff _).mp (accepts?_eq_some_iff.mp haccepts).1
  resolution := by
    intro before after address haddress
    refine RouteTable.find?_insert_of_not_hits (fun kind => ?_) before after
    rw [Bool.eq_false_iff, Ne, h.hits_iff]
    exact fun hdirect => haddress hdirect.2
  others := by
    intro before after i address
    unfold RouteTable.accepts? RouteTable.get?
    split_ifs with hi
    · rw [List.getElem?_append_left hi, List.getElem?_append_left hi]
    · rw [List.getElem?_append_right (Nat.not_lt.mp hi), List.getElem?_append_right (by omega),
        Nat.succ_sub (Nat.not_lt.mp hi), List.getElem?_cons_succ]

/-! ## Issues -/

/-- The issue of an entry: there is one if its path has an opening bracket and does not compile. -/
def RouteEntry.issue? (e : RouteEntry) : Option Issue :=
  if '[' ∈ e.declaredPath.toList then
    match RoutePattern.ofDeclared e.declaredPath with
    | .ok _ => none
    | .error error => some (.malformedPattern e.file error.message)
  else none

theorem RouteEntry.isSome_issue?_iff {e : RouteEntry} :
    e.issue?.isSome = true ↔ e.IsRejected ∧ '[' ∈ e.declaredPath.toList := by
  unfold issue? IsRejected
  split_ifs with hbracket
  · cases RoutePattern.ofDeclared e.declaredPath <;> simp [hbracket]
  · simp [hbracket]

theorem RouteEntry.of_issue?_eq_some {e : RouteEntry} {i : Issue} (h : e.issue? = some i) :
    i.kind = .malformedPattern ∧ i.path = e.file := by
  unfold issue? at h
  split_ifs at h
  cases hpattern : RoutePattern.ofDeclared e.declaredPath with
  | ok p =>
    rw [hpattern] at h
    cases h
  | error error =>
    rw [hpattern] at h
    obtain rfl := Option.some.inj h
    exact ⟨rfl, rfl⟩

theorem Visit.kind_of_mem_filterMap_issue? {visits : List Visit} {i : Issue}
    (h : i ∈ visits.filterMap Visit.issue?) : i.kind = .walkError := by
  obtain ⟨v, -, hv⟩ := List.mem_filterMap.mp h
  cases v with
  | file f => cases hv
  | fault path =>
    obtain rfl := Option.some.inj hv
    rfl

/-- The issue is about the pattern of the file. -/
def Issue.isMalformedAt (file : String) (i : Issue) : Bool :=
  i.kind = .malformedPattern ∧ i.path = file

namespace Collection

variable {config : CollectorConfig} {visits : List Visit}

theorem mem_entries_iff {e : RouteEntry} : e ∈ (ofVisits config visits).table.entries ↔
    ∃ f kind, .file f ∈ visits ∧ kind.Names config f.name ∧
      e = .ofPath (declaredPath f.dirs) f.path kind := by
  change e ∈ (visits.filterMap Visit.file?).filterMap (entryOf? config) ↔ _
  simp only [List.mem_filterMap (f := entryOf? config), mem_files_iff, entryOf?,
    Option.map_eq_some_iff, leafKind?_eq_some_iff]
  constructor
  · rintro ⟨f, hf, kind, hkind, rfl⟩
    exact ⟨f, kind, hf, hkind, rfl⟩
  · rintro ⟨f, kind, hf, hkind, rfl⟩
    exact ⟨f, hf, kind, hkind, rfl⟩

/-- The issues of the walk come first, then those of the entries in the order of the table. -/
theorem issues_ofVisits : (ofVisits config visits).issues = visits.filterMap Visit.issue? ++
    (ofVisits config visits).table.entries.filterMap RouteEntry.issue? := by
  change visits.filterMap Visit.issue? ++ (ofVisits config visits).table.malformed.map _ = _
  rw [RouteTable.malformed, List.map_filterMap]
  refine congrArg (_ ++ ·) (List.filterMap_congr fun e he => ?_)
  obtain ⟨f, kind, -, -, rfl⟩ := mem_entries_iff.mp he
  unfold RouteEntry.matcher RouteEntry.issue? RouteEntry.ofPath
  simp only [List.contains_iff_mem]
  split_ifs
  · cases RoutePattern.ofDeclared (declaredPath f.dirs) <;> rfl
  · rfl

/-- No two entries come from one file. -/
theorem pairwise_file_ne {children : List (String × Node)} {root : String} {enter : String → Bool}
    (hwell : (Node.dir children).WellFormed) :
    (ofVisits config (walk root children enter)).table.entries.Pairwise fun a b => a.file ≠ b.file := by
  change ((walk root children enter).filterMap Visit.file?).filterMap (entryOf? config) |>.Pairwise _
  rw [List.pairwise_filterMap]
  refine (Node.pairwise_files_walk hwell).imp fun {f g} hless a ha b hb heq => ?_
  obtain ⟨kind, -, rfl⟩ := Option.map_eq_some_iff.mp ha
  obtain ⟨kind', -, rfl⟩ := Option.map_eq_some_iff.mp hb
  have hsame : f.path = g.path := heq
  rw [hsame, Path.less_irrefl] at hless
  cases hless

end Collection

/-- Among entries of different files, the issues about the file of one of them are its own. -/
theorem countP_filterMap_issue? {entries : List RouteEntry}
    (hfiles : entries.Pairwise fun a b => a.file ≠ b.file) {e : RouteEntry} (he : e ∈ entries) :
    (entries.filterMap RouteEntry.issue?).countP (Issue.isMalformedAt e.file) =
      if e.issue?.isSome = true then 1 else 0 := by
  obtain ⟨before, after, rfl⟩ := List.append_of_mem he
  obtain ⟨-, hafter, hbefore⟩ := List.pairwise_append.mp hfiles
  have hnone : ∀ others : List RouteEntry, (∀ a ∈ others, a.file ≠ e.file) →
      (others.filterMap RouteEntry.issue?).countP (Issue.isMalformedAt e.file) = 0 := by
    intro others hothers
    rw [List.countP_eq_zero]
    intro i hi
    obtain ⟨a, ha, hissue⟩ := List.mem_filterMap.mp hi
    simp [Issue.isMalformedAt, (RouteEntry.of_issue?_eq_some hissue).2, hothers a ha]
  rw [List.filterMap_append, List.countP_append,
    hnone before fun a ha => hbefore a ha e List.mem_cons_self, Nat.zero_add]
  have hrest := hnone after fun a ha => ((List.pairwise_cons.mp hafter).1 a ha).symm
  cases hissue : e.issue? with
  | none => simpa [hissue] using hrest
  | some i =>
    obtain ⟨hkind, hpath⟩ := RouteEntry.of_issue?_eq_some hissue
    simp [hissue, hrest, Issue.isMalformedAt, hkind, hpath]

/-- **What becomes of a declared path that does not compile.** Its entry stays in the table, where it
stands in nobody's way and is matched by its path alone. If an opening bracket stands in the path, it has
one issue; no other entry has one, and all of them follow the issues of the walk in the order of the table.
The only entries without an issue whose path does not compile are those whose brackets are all closing
ones. -/
theorem FileSystem.collect_eq_reported (fs : FileSystem) (config : CollectorConfig) (strict : Bool)
    {root : String} {children : List (String × Node)} (hwell : fs.top.WellFormed)
    (hroot : fs.stat root = .ok (.dir children)) :
    let visits := walk root children (Collection.enters config)
    ∃ c, fs.collect config strict root = .ok c ∧
      (∀ e, e ∈ c.table.entries ↔ ∃ f kind, .file f ∈ visits ∧ kind.Names config f.name ∧
        e = .ofPath (Collection.declaredPath f.dirs) f.path kind) ∧
      c.issues = visits.filterMap Visit.issue? ++ c.table.entries.filterMap RouteEntry.issue? ∧
      (∀ i ∈ visits.filterMap Visit.issue?, i.kind = .walkError) ∧
      (∀ e ∈ c.table.entries, c.issues.countP (Issue.isMalformedAt e.file) ≤ 1 ∧
        (c.issues.countP (Issue.isMalformedAt e.file) = 1 ↔
          e.IsRejected ∧ '[' ∈ e.declaredPath.toList)) ∧
      ∀ e ∈ c.table.entries, e.IsRejected →
        e.IsInert ∧ ('[' ∉ e.declaredPath.toList → ']' ∈ e.declaredPath.toList) := by
  intro visits
  obtain ⟨place, hplace⟩ := FileSystem.stat_eq_ok_iff.mp hroot
  have hdir : (Node.dir children).WellFormed := hwell.at? (FileSystem.at?_of_locate hplace)
  refine ⟨.ofVisits config visits, ?_, fun e => Collection.mem_entries_iff, Collection.issues_ofVisits,
    fun i => Visit.kind_of_mem_filterMap_issue?, fun e he => ?_,
    fun e _ hrejected => ⟨hrejected.isInert, fun hnot => ?_⟩⟩
  · rw [FileSystem.collect, FileSystem.openRoot_of_stat hroot]
  · have hwalk : (visits.filterMap Visit.issue?).countP (Issue.isMalformedAt e.file) = 0 := by
      rw [List.countP_eq_zero]
      intro i hi
      simp [Issue.isMalformedAt, Visit.kind_of_mem_filterMap_issue? hi]
    rw [Collection.issues_ofVisits, List.countP_append, hwalk, Nat.zero_add,
      countP_filterMap_issue? (Collection.pairwise_file_ne hdir) he, ← RouteEntry.isSome_issue?_iff]
    split_ifs with hissue <;> simp [hissue]
  · exact (RouteEntry.isRejected_iff_of_notMem hnot).mp hrejected

/-- The optional catch-all is reported and in no other page's way. -/
theorem FileSystem.collect_eq_reported_slug :
    let children : List (String × Node) :=
      [("[[...slug]]", .dir [("page.tsx", .file .empty)]), ("[id]", .dir [("page.tsx", .file .empty)])]
    let fs : FileSystem := ⟨.dir [("app", .dir children)], []⟩
    let e : RouteEntry := ⟨"/[[...slug]]", "app/[[...slug]]/page.tsx", .page, true⟩
    ∃ c, fs.collect {} false "app" = .ok c ∧ e ∈ c.table.entries ∧
      c.issues.countP (Issue.isMalformedAt e.file) = 1 ∧ e.accepts? "/intro" = none ∧
      (c.table.find? "/intro").map (·.entry.declaredPath) = some "/[id]" := by
  intro children fs e
  have hwell : fs.top.WellFormed := by decide
  have hroot : fs.stat "app" = .ok (.dir children) := by rfl
  have hrejected : e.IsRejected := ⟨⟨"/[[...slug]]", "[[...slug]]"⟩, by decide⟩
  obtain ⟨c, hcollect, hentries, -, -, hissues, hinert⟩ :=
    fs.collect_eq_reported {} false hwell hroot
  have hc : c = .ofVisits {} (walk "app" children (Collection.enters {})) :=
    (Except.ok.inj hcollect).symm
  have he : e ∈ c.table.entries := by
    rw [hc]
    decide
  refine ⟨c, hcollect, he, (hissues e he).2.mpr ⟨hrejected, by decide⟩, ?_, ?_⟩
  · rw [(hinert e he hrejected).1.accepts, if_neg (by decide)]
  · rw [hc]
    decide

/-- The name `id]` is no placeholder, so its route does not compile, and the collector is silent about
it. -/
theorem FileSystem.not_reported_closing_bracket :
    let fs : FileSystem := ⟨.dir [("app", .dir [("id]", .dir [("page.tsx", .file .empty)])])], []⟩
    let e : RouteEntry := ⟨"/id]", "app/id]/page.tsx", .page, false⟩
    (fs.collect {} false "app").map (fun c => (c.table.entries, c.issues)) = .ok ([e], []) ∧
      RoutePattern.ofDeclared e.declaredPath = .error ⟨"/id]", "id]"⟩ := by
  decide

end RouteAudit
