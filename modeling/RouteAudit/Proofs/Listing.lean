import RouteAudit.Console.Summary
import RouteAudit.Proofs.Escaped
import RouteAudit.Proofs.Split

/-!
# What the console lists

The text on the console is read line by line. After the eleven lines of the totals it lists the first broken
routes, each with its first places, and the first unused ones, up to the caps; where a cap leaves something
out, a line tells how much, so what is shown and what is left out make up the whole
(`Report.console?_accounts`). No number on the way falls below zero, so there always is a text.

The listing is said here on its own, as a record of what is shown and what is left out (`Listing`) and the
lines that stand for it. What it has to be is one condition on each list with a cap (`Capped`), at both levels.

Proof. Each difference is taken only behind the test that the cap is below the total, so the text is the
totals and the listing, joined (`Report.console?_eq`). No line of it holds a line break, so it splits into its
lines again. The lines below a heading are indented, so none of them is a heading (`Listing.mem_headed_iff`).
-/

namespace RouteAudit

/-! ## Capped lists -/

/-- The first members of a list up to a cap, and the number of those that are left out, if any are. -/
structure Capped {α : Type} (cap : Nat) (all shown : List α) (left : Option Nat) : Prop where
  first : shown <+: all
  length_shown : shown.length = min cap all.length
  isSome_left : left.isSome = true ↔ cap < all.length
  cap_add_left : ∀ k ∈ left, cap + k = all.length
  length_add_left : shown.length + left.getD 0 = all.length

/-- How many of `total` members are left out. -/
def leftOf (cap total : Nat) : Option Nat :=
  if cap < total then some (total - cap) else none

theorem capped_take {α : Type} (cap : Nat) (all : List α) :
    Capped cap all (all.take cap) (leftOf cap all.length) where
  first := List.take_prefix cap all
  length_shown := List.length_take
  isSome_left := by
    unfold leftOf
    split_ifs with h <;> simp [h]
  cap_add_left := by
    unfold leftOf
    split_ifs with h <;> simp
    omega
  length_add_left := by
    rw [List.length_take]
    unfold leftOf
    split_ifs with h
    · rw [Option.getD_some]
      omega
    · rw [Option.getD_none]
      omega

/-- Nothing is shown and nothing left out of the empty list alone. -/
theorem Capped.eq_nil_iff {α : Type} {cap : Nat} {all shown : List α} {left : Option Nat}
    (h : Capped cap all shown left) : shown = [] ∧ left = none ↔ all = [] := by
  constructor
  · rintro ⟨rfl, rfl⟩
    exact List.eq_nil_of_length_eq_zero h.length_add_left.symm
  · rintro rfl
    refine ⟨List.prefix_nil.mp h.first, ?_⟩
    rw [← Option.not_isSome_iff_eq_none, h.isSome_left]
    exact Nat.not_lt_zero cap

/-! ## Listings -/

/-- A broken route that is shown, the places shown for it and the number of the others, if there are any. -/
structure ListedRoute where
  route : BrokenRoute
  sites : List UsageSite
  left : Option Nat

/-- The routes that are shown and the numbers of the others, if there are any. -/
structure Listing where
  broken : List ListedRoute
  brokenLeft : Option Nat
  unused : List UnusedRoute
  unusedLeft : Option Nat

def ListedRoute.lines (l : ListedRoute) : List String :=
  ("  ✗ " ++ l.route.path) ::
    l.sites.map (fun u => "      " ++ u.file ++ ":" ++ toString u.line ++ " (" ++ u.kind.title ++ ")") ++
    l.left.toList.map fun k => "      ... " ++ toString k ++ " more occurrences"

namespace Listing

/-- The line for routes that are left out. -/
def moreLines (left : Option Nat) : List String :=
  left.toList.map fun k => "  ... and " ++ toString k ++ " more"

def brokenLines (l : Listing) : List String :=
  l.broken.flatMap ListedRoute.lines ++ moreLines l.brokenLeft

def unusedLines (l : Listing) : List String :=
  l.unused.map (fun u => "  ○ " ++ u.path ++ " (" ++ u.file ++ ")") ++ moreLines l.unusedLeft

/-- A heading with an empty line before it, above the lines, if there are any. -/
def headed (title : String) (lines : List String) : List String :=
  if lines = [] then [] else "" :: title :: lines

def lines (l : Listing) : List String :=
  headed "Broken routes:" l.brokenLines ++ headed "Unused routes:" l.unusedLines ++
    if l.brokenLines = [] ∧ l.unusedLines = [] then ["", "No broken or unused routes."] else []

/-- The listing accounts for all broken and unused routes of a report and for the places of those shown. -/
structure AccountsFor (l : Listing) (r : Report) (config : ReportConfig) : Prop where
  broken : Capped config.maxListed r.brokenRoutes (l.broken.map (·.route)) l.brokenLeft
  sites : ∀ b ∈ l.broken, Capped config.maxSites b.route.usages b.sites b.left
  unused : Capped config.maxListed r.unusedRoutes l.unused l.unusedLeft

theorem brokenLines_eq_nil_iff {l : Listing} {r : Report} {config : ReportConfig}
    (h : l.AccountsFor r config) : l.brokenLines = [] ↔ r.brokenRoutes = [] := by
  rw [← h.broken.eq_nil_iff, brokenLines, moreLines]
  cases l.broken <;> cases l.brokenLeft <;> simp [ListedRoute.lines]

theorem unusedLines_eq_nil_iff {l : Listing} {r : Report} {config : ReportConfig}
    (h : l.AccountsFor r config) : l.unusedLines = [] ↔ r.unusedRoutes = [] := by
  rw [← h.unused.eq_nil_iff, unusedLines, moreLines]
  cases l.unused <;> cases l.unusedLeft <;> simp

end Listing

/-! ## The listing of a report -/

namespace Report

def listing (r : Report) (config : ReportConfig) : Listing :=
  { broken := (r.brokenRoutes.take config.maxListed).map fun b =>
      ⟨b, b.usages.take config.maxSites, leftOf config.maxSites b.usages.length⟩
    brokenLeft := leftOf config.maxListed r.brokenRoutes.length
    unused := r.unusedRoutes.take config.maxListed
    unusedLeft := leftOf config.maxListed r.unusedRoutes.length }

theorem accountsFor_listing (r : Report) (config : ReportConfig) :
    (r.listing config).AccountsFor r config where
  broken := by
    have hroutes : (r.listing config).broken.map (·.route) = r.brokenRoutes.take config.maxListed := by
      rw [listing, List.map_map]
      exact List.map_id _
    rw [hroutes]
    exact capped_take config.maxListed r.brokenRoutes
  sites := by
    intro b hb
    obtain ⟨b, -, rfl⟩ := List.mem_map.mp hb
    exact capped_take config.maxSites b.usages
  unused := capped_take config.maxListed r.unusedRoutes

theorem leftOut?_eq (cap total : Nat) (line : Nat → String) :
    Summary.leftOut? cap total line = some ((leftOf cap total).toList.map line) := by
  unfold Summary.leftOut? Summary.minus? leftOf
  split_ifs with hcap hle
  · rfl
  · exact absurd hcap.le hle
  · rfl

theorem mapM_eq_some_map {α β : Type} {f : α → Option β} {g : α → β} (h : ∀ x, f x = some (g x))
    (xs : List α) : xs.mapM f = some (xs.map g) := by
  rw [funext h]
  exact List.mapM_pure

variable (r : Report) (config : ReportConfig)

theorem brokenListing?_eq :
    brokenListing? r.brokenRoutes config.maxListed config.maxSites false =
      some (r.listing config).brokenLines := by
  have hroute : ∀ b, brokenLines? config.maxSites false b = some (ListedRoute.lines
      ⟨b, b.usages.take config.maxSites, leftOf config.maxSites b.usages.length⟩) := by
    intro b
    rw [brokenLines?, leftOut?_eq]
    rfl
  rw [brokenListing?, mapM_eq_some_map hroute, leftOut?_eq, Listing.brokenLines, listing, List.flatMap_map,
    List.flatMap_def]
  rfl

theorem unusedListing?_eq : unusedListing? r.unusedRoutes config.maxListed false =
    some (r.listing config).unusedLines := by
  rw [unusedListing?, leftOut?_eq]
  rfl

/-- The text is the totals and the listing, line by line. -/
theorem console?_eq : r.console? config false =
    some (String.join ((r.summaryLines false ++ (r.listing config).lines).map (· ++ "\n"))) := by
  have haccounts := r.accountsFor_listing config
  have hbroken : brokenSection? r.brokenRoutes config.maxListed config.maxSites false =
      some (Listing.headed "Broken routes:" (r.listing config).brokenLines) := by
    rw [brokenSection?, brokenListing?_eq, Listing.headed]
    simp only [Listing.brokenLines_eq_nil_iff haccounts]
    split_ifs <;> rfl
  have hunused : unusedSection? r.unusedRoutes config.maxListed false =
      some (Listing.headed "Unused routes:" (r.listing config).unusedLines) := by
    rw [unusedSection?, unusedListing?_eq, Listing.headed]
    simp only [Listing.unusedLines_eq_nil_iff haccounts]
    split_ifs <;> rfl
  rw [console?, consoleLines?, hbroken, hunused, Listing.lines, clearSection]
  simp only [Listing.brokenLines_eq_nil_iff haccounts, Listing.unusedLines_eq_nil_iff haccounts,
    ← List.append_assoc]
  rfl

end Report

/-! ## Reading the text line by line -/

/-- A text that stands on one line. -/
def IsLine (s : String) : Prop :=
  '\n' ∉ s.toList

instance (s : String) : Decidable (IsLine s) :=
  inferInstanceAs (Decidable ('\n' ∉ s.toList))

/-- A line that is indented, so it is no heading. -/
def IsEntryLine (s : String) : Prop :=
  IsLine s ∧ s.toList.head? = some ' '

instance (s : String) : Decidable (IsEntryLine s) :=
  inferInstanceAs (Decidable (IsLine s ∧ s.toList.head? = some ' '))

theorem IsLine.append {a b : String} (ha : IsLine a) (hb : IsLine b) : IsLine (a ++ b) := by
  rw [IsLine, String.toList_append, List.mem_append, not_or]
  exact ⟨ha, hb⟩

theorem isLine_toString (n : Nat) : IsLine (toString n) := by
  intro h
  rw [Nat.toString_eq_repr, Nat.repr, String.toList_ofList] at h
  exact absurd (Json.isDigit_of_mem_toDigits h) (by decide)

theorem IsEntryLine.append {a b : String} (ha : IsEntryLine a) (hb : IsLine b) :
    IsEntryLine (a ++ b) :=
  ⟨ha.1.append hb, by rw [String.toList_append, List.head?_append, ha.2, Option.some_or]⟩

/-- The paths and files that the console shows stand on one line each. -/
structure Report.IsOnLines (r : Report) : Prop where
  brokenPath : ∀ b ∈ r.brokenRoutes, IsLine b.path
  siteFile : ∀ b ∈ r.brokenRoutes, ∀ u ∈ b.usages, IsLine u.file
  unusedPath : ∀ u ∈ r.unusedRoutes, IsLine u.path
  unusedFile : ∀ u ∈ r.unusedRoutes, IsLine u.file

theorem isLine_row {label : String} (h : IsLine label) (count : Nat) : IsLine (Summary.row label count) := by
  have hfill : IsLine (String.ofList (List.replicate (16 - label.length) ' ')) := by
    rw [IsLine, String.toList_ofList, List.mem_replicate, not_and]
    exact fun _ => by decide
  have hindent : IsLine "  " := by decide
  exact ((hindent.append h).append hfill).append (isLine_toString count)

theorem isLine_of_mem_summaryLines {r : Report} : ∀ s ∈ r.summaryLines false, IsLine s := by
  intro s hs
  simp only [Report.summaryLines, Style.apply, Bool.false_eq_true, if_false, List.mem_cons,
    List.not_mem_nil, or_false] at hs
  rcases hs with rfl | rfl | rfl | rfl | rfl | rfl | rfl | rfl | rfl | rfl | rfl
  · decide
  all_goals exact isLine_row (by decide) _

namespace Listing

theorem isEntryLine_of_mem_moreLines (left : Option Nat) : ∀ s ∈ moreLines left, IsEntryLine s := by
  intro s hs
  obtain ⟨k, -, rfl⟩ := List.mem_map.mp hs
  have hstart : IsEntryLine "  ... and " := by decide
  exact (hstart.append (isLine_toString k)).append (by decide)

variable {l : Listing} {r : Report} {config : ReportConfig} (hl : l.AccountsFor r config)
  (hr : r.IsOnLines)
include hl hr

theorem isEntryLine_of_mem_brokenLines : ∀ s ∈ l.brokenLines, IsEntryLine s := by
  have hroute : IsEntryLine "  ✗ " := by decide
  have hsite : IsEntryLine "      " := by decide
  have hmore : IsEntryLine "      ... " := by decide
  intro s hs
  rcases List.mem_append.mp hs with hs | hs
  · obtain ⟨b, hb, hs⟩ := List.mem_flatMap.mp hs
    have hmem : b.route ∈ r.brokenRoutes :=
      hl.broken.first.subset (List.mem_map_of_mem hb)
    rw [ListedRoute.lines, List.cons_append, List.mem_cons, List.mem_append] at hs
    rcases hs with rfl | hs | hs
    · exact hroute.append (hr.brokenPath _ hmem)
    · obtain ⟨u, hu, rfl⟩ := List.mem_map.mp hs
      have hfile : IsLine u.file := hr.siteFile _ hmem u ((hl.sites b hb).first.subset hu)
      have hkind : IsLine u.kind.title := by cases u.kind <;> decide
      have hplace : IsEntryLine ("      " ++ u.file ++ ":" ++ toString u.line) :=
        ((hsite.append hfile).append (by decide)).append (isLine_toString u.line)
      exact ((hplace.append (by decide)).append hkind).append (by decide)
    · obtain ⟨k, -, rfl⟩ := List.mem_map.mp hs
      exact (hmore.append (isLine_toString k)).append (by decide)
  · exact isEntryLine_of_mem_moreLines _ s hs

theorem isEntryLine_of_mem_unusedLines : ∀ s ∈ l.unusedLines, IsEntryLine s := by
  have hstart : IsEntryLine "  ○ " := by decide
  intro s hs
  rcases List.mem_append.mp hs with hs | hs
  · obtain ⟨u, hu, rfl⟩ := List.mem_map.mp hs
    have hmem : u ∈ r.unusedRoutes := hl.unused.first.subset hu
    exact (((hstart.append (hr.unusedPath u hmem)).append (by decide)).append
      (hr.unusedFile u hmem)).append (by decide)
  · exact isEntryLine_of_mem_moreLines _ s hs

omit hl hr

theorem mem_headed_iff {title s : String} {entries : List String}
    (hentries : ∀ e ∈ entries, IsEntryLine e) (hs : s ≠ "" ∧ ¬ IsEntryLine s) :
    s ∈ headed title entries ↔ s = title ∧ entries ≠ [] := by
  unfold headed
  split_ifs with hnil
  · simp [hnil]
  · have hmem : s ∉ entries := fun h => hs.2 (hentries s h)
    simp [hs.1, hmem, hnil]

theorem isLine_of_mem_headed {title : String} (htitle : IsLine title) {entries : List String}
    (hentries : ∀ e ∈ entries, IsEntryLine e) : ∀ s ∈ headed title entries, IsLine s := by
  unfold headed
  split_ifs
  · simp
  · rw [List.forall_mem_cons, List.forall_mem_cons]
    exact ⟨by decide, htitle, fun e he => (hentries e he).1⟩

theorem isLine_of_mem_lines (hl : l.AccountsFor r config) (hr : r.IsOnLines) : ∀ s ∈ l.lines, IsLine s := by
  intro s hs
  rw [lines, List.mem_append, List.mem_append] at hs
  rcases hs with (hs | hs) | hs
  · exact isLine_of_mem_headed (by decide) (isEntryLine_of_mem_brokenLines hl hr) s hs
  · exact isLine_of_mem_headed (by decide) (isEntryLine_of_mem_unusedLines hl hr) s hs
  · split_ifs at hs
    · revert s
      decide
    · cases hs

/-- The headings tell which lists of the report are not empty. -/
theorem mem_lines_iff (hl : l.AccountsFor r config) (hr : r.IsOnLines) :
    ("Broken routes:" ∈ l.lines ↔ r.brokenRoutes ≠ []) ∧
      ("Unused routes:" ∈ l.lines ↔ r.unusedRoutes ≠ []) ∧
      ("No broken or unused routes." ∈ l.lines ↔ r.brokenRoutes = [] ∧ r.unusedRoutes = []) := by
  have hmem : ∀ s, s ≠ "" ∧ ¬ IsEntryLine s → (s ∈ l.lines ↔
      (s = "Broken routes:" ∧ r.brokenRoutes ≠ []) ∨ (s = "Unused routes:" ∧ r.unusedRoutes ≠ []) ∨
        (s = "No broken or unused routes." ∧ r.brokenRoutes = [] ∧ r.unusedRoutes = [])) := by
    intro s hs
    rw [lines, List.mem_append, List.mem_append, mem_headed_iff (isEntryLine_of_mem_brokenLines hl hr) hs,
      mem_headed_iff (isEntryLine_of_mem_unusedLines hl hr) hs, or_assoc]
    simp only [Ne, brokenLines_eq_nil_iff hl, unusedLines_eq_nil_iff hl]
    refine or_congr_right (or_congr_right ?_)
    split_ifs with hnil
    · simp [hs.1, hnil]
    · simp [hnil]
  rw [hmem _ (by decide), hmem _ (by decide), hmem _ (by decide)]
  simp

end Listing

/-- **The capped listings account for everything.** There is always a text, and behind the eleven lines of the
totals it lists the first routes and, for each broken one, the first places, up to the caps, and the number of
those left out, where there are any. There is a heading for each list of the report that is not empty, and
the line that all is clear if both are. -/
theorem Report.console?_accounts (r : Report) (config : ReportConfig) (h : r.IsOnLines) :
    ∃ (text : String) (listing : Listing), r.console? config false = some text ∧
      (Text.split '\n' text.toList).map String.ofList = r.summaryLines false ++ listing.lines ++ [""] ∧
      (r.summaryLines false).length = 11 ∧ listing.AccountsFor r config ∧
      ("Broken routes:" ∈ listing.lines ↔ r.brokenRoutes ≠ []) ∧
      ("Unused routes:" ∈ listing.lines ↔ r.unusedRoutes ≠ []) ∧
      ("No broken or unused routes." ∈ listing.lines ↔ r.brokenRoutes = [] ∧ r.unusedRoutes = []) := by
  have haccounts := r.accountsFor_listing config
  refine ⟨_, r.listing config, r.console?_eq config, ?_, rfl, haccounts, Listing.mem_lines_iff haccounts h⟩
  have hlines : ∀ p ∈ (r.summaryLines false ++ (r.listing config).lines).map String.toList, '\n' ∉ p := by
    intro p hp
    obtain ⟨s, hs, rfl⟩ := List.mem_map.mp hp
    rcases List.mem_append.mp hs with hs | hs
    · exact isLine_of_mem_summaryLines s hs
    · exact Listing.isLine_of_mem_lines haccounts h s hs
  have htext : (String.join ((r.summaryLines false ++ (r.listing config).lines).map (· ++ "\n"))).toList =
      ((r.summaryLines false ++ (r.listing config).lines).map String.toList).flatMap (· ++ ['\n']) := by
    rw [String.toList_join, List.flatMap_map, List.flatMap_map]
    exact List.flatMap_congr fun s _ => String.toList_append
  have hread : ∀ ss : List String, (ss.map String.toList).map String.ofList = ss := by
    intro ss
    rw [List.map_map]
    exact (List.map_congr_left fun s _ => String.ofList_toList).trans (List.map_id ss)
  rw [htext, Text.split_flatMap_concat hlines, List.map_append, hread]
  rfl

/-- A cap of one route and of no place. -/
theorem Report.console?_accounts_gone :
    let site : UsageSite := ⟨"src/nav.tsx", .link, 3, "<Link href=\x22/gone\x22>"⟩
    let r : Report :=
      { generatedAt := "2024-05-01T12:00:00.000Z"
        summary := ⟨4, 2, 3, 1, 2, 0, 0, 0, 0⟩
        brokenRoutes := [⟨"/gone", none, false, [site, site], BrokenRoute.note⟩,
          ⟨"/lost", none, false, [site], BrokenRoute.note⟩]
        unusedRoutes := [], dynamicRoutes := [], allAppRoutes := [], allUsedRoutes := [], errors := [] }
    let config : ReportConfig := { maxListed := 1, maxSites := 0 }
    r.IsOnLines ∧ ∃ (text : String) (listing : Listing), r.console? config false = some text ∧
      (Text.split '\n' text.toList).map String.ofList = r.summaryLines false ++ listing.lines ++ [""] ∧
      listing.AccountsFor r config ∧ "Broken routes:" ∈ listing.lines ∧
      "Unused routes:" ∉ listing.lines := by
  intro site r config
  have hlines : r.IsOnLines := ⟨by decide, by decide, by decide, by decide⟩
  obtain ⟨text, listing, htext, hread, -, haccounts, hbroken, hunused, -⟩ :=
    r.console?_accounts config hlines
  exact ⟨hlines, text, listing, htext, hread, haccounts, hbroken.mpr (by decide),
    fun h => hunused.mp h rfl⟩

end RouteAudit
