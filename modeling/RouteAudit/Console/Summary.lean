import RouteAudit.Config.Basic
import RouteAudit.Console.Style
import RouteAudit.Report.Basic

/-!
# The console summary

The totals of a report in eleven lines, then the broken and the unused routes. A listing shows at
most a given number of routes and, for each broken one, of places, and ends with the number of
those that it leaves out. This number is a difference of counts; that it is never taken below zero
is what `Report.isSome_console?` says.
-/

namespace RouteAudit

namespace Summary

/-- A row of the totals: the label fills 16 columns. -/
def row (label : String) (count : Nat) : String :=
  "  " ++ label ++ String.ofList (List.replicate (16 - label.length) ' ') ++ toString count

/-- The difference of two counts, unless it is below zero. -/
def minus? (a b : Nat) : Option Nat :=
  if b ≤ a then some (a - b) else none

/-- The line with the number of the members of a list that a cap leaves out, if there are any. -/
def leftOut? (cap total : Nat) (line : Nat → String) : Option (List String) :=
  if cap < total then (minus? total cap).map fun left => [line left] else some []

end Summary

namespace Report

def summaryLines (r : Report) (colours : Bool) : List String :=
  let s := r.summary
  [Style.apply { bold := true } colours "Summary",
    Summary.row "Routes:" s.totalAppRoutes,
    Summary.row "Pages:" s.totalPageRoutes,
    Summary.row "Used paths:" s.totalUsedRoutes,
    Style.apply { colour := some .green } colours (Summary.row "Valid:" s.validRoutes),
    Style.apply { colour := some .red } colours (Summary.row "Broken:" s.brokenRoutes),
    Style.apply { colour := some .yellow } colours (Summary.row "Unused:" s.unusedRoutes),
    Summary.row "External:" s.externalRoutes,
    Style.apply { colour := some .cyan } colours (Summary.row "Dynamic:" s.dynamicRoutes),
    Summary.row "Special:" s.specialRoutes,
    Summary.row "Errors:" r.errors.length]

/-- The line for one place that refers to a broken route. -/
def siteLine (u : UsageSite) : String :=
  "      " ++ u.file ++ ":" ++ toString u.line ++ " (" ++ u.kind.title ++ ")"

/-- The line for the places of a broken route that are left out. -/
def moreSitesLine (left : Nat) : String :=
  "      ... " ++ toString left ++ " more occurrences"

/-- The line for the routes that are left out. -/
def moreRoutesLine (left : Nat) : String :=
  "  ... and " ++ toString left ++ " more"

def brokenLine (colours : Bool) (b : BrokenRoute) : String :=
  "  " ++ Style.apply { colour := some .red } colours "✗" ++ " " ++ b.path

/-- The line of a broken route and those of its places. -/
def brokenLines? (maxSites : Nat) (colours : Bool) (b : BrokenRoute) : Option (List String) :=
  (Summary.leftOut? maxSites b.usages.length moreSitesLine).map fun more =>
    brokenLine colours b :: (b.usages.take maxSites).map siteLine ++ more

def brokenListing? (broken : List BrokenRoute) (maxListed maxSites : Nat) (colours : Bool) :
    Option (List String) := do
  let shown ← (broken.take maxListed).mapM (brokenLines? maxSites colours)
  let more ← Summary.leftOut? maxListed broken.length moreRoutesLine
  return shown.flatten ++ more

def unusedLine (colours : Bool) (u : UnusedRoute) : String :=
  "  " ++ Style.apply { colour := some .yellow } colours "○" ++ " " ++ u.path ++
    " (" ++ u.file ++ ")"

def unusedListing? (unused : List UnusedRoute) (maxListed : Nat) (colours : Bool) :
    Option (List String) :=
  (Summary.leftOut? maxListed unused.length moreRoutesLine).map fun more =>
    (unused.take maxListed).map (unusedLine colours) ++ more

/-- An empty line, a bold heading and the lines below it. -/
def titled (title : String) (colour : Colour) (colours : Bool) (lines : List String) :
    List String :=
  "" :: Style.apply { colour := some colour, bold := true } colours title :: lines

def brokenSection? (broken : List BrokenRoute) (maxListed maxSites : Nat) (colours : Bool) :
    Option (List String) :=
  if broken = [] then some []
  else (brokenListing? broken maxListed maxSites colours).map (titled "Broken routes:" .red colours)

def unusedSection? (unused : List UnusedRoute) (maxListed : Nat) (colours : Bool) :
    Option (List String) :=
  if unused = [] then some []
  else (unusedListing? unused maxListed colours).map (titled "Unused routes:" .yellow colours)

def clearSection (r : Report) (colours : Bool) : List String :=
  if r.brokenRoutes = [] ∧ r.unusedRoutes = [] then
    titled "No broken or unused routes." .green colours []
  else []

def consoleLines? (r : Report) (maxListed maxSites : Nat) (colours : Bool) :
    Option (List String) := do
  let broken ← brokenSection? r.brokenRoutes maxListed maxSites colours
  let unused ← unusedSection? r.unusedRoutes maxListed colours
  return r.summaryLines colours ++ broken ++ unused ++ r.clearSection colours

/-- The summary as it is printed, if every number in it is a count; every line ends with a line
break. -/
def console? (r : Report) (config : ReportConfig) (colours : Bool) : Option String :=
  (r.consoleLines? config.maxListed config.maxSites colours).map fun lines =>
    String.join (lines.map (· ++ "\n"))

/-! ## Every number is a count -/

theorem isSome_leftOut? (cap total : Nat) (line : Nat → String) :
    (Summary.leftOut? cap total line).isSome = true := by
  unfold Summary.leftOut? Summary.minus?
  split
  case isTrue h => rw [if_pos (Nat.le_of_lt h), Option.map_some, Option.isSome_some]
  case isFalse => rfl

theorem exists_mapM_brokenLines? (maxSites : Nat) (colours : Bool) (broken : List BrokenRoute) :
    ∃ shown, broken.mapM (brokenLines? maxSites colours) = some shown := by
  induction broken with
  | nil => exact ⟨[], rfl⟩
  | cons b broken ih =>
    obtain ⟨shown, hshown⟩ := ih
    obtain ⟨more, hmore⟩ := Option.isSome_iff_exists.mp
      (isSome_leftOut? maxSites b.usages.length moreSitesLine)
    rw [List.mapM_cons, hshown, brokenLines?, hmore]
    exact ⟨_, rfl⟩

theorem isSome_brokenSection? (broken : List BrokenRoute) (maxListed maxSites : Nat)
    (colours : Bool) : (brokenSection? broken maxListed maxSites colours).isSome = true := by
  unfold brokenSection? brokenListing?
  split
  case isTrue => rfl
  case isFalse =>
    obtain ⟨shown, hshown⟩ := exists_mapM_brokenLines? maxSites colours (broken.take maxListed)
    obtain ⟨more, hmore⟩ := Option.isSome_iff_exists.mp
      (isSome_leftOut? maxListed broken.length moreRoutesLine)
    rw [hshown, hmore]
    rfl

theorem isSome_unusedSection? (unused : List UnusedRoute) (maxListed : Nat) (colours : Bool) :
    (unusedSection? unused maxListed colours).isSome = true := by
  unfold unusedSection? unusedListing?
  split
  case isTrue => rfl
  case isFalse =>
    rw [Option.isSome_map, Option.isSome_map]
    exact isSome_leftOut? maxListed unused.length moreRoutesLine

theorem isSome_console? (r : Report) (config : ReportConfig) (colours : Bool) :
    (r.console? config colours).isSome = true := by
  obtain ⟨broken, hbroken⟩ := Option.isSome_iff_exists.mp
    (isSome_brokenSection? r.brokenRoutes config.maxListed config.maxSites colours)
  obtain ⟨unused, hunused⟩ := Option.isSome_iff_exists.mp
    (isSome_unusedSection? r.unusedRoutes config.maxListed colours)
  rw [console?, consoleLines?, hbroken, hunused]
  rfl

/-- The summary as it is printed. -/
def console (r : Report) (config : ReportConfig) (colours : Bool) : String :=
  (r.console? config colours).get (r.isSome_console? config colours)

end Report

end RouteAudit
