import RouteAudit.Json.Parser
import RouteAudit.Json.Printer
import RouteAudit.Report.Basic

/-!
# Reports as JSON

`Report.toJson` writes a report as an object; a clean path that is absent is left out. Reading is
generous in three ways: names that a record does not have are passed over, a record may be given as
the array of its fields in order, and a word may be given as an object with that one name and no
value. A name that a record has may not be given twice.
-/

namespace RouteAudit

/-! ## Writing -/

namespace Report

/-- The member for a clean path, if there is one. -/
def cleanPathMember (path : Option String) : List (String × Json) :=
  path.toList.map fun p => ("cleanPath", .string p)

end Report

def Summary.toJson (s : Summary) : Json :=
  .object [
    ("totalAppRoutes", .nat s.totalAppRoutes),
    ("totalPageRoutes", .nat s.totalPageRoutes),
    ("totalUsedRoutes", .nat s.totalUsedRoutes),
    ("validRoutes", .nat s.validRoutes),
    ("brokenRoutes", .nat s.brokenRoutes),
    ("unusedRoutes", .nat s.unusedRoutes),
    ("externalRoutes", .nat s.externalRoutes),
    ("dynamicRoutes", .nat s.dynamicRoutes),
    ("specialRoutes", .nat s.specialRoutes)]

/-- The place of a reference as an object. -/
def UsageSite.toJson (u : UsageSite) : Json :=
  .object [("file", .string u.file), ("type", .string u.kind.word), ("line", .nat u.line),
    ("context", .string u.context)]

def BrokenRoute.toJson (r : BrokenRoute) : Json :=
  .object (("path", .string r.path) :: Report.cleanPathMember r.cleanPath ++
    [("isDynamic", .bool r.isDynamic), ("usages", .array (r.usages.map UsageSite.toJson)),
      ("issue", .string r.issue)])

def UnusedRoute.toJson (r : UnusedRoute) : Json :=
  .object [("path", .string r.path), ("file", .string r.file), ("hasParams", .bool r.hasParams),
    ("issue", .string r.issue)]

def DynamicRoute.toJson (r : DynamicRoute) : Json :=
  .object (("path", .string r.path) :: Report.cleanPathMember r.cleanPath ++
    [("usages", .nat r.usages)])

def AppRoute.toJson (r : AppRoute) : Json :=
  .object [("path", .string r.path), ("file", .string r.file), ("hasParams", .bool r.hasParams)]

def UsedRoute.toJson (r : UsedRoute) : Json :=
  .object (("path", .string r.path) :: Report.cleanPathMember r.cleanPath ++
    [("isDynamic", .bool r.isDynamic), ("usageCount", .nat r.usageCount),
      ("files", .array (r.files.map Json.string))])

def Issue.toJson (i : Issue) : Json :=
  .object [("kind", .string i.kind.word), ("path", .string i.path), ("message", .string i.message)]

namespace Report

def toJson (r : Report) : Json :=
  .object [
    ("generatedAt", .string r.generatedAt),
    ("summary", r.summary.toJson),
    ("brokenRoutes", .array (r.brokenRoutes.map BrokenRoute.toJson)),
    ("unusedRoutes", .array (r.unusedRoutes.map UnusedRoute.toJson)),
    ("dynamicRoutes", .array (r.dynamicRoutes.map DynamicRoute.toJson)),
    ("allAppRoutes", .array (r.allAppRoutes.map AppRoute.toJson)),
    ("allUsedRoutes", .array (r.allUsedRoutes.map UsedRoute.toJson)),
    ("errors", .array (r.errors.map Issue.toJson))]

def toText (r : Report) : String :=
  r.toJson.pretty

end Report

/-! ## Reading -/

namespace Json

/-- The value of a field in a record whose fields are named in order: absent, or given once. The
outer `none` means that the value is no record or that the name is given twice. -/
def field? (fields : List String) (name : String) : Json → Option (Option Json)
  | array items =>
    if items.length = fields.length then some ((fields.zip items).lookup name) else none
  | object members =>
    match named name members with
    | [] => some none
    | [v] => some (some v)
    | _ => none
  | _ => none

def required {α : Type} (fields : List String) (name : String) (read : Json → Option α) (j : Json) :
    Option α :=
  match field? fields name j with
  | some (some v) => read v
  | _ => none

/-- A field that may be absent or null. -/
def allowed {α : Type} (fields : List String) (name : String) (read : Json → Option α) (j : Json) :
    Option (Option α) :=
  match field? fields name j with
  | some none | some (some null) => some none
  | some (some v) => (read v).map some
  | none => none

def listOf {α : Type} (read : Json → Option α) (j : Json) : Option (List α) :=
  j.array?.bind fun items => items.mapM read

/-- A word, given as text or as the one name of an object whose value is null. -/
def word? : Json → Option String
  | string w => some w
  | object [(w, null)] => some w
  | _ => none

end Json

def Summary.ofJson? (j : Json) : Option Summary := do
  let fields := ["totalAppRoutes", "totalPageRoutes", "totalUsedRoutes", "validRoutes",
    "brokenRoutes", "unusedRoutes", "externalRoutes", "dynamicRoutes", "specialRoutes"]
  let count name := Json.required fields name Json.count? j
  return {
    totalAppRoutes := ← count "totalAppRoutes"
    totalPageRoutes := ← count "totalPageRoutes"
    totalUsedRoutes := ← count "totalUsedRoutes"
    validRoutes := ← count "validRoutes"
    brokenRoutes := ← count "brokenRoutes"
    unusedRoutes := ← count "unusedRoutes"
    externalRoutes := ← count "externalRoutes"
    dynamicRoutes := ← count "dynamicRoutes"
    specialRoutes := ← count "specialRoutes" }

/-- The place of a reference that a value stands for. -/
def UsageSite.ofJson? (j : Json) : Option UsageSite := do
  let fields := ["file", "type", "line", "context"]
  return {
    file := ← j.required fields "file" Json.string?
    kind := ← j.required fields "type" fun v => v.word?.bind ReferenceKind.ofWord?
    line := ← j.required fields "line" Json.count?
    context := ← j.required fields "context" Json.string? }

/-- The broken path that a value stands for. -/
def BrokenRoute.ofJson? (j : Json) : Option BrokenRoute := do
  let fields := ["path", "cleanPath", "isDynamic", "usages", "issue"]
  return {
    path := ← j.required fields "path" Json.string?
    cleanPath := ← j.allowed fields "cleanPath" Json.string?
    isDynamic := ← j.required fields "isDynamic" Json.bool?
    usages := ← j.required fields "usages" (Json.listOf UsageSite.ofJson?)
    issue := ← j.required fields "issue" Json.string? }

/-- The unused page that a value stands for. -/
def UnusedRoute.ofJson? (j : Json) : Option UnusedRoute := do
  let fields := ["path", "file", "hasParams", "issue"]
  return {
    path := ← j.required fields "path" Json.string?
    file := ← j.required fields "file" Json.string?
    hasParams := ← j.required fields "hasParams" Json.bool?
    issue := ← j.required fields "issue" Json.string? }

/-- The interpolated path that a value stands for. -/
def DynamicRoute.ofJson? (j : Json) : Option DynamicRoute := do
  let fields := ["path", "cleanPath", "usages"]
  return {
    path := ← j.required fields "path" Json.string?
    cleanPath := ← j.allowed fields "cleanPath" Json.string?
    usages := ← j.required fields "usages" Json.count? }

/-- The declared route that a value stands for. -/
def AppRoute.ofJson? (j : Json) : Option AppRoute := do
  let fields := ["path", "file", "hasParams"]
  return {
    path := ← j.required fields "path" Json.string?
    file := ← j.required fields "file" Json.string?
    hasParams := ← j.required fields "hasParams" Json.bool? }

/-- The used path that a value stands for. -/
def UsedRoute.ofJson? (j : Json) : Option UsedRoute := do
  let fields := ["path", "cleanPath", "isDynamic", "usageCount", "files"]
  return {
    path := ← j.required fields "path" Json.string?
    cleanPath := ← j.allowed fields "cleanPath" Json.string?
    isDynamic := ← j.required fields "isDynamic" Json.bool?
    usageCount := ← j.required fields "usageCount" Json.count?
    files := ← j.required fields "files" (Json.listOf Json.string?) }

def Issue.ofJson? (j : Json) : Option Issue := do
  let fields := ["kind", "path", "message"]
  return {
    kind := ← j.required fields "kind" fun v => v.word?.bind IssueKind.ofWord?
    path := ← j.required fields "path" Json.string?
    message := ← j.required fields "message" Json.string? }

namespace Report

def ofJson? (j : Json) : Option Report := do
  let fields := ["generatedAt", "summary", "brokenRoutes", "unusedRoutes", "dynamicRoutes",
    "allAppRoutes", "allUsedRoutes", "errors"]
  return {
    generatedAt := ← j.required fields "generatedAt" Json.string?
    summary := ← j.required fields "summary" Summary.ofJson?
    brokenRoutes := ← j.required fields "brokenRoutes" (Json.listOf BrokenRoute.ofJson?)
    unusedRoutes := ← j.required fields "unusedRoutes" (Json.listOf UnusedRoute.ofJson?)
    dynamicRoutes := ← j.required fields "dynamicRoutes" (Json.listOf DynamicRoute.ofJson?)
    allAppRoutes := ← j.required fields "allAppRoutes" (Json.listOf AppRoute.ofJson?)
    allUsedRoutes := ← j.required fields "allUsedRoutes" (Json.listOf UsedRoute.ofJson?)
    errors := ← j.required fields "errors" (Json.listOf Issue.ofJson?) }

def ofText? (text : String) : Option Report :=
  (Json.parse? text).bind ofJson?

end Report

end RouteAudit
