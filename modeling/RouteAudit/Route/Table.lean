import RouteAudit.Route.Entry

/-!
# Route tables

A table is the ordered inventory of the declared routes. An address resolves to the entry that
accepts it by the earliest step, and among those to the first one in the table.
-/

namespace RouteAudit

/-- The declared routes in order. -/
structure RouteTable where
  entries : List RouteEntry := []
  deriving DecidableEq, Repr

/-- The entry that an address resolves to, its place in the table, and the step that found it. -/
structure RouteMatch where
  index : Nat
  entry : RouteEntry
  kind : MatchKind
  deriving DecidableEq, Repr

namespace RouteTable

def empty : RouteTable := {}

def push (t : RouteTable) (e : RouteEntry) : RouteTable :=
  ⟨t.entries ++ [e]⟩

def append (t : RouteTable) (es : List RouteEntry) : RouteTable :=
  ⟨t.entries ++ es⟩

def size (t : RouteTable) : Nat :=
  t.entries.length

def get? (t : RouteTable) (index : Nat) : Option RouteEntry :=
  t.entries[index]?

def pages (t : RouteTable) : RouteTable :=
  ⟨t.entries.filter (·.isPage)⟩

def pageCount (t : RouteTable) : Nat :=
  t.entries.countP (·.isPage)

/-- Whether some entry declares exactly this path. -/
def declares (t : RouteTable) (path : String) : Bool :=
  t.entries.any (·.declaredPath = path)

/-- Whether a page is declared at `/`. -/
def hasRootPage (t : RouteTable) : Bool :=
  t.entries.any fun e => e.isPage && e.isRoot

/-- The entries whose pattern does not compile, with the reason. -/
def malformed (t : RouteTable) : List (RouteEntry × MalformedPattern) :=
  t.entries.filterMap fun e =>
    match e.matcher with
    | .malformed error => some (e, error)
    | _ => none

/-- The first entry that accepts the address by the given step. -/
def findBy? (t : RouteTable) (kind : MatchKind) (address : String) : Option RouteMatch :=
  (t.entries.zipIdx.find? fun (e, _) => e.hits kind address).map fun (e, i) => ⟨i, e, kind⟩

/-- The entry that an address resolves to. -/
def find? (t : RouteTable) (address : String) : Option RouteMatch :=
  MatchKind.precedence.findSome? fun kind => t.findBy? kind address

/-- Whether an address resolves to some entry. -/
def resolves (t : RouteTable) (address : String) : Bool :=
  (t.find? address).isSome

/-- The step by which the entry at a place accepts the address. -/
def accepts? (t : RouteTable) (index : Nat) (address : String) : Option MatchKind :=
  (t.get? index).bind (·.accepts? address)

end RouteTable

end RouteAudit
