import RouteAudit.Toml.Draft
import RouteAudit.Toml.Scalar

/-!
# Reading TOML

`parse?` reads a document: lines with keys and values, headers of tables, comments, and blank
lines. A byte-order mark in front is passed over. Arrays and tables in braces nest at most 79
levels deep, and a dotted key has at most 79 parts.
-/

namespace RouteAudit.Toml

/-- The greatest number of levels, and of parts of a key. -/
def maxLevels : Nat := 79

/-! ## Blanks, comments and line ends -/

/-- The text after a comment, if it begins with one. -/
def afterComment (s : List Char) : List Char :=
  match s with
  | '#' :: r => r.dropWhile isText
  | _ => s

/-- The text after the end of a line: blanks, perhaps a comment, and a line break or the end. -/
def afterLine? (s : List Char) : Option (List Char) :=
  match afterComment (skipSpace s) with
  | [] => some []
  | r => afterNewline? r

/-- The text after blanks, comments and line breaks; the number bounds the steps. -/
def skipFree : Nat → List Char → List Char
  | 0, s => s
  | n + 1, s =>
    match skipSpace s with
    | '#' :: r =>
      match afterNewline? (r.dropWhile isText) with
      | some rest => skipFree n rest
      | none => '#' :: r
    | r =>
      match afterNewline? r with
      | some rest => skipFree n rest
      | none => r

/-! ## Keys -/

def readKeyPart (steps : Nat) (s : List Char) : Option (String × List Char) :=
  match s with
  | [] => none
  | c :: _ =>
    if c = '"' ∨ c = '\'' then
      (readShortString steps s).map fun (text, rest) => (String.ofList text, rest)
    else
      let text := s.takeWhile isBareKey
      if text = [] then none else some (String.ofList text, s.dropWhile isBareKey)

/-- A key: parts with dots between them. Blanks may stand around each part. -/
def readKey : Nat → List Char → Option (List String × List Char)
  | 0, _ => none
  | n + 1, s =>
    match readKeyPart n (skipSpace s) with
    | none => none
    | some (part, rest) =>
      match skipSpace rest with
      | '.' :: r => (readKey n r).map fun (parts, rest) => (part :: parts, rest)
      | r => some ([part], r)

def readPath (steps : Nat) (s : List Char) : Option (List String × List Char) :=
  (readKey steps s).bind fun (path, rest) =>
    if path.length ≤ maxLevels then some (path, rest) else none

/-! ## Values -/

mutual

/-- A value. The first number bounds the steps, the second the levels. -/
def readValue : Nat → Nat → List Char → Option (Toml × List Char)
  | 0, _, _ => none
  | steps + 1, levels, s =>
    match s with
    | '[' :: r =>
      match levels with
      | 0 => none
      | levels + 1 => (readItems steps levels r).map fun (vs, rest) => (array vs, rest)
    | '{' :: r =>
      match levels with
      | 0 => none
      | levels + 1 =>
        match skipSpace r with
        | '}' :: r => some (table [], r)
        | r => (readEntries steps levels r (Draft.new .stated)).map fun (d, rest) =>
            (d.finish, rest)
    | s => readScalar steps s

/-- The items of an array up to its closing bracket; a comma may stand before it. -/
def readItems : Nat → Nat → List Char → Option (List Toml × List Char)
  | 0, _, _ => none
  | steps + 1, levels, s =>
    match skipFree steps s with
    | ']' :: r => some ([], r)
    | r =>
      match readValue steps levels r with
      | none => none
      | some (v, rest) =>
        match skipFree steps rest with
        | ',' :: r => (readItems steps levels r).map fun (vs, rest) => (v :: vs, rest)
        | ']' :: r => some ([v], r)
        | _ => none

/-- The entries of a table in braces, added to those before them. -/
def readEntries : Nat → Nat → List Char → Draft → Option (Draft × List Char)
  | 0, _, _, _ => none
  | steps + 1, levels, s, d =>
    match readPath steps s with
    | none => none
    | some (path, rest) =>
      match rest with
      | '=' :: r =>
        match readValue steps levels (skipSpace r) with
        | none => none
        | some (v, rest) =>
          match d.insert path v with
          | none => none
          | some d =>
            match skipSpace rest with
            | ',' :: r => readEntries steps levels r d
            | '}' :: r => some (d, r)
            | _ => none
      | _ => none

end

/-! ## Documents -/

/-- A document that is being read: its tables, and the path of the table that the lines add to. -/
structure Reading where
  document : Draft
  current : List String

def readLine (steps : Nat) (state : Reading) (s : List Char) : Option (Reading × List Char) :=
  match s with
  | '[' :: '[' :: r => do
    let (path, rest) ← readPath steps r
    match rest with
    | ']' :: ']' :: rest =>
      let rest ← afterLine? rest
      let document ← state.document.repeatTable path
      return (⟨document, path⟩, rest)
    | _ => none
  | '[' :: r => do
    let (path, rest) ← readPath steps r
    match rest with
    | ']' :: rest =>
      let rest ← afterLine? rest
      let document ← state.document.stateTable path
      return (⟨document, path⟩, rest)
    | _ => none
  | s => do
    let (path, rest) ← readPath steps s
    match rest with
    | '=' :: r =>
      let (v, rest) ← readValue steps maxLevels (skipSpace r)
      let rest ← afterLine? rest
      let document ← state.document.changeAt (Draft.insert path v) state.current
      return (⟨document, state.current⟩, rest)
    | _ => none

/-- Reads the lines up to the end of the text. -/
def readLines : Nat → Reading → List Char → Option Draft
  | 0, _, _ => none
  | steps + 1, state, s =>
    match skipFree steps s with
    | [] => some state.document
    | '#' :: r => if r.all isText then some state.document else none
    | r =>
      match readLine steps state r with
      | some (next, rest) => readLines steps next rest
      | none => none

/-- The text after a byte-order mark, if it begins with one. -/
def skipMark (s : List Char) : List Char :=
  match s with
  | '\uFEFF' :: r => r
  | _ => s

def parse? (text : String) : Option Toml :=
  let s := skipMark text.toList
  (readLines (3 * s.length + 3) ⟨.new .stated, []⟩ s).map Draft.finish

end RouteAudit.Toml
