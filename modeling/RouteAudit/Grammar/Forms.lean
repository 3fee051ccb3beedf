import RouteAudit.Address
import RouteAudit.Config.Basic
import RouteAudit.Grammar.LineIndex
import RouteAudit.Grammar.Shape
import RouteAudit.Reference

/-!
# The four forms of references

A route is written as the target attribute of a markup element, as the argument of a navigation
call, as an interpolated template text, or as the value of an object key. The words of each form
come from the configuration; a form without words is left out.
-/

namespace RouteAudit

open Shape

def doubleQuote : Char := '\x22'

def singleQuote : Char := '\x27'

def backtick : Char := '\x60'

def blanks : Shape := run Text.isBlank

/-- One of the words, if there are any. -/
def anyWord? (words : List String) : Option Shape :=
  if words = [] then none else some (word (words.map String.toList))

/-- A value in quotes of the given kind. -/
def anyQuoted (quote : Char) : Shape := quoted quote fun _ => true

def braced (value : Shape) : Shape :=
  inOrder [literal "\x7b", blanks, value, blanks, literal "\x7d"]

/-- Whether the value is a path from the root. -/
def isRooted (value : List Char) : Bool :=
  value.head? = some '/'

/-- Whether the value is a path from the root with an interpolation. -/
def isRootedTemplate (value : List Char) : Bool :=
  isRooted value && Address.hasInterpolation value

/-- The `href` attribute of a markup element. -/
def linkShape (element : Shape) : Shape :=
  inOrder [literal "<", element, boundary, shortRun (· ≠ '>'), boundary, literal "href", blanks,
    literal "=", blanks,
    oneOf [anyQuoted doubleQuote, anyQuoted singleQuote, braced (anyQuoted doubleQuote),
      braced (anyQuoted singleQuote), braced (anyQuoted backtick)]]

/-- The name of a method: the handle, a dot and a verb. -/
def methodShape (handle : String) (verb : Shape) : Shape :=
  inOrder [boundary, literal handle, blanks, literal ".", blanks, verb]

/-- What is called to navigate: a method of the handle or a function. -/
def calleeShape? (handle : String) (verbs functions : List String) : Option Shape :=
  let method := (if handle.isEmpty then none else anyWord? verbs).map (methodShape handle)
  let function := (anyWord? functions).map fun f => seq boundary f
  match method, function with
  | none, none => none
  | some m, none => some m
  | none, some f => some f
  | some m, some f => some (choice m f)

/-- A call with a quoted first argument. -/
def navigationShape (callee : Shape) : Shape :=
  inOrder [callee, blanks, literal "(", blanks,
    oneOf [anyQuoted doubleQuote, anyQuoted singleQuote, anyQuoted backtick]]

/-- What a template text follows: an equals sign or a colon, perhaps with a brace, or the opening
parenthesis of a navigation call. -/
def openerShape (calls : List String) : Shape :=
  let sign := inOrder [word [['='], [':']], blanks, oneOf [seq (literal "\x7b") blanks, nothing]]
  match anyWord? calls with
  | none => sign
  | some call => choice sign (inOrder [boundary, call, blanks, literal "(", blanks])

/-- A template text that is a path with an interpolation. -/
def templateShape (calls : List String) : Shape :=
  seq (openerShape calls) (quoted backtick isRootedTemplate)

/-- An object key with a path for its value. -/
def propertyShape (key : Shape) : Shape :=
  inOrder [boundary, key, blanks, literal ":", blanks,
    oneOf [quoted doubleQuote isRooted, quoted singleQuote isRooted]]

/-- A form of references with its shape. -/
structure Form where
  kind : ReferenceKind
  shape : Shape

namespace Form

/-- The shape of the references of a kind, if the configuration has words for it. -/
def shape? (config : ScannerConfig) : ReferenceKind → Option Shape
  | .link => (anyWord? config.linkElements).map linkShape
  | .navigation =>
    (calleeShape? config.navigationHandle config.navigationVerbs config.navigationFunctions).map
      navigationShape
  | .template => some (templateShape (config.navigationVerbs ++ config.navigationFunctions))
  | .property => (anyWord? config.linkKeys).map propertyShape

/-- The forms that a configuration gives words for, in the order of their kinds. A limit on the size of a
form is left out, so no list of words is refused. -/
def ofConfig (config : ScannerConfig) : List Form :=
  ReferenceKind.all.filterMap fun kind => (shape? config kind).map (⟨kind, ·⟩)

/-- The reference for a match, with the line on which the match begins. The index has a text for this
line if it is the index of the text of the match. -/
def referenceOf? (form : Form) (lines : LineIndex) (file : String) (m : Shape.Match) :
    Option Reference :=
  m.value.map fun value =>
    let line := lines.lineOf m.start.byteOffset
    Reference.ofRaw (String.ofList value) form.kind file line
      (String.ofList ((lines.textOf? line).getD []))

/-- The references of one form in a text, in the order of the text. -/
def references (form : Form) (content : List Char) (file : String) : List Reference :=
  (form.shape.matchesIn content).filterMap (form.referenceOf? (.ofText content) file)

end Form

/-- The references in the text of a file, form by form. -/
def extractReferences (forms : List Form) (content file : String) : List Reference :=
  forms.flatMap fun form => form.references content.toList file

end RouteAudit
