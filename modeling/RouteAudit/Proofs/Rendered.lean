import Mathlib.Data.List.Basic
import RouteAudit.Proofs.Interpolated
import RouteAudit.Proofs.Lines

/-!
# Extraction undoes rendering

A text is rendered from a list of items, one line for each: a link, a navigation call with a path or a
template, a constant with a template, and an object with a path. The references that the default
configuration finds in it are exactly those of the items, form by form and in the order of the lines
(`extractReferences_render`).

Proof. Each form has a sign that every match reads before its value: `<`, `(`, the backtick or `:`. A
line that the form does not read has no such sign and ends in a character that leads to none, so the
form yields nothing there, whatever the next line is (`Leads.yields`). In a line that it does read,
the form is silent up to the piece with the value and behind it (`yields_quotedLine`).
-/

namespace RouteAudit

/-! ## Items and their lines -/

/-- A character of a rendered path. -/
def isPathChar (c : Char) : Bool :=
  c.isAlphanum || c ∈ ['/', '-', '_', '.']

/-- A path from the root of plain characters. -/
structure PlainPath where
  text : List Char
  rooted : isRooted text = true
  plain : ∀ c ∈ text, isPathChar c = true

/-- An interpolated word and the plain text behind it. -/
structure TemplatePart where
  name : List Char
  ne_nil : name ≠ []
  word : ∀ c ∈ name, Text.isWord c = true
  tail : List Char
  plain : ∀ c ∈ tail, isPathChar c = true

def TemplatePart.text (part : TemplatePart) : List Char :=
  '$' :: '{' :: (part.name ++ '}' :: part.tail)

/-- A path from the root with interpolated words in it. -/
structure TemplatePath where
  start : PlainPath
  parts : List TemplatePart
  ne_nil : parts ≠ []

def TemplatePath.text (t : TemplatePath) : List Char :=
  t.start.text ++ t.parts.flatMap TemplatePart.text

/-- What a line is rendered from. -/
inductive Item where
  | link (p : PlainPath)
  | push (p : PlainPath)
  | assign (t : TemplatePath)
  | property (p : PlainPath)
  /-- A call that may stand without a semicolon. -/
  | pushTemplate (t : TemplatePath) (semicolon : Bool)

/-- Some code around a value in quotes. -/
def quotedLine (front : String) (quote : Char) (value : List Char) (back : String) : List Char :=
  front.toList ++ quote :: (value ++ quote :: back.toList)

namespace Item

def line : Item → List Char
  | link p => quotedLine "<Link href=" doubleQuote p.text ">"
  | push p => quotedLine "router.push(" doubleQuote p.text ");"
  | assign t => quotedLine "const u = " backtick t.text ";"
  | property p => quotedLine "\x7b href: " doubleQuote p.text " \x7d"
  | pushTemplate t semicolon =>
    quotedLine "router.push(" backtick t.text (if semicolon then ");" else ")")

/-- The address that the item gives in the form of the kind. -/
def value? : ReferenceKind → Item → Option (List Char)
  | .link, link p => some p.text
  | .navigation, push p => some p.text
  | .navigation, pushTemplate t _ => some t.text
  | .template, assign t => some t.text
  | .template, pushTemplate t _ => some t.text
  | .property, property p => some p.text
  | _, _ => none

end Item

/-- The lines of the items. -/
def render (items : List Item) : String :=
  String.ofList (['\n'].intercalate (items.map Item.line))

/-! ## What stands in a line -/

/-- A character of an address in a line. -/
def isAddressChar (c : Char) : Bool :=
  isPathChar c || Text.isWord c || c ∈ ['$', '\x7b', '}']

theorem PlainPath.chars (p : PlainPath) : ∀ c ∈ p.text, isAddressChar c = true := by
  intro c hc
  simp [isAddressChar, p.plain c hc]

theorem TemplatePart.chars (part : TemplatePart) : ∀ c ∈ part.text, isAddressChar c = true := by
  intro c hc
  simp only [text, List.mem_cons, List.mem_append] at hc
  rcases hc with rfl | rfl | hc | rfl | hc
  · rfl
  · rfl
  · simp [isAddressChar, part.word c hc]
  · rfl
  · simp [isAddressChar, part.plain c hc]

theorem TemplatePath.chars (t : TemplatePath) : ∀ c ∈ t.text, isAddressChar c = true := by
  intro c hc
  rcases List.mem_append.mp hc with hc | hc
  · exact t.start.chars c hc
  · obtain ⟨part, -, hc⟩ := List.mem_flatMap.mp hc
    exact part.chars c hc

/-- A template path is a path from the root with an interpolation. -/
theorem TemplatePath.isRootedTemplate_text (t : TemplatePath) : isRootedTemplate t.text = true := by
  obtain ⟨part, parts, hparts⟩ := List.exists_cons_of_ne_nil t.ne_nil
  have hrooted : t.start.text.head? = some '/' := of_decide_eq_true t.start.rooted
  rw [isRootedTemplate, isRooted, text, hparts, List.flatMap_cons, TemplatePart.text,
    List.cons_append, List.cons_append, Address.hasInterpolation_append]
  simp [hrooted]

section QuotedLine

variable {front back : String} {quote c : Char} {value : List Char}

theorem notMem_address (hvalue : ∀ e ∈ value, isAddressChar e = true)
    (hc : isAddressChar c = false) : c ∉ value := by
  intro hmem
  rw [hvalue c hmem] at hc
  cases hc

/-- A character that no address has is in a line only if it is in the code. -/
theorem notMem_quotedLine (hvalue : ∀ e ∈ value, isAddressChar e = true)
    (hc : isAddressChar c = false) (hcode : c ∉ quotedLine front quote [] back) :
    c ∉ quotedLine front quote value back := by
  have hmem := notMem_address hvalue hc
  simp_all [quotedLine]

theorem getLast?_quotedLine {z : Char} (hback : back.toList.getLast? = some z) :
    (quotedLine front quote value back).getLast? = some z := by
  simp [quotedLine, List.getLast?_append, List.getLast?_cons, hback]

theorem dropWhile_eq_self {p : Char → Bool} {s : List Char} (h : ∀ c ∈ s.head?, p c = false) :
    s.dropWhile p = s := by
  cases s with
  | nil => rfl
  | cons c r => rw [List.dropWhile_cons_of_neg (by simp [h c rfl])]

/-- A text without blanks at its ends is not trimmed. -/
theorem trim_eq_self {s : List Char} (hhead : ∀ c ∈ s.head?, Text.isBlank c = false)
    (hlast : ∀ c ∈ s.getLast?, Text.isBlank c = false) : Text.trim s = s := by
  rw [← List.head?_reverse] at hlast
  rw [Text.trim, Text.trimEnd, dropWhile_eq_self hhead, dropWhile_eq_self hlast,
    List.reverse_reverse]

end QuotedLine

/-! ## The default forms -/

open Shape

/-- A character that a match may read before its sign. -/
def isLead (c : Char) : Bool :=
  c.isAlpha || c ∈ ['.', '=', ':', '\x7b', '('] || Text.isBlank c

theorem isLead_of_isBlank {c : Char} (h : Text.isBlank c = true) : isLead c = true := by
  rw [isLead, h, Bool.or_true]

namespace ReferenceKind

/-- A method that the default configuration takes for a navigation. -/
def defaultMethod : Shape :=
  methodShape defaultHandle (Shape.word (defaultVerbs.map String.toList))

/-- A function that the default configuration takes for a navigation. -/
def defaultFunction : Shape :=
  seq boundary (Shape.word (defaultFunctions.map String.toList))

/-- The shapes of the default configuration. -/
def defaultShape : ReferenceKind → Shape
  | link => linkShape (Shape.word (defaultElements.map String.toList))
  | navigation => navigationShape (choice defaultMethod defaultFunction)
  | template => templateShape (defaultVerbs ++ defaultFunctions)
  | property => propertyShape (Shape.word (defaultKeys.map String.toList))

/-- The words that a match of the default shape begins with. -/
def openings : ReferenceKind → List (List Char)
  | link => [['<']]
  | navigation => [defaultHandle.toList] ++ defaultFunctions.map String.toList
  | template => [['='], [':']] ++ (defaultVerbs ++ defaultFunctions).map String.toList
  | property => defaultKeys.map String.toList

/-- The sign that a match of the default shape reads before its value. -/
def sign : ReferenceKind → Char
  | link => '<'
  | navigation => '('
  | template => backtick
  | property => ':'

theorem begins_defaultShape (kind : ReferenceKind) : kind.defaultShape.Begins kind.openings := by
  cases kind with
  | link => exact begins_word.seq _
  | navigation => exact ((begins_word.seq _).boundary.choice begins_word.boundary).seq _
  | template => exact ((begins_word.seq _).choice (begins_word.seq _).boundary).seq _
  | property => exact (begins_word.seq _).boundary

theorem leads_defaultShape (kind : ReferenceKind) : kind.defaultShape.Leads isLead kind.sign := by
  have hblanks : blanks.ReadsOnly isLead := fun c => isLead_of_isBlank
  cases kind with
  | link => exact leads_sign _
  | navigation =>
    refine ((leads_sign _).seq hblanks).seq ⟨⟨trivial, ?_, hblanks, ?_, hblanks, ?_⟩, trivial, ?_⟩
    all_goals exact readsOnly_word (by decide)
  | template =>
    refine leads_quoted.seq ⟨⟨?_, hblanks, ⟨?_, hblanks⟩, ?_⟩, trivial, ?_, hblanks, ?_, hblanks⟩
    all_goals exact readsOnly_word (by decide)
  | property => exact (((leads_sign _).seq hblanks).seq (readsOnly_word (by decide))).seq trivial

end ReferenceKind

theorem ofConfig_default :
    Form.ofConfig {} = ReferenceKind.all.map fun kind => ⟨kind, kind.defaultShape⟩ := rfl

/-! ## Lines that a form reads -/

section Pieces

variable {done rest v : List Char} {quote : Char}

/-- The shape is silent in a line up to the piece with the value and behind it. -/
theorem yields_quotedLine {s : Shape} {words : List (List Char)} {code back : String}
    {front piece : List Char} (hs : s.Begins words) (hcode : code.toList = front ++ piece)
    (hfront : Clear words front) (hback : Clear words back.toList)
    (hpiece : ∀ done rest, LineStart done →
      s.Prefers ⟨front.reverse ++ done, piece ++ quote :: (v ++ quote :: rest)⟩
        ⟨some v, ⟨quote :: (v.reverse ++ quote :: (piece.reverse ++ (front.reverse ++ done))), rest⟩⟩) :
    s.Yields (quotedLine code quote v back) (some v) := by
  have hline : quotedLine code quote v back =
      front ++ ((piece ++ quote :: (v ++ [quote])) ++ back.toList) := by
    simp [quotedLine, hcode]
  rw [hline]
  refine yields_some (by simp) (fun _ _ => hs.silentOn hfront) (fun done rest hdone => ?_)
    fun _ _ => hs.silentOn hback
  simpa using hpiece done rest hdone

theorem prefers_link (hv : doubleQuote ∉ v) :
    ReferenceKind.link.defaultShape.Prefers
      ⟨done, "<Link href=".toList ++ doubleQuote :: (v ++ doubleQuote :: rest)⟩
      ⟨some v, ⟨doubleQuote :: (v.reverse ++ doubleQuote :: ("<Link href=".toList.reverse ++ done)),
        rest⟩⟩ := by
  have hvalue : (anyQuoted doubleQuote).Prefers _ _ :=
    prefers_quoted hv rfl ("<Link href=".toList.reverse ++ done) rest
  -- The code is known, so each part finds its place by computation; the run of attributes first tries
  -- to end in front of the blank, where no attribute begins.
  refine Prefers.seq rfl (.seq rfl (.seq rfl (.shortRun_cons (.shortRun ?_) rfl rfl)))
  exact .seq rfl (.seq rfl (.seq rfl (.seq rfl (.seq rfl (hvalue.choice_left _)))))

/-- The value of a navigation call may stand in any quotes. -/
theorem prefers_argument (hquote : quote ∈ [doubleQuote, backtick]) (hv : quote ∉ v)
    (done rest : List Char) :
    (oneOf [anyQuoted doubleQuote, anyQuoted singleQuote, anyQuoted backtick]).Prefers
      ⟨done, quote :: (v ++ quote :: rest)⟩
      ⟨some v, ⟨quote :: (v.reverse ++ quote :: done), rest⟩⟩ := by
  have hvalue : (anyQuoted quote).Prefers _ _ := prefers_quoted hv rfl done rest
  rcases List.mem_pair.mp hquote with rfl | rfl
  · exact hvalue.choice_left _
  · exact (hvalue.choice_right rfl).choice_right rfl

/-- At the start of a line the handle begins a word. -/
theorem prefers_method (hdone : LineStart done) (rest : List Char) :
    ReferenceKind.defaultMethod.Prefers
      ⟨done, "router.push(".toList ++ rest⟩
      ⟨none, ⟨"router.push".toList.reverse ++ done, '(' :: rest⟩⟩ := by
  have hboundary : boundary.Prefers ⟨done, "router.push(".toList ++ rest⟩
      ⟨none, ⟨done, "router.push(".toList ++ rest⟩⟩ := by
    -- Neither the start of the text nor a line break belongs to a word.
    rcases hdone with rfl | ⟨d, rfl⟩ <;> rfl
  exact hboundary.seq (.seq rfl (.seq rfl (.seq rfl (.seq rfl rfl))))

theorem prefers_push (hdone : LineStart done) (hquote : quote ∈ [doubleQuote, backtick])
    (hv : quote ∉ v) :
    ReferenceKind.navigation.defaultShape.Prefers
      ⟨done, "router.push(".toList ++ quote :: (v ++ quote :: rest)⟩
      ⟨some v, ⟨quote :: (v.reverse ++ quote :: ("router.push(".toList.reverse ++ done)), rest⟩⟩ := by
  have hvalue := prefers_argument hquote hv ("router.push(".toList.reverse ++ done) rest
  have hcallee := (prefers_method hdone (quote :: (v ++ quote :: rest))).choice_left
    ReferenceKind.defaultFunction
  refine hcallee.seq (.seq rfl (.seq rfl (.seq ?_ hvalue)))
  rcases List.mem_pair.mp hquote with rfl | rfl <;> rfl

theorem prefers_assigned (hv : backtick ∉ v) (htest : isRootedTemplate v = true) :
    ReferenceKind.template.defaultShape.Prefers
      ⟨done, "= ".toList ++ backtick :: (v ++ backtick :: rest)⟩
      ⟨some v, ⟨backtick :: (v.reverse ++ backtick :: ("= ".toList.reverse ++ done)), rest⟩⟩ :=
  .seq rfl (prefers_quoted hv htest _ rest)

theorem prefers_pushed (hv : backtick ∉ v) (htest : isRootedTemplate v = true) :
    ReferenceKind.template.defaultShape.Prefers
      ⟨"router.".toList.reverse ++ done, "push(".toList ++ backtick :: (v ++ backtick :: rest)⟩
      ⟨some v, ⟨backtick :: (v.reverse ++ backtick ::
        ("push(".toList.reverse ++ ("router.".toList.reverse ++ done))), rest⟩⟩ :=
  .seq rfl (prefers_quoted hv htest _ rest)

theorem prefers_property (hv : doubleQuote ∉ v) (htest : isRooted v = true) :
    ReferenceKind.property.defaultShape.Prefers
      ⟨"\x7b ".toList.reverse ++ done, "href: ".toList ++ doubleQuote :: (v ++ doubleQuote :: rest)⟩
      ⟨some v, ⟨doubleQuote :: (v.reverse ++ doubleQuote ::
        ("href: ".toList.reverse ++ ("\x7b ".toList.reverse ++ done))), rest⟩⟩ := by
  have hvalue := prefers_quoted hv htest ("href: ".toList.reverse ++ ("\x7b ".toList.reverse ++ done)) rest
  exact .seq rfl (.seq rfl (.seq rfl (.seq rfl (.seq rfl (hvalue.choice_left _)))))

end Pieces

/-! ## Every line of an item -/

namespace Item

variable {kind : ReferenceKind}

/-- A line that gives no address in the form of a kind does not hold its sign. -/
theorem sign_notMem_line (item : Item) (h : item.value? kind = none) : kind.sign ∉ item.line := by
  have hsign : isAddressChar kind.sign = false := by cases kind <;> decide
  cases item with
  | link p =>
    cases kind with
    | link => cases h
    | _ => exact notMem_quotedLine p.chars hsign (by decide)
  | push p =>
    cases kind with
    | navigation => cases h
    | _ => exact notMem_quotedLine p.chars hsign (by decide)
  | assign t =>
    cases kind with
    | template => cases h
    | _ => exact notMem_quotedLine t.chars hsign (by decide)
  | property p =>
    cases kind with
    | property => cases h
    | _ => exact notMem_quotedLine p.chars hsign (by decide)
  | pushTemplate t semicolon =>
    cases kind with
    | navigation | template => cases h
    | _ => exact notMem_quotedLine t.chars hsign (by cases semicolon <;> decide)

theorem newline_notMem_line (item : Item) : '\n' ∉ item.line := by
  cases item with
  | link p | push p | property p => exact notMem_quotedLine p.chars rfl (by decide)
  | assign t => exact notMem_quotedLine t.chars rfl (by decide)
  | pushTemplate t semicolon =>
    exact notMem_quotedLine t.chars rfl (by cases semicolon <;> decide)

/-- A line ends in a character that leads to no sign. -/
theorem exists_getLast?_line (item : Item) :
    ∃ z, item.line.getLast? = some z ∧ isLead z = false := by
  cases item with
  | pushTemplate t semicolon =>
    cases semicolon <;> exact ⟨_, getLast?_quotedLine rfl, by decide⟩
  | _ => exact ⟨_, getLast?_quotedLine rfl, by decide⟩

/-- A line has no blanks around it. -/
theorem trim_line (item : Item) : Text.trim item.line = item.line := by
  have hhead : ∀ c ∈ item.line.head?, Text.isBlank c = false := by
    intro c hc
    cases item <;> (obtain rfl := Option.some.inj hc; rfl)
  refine trim_eq_self hhead fun z hlast => ?_
  obtain ⟨z', hlast', hz⟩ := item.exists_getLast?_line
  obtain rfl : z' = z := Option.some.inj (hlast'.symm.trans hlast)
  by_contra hblank
  rw [isLead_of_isBlank (by simpa using hblank)] at hz
  cases hz

/-- A line yields the address of its item, and only in the forms that the item has one in. -/
theorem yields_line (kind : ReferenceKind) (item : Item) :
    kind.defaultShape.Yields item.line (item.value? kind) := by
  cases hvalue : item.value? kind with
  | none =>
    obtain ⟨z, hlast, hz⟩ := item.exists_getLast?_line
    exact kind.leads_defaultShape.yields (item.sign_notMem_line hvalue) hlast hz
  | some v =>
    have hbegins := kind.begins_defaultShape
    cases kind with
    | link =>
      cases item with
      | link p =>
        obtain rfl := Option.some.inj hvalue
        exact yields_quotedLine hbegins (List.nil_append _).symm (by decide) (by decide)
          fun done rest _ => prefers_link (notMem_address p.chars rfl)
      | _ => cases hvalue
    | navigation =>
      cases item with
      | push p =>
        obtain rfl := Option.some.inj hvalue
        exact yields_quotedLine hbegins (List.nil_append _).symm (by decide) (by decide)
          fun done rest hdone => prefers_push hdone (by decide) (notMem_address p.chars rfl)
      | pushTemplate t semicolon =>
        obtain rfl := Option.some.inj hvalue
        exact yields_quotedLine hbegins (List.nil_append _).symm (by decide)
          (by cases semicolon <;> decide)
          fun done rest hdone => prefers_push hdone (by decide) (notMem_address t.chars rfl)
      | _ => cases hvalue
    | template =>
      cases item with
      | assign t =>
        obtain rfl := Option.some.inj hvalue
        exact yields_quotedLine hbegins (rfl : _ = "const u ".toList ++ "= ".toList) (by decide)
          (by decide) fun done rest _ =>
            prefers_assigned (notMem_address t.chars rfl) t.isRootedTemplate_text
      | pushTemplate t semicolon =>
        obtain rfl := Option.some.inj hvalue
        exact yields_quotedLine hbegins (rfl : _ = "router.".toList ++ "push(".toList) (by decide)
          (by cases semicolon <;> decide) fun done rest _ =>
            prefers_pushed (notMem_address t.chars rfl) t.isRootedTemplate_text
      | _ => cases hvalue
    | property =>
      cases item with
      | property p =>
        obtain rfl := Option.some.inj hvalue
        exact yields_quotedLine hbegins (rfl : _ = "\x7b ".toList ++ "href: ".toList) (by decide)
          (by decide) fun done rest _ => prefers_property (notMem_address p.chars rfl) p.rooted
      | _ => cases hvalue

end Item

/-- **Extraction undoes rendering.** In the lines of some items the default configuration finds exactly
the addresses of the items, form by form, each with the number and the text of its line. -/
theorem extractReferences_render (items : List Item) (file : String) :
    extractReferences (Form.ofConfig {}) (render items) file =
      ReferenceKind.all.flatMap fun kind => items.zipIdx.filterMap fun i =>
        (i.1.value? kind).map fun v => Reference.ofRaw (String.ofList v) kind file (i.2 + 1)
          (String.ofList i.1.line) := by
  rw [ofConfig_default, extractReferences, List.flatMap_map]
  refine List.flatMap_congr fun kind _ => ?_
  have hbreak : ∀ done rest, kind.defaultShape.hits ⟨done, '\n' :: rest⟩ = [] := fun done rest =>
    (kind.begins_defaultShape.silentOn (by cases kind <;> decide) : SilentOn _ done ['\n'] rest).1
  let form : Form := ⟨kind, kind.defaultShape⟩
  have hlines : form.references (['\n'].intercalate (items.map Item.line)) file =
      items.zipIdx.filterMap fun i => form.lineReference? file i.1.line (i.1.value? kind) i.2 :=
    Form.references_lines hbreak (fun item _ => item.yields_line kind)
      fun item _ => item.newline_notMem_line
  rw [render, String.toList_ofList, hlines]
  refine List.filterMap_congr fun i _ => ?_
  rw [Form.lineReference?, i.1.trim_line]

/-- One line of each form, and a second call with a template; the template has two interpolations. -/
theorem extractReferences_render_members :
    let members : PlainPath := ⟨"/members".toList, rfl, List.all_eq_true.mp rfl⟩
    let post : TemplatePath :=
      { start := ⟨"/m/".toList, rfl, List.all_eq_true.mp rfl⟩
        parts := [
          ⟨"id".toList, by decide, List.all_eq_true.mp rfl, "/posts/".toList, List.all_eq_true.mp rfl⟩,
          ⟨"post".toList, by decide, List.all_eq_true.mp rfl, ".json".toList, List.all_eq_true.mp rfl⟩]
        ne_nil := List.cons_ne_nil _ _ }
    let text := render [.link members, .push members, .assign post, .property members,
      .pushTemplate post false, .pushTemplate post true]
    text = "<Link href=\x22/members\x22>\nrouter.push(\x22/members\x22);\n" ++
        "const u = `/m/${id}/posts/${post}.json`;\n\x7b href: \x22/members\x22 \x7d\n" ++
        "router.push(`/m/${id}/posts/${post}.json`)\nrouter.push(`/m/${id}/posts/${post}.json`);" ∧
      (extractReferences (Form.ofConfig {}) text "src/nav.tsx").map (fun r => (r.kind, r.raw, r.line)) =
        [(.link, "/members", 1), (.navigation, "/members", 2),
          (.navigation, "/m/${id}/posts/${post}.json", 5), (.navigation, "/m/${id}/posts/${post}.json", 6),
          (.template, "/m/${id}/posts/${post}.json", 3), (.template, "/m/${id}/posts/${post}.json", 5),
          (.template, "/m/${id}/posts/${post}.json", 6), (.property, "/members", 4)] := by
  intro members post text
  refine ⟨by decide +kernel, ?_⟩
  rw [extractReferences_render]
  decide

end RouteAudit
