import Mathlib.Data.List.Basic
import RouteAudit.Proofs.TomlValue

/-!
# TOML documents read back

A document of sections is read back as the table of their tables, if all names differ and stand without
quotes and all values can be written (`parse?_printSections`).

Proof. A header adds an empty table to what is read so far (`stateTable_tablesDraft`), and the line of a
field adds one entry to the last table (`changeAt_tablesDraft`); both need only that the name is new. So the
fields of a section are read line by line (`readLines_fields`) and the document section by section
(`readLines_printSections`). No line begins with a blank or a comment (`BeginsLine`), so just the empty
lines between the sections are passed over.
-/

namespace RouteAudit.Toml

/-! ## Tables that are added to -/

/-- A table with fields. -/
def fieldsTable (fields : List (String × Toml)) : Draft :=
  .mk .stated (fields.map fun f => (f.1, .leaf f.2))

/-- A document with tables of fields. -/
def tablesDraft (tables : List (String × List (String × Toml))) : Draft :=
  .mk .stated (tables.map fun t => (t.1, .table (fieldsTable t.2)))

section Draft

open Draft

variable {α β : Type} {key name : String} {value : Toml} {fields : List (String × Toml)}
  {tables : List (String × List (String × Toml))}

theorem lookup_eq_none {entries : List (String × α)} (h : key ∉ entries.map Prod.fst) :
    entries.lookup key = none := by
  rw [List.lookup_eq_none_iff]
  intro e he
  simpa using fun hkey : key = e.1 => h (hkey ▸ List.mem_map_of_mem he)

theorem setEntry_of_notMem {entries : List (String × Item)} (h : key ∉ entries.map Prod.fst)
    (item : Item) : setEntry key item entries = entries ++ [(key, item)] := by
  induction entries with
  | nil => rfl
  | cons e entries ih =>
    rw [List.map_cons, List.mem_cons, not_or] at h
    rw [setEntry, if_neg (Ne.symm h.1), ih h.2, List.cons_append]

theorem setEntry_append_self {entries : List (String × Item)} (h : key ∉ entries.map Prod.fst)
    (old item : Item) : setEntry key item (entries ++ [(key, old)]) = entries ++ [(key, item)] := by
  induction entries with
  | nil => simp [setEntry]
  | cons e entries ih =>
    rw [List.map_cons, List.mem_cons, not_or] at h
    rw [List.cons_append, setEntry, if_neg (Ne.symm h.1), ih h.2, List.cons_append]

/-- A header adds a table without fields. -/
theorem stateTable_tablesDraft (h : name ∉ tables.map Prod.fst) :
    stateTable [name] (tablesDraft tables) = some (tablesDraft (tables ++ [(name, [])])) := by
  have hkeys : name ∉ (tables.map fun t => (t.1, Item.table (fieldsTable t.2))).map Prod.fst := by
    simpa using h
  have hget : (tablesDraft tables).get? name = none := lookup_eq_none hkeys
  have hstate : stateTable [name] (tablesDraft tables) = stateKey name (tablesDraft tables) := rfl
  rw [hstate, stateKey, hget]
  refine congrArg some ?_
  rw [Draft.set, tablesDraft, Draft.entries, setEntry_of_notMem hkeys, tablesDraft, List.map_append]
  rfl

/-- A line adds a field to the table of the last header. -/
theorem changeAt_tablesDraft (hname : name ∉ tables.map Prod.fst) (hkey : key ∉ fields.map Prod.fst) :
    changeAt (Draft.insert [key] value) [name] (tablesDraft (tables ++ [(name, fields)])) =
      some (tablesDraft (tables ++ [(name, fields ++ [(key, value)])])) := by
  have hnames : name ∉ (tables.map fun t => (t.1, Item.table (fieldsTable t.2))).map Prod.fst := by
    simpa using hname
  have hkeys : key ∉ (fields.map fun f => (f.1, Item.leaf f.2)).map Prod.fst := by
    simpa using hkey
  have hget : (tablesDraft (tables ++ [(name, fields)])).get? name = some (.table (fieldsTable fields)) := by
    rw [Draft.get?, tablesDraft, Draft.entries, List.map_append, List.lookup_append, lookup_eq_none hnames]
    simp
  have hinsert : Draft.insert [key] value (fieldsTable fields) =
      some (fieldsTable (fields ++ [(key, value)])) := by
    have hnone : (fieldsTable fields).get? key = none := lookup_eq_none hkeys
    rw [Draft.insert, if_neg (by nofun), insertNew, hnone]
    refine congrArg some ?_
    rw [Draft.set, fieldsTable, Draft.entries, setEntry_of_notMem hkeys, fieldsTable, List.map_append]
    rfl
  rw [changeAt, hget]
  dsimp only
  rw [changeAt, hinsert, Option.map_some]
  refine congrArg some ?_
  rw [Draft.set, tablesDraft, Draft.entries, List.map_append, List.map_singleton,
    setEntry_append_self hnames, tablesDraft, List.map_append]
  rfl

theorem finish_fieldsTable : finish (fieldsTable fields) = .table fields := by
  rw [fieldsTable, finish]
  congr 1
  induction fields with
  | nil => rfl
  | cons f fields ih => rw [List.map_cons, finishEntries, ih]

theorem finish_tablesDraft : finish (tablesDraft tables) =
    .table (tables.map fun t => (t.1, .table t.2)) := by
  rw [tablesDraft, finish]
  congr 1
  induction tables with
  | nil => rfl
  | cons t tables ih => rw [List.map_cons, finishEntries, ih, finish_fieldsTable, List.map_cons]

end Draft

/-! ## Keys and lines -/

variable {n : Nat} {z y : Char} {r s rest : List Char} {name : String}

/-- A name that stands without quotes. -/
structure IsBareName (name : String) : Prop where
  ne_nil : name.toList ≠ []
  chars : ∀ c ∈ name.toList, isBareKey c = true

instance (name : String) : Decidable (IsBareName name) :=
  decidable_of_iff (name.toList ≠ [] ∧ name.toList.all isBareKey = true) <| by
    rw [List.all_eq_true]
    exact ⟨fun ⟨hne, hchars⟩ => ⟨hne, hchars⟩, fun h => ⟨h.ne_nil, h.chars⟩⟩

theorem isToken_of_isBareKey {c : Char} (hc : isBareKey c = true) : IsToken c :=
  isToken_of_test hc (by decide)

namespace IsBareName

theorem exists_eq (h : IsBareName name) : ∃ c t, name.toList = c :: t ∧ isBareKey c = true := by
  obtain ⟨c, t, ht⟩ := List.exists_cons_of_ne_nil h.ne_nil
  exact ⟨c, t, ht, h.chars c (ht ▸ List.mem_cons_self)⟩

theorem readKeyPart_append (h : IsBareName name) (hz : isBareKey z = false) (r : List Char) :
    readKeyPart n (name.toList ++ z :: r) = some (name, z :: r) := by
  have htake : (name.toList ++ z :: r).takeWhile isBareKey = name.toList ∧
      (name.toList ++ z :: r).dropWhile isBareKey = z :: r := by
    rw [List.takeWhile_append_of_pos h.chars, List.dropWhile_append_of_pos h.chars]
    simp [hz]
  obtain ⟨c, t, ht, hc⟩ := h.exists_eq
  have hquote : ¬ (c = '"' ∨ c = '\'') := not_or.mpr ⟨ne_of_test hc rfl, ne_of_test hc rfl⟩
  unfold readKeyPart
  rw [ht, List.cons_append] at htake ⊢
  dsimp only
  rw [if_neg hquote, htake.1, htake.2, if_neg (List.cons_ne_nil c t), ← ht, String.ofList_toList]

/-- A key of one part is read up to what follows it, blanks left out. -/
theorem readPath_append (h : IsBareName name) (hz : isBareKey z = false)
    (hr : skipSpace (z :: r) = y :: s) (hy : y ≠ '.') :
    readPath (n + 1) (name.toList ++ z :: r) = some ([name], y :: s) := by
  have hskip : skipSpace (name.toList ++ z :: r) = name.toList ++ z :: r := by
    obtain ⟨c, t, ht, hc⟩ := h.exists_eq
    rw [ht, List.cons_append, skipSpace_of_isToken (isToken_of_isBareKey hc)]
  have hkey : readKey (n + 1) (name.toList ++ z :: r) = some ([name], y :: s) := by
    rw [readKey, hskip, h.readKeyPart_append hz]
    dsimp only
    rw [hr]
    split
    case h_1 heq => exact absurd (List.cons.inj heq).1 hy
    case h_2 => rfl
  rw [readPath, hkey]
  rfl

end IsBareName

/-- A header states its table. -/
theorem readLine_header {state : Reading} {document : Draft} (hname : IsBareName name)
    (hstate : state.document.stateTable [name] = some document) (rest : List Char) :
    readLine (n + 1) state ('[' :: (name.toList ++ ']' :: '\n' :: rest)) =
      some (⟨document, [name]⟩, rest) := by
  have hpath : readPath (n + 1) (name.toList ++ ']' :: '\n' :: rest) =
      some ([name], ']' :: '\n' :: rest) := hname.readPath_append rfl rfl (by decide)
  obtain ⟨c, t, ht, hc⟩ := hname.exists_eq
  unfold readLine
  split
  case h_1 heq =>
    rw [ht] at heq
    exact absurd (List.cons.inj (List.cons.inj heq).2).1 (ne_of_test hc rfl)
  case h_2 heq =>
    obtain rfl := (List.cons.inj heq).2
    rw [hpath, Option.bind_eq_bind, Option.bind_some]
    dsimp only
    rw [hstate]
    rfl
  case h_3 heq => exact (heq _ rfl).elim

/-- A value is read from the blank in front of it. -/
theorem readValue_skipSpace_print {levels : Nat} {v : FieldValue} (hv : v.isWritable = true)
    (rest : List Char) (hn : v.print.length + 2 ≤ n) :
    readValue n (levels + 1) (skipSpace (' ' :: (v.print ++ '\n' :: rest))) =
      some (v.toToml, '\n' :: rest) := by
  have hskip : skipSpace (' ' :: (v.print ++ '\n' :: rest)) = v.print ++ '\n' :: rest := by
    obtain ⟨c, t, ht, hc⟩ := v.exists_print_eq
    rw [ht, List.cons_append]
    exact skipSpace_of_isToken hc _
  rw [hskip]
  exact readValue_print hv rest hn

/-- The line of a field sets its key in the table of the last header. -/
theorem readLine_field {state : Reading} {document : Draft} {field : String × FieldValue}
    (hname : IsBareName field.1) (hvalue : field.2.isWritable = true)
    (hinsert : Draft.changeAt (Draft.insert [field.1] field.2.toToml) state.current state.document =
      some document)
    (hn : (printField field).length ≤ n) :
    readLine n state (printField field ++ rest) = some (⟨document, state.current⟩, rest) := by
  have hprint : printField field ++ rest =
      field.1.toList ++ ' ' :: '=' :: ' ' :: (field.2.print ++ '\n' :: rest) := by
    simp [printField]
  rw [printField] at hn
  simp only [List.length_append, List.length_cons, List.length_nil] at hn
  obtain ⟨n, rfl⟩ : ∃ m, n = m + 1 := ⟨n - 1, by omega⟩
  have hpath : readPath (n + 1) (field.1.toList ++ ' ' :: '=' :: ' ' :: (field.2.print ++ '\n' :: rest)) =
      some ([field.1], '=' :: ' ' :: (field.2.print ++ '\n' :: rest)) :=
    hname.readPath_append rfl rfl (by decide)
  have hread : readValue (n + 1) maxLevels (skipSpace (' ' :: (field.2.print ++ '\n' :: rest))) =
      some (field.2.toToml, '\n' :: rest) := readValue_skipSpace_print hvalue rest (by omega)
  have hline : afterLine? ('\n' :: rest) = some rest := rfl
  obtain ⟨c, t, ht, hc⟩ := hname.exists_eq
  have hbracket : ∀ r, field.1.toList ++ ' ' :: '=' :: ' ' :: (field.2.print ++ '\n' :: rest) ≠ '[' :: r := by
    intro r heq
    rw [ht] at heq
    exact absurd (List.cons.inj heq).1 (ne_of_test hc rfl)
  rw [hprint]
  unfold readLine
  split
  case h_1 heq => exact absurd heq (hbracket _)
  case h_2 heq => exact absurd heq (hbracket _)
  case h_3 =>
    rw [hpath, Option.bind_eq_bind, Option.bind_some]
    change (readValue (n + 1) maxLevels (skipSpace (' ' :: _)) >>= _) = _
    rw [hread, Option.bind_eq_bind, Option.bind_some]
    dsimp only
    rw [hline, Option.bind_eq_bind, Option.bind_some, hinsert]
    rfl

/-! ## Documents -/

/-- A text that can begin a line: it begins neither with a blank nor with a comment. -/
def BeginsLine (s : List Char) : Prop :=
  ∀ c ∈ s.head?, IsToken c

theorem beginsLine_cons (hz : IsToken z) (r : List Char) : BeginsLine (z :: r) :=
  fun _ hc => Option.some.inj hc ▸ hz

theorem skipFree_of_beginsLine {s : List Char} (hs : BeginsLine s) (n : Nat) : skipFree n s = s := by
  cases s with
  | nil => cases n <;> rfl
  | cons c r => exact skipFree_of_isToken (hs c rfl) n r

theorem readLines_nil (n : Nat) (state : Reading) : readLines (n + 1) state [] = some state.document := by
  have hnil : BeginsLine [] := fun _ hc => nomatch hc
  rw [readLines, skipFree_of_beginsLine hnil]

/-- An empty line is passed over. -/
theorem readLines_newline {s : List Char} (hs : BeginsLine s) (n : Nat) (state : Reading) :
    readLines (n + 2) state ('\n' :: s) = readLines (n + 2) state s := by
  have hskip : skipFree (n + 1) ('\n' :: s) = skipFree n s := rfl
  rw [readLines, readLines, hskip, skipFree_of_beginsLine hs, skipFree_of_beginsLine hs]

/-- A line is read, and the run goes on behind it. -/
theorem readLines_of_readLine {state next : Reading} {s : List Char} (hs : BeginsLine s) (hne : s ≠ [])
    (h : readLine n state s = some (next, rest)) : readLines (n + 1) state s = readLines n next rest := by
  obtain ⟨c, t, rfl⟩ := List.exists_cons_of_ne_nil hne
  have hc := hs c rfl
  rw [readLines, skipFree_of_isToken hc]
  split
  case h_1 heq => cases heq
  case h_2 heq =>
    rw [(List.cons.inj heq).1] at hc
    exact absurd hc (by decide)
  case h_3 => rw [h]

variable {tables : List (String × List (String × Toml))} {fields : List (String × Toml)}

theorem IsBareName.beginsLine (h : IsBareName name) (x : List Char) : BeginsLine (name.toList ++ x) := by
  obtain ⟨c, t, ht, hc⟩ := h.exists_eq
  rw [ht]
  exact beginsLine_cons (isToken_of_isBareKey hc) _

/-- What is read up to the fields of a table. -/
def fieldsReading (tables : List (String × List (String × Toml))) (name : String)
    (fields : List (String × Toml)) : Reading :=
  ⟨tablesDraft (tables ++ [(name, fields)]), [name]⟩

/-- The fields of a section are added to its table. -/
theorem readLines_fields {printed : List (String × FieldValue)} (hname : name ∉ tables.map Prod.fst)
    (hbare : ∀ f ∈ printed, IsBareName f.1 ∧ f.2.isWritable = true)
    (hnodup : (fields.map Prod.fst ++ printed.map Prod.fst).Nodup)
    (hn : (printed.flatMap printField ++ rest).length + 1 ≤ n) :
    ∃ m, rest.length + 1 ≤ m ∧
      readLines n (fieldsReading tables name fields) (printed.flatMap printField ++ rest) =
        readLines m (fieldsReading tables name (fields ++ printed.map fun f => (f.1, f.2.toToml))) rest := by
  induction printed generalizing fields n with
  | nil => exact ⟨n, hn, by simp⟩
  | cons f printed ih =>
    obtain ⟨⟨hbare, hvalue⟩, hprinted⟩ := List.forall_mem_cons.mp hbare
    have hkey : f.1 ∉ fields.map Prod.fst := fun hmem =>
      (List.nodup_append.mp hnodup).2.2 _ hmem _ List.mem_cons_self rfl
    have hnodup' : ((fields ++ [(f.1, f.2.toToml)]).map Prod.fst ++ printed.map Prod.fst).Nodup := by
      simpa using hnodup
    have hlength : (printField f).length = f.1.toList.length + (f.2.print.length + 4) := by
      simp [printField]
    rw [List.flatMap_cons, List.append_assoc, List.length_append] at hn
    obtain ⟨n, rfl⟩ : ∃ m, n = m + 1 := ⟨n - 1, by omega⟩
    have hline : readLine n (fieldsReading tables name fields)
          (printField f ++ (printed.flatMap printField ++ rest)) =
        some (fieldsReading tables name (fields ++ [(f.1, f.2.toToml)]), printed.flatMap printField ++ rest) :=
      readLine_field hbare hvalue (changeAt_tablesDraft hname hkey) (by omega)
    have hbegins : BeginsLine (printField f ++ (printed.flatMap printField ++ rest)) := by
      rw [printField, List.append_assoc, List.append_assoc, List.append_assoc]
      exact hbare.beginsLine _
    have hne : printField f ++ (printed.flatMap printField ++ rest) ≠ [] := by simp [printField]
    obtain ⟨m, hm, hread⟩ := ih hprinted hnodup' (n := n) (by omega)
    refine ⟨m, hm, ?_⟩
    rw [List.flatMap_cons, List.append_assoc, readLines_of_readLine hbegins hne hline, hread]
    simp

/-- The sections of a document: their names differ and stand without quotes, and so do those of the
fields of each. -/
structure Section.IsPlain (s : Section) : Prop where
  name : IsBareName s.name
  fields : ∀ f ∈ s.fields, IsBareName f.1 ∧ f.2.isWritable = true
  nodup : (s.fields.map Prod.fst).Nodup

/-- The table of a section. -/
def Section.toTable (s : Section) : String × List (String × Toml) :=
  (s.name, s.fields.map fun f => (f.1, f.2.toToml))

theorem readLines_section {sec : Section} (hsec : sec.IsPlain) (hname : sec.name ∉ tables.map Prod.fst)
    (current : List String) (rest : List Char) (hn : (sec.print ++ rest).length + 1 ≤ n) :
    ∃ m, rest.length + 1 ≤ m ∧
      readLines n ⟨tablesDraft tables, current⟩ (sec.print ++ rest) =
        readLines m (fieldsReading tables sec.name sec.toTable.2) rest := by
  have hprint : sec.print ++ rest =
      '[' :: (sec.name.toList ++ ']' :: '\n' :: (sec.fields.flatMap printField ++ rest)) := by
    simp [Section.print]
  rw [hprint] at hn ⊢
  simp only [List.length_cons, List.length_append] at hn
  obtain ⟨n, rfl⟩ : ∃ m, n = m + 2 := ⟨n - 2, by omega⟩
  have hline : readLine (n + 1) ⟨tablesDraft tables, current⟩
        ('[' :: (sec.name.toList ++ ']' :: '\n' :: (sec.fields.flatMap printField ++ rest))) =
      some (fieldsReading tables sec.name [], sec.fields.flatMap printField ++ rest) :=
    readLine_header hsec.name (stateTable_tablesDraft hname) _
  have hbegins : BeginsLine ('[' :: (sec.name.toList ++ ']' :: '\n' ::
      (sec.fields.flatMap printField ++ rest))) := beginsLine_cons (by decide) _
  obtain ⟨m, hm, hread⟩ : ∃ m, rest.length + 1 ≤ m ∧
      readLines (n + 1) (fieldsReading tables sec.name []) (sec.fields.flatMap printField ++ rest) =
        readLines m (fieldsReading tables sec.name sec.toTable.2) rest :=
    readLines_fields hname hsec.fields hsec.nodup (by rw [List.length_append]; omega)
  exact ⟨m, hm, (readLines_of_readLine hbegins (List.cons_ne_nil _ _) hline).trans hread⟩

theorem exists_printSections_cons_eq (sec : Section) (sections : List Section) :
    ∃ x, printSections (sec :: sections) = '[' :: x := by
  cases sections <;> exact ⟨_, rfl⟩

/-- The document is read section by section. -/
theorem readLines_printSections {sections : List Section} (hsections : ∀ s ∈ sections, s.IsPlain)
    (hnodup : (tables.map Prod.fst ++ sections.map Section.name).Nodup) {current : List String}
    (hn : (printSections sections).length + 2 ≤ n) :
    readLines n ⟨tablesDraft tables, current⟩ (printSections sections) =
      some (tablesDraft (tables ++ sections.map Section.toTable)) := by
  induction sections generalizing tables current n with
  | nil =>
    obtain ⟨n, rfl⟩ : ∃ m, n = m + 1 := ⟨n - 1, by omega⟩
    simpa [printSections] using readLines_nil n ⟨tablesDraft tables, current⟩
  | cons sec sections ih =>
    obtain ⟨hsec, hsections⟩ := List.forall_mem_cons.mp hsections
    have hname : sec.name ∉ tables.map Prod.fst := fun hmem =>
      (List.nodup_append.mp hnodup).2.2 _ hmem _ List.mem_cons_self rfl
    have hnodup' : ((tables ++ [sec.toTable]).map Prod.fst ++ sections.map Section.name).Nodup := by
      simpa [Section.toTable] using hnodup
    cases sections with
    | nil =>
      obtain ⟨m, hm, hread⟩ := readLines_section hsec hname current [] (n := n)
        (by rw [List.append_nil]; exact Nat.le_of_succ_le hn)
      obtain ⟨m, rfl⟩ : ∃ k, m = k + 1 := ⟨m - 1, by omega⟩
      rw [List.append_nil] at hread
      rw [printSections, hread, readLines_nil]
      rfl
    | cons next sections =>
      have hprint : printSections (sec :: next :: sections) =
          sec.print ++ '\n' :: printSections (next :: sections) := rfl
      have hbegins : BeginsLine (printSections (next :: sections)) := by
        obtain ⟨x, hx⟩ := exists_printSections_cons_eq next sections
        rw [hx]
        exact beginsLine_cons (by decide) x
      rw [hprint] at hn ⊢
      obtain ⟨m, hm, hread⟩ := readLines_section hsec hname current _ (Nat.le_of_succ_le hn)
      rw [List.length_cons] at hm
      obtain ⟨m, rfl⟩ : ∃ k, m = k + 2 := ⟨m - 2, by omega⟩
      have hrest : readLines (m + 2) (fieldsReading tables sec.name sec.toTable.2)
            (printSections (next :: sections)) =
          some (tablesDraft (tables ++ [sec.toTable] ++ (next :: sections).map Section.toTable)) :=
        ih hsections hnodup' (by omega)
      rw [List.append_assoc] at hrest
      exact hread.trans ((readLines_newline hbegins ..).trans hrest)

/-- **A document is read back from its printed form.** -/
theorem parse?_printSections {sections : List Section} (hsections : ∀ s ∈ sections, s.IsPlain)
    (hnodup : (sections.map Section.name).Nodup) :
    parse? (String.ofList (printSections sections)) =
      some (.table (sections.map fun s => (s.name, .table s.toTable.2))) := by
  have hmark : skipMark (printSections sections) = printSections sections := by
    cases sections with
    | nil => rfl
    | cons sec sections =>
      obtain ⟨x, hx⟩ := exists_printSections_cons_eq sec sections
      rw [hx]
      rfl
  have hread : readLines (3 * (printSections sections).length + 3) ⟨tablesDraft [], []⟩
      (printSections sections) = some (tablesDraft (sections.map Section.toTable)) :=
    readLines_printSections hsections (by simpa using hnodup) (by omega)
  rw [parse?, String.toList_ofList, hmark]
  refine (congrArg _ hread).trans ?_
  rw [Option.map_some, finish_tablesDraft]
  simp [Section.toTable]

end RouteAudit.Toml
