import Mathlib.Data.List.Basic
import RouteAudit.Grammar.Forms
import RouteAudit.Proofs.Hits
import RouteAudit.Proofs.LineIndex

/-!
# Matches line by line

The matches in a text are found in one run from left to right. The run passes over a piece where the
shape fits nowhere (`SilentOn`), and a match takes it to the place behind the match. A shape that needs
a sign and reads only leading characters before it (`Leads`) is silent on every piece without the sign
that ends in no leading character, whatever follows. So a text can be read line by line: if every line
yields one value or none (`Yields`), the references of the text are those of its lines, with the
number and the text of each line (`references_lines`).
-/

namespace RouteAudit

namespace Shape

variable {s : Shape} {done rest a b : List Char} {z : Char}

/-! ## The run over a piece -/

/-- The shape fits at no place of the piece, given what stands before and behind it. -/
def SilentOn (s : Shape) : List Char → List Char → List Char → Prop
  | _, [], _ => True
  | done, c :: a, rest => s.hits ⟨done, c :: (a ++ rest)⟩ = [] ∧ s.SilentOn (c :: done) a rest

theorem SilentOn.matchesFrom_append (h : s.SilentOn done a rest) :
    s.matchesFrom 0 done (a ++ rest) = s.matchesFrom 0 (a.reverse ++ done) rest := by
  induction a generalizing done with
  | nil => rfl
  | cons c a ih =>
    rw [List.cons_append, matchesFrom, h.1, List.head?_nil]
    simpa using ih h.2

theorem matchesFrom_skip :
    s.matchesFrom a.length done (a ++ rest) = s.matchesFrom 0 (a.reverse ++ done) rest := by
  induction a generalizing done with
  | nil => rfl
  | cons c a ih =>
    rw [List.length_cons, List.cons_append, matchesFrom, ih]
    simp

/-- A match takes the run to the place behind it. -/
theorem Prefers.matchesFrom_append {v : Option (List Char)}
    (h : s.Prefers ⟨done, a ++ rest⟩ ⟨v, ⟨a.reverse ++ done, rest⟩⟩) (ha : a ≠ []) :
    s.matchesFrom 0 done (a ++ rest) =
      ⟨⟨done, a ++ rest⟩, v, ⟨a.reverse ++ done, rest⟩⟩ ::
        s.matchesFrom 0 (a.reverse ++ done) rest := by
  cases a with
  | nil => exact absurd rfl ha
  | cons c a =>
    have hskip : (⟨(c :: a).reverse ++ done, rest⟩ : Cursor).offset - done.length - 1 = a.length := by
      simp only [Cursor.offset, List.length_append, List.length_reverse, List.length_cons]
      omega
    have hhead : (s.hits ⟨done, c :: (a ++ rest)⟩).head? = _ := h
    rw [List.cons_append, matchesFrom, hhead]
    simp only [hskip, matchesFrom_skip]
    simp

/-! ## How a shape begins -/

/-- Every way to fit begins with one of the words. -/
def Begins (s : Shape) (words : List (List Char)) : Prop :=
  ∀ c, s.hits c ≠ [] → ∃ w ∈ words, w <+: c.rest

/-- No word begins in the piece, however the text goes on. -/
def Clear (words : List (List Char)) (piece : List Char) : Prop :=
  ∀ y ∈ piece.tails, y ≠ [] → ∀ w ∈ words, ¬ w <+: y ∧ ¬ y <+: w

instance (words : List (List Char)) (piece : List Char) : Decidable (Clear words piece) :=
  inferInstanceAs (Decidable (∀ y ∈ piece.tails, y ≠ [] → ∀ w ∈ words, ¬ w <+: y ∧ ¬ y <+: w))

variable {words words' : List (List Char)} {s' : Shape}

theorem begins_word : (word words).Begins words := by
  intro c hc
  obtain ⟨h, hh⟩ := List.exists_mem_of_ne_nil _ hc
  obtain ⟨w, hw, hword⟩ := List.mem_filterMap.mp hh
  rw [afterWord?, Option.ite_none_right_eq_some] at hword
  exact ⟨w, hw, List.isPrefixOf_iff_prefix.mp hword.1⟩

theorem Begins.seq (hs : s.Begins words) (s' : Shape) : (seq s s').Begins words := by
  intro c hc
  refine hs c fun hnil => hc ?_
  rw [hits_seq, hnil, List.flatMap_nil]

theorem Begins.boundary (hs : s.Begins words) : (Shape.seq boundary s).Begins words := by
  intro c hc
  refine hs c fun hnil => hc ?_
  rw [hits_seq, hits_boundary]
  split_ifs <;> simp [hnil]

theorem Begins.choice (hs : s.Begins words) (hs' : s'.Begins words') :
    (choice s s').Begins (words ++ words') := by
  intro c hc
  rw [hits_choice, Ne, List.append_eq_nil_iff, not_and_or] at hc
  rcases hc with hc | hc
  · obtain ⟨w, hw, hbegins⟩ := hs c hc
    exact ⟨w, List.mem_append_left _ hw, hbegins⟩
  · obtain ⟨w, hw, hbegins⟩ := hs' c hc
    exact ⟨w, List.mem_append_right _ hw, hbegins⟩

/-- A shape is silent on a piece where none of its words begins. -/
theorem Begins.silentOn (hs : s.Begins words) (ha : Clear words a) : s.SilentOn done a rest := by
  induction a generalizing done with
  | nil => trivial
  | cons c a ih =>
    refine ⟨?_, ih fun y hy => ha y (List.mem_of_mem_tail hy)⟩
    by_contra hhits
    obtain ⟨w, hw, hbegins⟩ := hs _ hhits
    obtain ⟨hnot, hnot'⟩ := ha (c :: a) (by simp) (List.cons_ne_nil c a) w hw
    have hpiece : c :: a <+: c :: (a ++ rest) := List.prefix_append (c :: a) rest
    rcases List.prefix_or_prefix_of_prefix hbegins hpiece with h | h
    · exact hnot h
    · exact hnot' h

/-! ## Signs -/

/-- Every way to fit reads leading characters and then the sign. -/
def Leads (s : Shape) (lead : Char → Bool) (sign : Char) : Prop :=
  ∀ c, s.hits c ≠ [] → ∃ a b, c.rest = a ++ sign :: b ∧ ∀ e ∈ a, lead e = true

variable {lead : Char → Bool} {sign : Char}

theorem leads_sign (s : Shape) : (seq (word [[sign]]) s).Leads lead sign := by
  intro c hc
  obtain ⟨w, hw, r, hrest⟩ := begins_word.seq s c hc
  obtain rfl := List.mem_singleton.mp hw
  exact ⟨[], r, hrest.symm, by simp⟩

theorem leads_quoted {test : List Char → Bool} : (quoted sign test).Leads lead sign := by
  intro c hc
  obtain ⟨h, hh⟩ := List.exists_mem_of_ne_nil _ hc
  obtain ⟨v, hreads, -⟩ := mem_hits_quoted_iff.mp hh
  exact ⟨[], v ++ sign :: h.after.rest, by simpa using hreads.1, by simp⟩

theorem Leads.seq (hs' : s'.Leads lead sign) (hs : s.ReadsOnly lead) :
    (seq s s').Leads lead sign := by
  intro c hc
  obtain ⟨k, hk⟩ := List.exists_mem_of_ne_nil _ hc
  obtain ⟨h, hh, hmap⟩ := List.mem_flatMap.mp hk
  obtain ⟨x, hx, hlead⟩ := hs.exists_reads hh
  obtain ⟨a, b, hrest, hlead'⟩ := hs' h.after fun hnil => by
    rw [hnil] at hmap
    cases hmap
  exact ⟨x ++ a, b, by rw [hx.1, hrest, List.append_assoc], List.forall_mem_append.mpr ⟨hlead, hlead'⟩⟩

/-- Without its sign a shape is silent on a piece that ends in no leading character. -/
theorem Leads.silentOn (hs : s.Leads lead sign) (ha : sign ∉ a) (hlast : a.getLast? = some z)
    (hz : lead z = false) : s.SilentOn done a rest := by
  induction a generalizing done with
  | nil => trivial
  | cons c a ih =>
    constructor
    · by_contra hhits
      obtain ⟨u, b, heq, hlead⟩ := hs _ hhits
      obtain ⟨w, rfl, -⟩ := Text.eq_append_of_append_sep_eq (w := c :: a) ha heq.symm
      rw [hlead z (List.mem_append_left _ (List.mem_of_getLast? hlast))] at hz
      cases hz
    · cases a with
      | nil => trivial
      | cons c' a => exact ih (List.not_mem_of_not_mem_cons ha) (by rwa [List.getLast?_cons_cons] at hlast)

/-! ## Lines -/

/-- A line begins here. -/
def LineStart (done : List Char) : Prop :=
  done = [] ∨ ∃ d, done = '\n' :: d

/-- A line ends here. -/
def LineEnd (rest : List Char) : Prop :=
  rest = [] ∨ ∃ r, rest = '\n' :: r

/-- The matches of the shape in the line are one with the value or none, wherever the line stands. -/
def Yields (s : Shape) (line : List Char) (value? : Option (List Char)) : Prop :=
  ∀ done rest, LineStart done → LineEnd rest → ∃ ms : List Match,
    s.matchesFrom 0 done (line ++ rest) = ms ++ s.matchesFrom 0 (line.reverse ++ done) rest ∧
      ms.map (·.value) = (value?.map some).toList ∧
      ∀ m ∈ ms, ∃ x y, line = x ++ y ∧ m.start = ⟨x.reverse ++ done, y ++ rest⟩

variable {line front back v : List Char}

/-- A line without the sign yields nothing. -/
theorem Leads.yields (hs : s.Leads lead sign) (hline : sign ∉ line)
    (hlast : line.getLast? = some z) (hz : lead z = false) : s.Yields line none :=
  fun _ _ _ _ => ⟨[], (hs.silentOn hline hlast hz).matchesFrom_append, rfl, by simp⟩

/-- A line yields a value if the shape is silent in front of and behind a piece that holds it. -/
theorem yields_some (ha : a ≠ [])
    (hfront : ∀ done rest, s.SilentOn done front rest)
    (hpiece : ∀ done rest, LineStart done → s.Prefers ⟨front.reverse ++ done, a ++ rest⟩
      ⟨some v, ⟨a.reverse ++ (front.reverse ++ done), rest⟩⟩)
    (hback : ∀ done rest, s.SilentOn done back rest) :
    s.Yields (front ++ (a ++ back)) (some v) := by
  intro done rest hdone hrest
  refine ⟨[⟨⟨front.reverse ++ done, a ++ (back ++ rest)⟩, some v,
    ⟨a.reverse ++ (front.reverse ++ done), back ++ rest⟩⟩], ?_, rfl, ?_⟩
  · rw [List.append_assoc, List.append_assoc, (hfront done _).matchesFrom_append,
      (hpiece done _ hdone).matchesFrom_append ha, (hback _ rest).matchesFrom_append]
    simp
  · intro m hm
    obtain rfl := List.mem_singleton.mp hm
    exact ⟨front, a ++ back, rfl, by simp⟩

end Shape

/-! ## References line by line -/

namespace Form

open Shape

variable {form : Form} {file : String} {done rest line : List Char} {value? : Option (List Char)}

/-- The reference that a line gives, counted from zero. -/
def lineReference? (form : Form) (file : String) (line : List Char) (value? : Option (List Char))
    (number : Nat) : Option Reference :=
  value?.map fun v => Reference.ofRaw (String.ofList v) form.kind file (number + 1)
    (String.ofList (Text.trim line))

theorem lineText_eq {x y : List Char} (hdone : LineStart done) (hrest : LineEnd rest)
    (hline : '\n' ∉ x ++ y) :
    (⟨x.reverse ++ done, y ++ rest⟩ : Cursor).lineText = Text.trim (x ++ y) := by
  rw [List.mem_append, not_or] at hline
  have hx : (x.reverse ++ done).takeWhile (· ≠ '\n') = x.reverse := by
    have hx : '\n' ∉ x.reverse := by simpa using hline.1
    rcases hdone with rfl | ⟨d, rfl⟩
    · rw [List.append_nil, Text.takeWhile_ne_of_notMem hx]
    · exact Text.takeWhile_ne_append_sep hx d
  have hy : (y ++ rest).takeWhile (· ≠ '\n') = y := by
    rcases hrest with rfl | ⟨r, rfl⟩
    · rw [List.append_nil, Text.takeWhile_ne_of_notMem hline.2]
    · exact Text.takeWhile_ne_append_sep hline.2 r
  rw [Cursor.lineText, hx, hy, List.reverse_reverse]

/-- A line gives the reference of its value, and the run goes on behind it. -/
theorem references_line (hyields : form.shape.Yields line value?) (hdone : LineStart done)
    (hrest : LineEnd rest) (hline : '\n' ∉ line) :
    (form.shape.matchesFrom 0 done (line ++ rest)).filterMap (form.placedReference? file) =
      (form.lineReference? file line value? (done.count '\n')).toList ++
        (form.shape.matchesFrom 0 (line.reverse ++ done) rest).filterMap (form.placedReference? file) := by
  obtain ⟨ms, hmatches, hvalues, hstart⟩ := hyields done rest hdone hrest
  have href : ms.filterMap (form.placedReference? file) = (ms.map (·.value)).filterMap fun v =>
      form.lineReference? file line v (done.count '\n') := by
    rw [List.filterMap_map]
    refine List.filterMap_congr fun m hm => ?_
    obtain ⟨x, y, rfl, hm⟩ := hstart m hm
    have hcount : x.count '\n' = 0 :=
      List.count_eq_zero_of_not_mem fun h => hline (List.mem_append_left y h)
    rw [Function.comp_apply, placedReference?, lineReference?, hm, lineText_eq hdone hrest hline]
    simp [Cursor.line, hcount]
  rw [hmatches, List.filterMap_append, href, hvalues]
  cases value? <;> simp [lineReference?]

theorem filterMap_cons_eq_append {α β : Type} (f : α → Option β) (x : α) (xs : List α) :
    (x :: xs).filterMap f = (f x).toList ++ xs.filterMap f := by
  rw [List.filterMap_cons]
  cases f x <;> rfl

variable {ι : Type} {items : List ι} {lineOf : ι → List Char} {valueOf? : ι → Option (List Char)}

/-- **A text is read line by line**, if no match begins at a line break and every line yields one value
or none. -/
theorem references_lines (hbreak : ∀ done rest, form.shape.hits ⟨done, '\n' :: rest⟩ = [])
    (hyields : ∀ i ∈ items, form.shape.Yields (lineOf i) (valueOf? i))
    (hlines : ∀ i ∈ items, '\n' ∉ lineOf i) :
    form.references (['\n'].intercalate (items.map lineOf)) file =
      items.zipIdx.filterMap fun i => form.lineReference? file (lineOf i.1) (valueOf? i.1) i.2 := by
  suffices hrun : ∀ done, LineStart done →
      (form.shape.matchesFrom 0 done (['\n'].intercalate (items.map lineOf))).filterMap
          (form.placedReference? file) =
        (items.zipIdx (done.count '\n')).filterMap fun i =>
          form.lineReference? file (lineOf i.1) (valueOf? i.1) i.2 from
    references_eq.trans (hrun [] (Or.inl rfl))
  -- The line breaks read so far are the number of the next line.
  induction items with
  | nil => intro done _; rfl
  | cons i items ih =>
    intro done hdone
    obtain ⟨hyield, hyields⟩ := List.forall_mem_cons.mp hyields
    obtain ⟨hline, hlines⟩ := List.forall_mem_cons.mp hlines
    have hcount : (lineOf i).count '\n' = 0 := List.count_eq_zero_of_not_mem hline
    rw [List.map_cons, List.zipIdx_cons, filterMap_cons_eq_append]
    cases items with
    | nil =>
      have hlast : _ = (form.lineReference? file _ _ _).toList ++ _ :=
        references_line hyield hdone (Or.inl rfl) hline
      simpa [List.intercalate_singleton, matchesFrom] using hlast
    | cons j items =>
      rw [List.map_cons, List.intercalate_cons_cons, List.append_assoc, List.singleton_append,
        references_line hyield hdone (Or.inr ⟨_, rfl⟩) hline, matchesFrom, hbreak, List.head?_nil]
      have hnext := ih hyields hlines ('\n' :: ((lineOf i).reverse ++ done)) (Or.inr ⟨_, rfl⟩)
      simp only [List.count_cons_self, List.count_append, List.count_reverse, hcount, Nat.zero_add]
        at hnext
      rw [← List.map_cons, hnext]

end Form

end RouteAudit
