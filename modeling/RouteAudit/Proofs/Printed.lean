import Mathlib.Data.List.DropRight
import RouteAudit.Proofs.Escaped

/-!
# Printed values read back

A value whose numbers are integers is read back from its printed form, if it nests no deeper than a reader
goes (`parse?_pretty`).

Proof. By induction on the value, at every level and before any text that does not go on with a number
(`ReadsBack`). Blanks in front of a value change nothing, so line breaks and indentation are passed over.
The items of an array are read one after the other (`readItems_print`), as are the members of an object
(`readMembers_print`); what can be read as items does not begin with the closing bracket, so an array with
items is not mistaken for the empty one. Each step of the reader takes at least one character, so the
length of the text is a bound on the steps.
-/

namespace RouteAudit.Json

/-- The value nests at most the given number of levels deep, and its numbers are integers. -/
inductive Fits : Nat → Json → Prop where
  | null {levels : Nat} : Fits levels null
  | bool {levels : Nat} (value : Bool) : Fits levels (bool value)
  | int {levels : Nat} (value : Int) : Fits levels (int value)
  | string {levels : Nat} (text : String) : Fits levels (string text)
  | array {levels : Nat} {items : List Json} (h : ∀ v ∈ items, Fits levels v) :
    Fits (levels + 1) (array items)
  | object {levels : Nat} {members : List (String × Json)} (h : ∀ m ∈ members, Fits levels m.2) :
    Fits (levels + 1) (object members)

/-- The value is read back from its printed form at every level, before any text that does not go on
with a number. -/
def ReadsBack (levels : Nat) (j : Json) : Prop :=
  ∀ (level : Nat) {steps : Nat} {rest : List Char}, EndsNumber rest → (print level j).length ≤ steps →
    readValue steps levels (print level j ++ rest) = some (j, rest)

/-! ## Blanks -/

theorem skipSpace_newLine (level : Nat) (s : List Char) : skipSpace (newLine level ++ s) = skipSpace s := by
  refine List.dropWhile_append_of_pos fun c hc => ?_
  rcases List.mem_cons.mp hc with rfl | hc
  · rfl
  · rw [List.eq_of_mem_replicate hc]
    rfl

theorem skipSpace_skipSpace (s : List Char) : skipSpace (skipSpace s) = skipSpace s :=
  List.dropWhile_idempotent _ s

theorem skipSpace_cons {c : Char} (hc : isSpace c = false) (s : List Char) :
    skipSpace (c :: s) = c :: s :=
  List.dropWhile_cons_of_neg (by simp [hc])

section Blanks

variable (steps levels : Nat) (s : List Char)

theorem readValue_skipSpace : readValue steps levels (skipSpace s) = readValue steps levels s := by
  cases steps with
  | zero => rfl
  | succ steps => rw [readValue, readValue, skipSpace_skipSpace]

theorem readItems_skipSpace : readItems steps levels (skipSpace s) = readItems steps levels s := by
  cases steps with
  | zero => rfl
  | succ steps => rw [readItems, readItems, readValue_skipSpace]

theorem readMembers_skipSpace : readMembers steps levels (skipSpace s) = readMembers steps levels s := by
  cases steps with
  | zero => rfl
  | succ steps => rw [readMembers, readMembers, skipSpace_skipSpace]

theorem readItems_newLine (level : Nat) :
    readItems steps levels (newLine level ++ s) = readItems steps levels s := by
  rw [← readItems_skipSpace, skipSpace_newLine, readItems_skipSpace]

theorem readMembers_newLine (level : Nat) :
    readMembers steps levels (newLine level ++ s) = readMembers steps levels s := by
  rw [← readMembers_skipSpace, skipSpace_newLine, readMembers_skipSpace]

end Blanks

/-! ## Words and numbers -/

theorem readWord_append (word : List Char) (v : Json) (rest : List Char) :
    readWord word v (word ++ rest) = some (v, rest) := by
  rw [readWord, if_pos (List.isPrefixOf_iff_prefix.mpr (List.prefix_append word rest)),
    List.drop_left]

variable {levels : Nat}

theorem readsBack_null : ReadsBack levels null := by
  intro level steps rest _ hsteps
  obtain ⟨steps, rfl⟩ := Nat.exists_eq_add_one_of_ne_zero (Nat.ne_zero_of_lt hsteps)
  exact readWord_append "ull".toList null rest

theorem readsBack_bool (value : Bool) : ReadsBack levels (bool value) := by
  intro level steps rest _ hsteps
  have hne : steps ≠ 0 := by cases value <;> exact Nat.ne_zero_of_lt hsteps
  obtain ⟨steps, rfl⟩ := Nat.exists_eq_add_one_of_ne_zero hne
  cases value with
  | true => exact readWord_append "rue".toList (bool true) rest
  | false => exact readWord_append "alse".toList (bool false) rest

theorem readValue_digit {c : Char} (hc : c.isDigit = true) (steps : Nat) (s : List Char) :
    readValue (steps + 1) levels (c :: s) = readNumber false (c :: s) := by
  have hspace : isSpace c = false := by
    cases hspace : isSpace c with
    | false => rfl
    | true =>
      simp only [isSpace, Bool.or_eq_true, decide_eq_true_iff] at hspace
      rcases hspace with ((rfl | rfl) | rfl) | rfl <;> cases hc
  rw [readValue, skipSpace_cons hspace]
  split <;> first | rfl | simp_all

theorem readsBack_int (value : Int) : ReadsBack levels (int value) := by
  intro level steps rest hrest hsteps
  cases value with
  | ofNat n =>
    obtain ⟨c, s, hdigits⟩ := List.exists_cons_of_ne_nil (Nat.toDigits_ne_nil (n := n) (b := 10))
    have hc : c.isDigit = true := isDigit_of_mem_toDigits (n := n) (by simp [hdigits])
    have hne : steps ≠ 0 := by
      rintro rfl
      simp [print, printInt, hdigits] at hsteps
    obtain ⟨steps, rfl⟩ := Nat.exists_eq_add_one_of_ne_zero hne
    have hnot : false = true → n ≠ 0 := nofun
    rw [print, printInt, hdigits, List.cons_append, readValue_digit hc, ← List.cons_append, ← hdigits,
      readNumber_toDigits hnot hrest]
    rfl
  | negSucc n =>
    obtain ⟨steps, rfl⟩ := Nat.exists_eq_add_one_of_ne_zero (Nat.ne_zero_of_lt hsteps)
    change readNumber true (Nat.toDigits 10 (n + 1) ++ rest) = _
    rw [readNumber_toDigits (fun _ => Nat.succ_ne_zero n) hrest]
    rfl

theorem readsBack_string (text : String) : ReadsBack levels (string text) := by
  intro level steps rest _ hsteps
  obtain ⟨steps, rfl⟩ := Nat.exists_eq_add_one_of_ne_zero (Nat.ne_zero_of_lt hsteps)
  obtain ⟨body, hbody, hread⟩ := readText_printString text rest hsteps
  rw [print, hbody]
  change (readText steps (body ++ rest)).map _ = _
  rw [hread]
  rfl

/-! ## Arrays -/

theorem endsNumber_newLine (level : Nat) (s : List Char) : EndsNumber (newLine level ++ s) := by
  intro c hc
  obtain rfl := Option.some.inj hc
  decide

theorem endsNumber_comma (s : List Char) : EndsNumber (',' :: s) := by
  intro c hc
  obtain rfl := Option.some.inj hc
  decide

/-- A closing bracket is no item. -/
theorem readItems_of_skipSpace_eq {steps : Nat} {s r : List Char} (h : skipSpace s = ']' :: r) :
    readItems steps levels s = none := by
  rw [← readItems_skipSpace, h]
  rcases steps with - | - | steps <;> rfl

/-- What can be read as items makes an array. -/
theorem readValue_array {steps : Nat} {s rest : List Char} {items : List Json}
    (h : readItems steps levels s = some (items, rest)) :
    readValue (steps + 1) (levels + 1) ('[' :: s) = some (array items, rest) := by
  have hopen : skipSpace ('[' :: s) = '[' :: s := skipSpace_cons (by decide) s
  have hmore (r : List Char) : skipSpace s ≠ ']' :: r := by
    intro hclosed
    rw [readItems_of_skipSpace_eq hclosed] at h
    cases h
  simp only [readValue, hopen, readItems_skipSpace, h, Option.map_some]

section Items

variable {level steps : Nat} {v : Json} {s r : List Char}

/-- Before a closing bracket, an item is the last one. -/
theorem readItems_last (hv : ReadsBack levels v) (hs : EndsNumber s)
    (hsteps : (print level v).length ≤ steps) (hnext : skipSpace s = ']' :: r) :
    readItems (steps + 1) levels (print level v ++ s) = some ([v], r) := by
  rw [readItems, hv level hs hsteps]
  simp only [hnext]

/-- Before a comma, an item is followed by others. -/
theorem readItems_comma {vs : List Json} {rest : List Char} (hv : ReadsBack levels v) (hs : EndsNumber s)
    (hsteps : (print level v).length ≤ steps) (hnext : skipSpace s = ',' :: r)
    (hrest : readItems steps levels r = some (vs, rest)) :
    readItems (steps + 1) levels (print level v ++ s) = some (v :: vs, rest) := by
  rw [readItems, hv level hs hsteps]
  simp only [hnext, hrest, Option.map_some]

end Items

/-- **Printed items are read one after the other.** -/
theorem readItems_print {level : Nat} (outer : Nat) (rest : List Char) {v : Json} {vs : List Json}
    (h : ∀ w ∈ v :: vs, ReadsBack levels w) {steps : Nat}
    (hsteps : (print level v ++ printItems level vs).length < steps) :
    readItems steps levels
        (print level v ++ (printItems level vs ++ (newLine outer ++ ']' :: rest))) =
      some (v :: vs, rest) := by
  induction vs generalizing v steps with
  | nil =>
    obtain ⟨steps, rfl⟩ := Nat.exists_eq_add_one_of_ne_zero (Nat.ne_zero_of_lt hsteps)
    rw [printItems, List.append_nil] at hsteps
    have hnext : skipSpace (newLine outer ++ ']' :: rest) = ']' :: rest := by
      rw [skipSpace_newLine, skipSpace_cons (by decide)]
    exact readItems_last (h v List.mem_cons_self) (endsNumber_newLine outer _)
      (Nat.le_of_lt_succ hsteps) hnext
  | cons w vs ih =>
    obtain ⟨steps, rfl⟩ := Nat.exists_eq_add_one_of_ne_zero (Nat.ne_zero_of_lt hsteps)
    simp only [printItems, List.length_append, List.length_cons] at hsteps
    have hrest : readItems steps levels (newLine level ++
        (print level w ++ (printItems level vs ++ (newLine outer ++ ']' :: rest)))) =
        some (w :: vs, rest) := by
      rw [readItems_newLine]
      refine ih (fun u hu => h u (List.mem_cons_of_mem v hu)) ?_
      rw [List.length_append]
      omega
    rw [printItems, List.cons_append, List.append_assoc, List.append_assoc]
    exact readItems_comma (h v List.mem_cons_self) (endsNumber_comma _) (by omega)
      (skipSpace_cons (by decide) _) hrest

theorem readsBack_array {items : List Json} (h : ∀ v ∈ items, ReadsBack levels v) :
    ReadsBack (levels + 1) (array items) := by
  intro level steps rest _ hsteps
  cases items with
  | nil =>
    obtain ⟨steps, rfl⟩ := Nat.exists_eq_add_one_of_ne_zero (Nat.ne_zero_of_lt hsteps)
    rfl
  | cons v vs =>
    obtain ⟨steps, rfl⟩ := Nat.exists_eq_add_one_of_ne_zero (Nat.ne_zero_of_lt hsteps)
    simp only [print, List.length_cons, List.length_append] at hsteps
    have hitems : readItems steps levels (newLine (level + 1) ++ (print (level + 1) v ++
        (printItems (level + 1) vs ++ (newLine level ++ ']' :: rest)))) = some (v :: vs, rest) := by
      rw [readItems_newLine]
      refine readItems_print level rest h ?_
      rw [List.length_append]
      omega
    have hread := readValue_array hitems
    simpa only [print, List.cons_append, List.append_assoc, List.nil_append] using hread

/-! ## Objects -/

/-- A closing brace is no member. -/
theorem readMembers_of_skipSpace_eq {steps : Nat} {s r : List Char} (h : skipSpace s = '\x7d' :: r) :
    readMembers steps levels s = none := by
  rw [← readMembers_skipSpace, h]
  cases steps <;> rfl

/-- What can be read as members makes an object. -/
theorem readValue_object {steps : Nat} {s rest : List Char} {members : List (String × Json)}
    (h : readMembers steps levels s = some (members, rest)) :
    readValue (steps + 1) (levels + 1) ('\x7b' :: s) = some (object members, rest) := by
  have hopen : skipSpace ('\x7b' :: s) = '\x7b' :: s := skipSpace_cons (by decide) s
  have hmore (r : List Char) : skipSpace s ≠ '\x7d' :: r := by
    intro hclosed
    rw [readMembers_of_skipSpace_eq hclosed] at h
    cases h
  simp only [readValue, hopen, readMembers_skipSpace, h, Option.map_some]

section Members

variable {level steps : Nat} {name : String} {v : Json} {s r : List Char}

/-- A printed name is read, and the value after its colon. -/
theorem exists_readText_member (hv : ReadsBack levels v) (hs : EndsNumber s)
    (hsteps : (printString name).length + (print level v).length ≤ steps) :
    ∃ body, printString name = '"' :: body ∧
      readText steps (body ++ ':' :: ' ' :: (print level v ++ s)) =
        some (name, ':' :: ' ' :: (print level v ++ s)) ∧
      readValue steps levels (' ' :: (print level v ++ s)) = some (v, s) := by
  obtain ⟨body, hbody, hname⟩ := readText_printString name (n := steps)
    (':' :: ' ' :: (print level v ++ s)) (by omega)
  refine ⟨body, hbody, hname, ?_⟩
  rw [← readValue_skipSpace, skipSpace, List.dropWhile_cons_of_pos (by decide), ← skipSpace,
    readValue_skipSpace, hv level hs (by omega)]

/-- Before a closing brace, a member is the last one. -/
theorem readMembers_last (hv : ReadsBack levels v) (hs : EndsNumber s)
    (hsteps : (printString name).length + (print level v).length ≤ steps)
    (hnext : skipSpace s = '\x7d' :: r) :
    readMembers (steps + 1) levels (printString name ++ ':' :: ' ' :: (print level v ++ s)) =
      some ([(name, v)], r) := by
  obtain ⟨body, hbody, hname, hvalue⟩ := exists_readText_member hv hs hsteps
  rw [readMembers, hbody, List.cons_append, skipSpace_cons (by decide)]
  simp only [hname]
  rw [skipSpace_cons (by decide)]
  simp only [hvalue, hnext]

/-- Before a comma, a member is followed by others. -/
theorem readMembers_comma {ms : List (String × Json)} {rest : List Char} (hv : ReadsBack levels v)
    (hs : EndsNumber s) (hsteps : (printString name).length + (print level v).length ≤ steps)
    (hnext : skipSpace s = ',' :: r) (hrest : readMembers steps levels r = some (ms, rest)) :
    readMembers (steps + 1) levels (printString name ++ ':' :: ' ' :: (print level v ++ s)) =
      some ((name, v) :: ms, rest) := by
  obtain ⟨body, hbody, hname, hvalue⟩ := exists_readText_member hv hs hsteps
  rw [readMembers, hbody, List.cons_append, skipSpace_cons (by decide)]
  simp only [hname]
  rw [skipSpace_cons (by decide)]
  simp only [hvalue, hnext, hrest, Option.map_some]

end Members

/-- **Printed members are read one after the other.** -/
theorem readMembers_print {level : Nat} (outer : Nat) (rest : List Char) {m : String × Json}
    {ms : List (String × Json)} (h : ∀ w ∈ m :: ms, ReadsBack levels w.2) {steps : Nat}
    (hsteps : (printString m.1 ++ print level m.2 ++ printMembers level ms).length < steps) :
    readMembers steps levels (printString m.1 ++ ':' :: ' ' ::
        (print level m.2 ++ (printMembers level ms ++ (newLine outer ++ '\x7d' :: rest)))) =
      some (m :: ms, rest) := by
  induction ms generalizing m steps with
  | nil =>
    obtain ⟨steps, rfl⟩ := Nat.exists_eq_add_one_of_ne_zero (Nat.ne_zero_of_lt hsteps)
    rw [printMembers, List.append_nil, List.length_append] at hsteps
    have hnext : skipSpace (newLine outer ++ '\x7d' :: rest) = '\x7d' :: rest := by
      rw [skipSpace_newLine, skipSpace_cons (by decide)]
    exact readMembers_last (h m List.mem_cons_self) (endsNumber_newLine outer _)
      (Nat.le_of_lt_succ hsteps) hnext
  | cons w ms ih =>
    obtain ⟨steps, rfl⟩ := Nat.exists_eq_add_one_of_ne_zero (Nat.ne_zero_of_lt hsteps)
    simp only [printMembers, List.length_append, List.length_cons] at hsteps
    have hrest : readMembers steps levels (newLine level ++ (printString w.1 ++ ':' :: ' ' ::
        (print level w.2 ++ (printMembers level ms ++ (newLine outer ++ '\x7d' :: rest))))) =
        some (w :: ms, rest) := by
      rw [readMembers_newLine]
      refine ih (fun u hu => h u (List.mem_cons_of_mem m hu)) ?_
      rw [List.length_append, List.length_append]
      omega
    simp only [printMembers, List.cons_append, List.append_assoc, List.nil_append]
    exact readMembers_comma (h m List.mem_cons_self) (endsNumber_comma _) (by omega)
      (skipSpace_cons (by decide) _) hrest

theorem readsBack_object {members : List (String × Json)} (h : ∀ m ∈ members, ReadsBack levels m.2) :
    ReadsBack (levels + 1) (object members) := by
  intro level steps rest _ hsteps
  cases members with
  | nil =>
    obtain ⟨steps, rfl⟩ := Nat.exists_eq_add_one_of_ne_zero (Nat.ne_zero_of_lt hsteps)
    rfl
  | cons m ms =>
    obtain ⟨steps, rfl⟩ := Nat.exists_eq_add_one_of_ne_zero (Nat.ne_zero_of_lt hsteps)
    simp only [print, List.length_cons, List.length_append] at hsteps
    have hmembers : readMembers steps levels (newLine (level + 1) ++ (printString m.1 ++
        ':' :: ' ' :: (print (level + 1) m.2 ++ (printMembers (level + 1) ms ++
          (newLine level ++ '\x7d' :: rest))))) = some (m :: ms, rest) := by
      rw [readMembers_newLine]
      refine readMembers_print level rest h ?_
      rw [List.length_append, List.length_append]
      omega
    have hread := readValue_object hmembers
    simpa only [print, List.cons_append, List.append_assoc, List.nil_append] using hread

/-! ## Values -/

theorem Fits.readsBack {j : Json} (h : Fits levels j) : ReadsBack levels j := by
  induction h with
  | null => exact readsBack_null
  | bool value => exact readsBack_bool value
  | int value => exact readsBack_int value
  | string text => exact readsBack_string text
  | array _ ih => exact readsBack_array ih
  | object _ ih => exact readsBack_object ih

/-- **A value is read back from its text.** -/
theorem parse?_pretty {j : Json} (h : Fits maxLevels j) : parse? j.pretty = some j := by
  have hends : EndsNumber [] := nofun
  have hread : readValue (2 * (print 0 j).length + 2) maxLevels (print 0 j ++ []) = some (j, []) :=
    h.readsBack 0 hends (by omega)
  rw [List.append_nil] at hread
  rw [parse?, pretty, String.toList_ofList]
  simp only [hread]
  rfl

end RouteAudit.Json
