import Mathlib.Data.List.Basic
import RouteAudit.Proofs.Escaped
import RouteAudit.Proofs.TomlString
import RouteAudit.Toml.Parser

/-!
# TOML values read back

A value that can be written is read back from its printed form, where the line ends behind it
(`readValue_print`).

Proof. A reader tries one kind of value after the other, so each kind has to be no other: a count is no
date, no time, no float and has no sign (`readNumber_toDigits`), since what follows its digits is the end of
the line. A string ends where no quote follows. The items of an array are read one after the other
(`readItems_flatMap_printItem`); a string does not begin with the closing bracket, so each of them is read
as an item. Every step of the reader takes at least one character, so the length of the text is a bound on
the steps.
-/

namespace RouteAudit.Toml

variable {n levels steps : Nat} {c : Char} {s r rest : List Char}

/-! ## Counts -/

/-- Characters that a test tells apart are different. -/
theorem ne_of_test {p : Char → Bool} {c d : Char} (hc : p c = true) (hd : p d = false) : c ≠ d := by
  rintro rfl
  rw [hc] at hd
  cases hd

section Counts

variable {ds : List Char} (hds : ∀ c ∈ ds, c.isDigit = true)
include hds

/-- Where digits are taken from a number at the end of its line, what is left goes on with a digit or ends the
line. -/
theorem head_drop_digits {count : Nat}
    (h : ((ds ++ '\n' :: rest).take count).all Char.isDigit = true) :
    ∃ d x, (ds ++ '\n' :: rest).drop count = d :: x ∧ (d.isDigit = true ∨ d = '\n') := by
  by_cases hcount : count ≤ ds.length
  · rw [List.drop_append_of_le_length hcount]
    cases hdrop : ds.drop count with
    | nil => exact ⟨'\n', rest, rfl, Or.inr rfl⟩
    | cons d x =>
      have hmem : d ∈ ds := List.mem_of_mem_drop (hdrop ▸ List.mem_cons_self)
      exact ⟨d, x ++ '\n' :: rest, rfl, Or.inl (hds d hmem)⟩
  · have hmem : '\n' ∈ (ds ++ '\n' :: rest).take count := by
      obtain ⟨m, hm⟩ : ∃ m, count - ds.length = m + 1 := ⟨count - ds.length - 1, by omega⟩
      rw [List.take_append, hm]
      exact List.mem_append_right _ List.mem_cons_self
    exact absurd (List.all_eq_true.mp h _ hmem) (by decide)

theorem afterChar?_of_readField {count low high v : Nat} {x : List Char} (hc : c.isDigit = false ∧ c ≠ '\n')
    (h : readField count low high (ds ++ '\n' :: rest) = some (v, x)) : afterChar? c x = none := by
  unfold readField takeExactly? at h
  split_ifs at h
  · rw [Option.bind_some] at h
    dsimp only at h
    split_ifs at h with hfield
    cases h
    rw [Bool.and_eq_true, Bool.and_eq_true] at hfield
    obtain ⟨d, x, hx, hd⟩ := head_drop_digits hds hfield.1.1
    have hne : d ≠ c := by
      rcases hd with hd | rfl
      · exact ne_of_test hd hc.1
      · exact hc.2.symm
    rw [hx, afterChar?, if_neg hne]
  · cases h

/-- A number is neither a date nor a time. -/
theorem readMoment_digits : readMoment (ds ++ '\n' :: rest) = none := by
  have hdate : afterDate? (ds ++ '\n' :: rest) = none := by
    unfold afterDate?
    cases hyear : readField 4 0 9999 (ds ++ '\n' :: rest) with
    | none => rfl
    | some y =>
      obtain ⟨year, x⟩ := y
      have hdash : afterChar? '-' x = none := afterChar?_of_readField hds (by decide) hyear
      rw [Option.bind_eq_bind, Option.bind_some]
      dsimp only
      rw [hdash]
      rfl
  have htime : afterTime? (ds ++ '\n' :: rest) = none := by
    unfold afterTime?
    cases hhour : readField 2 0 23 (ds ++ '\n' :: rest) with
    | none => rfl
    | some h =>
      obtain ⟨hour, x⟩ := h
      have hcolon : afterChar? ':' x = none := afterChar?_of_readField hds (by decide) hhour
      rw [Option.bind_eq_bind, Option.bind_some]
      dsimp only
      rw [hcolon]
      rfl
  rw [readMoment, hdate, htime]
  rfl

theorem moreDigits_digits : moreDigits Char.isDigit (ds ++ '\n' :: rest) = (ds, '\n' :: rest) := by
  induction ds with
  | nil => rfl
  | cons d ds ih =>
    obtain ⟨hd, hds⟩ := List.forall_mem_cons.mp hds
    rw [List.cons_append, moreDigits.eq_3 _ _ _ fun _ _ heq => absurd heq (ne_of_test hd rfl),
      if_pos hd, ih hds]

theorem readDigits_digits (hne : ds ≠ []) :
    readDigits Char.isDigit (ds ++ '\n' :: rest) = some (ds, '\n' :: rest) := by
  obtain ⟨d, ds', rfl⟩ := List.exists_cons_of_ne_nil hne
  obtain ⟨hd, hds'⟩ := List.forall_mem_cons.mp hds
  rw [List.cons_append, readDigits, if_pos hd, moreDigits_digits hds']

end Counts

/-- A number does not begin with a zero, unless it is zero. -/
theorem toDigits_append_ne_zero {n : Nat} (hn : n ≠ 0) (s r : List Char) :
    Nat.toDigits 10 n ++ s ≠ '0' :: r := by
  intro heq
  have hhead : (Nat.toDigits 10 n).head? = some '0' := by
    rw [← List.head?_append_of_ne_nil _ Nat.toDigits_ne_nil, heq, List.head?_cons]
  exact hn (Json.eq_zero_of_head?_toDigits hhead)

theorem readWhole_toDigits (n : Nat) (rest : List Char) :
    readWhole (Nat.toDigits 10 n ++ '\n' :: rest) = some (Nat.toDigits 10 n, '\n' :: rest) := by
  by_cases hn : n = 0
  · subst hn
    rfl
  · have hread : readDigits Char.isDigit (Nat.toDigits 10 n ++ '\n' :: rest) =
        some (Nat.toDigits 10 n, '\n' :: rest) :=
      readDigits_digits (fun _ => Json.isDigit_of_mem_toDigits) Nat.toDigits_ne_nil
    unfold readWhole
    split
    case h_1 heq => exact absurd heq (toDigits_append_ne_zero hn _ _)
    case h_2 => exact hread

theorem digitsValue_toDigits (n : Nat) : digitsValue 10 (Nat.toDigits 10 n) = n := by
  conv_rhs => rw [← Json.digitsValue_toDigits n]
  refine List.foldl_ext _ _ 0 fun m d hd => ?_
  rw [digitValue, if_pos (Json.isDigit_of_mem_toDigits hd)]

section Number

variable (n : Nat) (rest : List Char)

/-- A number has no sign. -/
theorem readSign_toDigits : readSign (Nat.toDigits 10 n ++ '\n' :: rest) =
    ([], Nat.toDigits 10 n ++ '\n' :: rest) := by
  obtain ⟨d, ds, hds⟩ := List.exists_cons_of_ne_nil (Nat.toDigits_ne_nil (b := 10) (n := n))
  have hd : d.isDigit = true := Json.isDigit_of_mem_toDigits (hds ▸ List.mem_cons_self)
  rw [hds, List.cons_append]
  unfold readSign
  split
  case h_1 heq => exact absurd (List.cons.inj heq).1 (ne_of_test hd rfl)
  case h_2 heq => exact absurd (List.cons.inj heq).1 (ne_of_test hd rfl)
  case h_3 => rfl

/-- A number without a fraction or an exponent is no float. -/
theorem readFloat_toDigits : readFloat (Nat.toDigits 10 n ++ '\n' :: rest) = none := by
  rw [readFloat, readSign_toDigits]
  dsimp only
  rw [readWhole_toDigits]
  rfl

theorem readSpecial_toDigits : readSpecial (Nat.toDigits 10 n ++ '\n' :: rest) = none := by
  obtain ⟨d, ds, hds⟩ := List.exists_cons_of_ne_nil (Nat.toDigits_ne_nil (b := 10) (n := n))
  have hd : d.isDigit = true := Json.isDigit_of_mem_toDigits (hds ▸ List.mem_cons_self)
  rw [readSpecial, readSign_toDigits]
  dsimp only
  rw [hds, List.cons_append, List.take_succ_cons, if_neg]
  rintro (heq | heq) <;> exact absurd (List.cons.inj heq).1 (ne_of_test hd rfl)

variable {n}

theorem readInteger_toDigits (hn : n ≤ maxInteger) :
    readInteger (Nat.toDigits 10 n ++ '\n' :: rest) = some ((n : Int), '\n' :: rest) := by
  have hrange : n < Nat.pow 2 63 := Nat.lt_of_le_pred (by decide) hn
  have hdecimal : readDecimal (Nat.toDigits 10 n ++ '\n' :: rest) = some ((n : Int), '\n' :: rest) := by
    rw [readDecimal, readSign_toDigits]
    dsimp only
    rw [readWhole_toDigits, Option.bind_eq_bind, Option.bind_some, integerOf?]
    dsimp only
    rw [if_neg (by decide), digitsValue_toDigits, if_pos hrange]
    rfl
  by_cases hzero : n = 0
  · subst hzero
    exact hdecimal
  · rw [readInteger.eq_2 _ fun _ _ heq => toDigits_append_ne_zero hzero _ _ heq, hdecimal]

/-- **A count is read back from its digits.** -/
theorem readNumber_toDigits (hn : n ≤ maxInteger) : readNumber (Nat.toDigits 10 n ++ '\n' :: rest) =
    some (integer n, '\n' :: rest) := by
  rw [readNumber, readMoment_digits fun _ => Json.isDigit_of_mem_toDigits]
  dsimp only
  rw [readFloat_toDigits]
  dsimp only
  rw [readSpecial_toDigits]
  dsimp only
  rw [readInteger_toDigits rest hn]
  rfl

end Number

/-! ## Blanks and line breaks -/

/-- A character that begins neither blanks nor a comment. -/
def IsToken (c : Char) : Prop :=
  c ∉ [' ', '\t', '#', '\n', '\r']

instance (c : Char) : Decidable (IsToken c) :=
  inferInstanceAs (Decidable (c ∉ [' ', '\t', '#', '\n', '\r']))

theorem isToken_of_test {p : Char → Bool} (hc : p c = true)
    (hp : ¬ [' ', '\t', '#', '\n', '\r'].any p = true) : IsToken c :=
  fun hmem => hp (List.any_eq_true.mpr ⟨c, hmem, hc⟩)

theorem skipSpace_of_isToken (hc : IsToken c) (r : List Char) : skipSpace (c :: r) = c :: r := by
  have hspace : isSpace c = false := by
    simp only [IsToken, List.mem_cons, not_or] at hc
    simp [isSpace, hc]
  rw [skipSpace, List.dropWhile_cons_of_neg (by simp [hspace])]

theorem skipFree_of_isToken (hc : IsToken c) (n : Nat) (r : List Char) :
    skipFree n (c :: r) = c :: r := by
  cases n with
  | zero => rfl
  | succ n =>
    rw [skipFree, skipSpace_of_isToken hc]
    simp only [IsToken, List.mem_cons, not_or] at hc
    split
    case h_1 heq => exact absurd (List.cons.inj heq).1 hc.2.2.1
    case h_2 =>
      have hnone : afterNewline? (c :: r) = none := by
        unfold afterNewline?
        split <;> simp_all
      rw [hnone]

/-! ## Strings, flags and counts -/

theorem readValue_of_ne (hc : c ≠ '[' ∧ c ≠ '{') (r : List Char) :
    readValue (n + 1) levels (c :: r) = readScalar n (c :: r) := by
  unfold readValue
  split
  case h_1 heq => exact absurd (List.cons.inj heq).1 hc.1
  case h_2 heq => exact absurd (List.cons.inj heq).1 hc.2
  case h_3 => rfl

theorem isToken_quote (form : StringForm) : IsToken form.quote := by
  cases form <;> decide

theorem readValue_printString (text : String) (h : EndsString rest)
    (hn : (printString text).length < n) :
    readValue n levels (printString text ++ rest) = some (string text, rest) := by
  obtain ⟨n, rfl⟩ := Nat.exists_eq_add_one_of_ne_zero (Nat.ne_zero_of_lt hn)
  have hread := readString_printString text h (Nat.le_of_lt_succ hn)
  obtain ⟨form, t, ht⟩ := exists_printString_eq text
  rw [ht, List.cons_append] at hread ⊢
  rw [readValue_of_ne (by cases form <;> decide), readScalar,
    if_pos (by cases form <;> decide), hread]
  exact congrArg (fun s => some (string s, rest)) String.ofList_toList

theorem readValue_toDigits {count : Nat} (hcount : count ≤ maxInteger) (rest : List Char) :
    readValue (n + 1) levels (Nat.toDigits 10 count ++ '\n' :: rest) =
      some (integer count, '\n' :: rest) := by
  have hread := readNumber_toDigits rest hcount
  obtain ⟨d, ds, hds⟩ := List.exists_cons_of_ne_nil (Nat.toDigits_ne_nil (b := 10) (n := count))
  have hd : d.isDigit = true := Json.isDigit_of_mem_toDigits (hds ▸ List.mem_cons_self)
  rw [hds, List.cons_append] at hread ⊢
  rw [readValue_of_ne ⟨ne_of_test hd rfl, ne_of_test hd rfl⟩, readScalar,
    if_neg (not_or.mpr ⟨ne_of_test hd rfl, ne_of_test hd rfl⟩), List.take_succ_cons,
    List.take_succ_cons, if_neg fun heq => ne_of_test (d := 't') hd rfl (List.cons.inj heq).1,
    if_neg fun heq => ne_of_test (d := 'f') hd rfl (List.cons.inj heq).1, hread]

/-! ## Arrays -/

theorem endsString_of_ne (hc : c ≠ '"' ∧ c ≠ '\'') (r : List Char) : EndsString (c :: r) := by
  intro d hd
  obtain rfl := Option.some.inj hd
  exact hc

theorem readValue_array (n levels : Nat) (r : List Char) : readValue (n + 1) (levels + 1) ('[' :: r) =
    (readItems n levels r).map fun (vs, rest) => (array vs, rest) := by
  rw [readValue]

theorem readItems_nil (hs : skipFree n s = ']' :: rest) :
    readItems (n + 1) levels s = some ([], rest) := by
  rw [readItems, hs]
  rfl

/-- No string ends an array. -/
theorem printString_append_ne (item : String) (x y : List Char) : printString item ++ x ≠ ']' :: y := by
  obtain ⟨form, t, ht⟩ := exists_printString_eq item
  intro heq
  rw [ht] at heq
  have hhead := (List.cons.inj heq).1
  cases form <;> cases hhead

theorem readItems_last {item : String} (hs : skipFree n s = printString item ++ ']' :: rest)
    (hn : (printString item).length < n) :
    readItems (n + 1) levels s = some ([string item], rest) := by
  have hvalue : readValue n levels (printString item ++ ']' :: rest) = some (string item, ']' :: rest) :=
    readValue_printString item (endsString_of_ne (by decide) rest) hn
  rw [readItems, hs]
  split
  case h_1 heq => exact (printString_append_ne _ _ _ heq).elim
  case h_2 =>
    rw [hvalue]
    dsimp only
    rw [skipFree_of_isToken (by decide)]
    rfl

theorem readItems_comma {item : String} (hs : skipFree n s = printString item ++ ',' :: r)
    (hn : (printString item).length < n) : readItems (n + 1) levels s =
      (readItems n levels r).map fun (vs, rest) => (string item :: vs, rest) := by
  have hvalue : readValue n levels (printString item ++ ',' :: r) = some (string item, ',' :: r) :=
    readValue_printString item (endsString_of_ne (by decide) r) hn
  rw [readItems, hs]
  split
  case h_1 heq => exact (printString_append_ne _ _ _ heq).elim
  case h_2 =>
    rw [hvalue]
    dsimp only
    rw [skipFree_of_isToken (by decide)]
    rfl

/-- In front of a string nothing is passed over. -/
theorem skipFree_printString (n : Nat) (item : String) (x : List Char) :
    skipFree n (printString item ++ x) = printString item ++ x := by
  obtain ⟨form, t, ht⟩ := exists_printString_eq item
  rw [ht, List.cons_append, skipFree_of_isToken (isToken_quote form)]

/-- The items of an array of several lines, from the line break in front of them. -/
theorem readItems_flatMap_printItem (items : List String) (rest : List Char)
    (hn : (items.flatMap printItem).length + 3 ≤ n) :
    readItems n levels ('\n' :: (items.flatMap printItem ++ ']' :: rest)) =
      some (items.map string, rest) := by
  induction items generalizing n with
  | nil =>
    obtain ⟨n, rfl⟩ : ∃ m, n = m + 3 := ⟨n - 3, by simp at hn; omega⟩
    rfl
  | cons item items ih =>
    rw [List.flatMap_cons, List.length_append, printItem] at hn
    simp only [List.length_cons, List.length_append, List.length_nil] at hn
    obtain ⟨n, rfl⟩ : ∃ m, n = m + 3 := ⟨n - 3, by omega⟩
    have hitem : skipFree (n + 2) ('\n' :: ((item :: items).flatMap printItem ++ ']' :: rest)) =
        printString item ++ ',' :: '\n' :: (items.flatMap printItem ++ ']' :: rest) := by
      rw [← skipFree_printString (n + 1) item]
      simp only [List.flatMap_cons, printItem, List.cons_append, List.append_assoc, List.nil_append]
      rfl
    rw [readItems_comma hitem (by omega), ih (by omega)]
    rfl

/-- What is read back as a value where the line ends behind it. -/
def FieldValue.toToml : FieldValue → Toml
  | string text => .string text
  | strings items => .array (items.map .string)
  | flag value => .boolean value
  | count n => .integer n

theorem FieldValue.print_strings {items : List String} (h : 2 ≤ items.length) :
    (strings items).print = '[' :: '\n' :: (items.flatMap printItem ++ [']']) := by
  match items with
  | _ :: _ :: _ => rfl

/-- A value begins with no blank. -/
theorem FieldValue.exists_print_eq (v : FieldValue) : ∃ c t, v.print = c :: t ∧ IsToken c := by
  cases v with
  | string text =>
    obtain ⟨form, t, ht⟩ := exists_printString_eq text
    exact ⟨_, t, ht, isToken_quote form⟩
  | strings items =>
    match items with
    | [] | [_] | _ :: _ :: _ => exact ⟨'[', _, rfl, by decide⟩
  | flag value => cases value <;> exact ⟨_, _, rfl, by decide⟩
  | count n =>
    obtain ⟨d, ds, hds⟩ := List.exists_cons_of_ne_nil (Nat.toDigits_ne_nil (b := 10) (n := n))
    have hd : d.isDigit = true := Json.isDigit_of_mem_toDigits (hds ▸ List.mem_cons_self)
    exact ⟨d, ds, hds, isToken_of_test hd (by decide)⟩

/-- **A value is read back from its printed form**, where the line ends behind it. -/
theorem readValue_print {v : FieldValue} (hv : v.isWritable = true) (rest : List Char)
    (hn : v.print.length + 2 ≤ n) :
    readValue n (levels + 1) (v.print ++ '\n' :: rest) = some (v.toToml, '\n' :: rest) := by
  obtain ⟨n, rfl⟩ : ∃ m, n = m + 2 := ⟨n - 2, by omega⟩
  cases v with
  | string text =>
    exact readValue_printString text (endsString_of_ne (by decide) rest)
      (by simp only [FieldValue.print] at hn; omega)
  | flag value => cases value <;> rfl
  | count count => exact readValue_toDigits (of_decide_eq_true hv) rest
  | strings items =>
    match items with
    | [] =>
      have hitems : readItems (n + 1) levels (']' :: '\n' :: rest) = some ([], '\n' :: rest) :=
        readItems_nil (skipFree_of_isToken (by decide) n _)
      exact (readValue_array ..).trans (congrArg _ hitems)
    | [item] =>
      rw [FieldValue.print, List.length_cons, List.length_append, List.length_singleton] at hn
      have hitems : readItems (n + 1) levels (printString item ++ ']' :: '\n' :: rest) =
          some ([Toml.string item], '\n' :: rest) :=
        readItems_last (skipFree_printString n item _) (by omega)
      rw [FieldValue.print, List.cons_append, List.append_assoc, readValue_array, List.singleton_append,
        hitems]
      rfl
    | item :: item' :: items =>
      rw [FieldValue.print_strings (by simp)] at hn ⊢
      simp only [List.length_cons, List.length_append, List.length_nil] at hn
      rw [List.cons_append, List.cons_append, List.append_assoc, readValue_array,
        List.singleton_append, readItems_flatMap_printItem _ _ (by omega)]
      rfl

end RouteAudit.Toml
