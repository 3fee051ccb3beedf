import Mathlib.Data.List.Basic
import RouteAudit.Json.Parser
import RouteAudit.Json.Printer

/-!
# Strings and numbers read back

A string is read back from its quoted form (`readText_printString`), an integer from its digits
(`readNumber_toDigits`), whatever follows: a string ends at its quote, and digits end where no character
follows that goes on with a number (`EndsNumber`).
-/

namespace RouteAudit.Json

/-! ## Strings -/

theorem hexValue?_hexDigit (n : Nat) : hexValue? (hexDigit n) = some (n % 16) := by
  have hdigits : ∀ m < 16, hexValue? (Nat.digitChar m) = some m := by decide
  exact hdigits (n % 16) (Nat.mod_lt n (by decide))

/-- A control is read back from its two digits. -/
theorem unicodeEscape?_control {c : Char} (hc : c.toNat < 0x20) (rest : List Char) :
    unicodeEscape? ('0' :: '0' :: hexDigit (c.toNat / 16) :: hexDigit c.toNat :: rest) =
      some (c, rest) := by
  have hzero : hexValue? '0' = some 0 := by decide
  have hvalue : ((0 * 16 + 0) * 16 + c.toNat / 16 % 16) * 16 + c.toNat % 16 = c.toNat := by omega
  have hfour : hexFour? ('0' :: '0' :: hexDigit (c.toNat / 16) :: hexDigit c.toNat :: rest) =
      some (c.toNat, rest) := by
    simp only [hexFour?, hzero, hexValue?_hexDigit, Option.bind_eq_bind, Option.bind_some, hvalue]
    rfl
  simp only [unicodeEscape?, hfour]
  rw [if_neg (by omega), if_neg (by omega), Char.ofNat_toNat]

/-- A character that needs no escape stands for itself. -/
theorem readString_plain {c : Char} (hquote : c ≠ '"') (hbackslash : c ≠ '\\')
    (hcontrol : ¬ c.toNat < 0x20) (n : Nat) (s : List Char) :
    readString (n + 1) (c :: s) = (readString n s).map fun (t, rest) => (c :: t, rest) := by
  simp [readString, hquote, hbackslash, hcontrol]

/-- One character is read back from its escaped form. -/
theorem readString_escapeChar (n : Nat) (c : Char) (s : List Char) :
    readString (n + 1) (escapeChar c ++ s) =
      (readString n s).map fun (t, rest) => (c :: t, rest) := by
  unfold escapeChar
  split
  case h_8 _ hquote hbackslash _ _ _ _ _ =>
    split_ifs with hcontrol
    · simp only [List.cons_append, List.nil_append, readString]
      rw [unicodeEscape?_control hcontrol]
      rfl
    · exact readString_plain hquote hbackslash hcontrol n s
  all_goals simp [readString, shortEscape?]

/-- **A string is read back from its escaped form.** -/
theorem readString_flatMap_escapeChar (s rest : List Char) {n : Nat} (hn : s.length < n) :
    readString n (s.flatMap escapeChar ++ '"' :: rest) = some (s, rest) := by
  induction s generalizing n with
  | nil =>
    obtain ⟨n, rfl⟩ := Nat.exists_eq_add_one_of_ne_zero (Nat.ne_zero_of_lt hn)
    simp [readString]
  | cons c s ih =>
    obtain ⟨n, rfl⟩ := Nat.exists_eq_add_one_of_ne_zero (Nat.ne_zero_of_lt hn)
    rw [List.flatMap_cons, List.append_assoc, readString_escapeChar,
      ih (Nat.lt_of_succ_lt_succ hn)]
    rfl

theorem length_le_flatMap_escapeChar (s : List Char) : s.length ≤ (s.flatMap escapeChar).length := by
  induction s with
  | nil => exact Nat.zero_le _
  | cons c s ih =>
    have hchar : 1 ≤ (escapeChar c).length := by
      unfold escapeChar
      split
      case h_8 => split_ifs <;> simp
      all_goals simp
    rw [List.flatMap_cons, List.length_append, List.length_cons]
    omega

theorem readText_printString (s : String) (rest : List Char) {n : Nat}
    (hn : (printString s).length ≤ n + 1) :
    ∃ body, printString s = '"' :: body ∧ readText n (body ++ rest) = some (s, rest) := by
  refine ⟨_, rfl, ?_⟩
  have hlength := length_le_flatMap_escapeChar s.toList
  rw [printString, List.length_cons, List.length_append, List.length_singleton] at hn
  rw [readText, List.append_assoc, List.singleton_append,
    readString_flatMap_escapeChar s.toList rest (by omega)]
  exact congrArg (fun t => some (t, rest)) String.ofList_toList

/-! ## Integers -/

/-- What follows does not go on with a number. -/
def EndsNumber (rest : List Char) : Prop :=
  ∀ c ∈ rest.head?, c.isDigit = false ∧ c ≠ '.' ∧ c ≠ 'e' ∧ c ≠ 'E'

theorem digitsValue_toDigits (n : Nat) : digitsValue (Nat.toDigits 10 n) = n := by
  conv_rhs => rw [← Nat.ofDigitChars_ten_toDigits (n := n)]
  rw [digitsValue, Nat.ofDigitChars_eq_foldl]
  simp only [Nat.mul_comm]

theorem isDigit_of_mem_toDigits {n : Nat} {c : Char} (hc : c ∈ Nat.toDigits 10 n) : c.isDigit = true :=
  Nat.isDigit_of_mem_toDigits (by decide) (by decide) hc

/-- The digits of a number begin with a zero only if it is zero. -/
theorem eq_zero_of_head?_toDigits {n : Nat} (h : (Nat.toDigits 10 n).head? = some '0') : n = 0 := by
  induction n using Nat.strongRecOn with
  | ind n ih =>
    rw [Nat.toDigits_eq_if (by decide)] at h
    split_ifs at h with hlt
    · exact Nat.digitChar_eq_zero.mp (Option.some.inj h)
    · rw [List.head?_append_of_ne_nil _ Nat.toDigits_ne_nil] at h
      have hzero := ih (n / 10) (by omega) h
      omega

/-- A number has digits, and no zero in front of others. -/
theorem not_leadingZero_toDigits (n : Nat) : ¬ (Nat.toDigits 10 n = [] ∨
    ((Nat.toDigits 10 n).head? = some '0' ∧ Nat.toDigits 10 n ≠ ['0'])) := by
  rintro (hnil | ⟨hhead, hne⟩)
  · exact Nat.toDigits_ne_nil hnil
  · refine hne ?_
    rw [eq_zero_of_head?_toDigits hhead, Nat.toDigits_zero]

theorem toDigits_ne_zero {n : Nat} (hn : n ≠ 0) : Nat.toDigits 10 n ≠ ['0'] := by
  intro hdigit
  exact hn (eq_zero_of_head?_toDigits (by rw [hdigit]; rfl))

/-- Digits are taken up to where the number ends. -/
theorem takeWhile_isDigit_append {ds rest : List Char} (hdigits : ∀ c ∈ ds, c.isDigit = true)
    (h : EndsNumber rest) : (ds ++ rest).takeWhile Char.isDigit = ds ∧
      (ds ++ rest).dropWhile Char.isDigit = rest := by
  rw [List.takeWhile_append_of_pos hdigits, List.dropWhile_append_of_pos hdigits]
  cases rest with
  | nil => exact ⟨List.append_nil ds, rfl⟩
  | cons c rest =>
    have hc := (h c rfl).1
    simp [hc]

theorem readFraction_of_endsNumber {rest : List Char} (h : EndsNumber rest) :
    readFraction rest = some ([], rest) := by
  cases rest with
  | nil => rfl
  | cons c rest =>
    have hpoint := (h c rfl).2.1
    simp [readFraction, hpoint]

theorem readExponent_of_endsNumber {rest : List Char} (h : EndsNumber rest) :
    readExponent rest = some ([], rest) := by
  cases rest with
  | nil => rfl
  | cons c rest =>
    obtain ⟨-, -, hlower, hupper⟩ := h c rfl
    simp [readExponent, hlower, hupper]

/-- **An integer is read back from its digits.** -/
theorem readNumber_toDigits {negative : Bool} {n : Nat} (hsign : negative = true → n ≠ 0)
    {rest : List Char} (h : EndsNumber rest) : readNumber negative (Nat.toDigits 10 n ++ rest) =
      some (int (if negative then -(n : Int) else n), rest) := by
  obtain ⟨htake, hdrop⟩ := takeWhile_isDigit_append (fun _ => isDigit_of_mem_toDigits (n := n)) h
  have hnonzero : (!(negative && decide (Nat.toDigits 10 n = ['0']))) = true := by
    cases negative with
    | false => rfl
    | true => simp [toDigits_ne_zero (hsign rfl)]
  unfold readNumber
  simp only [htake, hdrop, readFraction_of_endsNumber h, readExponent_of_endsNumber h,
    if_neg (not_leadingZero_toDigits n), digitsValue_toDigits, hnonzero, Option.bind_eq_bind,
    Option.bind_some, and_self, if_true]
  rfl

end RouteAudit.Json
