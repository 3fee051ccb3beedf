import Mathlib.Data.List.Basic
import RouteAudit.Proofs.Split
import RouteAudit.Toml.Printer

/-!
# TOML strings read back

A string is written in one of four forms and read back from each of them (`readString_printString`),
where no quote follows.

Proof. `Writes` says what a form puts between its quotes for a text: characters that stand for themselves,
escapes, and in a long form up to two quotes in a row. So the closing quotes are found where the text
ends and nowhere before (`Writes.closing?`), which is all that the two readers of long strings need
(`IsReader`). The printer keeps to this in any text that it writes in double quotes
(`writes_escapeText`); single quotes are chosen only for texts that need no escape.
-/

namespace RouteAudit.Toml

/-! ## Escapes -/

/-- The text behind a backslash stands for the character, and it is no folded end of a line. -/
structure IsEscape (e : List Char) (c : Char) : Prop where
  unescape?_append : ∀ r, unescape? (e ++ r) = some (c, r)
  afterFold?_append : ∀ r, afterFold? (e ++ r) = none

/-- A control is read back from its code. -/
theorem coded?_control {c : Char} (hc : isControl c = true) :
    coded? ['0', '0', (Nat.digitChar (c.toNat / 16)).toUpper, (Nat.digitChar (c.toNat % 16)).toUpper] =
      some c := by
  have hlow : c.toNat < 0x80 := by
    simp only [isControl, Bool.or_eq_true, Bool.and_eq_true, decide_eq_true_iff] at hc
    omega
  have hcodes : ∀ n < 0x80, coded? ['0', '0', (Nat.digitChar (n / 16)).toUpper,
      (Nat.digitChar (n % 16)).toUpper] = some (Char.ofNat n) := by decide
  rw [hcodes c.toNat hlow, Char.ofNat_toNat]

theorem isEscape_short {e c : Char} (he : shortEscape? e = some c) (hu : e ≠ 'u' ∧ e ≠ 'U')
    (hfold : ∀ r, afterFold? (e :: r) = none) : IsEscape [e] c where
  unescape?_append r := by
    rw [List.singleton_append, unescape?, if_neg (not_or.mpr hu), he]
    rfl
  afterFold?_append r := hfold r

theorem isEscape_control {c : Char} (hc : isControl c = true) : IsEscape
    ['u', '0', '0', (Nat.digitChar (c.toNat / 16)).toUpper, (Nat.digitChar (c.toNat % 16)).toUpper]
    c where
  unescape?_append r := by
    have hcoded := coded?_control hc
    have htake : takeExactly? 4 (['0', '0', (Nat.digitChar (c.toNat / 16)).toUpper,
        (Nat.digitChar (c.toNat % 16)).toUpper] ++ r) = some (['0', '0',
          (Nat.digitChar (c.toNat / 16)).toUpper, (Nat.digitChar (c.toNat % 16)).toUpper], r) := by
      simp [takeExactly?]
    rw [List.cons_append, unescape?, if_pos (Or.inl rfl), if_pos rfl, htake]
    change (coded? _).map _ = _
    rw [hcoded]
    rfl
  afterFold?_append r := rfl

/-- Apart from the line break, a character that is no control is text. -/
theorem isText_of_not_isControl {c : Char} (hc : ¬ isControl c = true) (hline : c ≠ '\n') :
    isText c = true := by
  simp only [isControl, Bool.or_eq_true, Bool.and_eq_true, decide_eq_true_iff, not_or, not_and] at hc
  simp only [isText, Bool.or_eq_true, Bool.and_eq_true, decide_eq_true_iff]
  by_cases htab : c = '\t'
  · exact Or.inl htab
  · exact Or.inr ⟨Nat.not_lt.mp fun hlow => hc.1 ⟨hlow, htab⟩ hline, hc.2⟩

namespace StringForm

/-- The quote character of a form. -/
def quote : StringForm → Char
  | basic | longBasic => '"'
  | literal | longLiteral => '\''

/-- The number of quotes in a row that stand inside as they are. -/
def allowed (form : StringForm) : Nat :=
  if form.isLong then 2 else 0

/-- Whether a character stands for itself inside the quotes. -/
structure Keeps (form : StringForm) (c : Char) : Prop where
  ne_quote : c ≠ form.quote
  ne_backslash : form.quote = '"' → c ≠ '\\'
  isText : isText c = true ∨ form.isLong = true ∧ c = '\n'

/-- What stands for a text inside the quotes of a form, given how many quotes may follow at once. -/
inductive Writes (form : StringForm) : Nat → List Char → List Char → Prop where
  | nil (k : Nat) : Writes form k [] []
  | quote {k : Nat} {t s : List Char} (h : Writes form k t s) :
    Writes form (k + 1) (form.quote :: t) (form.quote :: s)
  | plain {k : Nat} {c : Char} {t s : List Char} (hc : form.Keeps c)
    (h : Writes form form.allowed t s) : Writes form k (c :: t) (c :: s)
  | escape {k : Nat} {c : Char} {e t s : List Char} (hquote : form.quote = '"') (hc : IsEscape e c)
    (h : Writes form form.allowed t s) : Writes form k ('\\' :: (e ++ t)) (c :: s)

variable {form : StringForm} {k b : Nat} {c : Char} {s t rest : List Char}

/-! ## What is written -/

/-- In double quotes a character stands for itself or behind a backslash. -/
theorem keeps_or_isEscape (hform : form.quote = '"') (hc : c ≠ '"') :
    form.Keeps c ∧ escapeChar form.isLong c = [c] ∨
      ∃ e, escapeChar form.isLong c = '\\' :: e ∧ IsEscape e c := by
  unfold escapeChar
  split
  case h_3 =>
    cases hlong : form.isLong with
    | true => exact Or.inl ⟨⟨hform ▸ hc, fun _ => by decide, Or.inr ⟨hlong, rfl⟩⟩, rfl⟩
    | false => exact Or.inr ⟨_, rfl, isEscape_short rfl (by decide) fun _ => rfl⟩
  case h_7 c _ _ hline _ _ hbackslash =>
    split_ifs with hcontrol
    · exact Or.inr ⟨_, rfl, isEscape_control hcontrol⟩
    · exact Or.inl ⟨⟨hform ▸ hc, fun _ => hbackslash, Or.inl (isText_of_not_isControl hcontrol hline)⟩, rfl⟩
  all_goals exact Or.inr ⟨_, rfl, isEscape_short rfl (by decide) fun _ => rfl⟩

/-- Any text can be written in double quotes. -/
theorem writes_escapeText (hform : form.quote = '"') (hb : b ≤ form.allowed) :
    form.Writes (form.allowed - b) (escapeText form.isLong form.allowed b s) s := by
  induction s generalizing b with
  | nil => exact .nil _
  | cons c s ih =>
    rw [escapeText]
    split_ifs with hc hbefore
    · subst hc
      have hnext : form.allowed - b = form.allowed - (b + 1) + 1 := by omega
      have hquote := (ih (b := b + 1) hbefore).quote
      rw [← hnext, hform] at hquote
      exact hquote
    · subst hc
      have hescape : IsEscape ['"'] '"' := isEscape_short rfl (by decide) fun _ => rfl
      exact .escape hform hescape (ih (Nat.zero_le _))
    · have hnext := ih (b := 0) (Nat.zero_le _)
      rcases keeps_or_isEscape hform hc with ⟨hkeeps, hchar⟩ | ⟨e, hchar, hescape⟩
      · rw [hchar]
        exact .plain hkeeps hnext
      · rw [hchar]
        exact .escape hform hescape hnext

theorem longestRun_cons_self {q : Char} (s : List Char) :
    longestRun q b (q :: s) = longestRun q (b + 1) s := by
  rw [longestRun, if_pos rfl]

theorem longestRun_cons_of_ne {q : Char} (hc : c ≠ q) (s : List Char) :
    longestRun q b (c :: s) = max b (longestRun q 0 s) := by
  rw [longestRun, if_neg hc]

theorem le_longestRun (q : Char) (b : Nat) (s : List Char) : b ≤ longestRun q b s := by
  induction s generalizing b with
  | nil => exact Nat.le_refl b
  | cons c s ih =>
    rw [longestRun]
    split_ifs
    · exact Nat.le_of_succ_le (ih (b + 1))
    · exact Nat.le_max_left ..

theorem notMem_of_longestRun_eq_zero {q : Char} (h : longestRun q 0 s = 0) : q ∉ s := by
  induction s with
  | nil => simp
  | cons c s ih =>
    by_cases hc : c = q
    · subst hc
      rw [longestRun_cons_self] at h
      exact absurd (le_longestRun c 1 s) (by rw [h]; decide)
    · rw [longestRun_cons_of_ne hc, Nat.zero_max] at h
      exact List.not_mem_cons_of_ne_of_not_mem (Ne.symm hc) (ih h)

/-- A text without controls and with at most two single quotes in a row stands for itself. -/
theorem writes_longLiteral (hcontrol : ∀ c ∈ s, ¬ isControl c = true)
    (hruns : longestRun '\'' b s ≤ 2) : longLiteral.Writes (2 - b) s s := by
  induction s generalizing b with
  | nil => exact .nil _
  | cons c s ih =>
    obtain ⟨hc, hcontrols⟩ := List.forall_mem_cons.mp hcontrol
    by_cases hquote : c = '\''
    · subst hquote
      rw [longestRun_cons_self] at hruns
      have hle := Nat.le_trans (le_longestRun '\'' (b + 1) s) hruns
      have hnext : 2 - b = 2 - (b + 1) + 1 := by omega
      rw [hnext]
      exact (ih hcontrols hruns).quote
    · rw [longestRun_cons_of_ne hquote] at hruns
      refine .plain ⟨hquote, nofun, ?_⟩ (ih (b := 0) hcontrols (Nat.le_trans (Nat.le_max_right ..) hruns))
      by_cases hline : c = '\n'
      · exact Or.inr ⟨rfl, hline⟩
      · exact Or.inl (isText_of_not_isControl hc hline)

/-! ## The closing quotes -/

/-- What is written begins with no more quotes in a row than allowed: either it is these quotes alone,
or another character follows them. -/
theorem Writes.begins (h : form.Writes k t s) :
    (∃ j ≤ k, t = List.replicate j form.quote ∧ s = t) ∨
      ∃ j ≤ k, ∃ c r, t = List.replicate j form.quote ++ c :: r ∧ c ≠ form.quote := by
  induction h with
  | nil k => exact Or.inl ⟨0, Nat.zero_le k, rfl, rfl⟩
  | quote _ ih =>
    rcases ih with ⟨j, hj, rfl, rfl⟩ | ⟨j, hj, c, r, rfl, hc⟩
    · exact Or.inl ⟨j + 1, Nat.succ_le_succ hj, rfl, rfl⟩
    · exact Or.inr ⟨j + 1, Nat.succ_le_succ hj, c, r, rfl, hc⟩
  | plain hc _ _ => exact Or.inr ⟨0, Nat.zero_le _, _, _, rfl, hc.ne_quote⟩
  | escape hquote _ _ _ => exact Or.inr ⟨0, Nat.zero_le _, _, _, rfl, by rw [hquote]; decide⟩

theorem takeWhile_replicate_append {q : Char} (j : Nat) {r : List Char} (hr : r.head? ≠ some q) :
    (List.replicate j q ++ r).takeWhile (· = q) = List.replicate j q := by
  rw [List.takeWhile_append_of_pos (by simp +contextual [List.mem_replicate])]
  cases r with
  | nil => simp
  | cons c r =>
    have hc : c ≠ q := fun hc => hr (by rw [hc]; rfl)
    simp [hc]

theorem closing?_eq_none {q : Char} {j : Nat} (hj : j ≤ 2) {r : List Char} (hr : r.head? ≠ some q) :
    closing? q (List.replicate j q ++ r) = none := by
  rw [closing?, takeWhile_replicate_append j hr, List.length_replicate]
  exact if_neg (by omega)

/-- Up to two quotes before the closing three belong to the text. -/
theorem closing?_eq_some {q : Char} {j : Nat} (hj : j ≤ 2) {r : List Char} (hr : r.head? ≠ some q) :
    closing? q (List.replicate j q ++ (List.replicate 3 q ++ r)) = some (List.replicate j q, r) := by
  rw [← List.append_assoc, List.replicate_append_replicate, closing?,
    takeWhile_replicate_append (j + 3) hr, List.length_replicate, Nat.min_eq_right (by omega),
    if_pos (by omega), Nat.add_sub_cancel, List.drop_left' List.length_replicate]

/-- Where something is written the closing quotes come now, with what is left in front of them, or they
come later. -/
theorem Writes.closing? (h : form.Writes k t s) (hk : k ≤ 2) (hrest : rest.head? ≠ some form.quote) :
    Toml.closing? form.quote (t ++ (List.replicate 3 form.quote ++ rest)) = some (s, rest) ∨
      Toml.closing? form.quote (t ++ (List.replicate 3 form.quote ++ rest)) = none ∧ t ≠ [] := by
  rcases h.begins with ⟨j, hj, rfl, rfl⟩ | ⟨j, hj, c, r, rfl, hc⟩
  · exact Or.inl (closing?_eq_some (Nat.le_trans hj hk) hrest)
  · refine Or.inr ⟨?_, by simp⟩
    rw [List.append_assoc, List.cons_append]
    exact closing?_eq_none (Nat.le_trans hj hk) fun heq => hc (Option.some.inj heq)

end StringForm

/-! ## Reading -/

variable {n k : Nat} {c : Char} {e s t r rest : List Char}

theorem afterNewline?_of_isText (hc : isText c = true) (r : List Char) :
    afterNewline? (c :: r) = none := by
  have hbreak : c ∉ ['\n', '\r'] := by
    intro hmem
    rcases List.mem_pair.mp hmem with rfl | rfl <;> exact absurd hc (by decide)
  unfold afterNewline?
  split
  case h_1 heq => exact absurd (by simp [(List.cons.inj heq).1]) hbreak
  case h_2 heq => exact absurd (by simp [(List.cons.inj heq).1]) hbreak
  case h_3 => rfl

/-- **A basic string is read back.** -/
theorem readBasic_of_writes (h : StringForm.basic.Writes 0 t s) (rest : List Char) (hn : t.length < n) :
    readBasic n (t ++ '"' :: rest) = some (s, rest) := by
  generalize hk : 0 = k at h
  induction h generalizing n with
  | nil k =>
    obtain ⟨n, rfl⟩ := Nat.exists_eq_add_one_of_ne_zero (Nat.ne_zero_of_lt hn)
    rfl
  | quote _ _ => cases hk
  | @plain _ c t s hc _ ih =>
    obtain ⟨n, rfl⟩ := Nat.exists_eq_add_one_of_ne_zero (Nat.ne_zero_of_lt hn)
    have hquote : c ≠ '"' := hc.ne_quote
    have htext := hc.isText.resolve_right nofun
    rw [List.cons_append, readBasic, if_neg hquote, if_neg (hc.ne_backslash rfl), if_pos htext,
      ih (Nat.lt_of_succ_lt_succ hn) rfl]
    rfl
  | @escape _ c e t s _ hc _ ih =>
    obtain ⟨n, rfl⟩ := Nat.exists_eq_add_one_of_ne_zero (Nat.ne_zero_of_lt hn)
    have hn' : t.length < n := by
      rw [List.length_cons, List.length_append] at hn
      omega
    rw [List.cons_append, List.append_assoc, readBasic, if_neg (by decide), if_pos rfl]
    simp only [hc.unescape?_append, ih hn' rfl]
    rfl

theorem readLiteral_append (hquote : '\'' ∉ s) (htext : ∀ c ∈ s, isText c = true) (rest : List Char) :
    readLiteral (s ++ '\'' :: rest) = some (s, rest) := by
  rw [readLiteral]
  simp only [Text.takeWhile_ne_append_sep hquote, Text.dropWhile_ne_append_sep hquote]
  rw [if_pos (List.all_eq_true.mpr htext)]

/-- A function that reads what a long form writes, one character at a time. -/
structure StringForm.IsReader (form : StringForm) (read : Nat → List Char → Option (List Char × List Char)) :
    Prop where
  isLong : form.isLong = true
  closing : ∀ {n x s rest}, closing? form.quote x = some (s, rest) → read (n + 1) x = some (s, rest)
  text : ∀ {n c r}, closing? form.quote (c :: r) = none → (form.quote = '"' → c ≠ '\\') →
    isText c = true ∨ c = '\n' → read (n + 1) (c :: r) = consRead c (read n r)
  escape : form.quote = '"' → ∀ {n e c r}, IsEscape e c →
    read (n + 1) ('\\' :: (e ++ r)) = consRead c (read n r)

/-- **A string over several lines is read back.** -/
theorem StringForm.IsReader.read_of_writes {form : StringForm}
    {read : Nat → List Char → Option (List Char × List Char)} (hread : form.IsReader read)
    (h : form.Writes k t s) (hk : k ≤ 2) (hrest : rest.head? ≠ some form.quote) (hn : t.length < n) :
    read n (t ++ (List.replicate 3 form.quote ++ rest)) = some (s, rest) := by
  have hallowed : form.allowed = 2 := if_pos hread.isLong
  induction h generalizing n with
  | nil k =>
    obtain ⟨n, rfl⟩ := Nat.exists_eq_add_one_of_ne_zero (Nat.ne_zero_of_lt hn)
    exact hread.closing (closing?_eq_some (j := 0) (by decide) hrest)
  | @quote k t s h ih =>
    obtain ⟨n, rfl⟩ := Nat.exists_eq_add_one_of_ne_zero (Nat.ne_zero_of_lt hn)
    rcases h.quote.closing? hk hrest with hclosing | ⟨hclosing, -⟩
    · exact hread.closing hclosing
    · rw [List.cons_append] at hclosing ⊢
      have hquote : form.quote ≠ '\\' ∧ isText form.quote = true := by cases form <;> decide
      rw [hread.text hclosing (fun _ => hquote.1) (Or.inl hquote.2), ih (Nat.le_of_succ_le hk)
        (Nat.lt_of_succ_lt_succ hn)]
      rfl
  | @plain k c t s hc h ih =>
    obtain ⟨n, rfl⟩ := Nat.exists_eq_add_one_of_ne_zero (Nat.ne_zero_of_lt hn)
    rcases (Writes.plain (k := k) hc h).closing? hk hrest with hclosing | ⟨hclosing, -⟩
    · exact hread.closing hclosing
    · rw [List.cons_append] at hclosing ⊢
      rw [hread.text hclosing hc.ne_backslash (hc.isText.imp_right And.right),
        ih (Nat.le_of_eq hallowed) (Nat.lt_of_succ_lt_succ hn)]
      rfl
  | @escape k c e t s hquote hc h ih =>
    obtain ⟨n, rfl⟩ := Nat.exists_eq_add_one_of_ne_zero (Nat.ne_zero_of_lt hn)
    rw [List.length_cons, List.length_append] at hn
    rw [List.cons_append, List.append_assoc, hread.escape hquote hc,
      ih (Nat.le_of_eq hallowed) (by omega)]
    rfl

theorem isReader_readLongBasic : StringForm.longBasic.IsReader readLongBasic where
  isLong := rfl
  closing {n x s rest} hx := by
    cases x with
    | nil => cases hx
    | cons c r =>
      have hx : closing? '"' (c :: r) = some (s, rest) := hx
      rw [readLongBasic, hx]
  text {n c r} hclosing hbackslash hc := by
    have hclosing : closing? '"' (c :: r) = none := hclosing
    rcases hc with hc | rfl
    · rw [readLongBasic, hclosing, afterNewline?_of_isText hc]
      simp only [if_neg (hbackslash rfl), if_pos hc]
    · rw [readLongBasic, hclosing]
      rfl
  escape _ n e c r hc := by
    have hclosing : closing? '"' ('\\' :: (e ++ r)) = none := rfl
    rw [readLongBasic, hclosing, afterNewline?_of_isText (by decide)]
    simp only [if_true, hc.afterFold?_append, hc.unescape?_append]

theorem isReader_readLongLiteral : StringForm.longLiteral.IsReader readLongLiteral where
  isLong := rfl
  closing {n x s rest} hx := by
    cases x with
    | nil => cases hx
    | cons c r =>
      have hx : closing? '\'' (c :: r) = some (s, rest) := hx
      rw [readLongLiteral, hx]
  text {n c r} hclosing _ hc := by
    have hclosing : closing? '\'' (c :: r) = none := hclosing
    rcases hc with hc | rfl
    · rw [readLongLiteral, hclosing, afterNewline?_of_isText hc]
      simp only [if_pos hc]
    · rw [readLongLiteral, hclosing]
      rfl
  escape hquote := by cases hquote

/-! ## The chosen form -/

theorem StringForm.of_choose_literal (h : choose s = literal) :
    '\'' ∉ s ∧ ∀ c ∈ s, isText c = true := by
  unfold choose at h
  dsimp only at h
  split_ifs at h with h₁ h₂ h₃ h₄ h₅
  rw [Bool.and_eq_true, Bool.and_eq_true, Bool.not_eq_true', Bool.not_eq_true', List.any_eq_false,
    decide_eq_true_iff] at h₂
  obtain ⟨⟨hcontrol, hline⟩, hsingles⟩ := h₂
  refine ⟨notMem_of_longestRun_eq_zero hsingles, fun c hc => ?_⟩
  refine isText_of_not_isControl (hcontrol c hc) ?_
  rintro rfl
  rw [List.contains_iff_mem.mpr hc] at hline
  cases hline

theorem StringForm.of_choose_longLiteral (h : choose s = longLiteral) :
    (∀ c ∈ s, ¬ isControl c = true) ∧ longestRun '\'' 0 s ≤ 2 := by
  unfold choose at h
  dsimp only at h
  split_ifs at h with h₁ h₂ h₃ h₄ h₅
  rw [Bool.and_eq_true, Bool.not_eq_true', List.any_eq_false, decide_eq_true_iff] at h₄
  exact h₄

/-- In a form with quotes of one character, what follows the first quote is no further pair. -/
theorem readString_basic (hx : ¬ ['"', '"'] <+: r) : readString n ('"' :: r) = readBasic n r := by
  unfold readString
  split
  case h_1 heq => exact absurd ⟨_, (List.cons.inj heq).2.symm⟩ hx
  case h_2 heq => cases heq
  case h_3 => rfl

theorem readString_literal (hx : ¬ ['\'', '\''] <+: r) : readString n ('\'' :: r) = readLiteral r := by
  unfold readString
  split
  case h_1 heq => cases heq
  case h_2 heq => exact absurd ⟨_, (List.cons.inj heq).2.symm⟩ hx
  case h_3 => rfl

/-- A pair of quotes is neither at the front of a text without quotes nor at its closing one. -/
theorem not_isPrefix_pair {q : Char} (ht : t.head? ≠ some q) (hrest : rest.head? ≠ some q) :
    ¬ [q, q] <+: t ++ q :: rest := by
  rintro ⟨r, hr⟩
  cases t with
  | nil => exact hrest (by rw [← (List.cons.inj hr).2]; rfl)
  | cons c t => exact ht (by rw [(List.cons.inj hr).1]; rfl)

/-- Where no quote may stand as it is, what is written begins with none. -/
theorem StringForm.Writes.head?_ne {form : StringForm} (h : form.Writes 0 t s) :
    t.head? ≠ some form.quote := by
  rcases h.begins with ⟨j, hj, rfl, -⟩ | ⟨j, hj, c, r, rfl, hc⟩
  · obtain rfl := Nat.le_zero.mp hj
    nofun
  · obtain rfl := Nat.le_zero.mp hj
    exact fun hhead => hc (Option.some.inj hhead)

/-- What is written without a line break begins with none. -/
theorem StringForm.Writes.dropNewline {form : StringForm} (h : form.Writes k t s) (hline : '\n' ∉ s)
    (r : List Char) : Toml.dropNewline (t ++ form.quote :: r) = t ++ form.quote :: r := by
  have hquote : isText form.quote = true := by cases form <;> decide
  have hnone : afterNewline? (t ++ form.quote :: r) = none := by
    cases h with
    | nil => exact afterNewline?_of_isText hquote r
    | quote => exact afterNewline?_of_isText hquote _
    | plain hc =>
      refine afterNewline?_of_isText (hc.isText.resolve_right ?_) _
      rintro ⟨-, rfl⟩
      exact hline List.mem_cons_self
    | escape => exact afterNewline?_of_isText (by decide) _
  rw [Toml.dropNewline, hnone]
  rfl

/-- The line break in front of a long string is passed over. -/
theorem StringForm.Writes.dropNewline_lead {form : StringForm} (h : form.Writes k t s) (r : List Char) :
    Toml.dropNewline ((if s.contains '\n' then ['\n'] else []) ++ (t ++ form.quote :: r)) =
      t ++ form.quote :: r := by
  split_ifs with hline
  · rfl
  · exact h.dropNewline (fun hmem => hline (List.contains_iff_mem.mpr hmem)) r

/-- What follows a string in a document: no quote. -/
def EndsString (rest : List Char) : Prop :=
  ∀ c ∈ rest.head?, c ≠ '"' ∧ c ≠ '\''

theorem EndsString.head?_ne (h : EndsString rest) (form : StringForm) :
    rest.head? ≠ some form.quote := by
  intro hhead
  have hc := h form.quote hhead
  cases form <;> simp [StringForm.quote] at hc

section Printed

variable {text : String} {form : StringForm}

theorem length_body_lt (hform : StringForm.choose text.toList = form) :
    (form.body text.toList).length < (printString text).length := by
  rw [printString, hform]
  cases form <;> simp [StringForm.quotes] <;> omega

theorem printString_short (hform : StringForm.choose text.toList = form) (hshort : form.isLong = false)
    (rest : List Char) : printString text ++ rest =
      form.quote :: (form.body text.toList ++ form.quote :: rest) := by
  have hquotes : form.quotes = [form.quote] := by
    cases form <;> first | rfl | cases hshort
  simp [printString, hform, hshort, hquotes]

theorem printString_long (hform : StringForm.choose text.toList = form) (hlong : form.isLong = true)
    (rest : List Char) : printString text ++ rest =
      form.quote :: form.quote :: form.quote :: ((if text.toList.contains '\n' then ['\n'] else []) ++
        (form.body text.toList ++ (List.replicate 3 form.quote ++ rest))) := by
  have hquotes : form.quotes = [form.quote, form.quote, form.quote] := by
    cases form <;> first | rfl | cases hlong
  simp [printString, hform, hlong, hquotes, List.replicate]

/-- A printed string begins with a quote. -/
theorem exists_printString_eq (text : String) :
    ∃ (form : StringForm) (t : List Char), printString text = form.quote :: t := by
  unfold printString
  dsimp only
  refine ⟨StringForm.choose text.toList, ?_⟩
  cases StringForm.choose text.toList <;> exact ⟨_, rfl⟩

/-- **A string is read back from its printed form.** -/
theorem readString_printString (text : String) (h : EndsString rest)
    (hn : (printString text).length ≤ n) :
    readString n (printString text ++ rest) = some (text.toList, rest) := by
  have hrest := h.head?_ne
  cases hform : StringForm.choose text.toList with
  | basic =>
    have hwrites : StringForm.basic.Writes 0 (StringForm.basic.body text.toList) text.toList :=
      StringForm.writes_escapeText (b := 0) rfl (Nat.le_refl 0)
    have hlength := length_body_lt hform
    rw [printString_short hform rfl]
    refine (readString_basic (not_isPrefix_pair hwrites.head?_ne (hrest .basic))).trans ?_
    exact readBasic_of_writes hwrites rest (by omega)
  | literal =>
    obtain ⟨hquote, htext⟩ := StringForm.of_choose_literal hform
    have hbegins : text.toList.head? ≠ some '\'' := fun hhead => hquote (List.mem_of_head? hhead)
    rw [printString_short hform rfl]
    refine (readString_literal (not_isPrefix_pair hbegins (hrest .literal))).trans ?_
    exact readLiteral_append hquote htext rest
  | longBasic =>
    have hwrites : StringForm.longBasic.Writes 2 (StringForm.longBasic.body text.toList) text.toList :=
      StringForm.writes_escapeText (b := 0) rfl (Nat.zero_le 2)
    have hlength := length_body_lt hform
    rw [printString_long hform rfl]
    refine (congrArg (readLongBasic n) (hwrites.dropNewline_lead _)).trans ?_
    exact isReader_readLongBasic.read_of_writes hwrites (Nat.le_refl 2) (hrest _) (by omega)
  | longLiteral =>
    obtain ⟨hcontrol, hruns⟩ := StringForm.of_choose_longLiteral hform
    have hwrites : StringForm.longLiteral.Writes 2 (StringForm.longLiteral.body text.toList) text.toList :=
      StringForm.writes_longLiteral (b := 0) hcontrol hruns
    have hlength := length_body_lt hform
    rw [printString_long hform rfl]
    refine (congrArg (readLongLiteral n) (hwrites.dropNewline_lead _)).trans ?_
    exact isReader_readLongLiteral.read_of_writes hwrites (Nat.le_refl 2) (hrest _) (by omega)

end Printed

end RouteAudit.Toml
