import Mathlib.Data.List.Basic
import RouteAudit.Text.Bytes

/-!
# Places in bytes

The line breaks of a text are the line-break bytes of its UTF-8 form, since every byte of a longer character
is at least 128 (`count_bytes`). A place between characters splits the text (`splitAtByte?_append`), and
a slice between two of them is the text between them (`slice?_append`).
-/

namespace RouteAudit.Text

@[simp]
theorem bytes_nil : bytes [] = [] := rfl

@[simp]
theorem bytes_cons (c : Char) (s : List Char) : bytes (c :: s) = String.utf8EncodeChar c ++ bytes s :=
  List.flatMap_cons

@[simp]
theorem bytes_append (a b : List Char) : bytes (a ++ b) = bytes a ++ bytes b :=
  List.flatMap_append

theorem toUTF8_eq_bytes (s : String) : s.toUTF8.data.toList = bytes s.toList := by
  rw [String.toUTF8_eq_toByteArray, ← String.ofList_toList (s := s), String.toByteArray_ofList,
    String.toList_ofList, List.utf8Encode, List.data_toByteArray, bytes]

theorem length_bytes_reverse (s : List Char) : (bytes s.reverse).length = (bytes s).length := by
  induction s with
  | nil => rfl
  | cons c s ih =>
    rw [List.reverse_cons, bytes_append, List.length_append, ih, bytes_cons, bytes_nil, List.append_nil,
      bytes_cons, List.length_append, Nat.add_comm]

/-! ## Line breaks -/

/-- A line break is the byte of the line break, and no other character has this byte. -/
theorem count_utf8EncodeChar (c : Char) :
    (String.utf8EncodeChar c).count newline = if c = '\n' then 1 else 0 := by
  split_ifs with hc
  · rw [hc]
    decide
  · rw [List.count_eq_zero]
    have hval : c.val.toNat ≠ 10 := fun h => hc (Char.toNat_inj.mp h)
    have hbyte : ∀ n, newline = UInt8.ofNat n → n % 256 = 10 := by
      intro n h
      simpa [newline] using (congrArg UInt8.toNat h).symm
    intro hmem
    dsimp only [String.utf8EncodeChar] at hmem
    -- the bytes of a longer character are 128 at least
    split_ifs at hmem <;> simp only [List.mem_cons, List.not_mem_nil, or_false] at hmem
    · have hten := hbyte _ hmem
      omega
    · rcases hmem with hmem | hmem <;> have hten := hbyte _ hmem <;> omega
    · rcases hmem with hmem | hmem | hmem <;> have hten := hbyte _ hmem <;> omega
    · rcases hmem with hmem | hmem | hmem | hmem <;> have hten := hbyte _ hmem <;> omega

theorem count_bytes (s : List Char) : (bytes s).count newline = s.count '\n' := by
  induction s with
  | nil => rfl
  | cons c s ih =>
    rw [bytes_cons, List.count_append, ih, count_utf8EncodeChar, List.count_cons, Nat.add_comm]
    simp

/-! ## Splitting -/

theorem splitAtByte?_append (a b : List Char) :
    splitAtByte? (bytes a).length (a ++ b) = some (a, b) := by
  induction a with
  | nil => cases b <;> rfl
  | cons c a ih =>
    have hlength : (bytes (c :: a)).length = c.utf8Size + (bytes a).length := by
      rw [bytes_cons, List.length_append, String.length_utf8EncodeChar]
    obtain ⟨n, hn⟩ : ∃ n, (bytes (c :: a)).length = n + 1 :=
      Nat.exists_eq_succ_of_ne_zero (by have := c.utf8Size_pos; omega)
    rw [List.cons_append, hn, splitAtByte?, ← hn, hlength, if_pos (Nat.le_add_right _ _),
      Nat.add_sub_cancel_left, ih, Option.map_some]

theorem slice?_append (a b c : List Char) :
    slice? (a ++ (b ++ c)) (bytes a).length (bytes (a ++ b)).length = some b := by
  have hlength : (bytes (a ++ b)).length = (bytes a).length + (bytes b).length := by
    rw [bytes_append, List.length_append]
  rw [slice?, hlength, if_pos (Nat.le_add_right _ _), splitAtByte?_append, Option.bind_some,
    Nat.add_sub_cancel_left, splitAtByte?_append, Option.map_some]

end RouteAudit.Text
