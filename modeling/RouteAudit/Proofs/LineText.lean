import RouteAudit.Grammar.Cursor
import RouteAudit.Proofs.Split

/-!
# The line of a place

The lines of a text are its pieces between line breaks. A place stands in the line whose number is that of
the line breaks before the place (`getElem?_split_text`), which is the line that its line text is taken
from; further on in the text the number never decreases (`line_mono`).
-/

namespace RouteAudit

theorem Text.length_split (sep : Char) (s : List Char) :
    (split sep s).length = s.count sep + 1 := by
  induction s with
  | nil => rfl
  | cons c r ih =>
    rw [split]
    split_ifs with hc
    · rw [List.length_cons, ih, hc, List.count_cons_self]
    · rw [consFirst_eq_modifyHead c (split_ne_nil sep r), List.length_modifyHead, ih,
        List.count_cons_of_ne hc]

/-- The first piece is what stands before the first separator. -/
theorem Text.getElem?_split_zero (sep : Char) (s : List Char) :
    (split sep s)[0]? = some (s.takeWhile (· ≠ sep)) := by
  rcases notMem_or_exists_first sep s with hs | ⟨a, b, rfl, ha⟩
  · rw [split_of_notMem hs, takeWhile_ne_of_notMem hs, List.getElem?_cons_zero]
  · rw [split_append_sep_of_notMem ha, takeWhile_ne_append_sep ha, List.getElem?_cons_zero]

theorem Text.takeWhile_ne_append_of_notMem {sep : Char} {a : List Char} (h : sep ∉ a) (b : List Char) :
    (a ++ b).takeWhile (· ≠ sep) = a ++ b.takeWhile (· ≠ sep) := by
  refine List.takeWhile_append_of_pos fun c hc => ?_
  simpa using fun hcs : c = sep => h (hcs ▸ hc)

namespace Cursor

variable {c d : Cursor}

theorem take_offset_text (c : Cursor) : c.text.take c.offset = c.done.reverse := by
  rw [text, offset, List.take_left' List.length_reverse]

/-- The number of the line counts the line breaks before the place. -/
theorem line_eq (c : Cursor) : c.line = (c.text.take c.offset).count '\n' + 1 := by
  rw [take_offset_text, List.count_reverse, line]

/-- Further on in the text stands no earlier line. -/
theorem line_mono (htext : c.text = d.text) (h : c.offset ≤ d.offset) : c.line ≤ d.line := by
  rw [line_eq, line_eq, ← htext]
  exact Nat.add_le_add_right ((List.take_sublist_take_left h).count_le '\n') 1

/-- The line that a place stands in: what is before it back to a line break, and what is behind it up to
the next one. -/
theorem getElem?_split_text (c : Cursor) : (Text.split '\n' c.text)[c.done.count '\n']? =
    some ((c.done.takeWhile (· ≠ '\n')).reverse ++ c.rest.takeWhile (· ≠ '\n')) := by
  obtain ⟨done, rest⟩ := c
  rw [text]
  rcases Text.notMem_or_exists_first '\n' done with hdone | ⟨front, back, rfl, hfront⟩
  · have hfront : '\n' ∉ done.reverse := by simpa using hdone
    rw [List.count_eq_zero_of_not_mem hdone, Text.getElem?_split_zero, Text.takeWhile_ne_of_notMem hdone,
      Text.takeWhile_ne_append_of_notMem hfront]
  · have hfront' : '\n' ∉ front.reverse := by simpa using hfront
    have hcount : (front ++ '\n' :: back).count '\n' = (Text.split '\n' back.reverse).length := by
      rw [Text.length_split, List.count_append, List.count_eq_zero_of_not_mem hfront,
        List.count_cons_self, List.count_reverse, Nat.zero_add]
    have htext : (front ++ '\n' :: back).reverse ++ rest =
        back.reverse ++ '\n' :: (front.reverse ++ rest) := by simp
    rw [htext, Text.split_append_sep, hcount, List.getElem?_append_right (Nat.le_refl _), Nat.sub_self,
      Text.getElem?_split_zero, Text.takeWhile_ne_append_sep hfront,
      Text.takeWhile_ne_append_of_notMem hfront']

end Cursor

end RouteAudit
