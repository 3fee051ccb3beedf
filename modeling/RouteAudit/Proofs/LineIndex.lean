import RouteAudit.Grammar.Forms
import RouteAudit.Proofs.Hits
import RouteAudit.Proofs.Utf8

/-!
# The lines of an index

For every place between two characters of a text, the index gives the number of the line breaks before it,
plus one, and the text from the last of them to the next one, without the blanks around it; it never looks
beyond its line breaks or cuts the text inside a character (`LineIndex.line_exact`). So the references of a
form have the lines that a cursor reads off the text around it (`Form.references_eq`).

Proof. The search keeps that all line breaks below the one end are before the place and all from the other
end on are not (`Narrows`); when the ends meet, they count the line breaks before the place. This number
leads to the line breaks around the line, as the line breaks of a text are those of its parts (`breaks_append`).
-/

namespace RouteAudit

/-! ## Blanks around a text -/

namespace Text

/-- A text without the blanks at both ends. -/
def IsTrimmed (s t : List Char) : Prop :=
  (∃ left right, s = left ++ t ++ right ∧ ∀ c ∈ left ++ right, isBlank c = true) ∧
    (∀ c ∈ t.head?, isBlank c = false) ∧ ∀ c ∈ t.getLast?, isBlank c = false

theorem isBlank_head?_dropWhile (s : List Char) :
    ∀ c ∈ (s.dropWhile isBlank).head?, isBlank c = false := by
  intro c hc
  have hhead := List.head?_dropWhile_not isBlank s
  rw [hc] at hhead
  exact hhead

theorem isTrimmed_trim (s : List Char) : IsTrimmed s (trim s) := by
  let left := s.takeWhile isBlank
  let right := ((s.dropWhile isBlank).reverse.takeWhile isBlank).reverse
  have hright : s.dropWhile isBlank = trim s ++ right := by
    rw [trim, trimEnd, ← List.reverse_append, List.takeWhile_append_dropWhile, List.reverse_reverse]
  have hs : s = left ++ trim s ++ right := by
    rw [List.append_assoc, ← hright, List.takeWhile_append_dropWhile]
  refine ⟨⟨left, right, hs, ?_⟩, fun c hc => ?_, ?_⟩
  · rintro c hc
    rcases List.mem_append.mp hc with hc | hc
    · exact List.mem_takeWhile_imp hc
    · exact List.mem_takeWhile_imp (List.mem_reverse.mp hc)
  · apply isBlank_head?_dropWhile s c
    rw [hright, List.head?_append, hc]
    rfl
  · rw [trim, trimEnd, List.getLast?_reverse]
    exact isBlank_head?_dropWhile _

end Text

namespace LineIndex

/-! ## The line breaks among bytes -/

/-- The places of the line breaks among bytes, the first of which has the given place. -/
def breaks (first : Nat) (bytes : List UInt8) : List Nat :=
  (bytes.zipIdx first).filterMap newlineAt?

theorem breaks_cons (first : Nat) (b : UInt8) (bytes : List UInt8) :
    breaks first (b :: bytes) =
      if b = Text.newline then first :: breaks (first + 1) bytes else breaks (first + 1) bytes := by
  rw [breaks, List.zipIdx_cons, List.filterMap_cons, newlineAt?]
  split_ifs <;> rfl

theorem breaks_append (first : Nat) (a b : List UInt8) :
    breaks first (a ++ b) = breaks first a ++ breaks (first + a.length) b := by
  rw [breaks, List.zipIdx_append, List.filterMap_append]
  rfl

theorem breaks_newline_cons (first : Nat) (s : List Char) :
    breaks first (Text.bytes ('\n' :: s)) = first :: breaks (first + 1) (Text.bytes s) := by
  have hbyte : Text.bytes ('\n' :: s) = Text.newline :: Text.bytes s := rfl
  rw [hbyte, breaks_cons, if_pos rfl]

theorem le_of_mem_breaks {first i : Nat} {bytes : List UInt8} (h : i ∈ breaks first bytes) :
    first ≤ i := by
  induction bytes generalizing first with
  | nil => cases h
  | cons b bytes ih =>
    rw [breaks_cons] at h
    split_ifs at h
    · rcases List.mem_cons.mp h with rfl | h
      · exact Nat.le_refl i
      · exact Nat.le_of_succ_le (ih h)
    · exact Nat.le_of_succ_le (ih h)

theorem pairwise_breaks (first : Nat) (bytes : List UInt8) :
    (breaks first bytes).Pairwise (· < ·) := by
  induction bytes generalizing first with
  | nil => exact .nil
  | cons b bytes ih =>
    rw [breaks_cons]
    split_ifs
    · exact .cons (fun _ hi => le_of_mem_breaks hi) (ih (first + 1))
    · exact ih (first + 1)

/-- The line breaks before a place are those among the bytes before it. -/
theorem countP_breaks (first count : Nat) (bytes : List UInt8) :
    (breaks first bytes).countP (· < first + count) = (bytes.take count).count Text.newline := by
  induction bytes generalizing first count with
  | nil => cases count <;> rfl
  | cons b bytes ih =>
    cases count with
    | zero =>
      rw [List.take_zero, List.count_nil, List.countP_eq_zero]
      intro i hi
      simpa using le_of_mem_breaks hi
    | succ count =>
      have hrest := ih (first + 1) count
      rw [Nat.add_right_comm, Nat.add_assoc] at hrest
      rw [breaks_cons, List.take_succ_cons]
      split_ifs with hb
      · rw [List.countP_cons_of_pos (by simp), hrest, hb, List.count_cons_self]
      · rw [hrest, List.count_cons_of_ne hb]

theorem length_breaks (first : Nat) (bytes : List UInt8) :
    (breaks first bytes).length = bytes.count Text.newline := by
  induction bytes generalizing first with
  | nil => rfl
  | cons b bytes ih =>
    rw [breaks_cons]
    split_ifs with hb
    · rw [List.length_cons, ih, hb, List.count_cons_self]
    · rw [ih, List.count_cons_of_ne hb]

theorem toList_newlines (content : List Char) :
    (ofText content).newlines.toList = breaks 0 (Text.bytes content) := rfl

theorem getElem?_newlines (content : List Char) (n : Nat) :
    (ofText content).newlines[n]? = (breaks 0 (Text.bytes content))[n]? := by
  rw [← Array.getElem?_toList, toList_newlines]

/-- The line break behind a text has the number of the line breaks in it. -/
theorem getElem?_newlines_append (a b : List Char) :
    (ofText (a ++ b)).newlines[a.count '\n']? = (breaks (Text.bytes a).length (Text.bytes b)).head? := by
  have hlength : (breaks 0 (Text.bytes a)).length = a.count '\n' := by
    rw [length_breaks, Text.count_bytes]
  rw [getElem?_newlines, Text.bytes_append, breaks_append, Nat.zero_add, ← hlength,
    List.getElem?_append_right (Nat.le_refl _), Nat.sub_self, List.head?_eq_getElem?]

/-! ## The search -/

/-- The search has told all places apart but those from `lo` to `hi`. -/
structure Narrows (places : Array Nat) (offset lo hi : Nat) : Prop where
  le : lo ≤ hi
  le_size : hi ≤ places.size
  below : ∀ i (h : i < places.size), i < lo → places[i] < offset
  above : ∀ i (h : i < places.size), hi ≤ i → offset ≤ places[i]

namespace Narrows

variable {places : Array Nat} {offset lo hi mid : Nat}

theorem right (h : Narrows places offset lo hi) (hsorted : places.toList.Pairwise (· < ·))
    (hmid : mid < places.size) (hlt : mid < hi) (hbefore : places[mid] < offset) :
    Narrows places offset (mid + 1) hi where
  le := hlt
  le_size := h.le_size
  below i hi hle := by
    rcases Nat.lt_or_eq_of_le (Nat.le_of_lt_succ hle) with hle | rfl
    · exact (List.pairwise_iff_getElem.mp hsorted i mid hi hmid hle).trans hbefore
    · exact hbefore
  above := h.above

theorem left (h : Narrows places offset lo hi) (hsorted : places.toList.Pairwise (· < ·))
    (hmid : mid < places.size) (hle : lo ≤ mid) (hbefore : ¬ places[mid] < offset) :
    Narrows places offset lo mid where
  le := hle
  le_size := hmid.le
  below := h.below
  above i hi hge := by
    rcases Nat.lt_or_eq_of_le hge with hlt | rfl
    · exact (Nat.le_of_not_lt hbefore).trans (List.pairwise_iff_getElem.mp hsorted mid i hmid hi hlt).le
    · exact Nat.le_of_not_lt hbefore

/-- Where the ends meet, they count the places before the offset. -/
theorem countP_eq (h : Narrows places offset lo lo) : places.toList.countP (· < offset) = lo := by
  have hlength : (places.toList.take lo).length = lo := by
    rw [List.length_take, Array.length_toList, Nat.min_eq_left h.le_size]
  have hbelow : (places.toList.take lo).countP (· < offset) = lo := by
    refine (List.countP_eq_length.mpr fun x hx => ?_).trans hlength
    obtain ⟨i, hi, rfl⟩ := List.mem_take_iff_getElem.mp hx
    simpa using h.below i (by simpa using (Nat.lt_min.mp hi).2) (Nat.lt_min.mp hi).1
  have habove : (places.toList.drop lo).countP (· < offset) = 0 := by
    rw [List.countP_eq_zero]
    intro x hx
    obtain ⟨i, hi, rfl⟩ := List.mem_drop_iff_getElem.mp hx
    have hplace : lo + i < places.size := by simpa [Nat.add_comm] using hi
    simpa using h.above (lo + i) hplace (Nat.le_add_right lo i)
  rw [← List.take_append_drop lo places.toList, List.countP_append, hbelow, habove, Nat.add_zero]

end Narrows

/-- The search ends with all places told apart. -/
theorem narrows_search {places : Array Nat} {offset : Nat} (hsorted : places.toList.Pairwise (· < ·))
    (steps lo hi : Nat) (hsize : hi ≤ places.size) (hsteps : hi - lo ≤ steps)
    (h : Narrows places offset lo hi) :
    Narrows places offset (search places offset steps lo hi hsize)
      (search places offset steps lo hi hsize) := by
  induction steps generalizing lo hi with
  | zero =>
    obtain rfl : hi = lo := by
      have hle := h.le
      omega
    exact h
  | succ steps ih =>
    rw [search]
    split_ifs with hlt
    · have hmid : (lo + hi) / 2 < places.size := by omega
      dsimp only
      split_ifs with hbefore
      · exact ih _ _ _ (by omega) (h.right hsorted hmid (by omega) hbefore)
      · exact ih _ _ _ (by omega) (h.left hsorted hmid (by omega) hbefore)
    · obtain rfl : hi = lo := Nat.le_antisymm (Nat.le_of_not_lt hlt) h.le
      exact h

/-- **The binary search counts the line breaks before a place.** -/
theorem lineOf_eq (content : List Char) (offset : Nat) :
    (ofText content).lineOf offset = ((Text.bytes content).take offset).count Text.newline + 1 := by
  have hsorted : (ofText content).newlines.toList.Pairwise (· < ·) := pairwise_breaks 0 _
  have hstart : Narrows (ofText content).newlines offset 0 (ofText content).newlines.size :=
    { le := Nat.zero_le _
      le_size := Nat.le_refl _
      below := fun i _ hi => absurd hi (Nat.not_lt_zero i)
      above := fun i h hi => absurd h (Nat.not_lt_of_le hi) }
  have hcount := (narrows_search hsorted _ _ _ (Nat.le_refl _) (Nat.sub_le _ _) hstart).countP_eq
  have hbreaks := countP_breaks 0 offset (Text.bytes content)
  rw [Nat.zero_add] at hbreaks
  rw [lineOf, ← hcount, toList_newlines, hbreaks]

/-! ## The text of a line -/

/-- The line behind a text that ends with a line break begins where the text ends. -/
theorem startOf?_append {front : List Char} (hfront : front = [] ∨ ∃ f, front = f ++ ['\n'])
    (back : List Char) :
    (ofText (front ++ back)).startOf? (front.count '\n' + 1) = some (Text.bytes front).length := by
  rcases hfront with rfl | ⟨f, rfl⟩
  · rfl
  · have hcount : (f ++ ['\n']).count '\n' + 1 = f.count '\n' + 2 := by
      rw [List.count_append]
      rfl
    rw [hcount, startOf?, List.append_assoc, List.singleton_append, getElem?_newlines_append,
      breaks_newline_cons, List.head?_cons, Option.map_some, Text.bytes_append, List.length_append]
    rfl

/-- The line that a text ends with goes on to the next line break. -/
theorem endOf_append (a : List Char) {rest : List Char} (hrest : rest = [] ∨ ∃ r, rest = '\n' :: r) :
    (ofText (a ++ rest)).endOf (a.count '\n' + 1) = (Text.bytes a).length := by
  rw [endOf, Nat.add_sub_cancel, getElem?_newlines_append]
  rcases hrest with rfl | ⟨r, rfl⟩
  · rw [List.append_nil]
    rfl
  · rw [breaks_newline_cons, List.head?_cons, Option.getD_some]

/-- The index gives the text of every line. -/
theorem textOf?_append {front line rest : List Char} (hfront : front = [] ∨ ∃ f, front = f ++ ['\n'])
    (hline : '\n' ∉ line) (hrest : rest = [] ∨ ∃ r, rest = '\n' :: r) :
    (ofText (front ++ (line ++ rest))).textOf? (front.count '\n' + 1) = some (Text.trim line) := by
  have hcount : (front ++ line).count '\n' = front.count '\n' := by
    rw [List.count_append, List.count_eq_zero_of_not_mem hline, Nat.add_zero]
  have hend : (ofText (front ++ (line ++ rest))).endOf (front.count '\n' + 1) =
      (Text.bytes (front ++ line)).length := by
    rw [← hcount, ← List.append_assoc, endOf_append (front ++ line) hrest]
  rw [textOf?, startOf?_append hfront, Option.bind_some, hend]
  have hslice : Text.slice? (ofText (front ++ (line ++ rest))).content (Text.bytes front).length
      (Text.bytes (front ++ line)).length = some line := Text.slice?_append front line rest
  rw [hslice, Option.map_some]

end LineIndex

/-! ## The line of a cursor -/

namespace Cursor

/-- What is before the line of the place. -/
def beforeLine (c : Cursor) : List Char :=
  (c.done.dropWhile (· ≠ '\n')).reverse

/-- What is behind the line of the place. -/
def behindLine (c : Cursor) : List Char :=
  c.rest.dropWhile (· ≠ '\n')

/-- The line of the place. -/
def lineAround (c : Cursor) : List Char :=
  (c.done.takeWhile (· ≠ '\n')).reverse ++ c.rest.takeWhile (· ≠ '\n')

theorem dropWhile_ne_cases (s : List Char) :
    s.dropWhile (· ≠ '\n') = [] ∨ ∃ r, s.dropWhile (· ≠ '\n') = '\n' :: r := by
  rcases Text.notMem_or_exists_first '\n' s with hs | ⟨a, b, rfl, ha⟩
  · exact Or.inl (Text.dropWhile_ne_of_notMem hs)
  · exact Or.inr ⟨b, Text.dropWhile_ne_append_sep ha b⟩

variable (c : Cursor)

theorem beforeLine_cases : c.beforeLine = [] ∨ ∃ f, c.beforeLine = f ++ ['\n'] := by
  unfold beforeLine
  rcases dropWhile_ne_cases c.done with hdone | ⟨r, hdone⟩
  · exact Or.inl (by rw [hdone, List.reverse_nil])
  · exact Or.inr ⟨r.reverse, by rw [hdone, List.reverse_cons]⟩

theorem newline_notMem_takeWhile (s : List Char) : '\n' ∉ s.takeWhile (· ≠ '\n') :=
  fun h => by simpa using List.mem_takeWhile_imp h

theorem newline_notMem_lineAround : '\n' ∉ c.lineAround := by
  rw [lineAround, List.mem_append, List.mem_reverse, not_or]
  exact ⟨newline_notMem_takeWhile _, newline_notMem_takeWhile _⟩

theorem done_reverse_eq : c.done.reverse = c.beforeLine ++ (c.done.takeWhile (· ≠ '\n')).reverse := by
  rw [beforeLine, ← List.reverse_append, List.takeWhile_append_dropWhile]

theorem text_eq_lineAround : c.text = c.beforeLine ++ (c.lineAround ++ c.behindLine) := by
  rw [text, done_reverse_eq, lineAround, behindLine, List.append_assoc, List.append_assoc,
    List.takeWhile_append_dropWhile]

theorem line_eq_beforeLine : c.line = c.beforeLine.count '\n' + 1 := by
  rw [line, ← List.count_reverse, done_reverse_eq, List.count_append, List.count_reverse,
    List.count_eq_zero_of_not_mem (newline_notMem_takeWhile c.done), Nat.add_zero]

theorem lineOf_byteOffset : (LineIndex.ofText c.text).lineOf c.byteOffset = c.line := by
  rw [LineIndex.lineOf_eq, byteOffset, ← Text.length_bytes_reverse, text, Text.bytes_append, List.take_left,
    Text.count_bytes, List.count_reverse, line]

theorem textOf?_line : (LineIndex.ofText c.text).textOf? c.line = some c.lineText := by
  rw [line_eq_beforeLine, text_eq_lineAround]
  exact LineIndex.textOf?_append c.beforeLine_cases c.newline_notMem_lineAround (dropWhile_ne_cases c.rest)

end Cursor

namespace LineIndex

/-! ## The line of an offset -/

/-- The line around a place: from the last line break before it, or the start, to the next one, or the end. -/
def IsLineAround (content : List Char) (offset : Nat) (line : List Char) : Prop :=
  ∃ front rest, content = front ++ (line ++ rest) ∧ '\n' ∉ line ∧
    (front = [] ∨ ∃ f, front = f ++ ['\n']) ∧ (rest = [] ∨ ∃ r, rest = '\n' :: r) ∧
    (Text.bytes front).length ≤ offset ∧ offset ≤ (Text.bytes (front ++ line)).length

theorem isLineAround_cursor (c : Cursor) : IsLineAround c.text c.byteOffset c.lineAround := by
  have hoffset : c.byteOffset = (Text.bytes c.beforeLine).length +
      (Text.bytes (c.done.takeWhile (· ≠ '\n')).reverse).length := by
    rw [Cursor.byteOffset, ← Text.length_bytes_reverse, Cursor.done_reverse_eq, Text.bytes_append,
      List.length_append]
  refine ⟨c.beforeLine, c.behindLine, c.text_eq_lineAround, c.newline_notMem_lineAround,
    c.beforeLine_cases, Cursor.dropWhile_ne_cases c.rest, ?_, ?_⟩
  · omega
  · rw [Cursor.lineAround, Text.bytes_append, Text.bytes_append, List.length_append, List.length_append]
    omega

/-- A place between two characters is that of a cursor. -/
theorem exists_cursor_of_isValid {content : String} {offset : Nat}
    (h : String.Pos.Raw.IsValid content ⟨offset⟩) :
    ∃ c : Cursor, c.text = content.toList ∧ c.byteOffset = offset := by
  obtain ⟨before, behind, rfl, hoffset⟩ := String.Pos.Raw.isValid_iff_exists_append.mp h
  refine ⟨⟨before.toList.reverse, behind.toList⟩, ?_, ?_⟩
  · rw [Cursor.text, List.reverse_reverse, String.toList_append]
  · rw [Cursor.byteOffset, Text.length_bytes_reverse, ← Text.toUTF8_eq_bytes, Array.length_toList]
    exact (congrArg String.Pos.Raw.byteIdx hoffset).symm

/-- **The index is exact at every place between two characters.** The number of its line is that of the line
breaks before it, plus one, and at most that of all line breaks, plus one. The line has a text: the line
around the place, without the blanks at both ends. -/
theorem line_exact (content : String) (offset : Nat) (h : String.Pos.Raw.IsValid content ⟨offset⟩) :
    let index := ofText content.toList
    let bytes := content.toUTF8.data.toList
    index.lineOf offset = (bytes.take offset).count 10 + 1 ∧
      1 ≤ index.lineOf offset ∧ index.lineOf offset ≤ bytes.count 10 + 1 ∧
      ∃ line text, IsLineAround content.toList offset line ∧ Text.IsTrimmed line text ∧
        index.textOf? (index.lineOf offset) = some text := by
  intro index bytes
  have hline : index.lineOf offset = (bytes.take offset).count 10 + 1 := by
    rw [show bytes = Text.bytes content.toList from Text.toUTF8_eq_bytes content]
    exact lineOf_eq content.toList offset
  have hcount : (bytes.take offset).count 10 ≤ bytes.count 10 := (List.take_sublist offset bytes).count_le 10
  refine ⟨hline, by omega, by omega, ?_⟩
  obtain ⟨c, htext, rfl⟩ := exists_cursor_of_isValid h
  rw [show index = ofText c.text from congrArg ofText htext.symm, ← htext, c.lineOf_byteOffset]
  exact ⟨c.lineAround, c.lineText, isLineAround_cursor c, Text.isTrimmed_trim c.lineAround, c.textOf?_line⟩

/-- The last line may have no line break, and the character before it has two bytes. -/
theorem line_exact_last : String.Pos.Raw.IsValid "ä\n b " ⟨4⟩ ∧
    (ofText "ä\n b ".toList).lineOf 4 = 2 ∧
      ∃ text, (ofText "ä\n b ".toList).textOf? 2 = some text ∧ text = ['b'] := by
  have hvalid : String.Pos.Raw.IsValid "ä\n b " ⟨4⟩ :=
    String.Pos.Raw.isValid_iff_exists_append.mpr ⟨"ä\n ", "b ", by decide, by decide⟩
  obtain ⟨hline, -, -, line, text, -, -, htext⟩ := line_exact "ä\n b " 4 hvalid
  have hsecond : (ofText "ä\n b ".toList).lineOf 4 = 2 := hline.trans (by decide)
  rw [hsecond] at htext
  exact ⟨hvalid, hsecond, text, htext, Option.some.inj (htext.symm.trans (by decide))⟩

end LineIndex

/-! ## The lines of references -/

namespace Form

variable {form : Form} {content : List Char} {file : String} {m : Shape.Match}

/-- The reference for a match, with the line that the place of the match is on. -/
def placedReference? (form : Form) (file : String) (m : Shape.Match) : Option Reference :=
  m.value.map fun value =>
    Reference.ofRaw (String.ofList value) form.kind file m.start.line (String.ofList m.start.lineText)

/-- The references of a form have the lines of their places. -/
theorem references_eq : form.references content file =
    (form.shape.matchesIn content).filterMap (form.placedReference? file) := by
  refine List.filterMap_congr fun m hm => ?_
  have htext := (Shape.of_mem_matchesIn hm).1
  rw [referenceOf?, placedReference?, ← htext]
  simp only [Cursor.lineOf_byteOffset, Cursor.textOf?_line, Option.getD_some]

end Form

end RouteAudit
