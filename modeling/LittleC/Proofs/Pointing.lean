import Mathlib
import LittleC.Proofs.ByteLines

/-! What a diagnostic points at. The lines of a source are what stands between the ends of lines
(`Text.Lined`): a line break, together with a carriage return in front of it. A diagnostic shows
the line of the error and up to three lines on either side, all with their numbers in a
column as wide as the last of them, so that the text begins in the same column of every row.

`Diagnostic.points_at_error`: the rows of a diagnostic, and that the caret stands below the
character at the offset of the error, however wide the numbers are. -/
namespace LittleC

namespace Text

/-! ### Lines and their ends -/

/-- The lines of a text without their ends. Only the last may have no end, and then it is not
empty. -/
inductive Lined : List Char → List (List Char) → Prop where
  | nil : Lined [] []
  | last {line : List Char} : line ≠ [] → '\n' ∉ line → Lined line [line]
  | feed {line rest : List Char} {texts : List (List Char)} : '\n' ∉ line →
      line.getLast? ≠ some '\r' → Lined rest texts → Lined (line ++ '\n' :: rest) (line :: texts)
  | returnFeed {line rest : List Char} {texts : List (List Char)} : '\n' ∉ line →
      Lined rest texts → Lined (line ++ '\r' :: '\n' :: rest) (line :: texts)

theorem bare_open {line : List Char} (h : '\n' ∉ line) : bare line = line := by
  unfold bare
  split
  · next heq => exact absurd (List.mem_reverse.mp (heq ▸ List.mem_cons_self)) h
  · next heq => exact absurd (List.mem_reverse.mp (heq ▸ List.mem_cons_self)) h
  · rfl

theorem bare_returnFeed (line : List Char) : bare (line ++ ['\r', '\n']) = line := by
  simp [bare]

theorem bare_feed {line : List Char} (h : line.getLast? ≠ some '\r') :
    bare (line ++ ['\n']) = line := by
  rcases List.eq_nil_or_concat line with rfl | ⟨init, c, rfl⟩
  · rfl
  · have hc : c ≠ '\r' := by simpa using h
    simp [bare, hc]

/-- A line with an end, by the two kinds of ends. -/
theorem end_cases (body : List Char) :
    (body.getLast? ≠ some '\r' ∧ bare (body ++ ['\n']) = body) ∨
      ∃ line, body = line ++ ['\r'] ∧ bare (body ++ ['\n']) = line := by
  by_cases h : body.getLast? = some '\r'
  · obtain ⟨line, rfl⟩ := List.getLast?_eq_some_iff.mp h
    refine .inr ⟨line, rfl, ?_⟩
    rw [List.append_assoc]
    exact bare_returnFeed line
  · exact .inl ⟨h, bare_feed h⟩

theorem Lined.cons {body rest : List Char} {texts : List (List Char)} (hbody : '\n' ∉ body)
    (h : Lined rest texts) : Lined (body ++ ['\n'] ++ rest) (bare (body ++ ['\n']) :: texts) := by
  rw [List.append_assoc]
  rcases end_cases body with ⟨hlast, hbare⟩ | ⟨line, rfl, hbare⟩
  · rw [hbare]
    exact .feed hbody hlast h
  · rw [hbare, List.append_assoc]
    exact .returnFeed (fun hmem => hbody (List.mem_append_left _ hmem)) h

theorem ne_nil_of_mem_lines (cs : List Char) : ∀ line ∈ lines cs, line ≠ [] := by
  induction cs with
  | nil => simp [lines]
  | cons c cs ih =>
    rw [lines]
    split
    · exact List.forall_mem_cons.mpr ⟨List.cons_ne_nil _ _, ih⟩
    · split
      · simp
      · next h =>
        rw [h] at ih
        exact List.forall_mem_cons.mpr ⟨List.cons_ne_nil _ _, (List.forall_mem_cons.mp ih).2⟩

theorem Broken.lined {ls : List (List Char)} (h : Broken ls) (hne : ∀ line ∈ ls, line ≠ []) :
    Lined ls.flatten (ls.map bare) := by
  induction h with
  | nil => exact .nil
  | last hline =>
    rw [List.map_singleton, bare_open hline, List.flatten_singleton]
    exact .last (hne _ (List.mem_singleton_self _)) hline
  | cons hline _ ih =>
    rw [List.map_cons, List.flatten_cons]
    exact (ih (List.forall_mem_cons.mp hne).2).cons hline

theorem lined_lines (cs : List Char) : Lined cs ((lines cs).map bare) := by
  have hlined := (broken_lines cs).lined (ne_nil_of_mem_lines cs)
  rwa [flatten_lines] at hlined

/-- The line of a place has the number of the place among the lines; behind the last of them
stands an empty one. -/
theorem getElem?_placeIn (ls : List (List Char)) (number offset : Nat) :
    number ≤ (placeIn number offset ls).number ∧
      ls[(placeIn number offset ls).number - number]?.getD [] =
        (placeIn number offset ls).line := by
  induction ls generalizing number offset with
  | nil => exact ⟨Nat.le_refl _, rfl⟩
  | cons line rest ih =>
    rw [placeIn]
    split
    · exact ⟨Nat.le_refl _, by simp⟩
    · obtain ⟨hle, hline⟩ := ih (number + 1) (offset - byteLength line)
      refine ⟨by omega, ?_⟩
      have hsucc : ∀ n, number + 1 ≤ n → n - number = n - (number + 1) + 1 := by omega
      rw [hsucc _ hle, List.getElem?_cons_succ, hline]

theorem getElem?_placeAt {cs : List Char} {offset : Nat} {place : LinePlace}
    (h : placeAt cs offset = some place) : (lines cs)[place.number - 1]?.getD [] = place.line := by
  unfold placeAt at h
  split at h
  · cases h
    exact (getElem?_placeIn (lines cs) 1 offset).2
  · cases h

/-- How many characters stand between the last line break and the end of a text. -/
def columnAfter (front : List Char) : Nat :=
  (front.reverse.takeWhile (· != '\n')).length

theorem columnAfter_append {before left : List Char}
    (hbefore : before = [] ∨ before.getLast? = some '\n') (hleft : '\n' ∉ left) :
    columnAfter (before ++ left) = left.length := by
  have hend : ∀ c ∈ before.reverse.head?, (c != '\n') = false := by
    intro c hc
    rw [List.head?_reverse] at hc
    rcases hbefore with rfl | hlast
    · cases hc
    · rw [hlast] at hc
      cases hc
      rfl
  have hrun : ∀ c ∈ left.reverse, (c != '\n') = true := by
    intro c hc
    rw [List.mem_reverse] at hc
    simp only [bne_iff_ne]
    rintro rfl
    exact hleft hc
  rw [columnAfter, List.reverse_append, ScanRule.takeWhile_append hrun hend, List.length_reverse]

/-- The character is no part of the end of its line. -/
def Shown (c : Char) (back : List Char) : Prop :=
  c ≠ '\n' ∧ ¬ (c = '\r' ∧ back.head? = some '\n')

instance (c : Char) (back : List Char) : Decidable (Shown c back) :=
  inferInstanceAs (Decidable (_ ∧ _))

/-- What is in front of the end of a line is shown. -/
theorem bare_shown (left : List Char) {rest after : List Char} {c : Char}
    (hc : Shown c (rest ++ '\n' :: after)) :
    ∃ right, bare (left ++ c :: rest ++ ['\n']) = left ++ c :: right := by
  rcases end_cases (left ++ c :: rest) with ⟨_, hbare⟩ | ⟨line, hline, hbare⟩
  · exact ⟨rest, hbare⟩
  · rcases List.eq_nil_or_concat rest with rfl | ⟨right, d, rfl⟩
    · have hreturn : c = '\r' := by simpa using (List.append_inj' hline rfl).2
      exact absurd ⟨hreturn, rfl⟩ hc.2
    · have hline' : left ++ c :: right ++ [d] = line ++ ['\r'] := by simpa using hline
      exact ⟨right, by rw [hbare, (List.append_inj' hline' rfl).1]⟩

/-- The character at an offset, in its line and in the text that is shown of it. -/
theorem Stands.shown {front back : List Char} {c : Char} {number : Nat} {place : LinePlace}
    (h : Stands (front ++ c :: back) number (byteLength front) place) (hc : Shown c back) :
    ∃ left right, bare place.line = left ++ c :: right ∧ left.length = columnAfter front ∧
      Diagnostic.caretColumn place = left.length := by
  obtain ⟨before, body, tail, after, hcs, hline, hstart, _, hoffset, hbody, hcolumn, htail⟩ := h.cut
  obtain ⟨left, rfl, hrest⟩ := append_of_byteLength_le hcs.symm (by omega)
  rw [byteLength_append] at hoffset
  have hleft : byteLength left = place.offset := by omega
  obtain ⟨more, rfl, hmore⟩ := append_of_byteLength_le hrest.symm (by omega)
  have hcaret : Diagnostic.caretColumn place = left.length := by
    rw [Diagnostic.caretColumn, hline, ← hleft, List.append_assoc, charsBefore?_append]
    rfl
  have hcolumnAfter := columnAfter_append hstart fun hmem => hbody (List.mem_append_left _ hmem)
  cases more with
  | nil =>
    -- the offset is at the end of the line, which is no character that is shown
    rcases htail with rfl | ⟨rfl, rfl⟩
    · exact absurd (List.cons.inj hmore).1 hc.1
    · cases hmore
  | cons d rest =>
    obtain ⟨rfl, rfl⟩ := List.cons.inj hmore
    rcases htail with rfl | ⟨rfl, rfl⟩
    · obtain ⟨right, hbare⟩ := bare_shown left hc
      exact ⟨left, right, hline ▸ hbare, hcolumnAfter.symm, hcaret⟩
    · rw [List.append_nil] at hline
      exact ⟨left, rest, by rw [hline, bare_open hbody], hcolumnAfter.symm, hcaret⟩

end Text

/-! ### Rows -/

namespace Diagnostic

theorem length_toString_le {m n : Nat} (h : m ≤ n) : (toString m).length ≤ (toString n).length := by
  have hpos : 0 < n.repr.length := Nat.length_repr_pos
  have hlt : n < 10 ^ n.repr.length := (Nat.length_repr_le_iff hpos).mp (Nat.le_refl _)
  exact (Nat.length_repr_le_iff hpos).mpr (Nat.lt_of_le_of_lt h hlt)

theorem length_rightAlign {width : Nat} {text : String} (h : text.length ≤ width) :
    (rightAlign width text).length = width := by
  rw [rightAlign, String.length_append, String.length_ofList, List.length_replicate]
  omega

/-- The text of the marked line begins in the same column as that of every other row. -/
theorem markedLine_column {width number : Nat} {left right : List Char} {c : Char} {text : String}
    (hwidth : (toString number).length ≤ width) (htext : text.toList = left ++ c :: right) :
    (markedLine false width number text).toList[width + 3 + left.length]? = some c := by
  have hrow : (markedLine false width number text).toList =
      ((rightAlign width (toString number)).toList ++ [' ', '>', ' '] ++ left) ++ c :: right := by
    simp [markedLine, paint, htext]
  have hlength : ((rightAlign width (toString number)).toList ++ [' ', '>', ' '] ++ left).length =
      width + 3 + left.length := by
    rw [List.length_append, List.length_append, String.length_toList, length_rightAlign hwidth]
    rfl
  rw [hrow, ← hlength, List.getElem?_append_right (Nat.le_refl _), Nat.sub_self]
  rfl

theorem getElem?_concat_iff {l : List Char} {x : Char} (h : x ∉ l) (j : Nat) :
    (l ++ [x])[j]? = some x ↔ j = l.length := by
  constructor
  · intro hj
    rcases Nat.lt_trichotomy j l.length with hlt | heq | hgt
    · rw [List.getElem?_append_left hlt] at hj
      exact absurd (List.mem_of_getElem? hj) h
    · exact heq
    · rw [List.getElem?_eq_none (by rw [List.length_append]; exact hgt)] at hj
      cases hj
  · rintro rfl
    exact List.getElem?_concat_length

/-- There is one caret in its row. -/
theorem caretLine_column (width column j : Nat) :
    (caretLine false width column).toList[j]? = some '^' ↔ j = width + 3 + column := by
  have hbar : "|".length = 1 := rfl
  have hrow : (caretLine false width column).toList =
      (List.replicate (width + 1) ' ' ++ ['|', ' '] ++ List.replicate column '-') ++ ['^'] := by
    simp [caretLine, rightAlign, paint, hbar]
  have hplain :
      '^' ∉ List.replicate (width + 1) ' ' ++ ['|', ' '] ++ List.replicate column '-' := by
    simp [List.mem_replicate]
  rw [hrow, getElem?_concat_iff hplain]
  simp only [List.length_append, List.length_replicate, List.length_cons, List.length_nil]

theorem lined_shownLines (source : String) :
    Text.Lined source.toList ((shownLines source).map String.toList) := by
  have hbare :
      (shownLines source).map String.toList = (Text.lines source.toList).map Text.bare := by
    simp [shownLines, Function.comp_def]
  rw [hbare]
  exact Text.lined_lines _

theorem toList_shownLines {source : String} {offset : Nat} {place : Text.LinePlace}
    (h : Text.placeAt source.toList offset = some place) :
    ((shownLines source)[place.number - 1]?.getD "").toList = Text.bare place.line := by
  rw [← Text.getElem?_placeAt h, shownLines, List.getElem?_map]
  cases (Text.lines source.toList)[place.number - 1]? with
  | none => rfl
  | some line => exact String.toList_ofList

/-- **A diagnostic points at its error.** After the header, the name of the file and a bar there
are the line of the error and up to three lines on either side of it, in order and with their
texts. The line of the error alone has the mark, and the row below it the caret. Where the
offset is that of a character that its line shows, the caret is in the column of that
character: both rows have `width + 3` characters in front of the text, and the caret is the
only one in its row. -/
theorem points_at_error (error : Error) (source file name : String) (offset : Nat)
    (hposition : error.position = some ⟨offset, name⟩) (hoffset : offset ≤ source.utf8ByteSize) :
    ∃ (texts : List String) (caret : Nat), Text.Lined source.toList (texts.map String.toList) ∧
      let line := ((Text.bytes source).take offset).count Text.newline + 1
      let first := max 1 (line - 3)
      let last := max line (min (line + 3) texts.length)
      let width := (toString last).length
      let text := fun n => texts[n - 1]?.getD ""
      let context := fun n => contextLine width n (text n)
      let marked := markedLine false width line (text line)
      render false error source file = String.intercalate "\n"
        (header error :: ("-> " ++ file) :: rightAlign (width + 2) "|" ::
          ((List.range' first (line - first)).map context ++ marked :: caretLine false width caret ::
            (List.range' (line + 1) (last - line)).map context)) ++ "\n" ∧
      ∀ front c back, source.toList = front ++ c :: back → Text.byteLength front = offset →
        Text.Shown c back →
        let column := width + 3 + Text.columnAfter front
        marked.toList[column]? = some c ∧
          ∀ j, (caretLine false width caret).toList[j]? = some '^' ↔ j = column := by
  have hle : offset ≤ Text.byteLength source.toList := by rwa [Text.byteLength_toList]
  obtain ⟨place, hplace, hstands⟩ := Text.placeAt_stands hle
  have hplace? : place? error source = some place := by
    rw [place?, hposition]
    exact hplace
  have hnumber := hstands.findsLine.number
  rw [← hnumber]
  refine ⟨shownLines source, caretColumn place, lined_shownLines source,
    render_located hplace? (by omega) false file, fun front c back hsource hfront hc => ?_⟩
  have htext := toList_shownLines hplace
  rw [hsource, ← hfront] at hstands
  obtain ⟨left, right, hbare, hleft, hcaret⟩ := hstands.shown hc
  rw [hcaret, ← hleft]
  exact ⟨markedLine_column (length_toString_le (Nat.le_max_left _ _)) (htext.trans hbare),
    caretLine_column _ _⟩

/-- A character of two bytes behind another one, in a line with a number of two digits that ends
in a carriage return. -/
theorem points_at_error_wide :
    ∃ (texts : List String) (caret : Nat),
      Text.Lined "\n\n\n\n\n\n\n\n\né = ü\r\nb".toList (texts.map String.toList) ∧
      let width := (toString (max 10 (min 13 texts.length))).length
      (markedLine false width 10 (texts[9]?.getD "")).toList[width + 7]? = some 'ü' ∧
        ∀ j, (caretLine false width caret).toList[j]? = some '^' ↔ j = width + 7 := by
  obtain ⟨texts, caret, hlined, _, hpoints⟩ :=
    points_at_error ⟨.unexpectedToken "ü", some ⟨14, "f"⟩⟩ "\n\n\n\n\n\n\n\n\né = ü\r\nb" "f" "f" 14
      rfl (by decide)
  exact ⟨texts, caret, hlined,
    hpoints "\n\n\n\n\n\n\n\n\né = ".toList 'ü' "\r\nb".toList rfl rfl (by decide)⟩

end Diagnostic

end LittleC
