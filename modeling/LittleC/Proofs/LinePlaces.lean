import LittleC.Diagnostic
import LittleC.Proofs.Tiling

/-! Where a byte offset stands in a source, and how a diagnostic shows it. `Text.Stands` says
what the line of an offset is without a walk over the lines: the text from behind the last
line break before the offset up to the next one, its number one more than the line breaks
before it.

`Text.placeAt_stands`: every offset up to the end of a text has such a place, be it inside a
line, at a line break, or at the end of a text with or without a final line break.
`Diagnostic.render_located`: an error with a place is shown by the lines around it, with the
caret line below its own. -/
namespace LittleC

namespace Text

/-! ### Lines -/

/-- Lines as a text is cut into them: only the last may lack the line break. -/
inductive Broken : List (List Char) → Prop where
  | nil : Broken []
  | last {line : List Char} : '\n' ∉ line → Broken [line]
  | cons {line : List Char} {rest : List (List Char)} :
    '\n' ∉ line → Broken rest → Broken ((line ++ ['\n']) :: rest)

theorem Broken.cons_char {c : Char} {line : List Char} {rest : List (List Char)} (hc : c ≠ '\n')
    (h : Broken (line :: rest)) : Broken ((c :: line) :: rest) := by
  cases h with
  | last hline => exact .last (by simp [hline, Ne.symm hc])
  | @cons line rest hline hrest =>
    have hnew : '\n' ∉ c :: line := by simp [hline, Ne.symm hc]
    exact .cons hnew hrest

theorem broken_lines (cs : List Char) : Broken (lines cs) := by
  induction cs with
  | nil => exact .nil
  | cons c cs ih =>
    rw [lines]
    split
    · next hc =>
      subst hc
      exact .cons List.not_mem_nil ih
    · next hc =>
      split
      · exact .last (by simp [Ne.symm hc])
      · next h => exact (h ▸ ih).cons_char hc

/-! ### Places -/

/-- The place of an offset, in a text that starts with the line of this number. -/
def Stands (cs : List Char) (number offset : Nat) (place : LinePlace) : Prop :=
  ∃ before after, cs = before ++ (place.line ++ after) ∧
    (before = [] ∨ before.getLast? = some '\n') ∧
    place.number = number + before.count '\n' ∧
    byteLength before + place.offset = offset ∧
    ((∃ body, place.line = body ++ ['\n'] ∧ '\n' ∉ body ∧ place.offset < byteLength place.line) ∨
      '\n' ∉ place.line ∧ after = [] ∧ place.offset ≤ byteLength place.line)

/-- A place in what follows a line, seen from the start of that line. -/
theorem Stands.after_line {cs line : List Char} {number offset : Nat} {place : LinePlace}
    (hline : '\n' ∉ line) (h : Stands cs (number + 1) offset place) :
    Stands (line ++ ['\n'] ++ cs) number (byteLength (line ++ ['\n']) + offset) place := by
  obtain ⟨before, after, rfl, hstart, hnumber, hoffset, hends⟩ := h
  refine ⟨line ++ ['\n'] ++ before, after, by simp, .inr ?_, ?_, ?_, hends⟩
  · rcases hstart with rfl | hstart
    · simp
    · rw [List.getLast?_append, hstart]
      rfl
  · rw [hnumber, List.count_append, List.count_append, List.count_eq_zero.mpr hline]
    simp only [List.count_singleton_self]
    omega
  · rw [byteLength_append, Nat.add_assoc, hoffset]

theorem placeIn_stands {ls : List (List Char)} (h : Broken ls) (number offset : Nat)
    (hoffset : offset ≤ byteLength ls.flatten) :
    Stands ls.flatten number offset (placeIn number offset ls) := by
  induction h generalizing number offset with
  | nil =>
    refine ⟨[], [], rfl, .inl rfl, rfl, Nat.zero_add _, .inr ⟨List.not_mem_nil, rfl, hoffset⟩⟩
  | @last line hline =>
    have hopen : line.getLast? ≠ some '\n' := fun h => hline (List.mem_of_getLast? h)
    rw [placeIn, if_pos (.inr ⟨rfl, hopen⟩)]
    rw [List.flatten_singleton] at hoffset ⊢
    exact ⟨[], [], by simp, .inl rfl, rfl, Nat.zero_add _, .inr ⟨hline, rfl, hoffset⟩⟩
  | @cons line rest hline _ ih =>
    rw [List.flatten_cons, byteLength_append] at hoffset
    rw [placeIn, List.flatten_cons]
    by_cases hin : offset < byteLength (line ++ ['\n'])
    · rw [if_pos (.inl hin)]
      exact ⟨[], rest.flatten, rfl, .inl rfl, rfl, Nat.zero_add _, .inl ⟨line, rfl, hline, hin⟩⟩
    · rw [if_neg (by simp [hin])]
      have hrest := (ih (number + 1) (offset - byteLength (line ++ ['\n'])) (by omega)).after_line hline
      rwa [Nat.add_sub_cancel' (by omega)] at hrest

/-- Every offset up to the end of a text has a place in it. -/
theorem placeAt_stands {cs : List Char} {offset : Nat} (h : offset ≤ byteLength cs) :
    ∃ place, placeAt cs offset = some place ∧ Stands cs 1 offset place := by
  refine ⟨_, if_pos h, ?_⟩
  have := placeIn_stands (broken_lines cs) 1 offset (by rwa [flatten_lines])
  rwa [flatten_lines] at this

/-! ### Columns -/

/-- Of two beginnings of a text, the one with fewer bytes begins the other. -/
theorem append_of_byteLength_le {a b c d : List Char} (h : a ++ b = c ++ d)
    (hle : byteLength a ≤ byteLength c) : ∃ m, c = a ++ m ∧ b = m ++ d := by
  rcases List.append_eq_append_iff.mp h with hm | ⟨m, rfl, rfl⟩
  · exact hm
  · -- Here the first is the longer one, so what it has more takes no bytes.
    rw [byteLength_append] at hle
    have hnil : m = [] := by
      by_cases hm : m = []
      · exact hm
      · have := byteLength_pos hm
        omega
    subst hnil
    exact ⟨[], by simp, rfl⟩

theorem charsBefore?_append (left right : List Char) :
    charsBefore? (left ++ right) (byteLength left) = some left.length := by
  induction left with
  | nil => cases right <;> rfl
  | cons c left ih =>
    have hpos := c.utf8Size_pos
    rw [List.cons_append, byteLength, charsBefore?, if_pos (Nat.le_add_right _ _),
      Nat.add_sub_cancel_left, ih]
    · rfl
    · omega

/-- Where an offset is between two characters of the text, its place is between two
characters of the line, and the caret stands behind the first of them. -/
theorem Stands.column {front back : List Char} {number : Nat} {place : LinePlace}
    (h : Stands (front ++ back) number (byteLength front) place) :
    ∃ left right, place.line = left ++ right ∧ byteLength left = place.offset ∧
      Diagnostic.caretColumn place = left.length := by
  obtain ⟨before, after, hcs, _, _, hoffset, hends⟩ := h
  obtain ⟨left, rfl, hline⟩ := append_of_byteLength_le hcs.symm (by omega)
  rw [byteLength_append] at hoffset
  have hleft : byteLength left = place.offset := by omega
  have hle : place.offset ≤ byteLength place.line := by
    rcases hends with ⟨_, _, _, hlt⟩ | ⟨_, _, hle⟩
    · omega
    · exact hle
  obtain ⟨right, hright, _⟩ := append_of_byteLength_le hline.symm (hleft ▸ hle)
  refine ⟨left, right, hright, hleft, ?_⟩
  rw [Diagnostic.caretColumn, hright, ← hleft, charsBefore?_append]
  rfl

end Text

/-! ### The located form -/

namespace Diagnostic

/-- The lines of a source as they are shown. -/
def shownLines (source : String) : List String :=
  (Text.lines source.toList).map fun line => String.ofList (Text.bare line)

/-- A line near the place of an error. -/
def contextLine (width number : Nat) (text : String) : String :=
  rightAlign width (toString number) ++ " | " ++ text

/-- The line of an error. -/
def markedLine (colour : Bool) (width number : Nat) (text : String) : String :=
  rightAlign width (toString number) ++ " " ++ paint colour .redBold ">" ++ " " ++ text

/-- The line below it, with the caret under a column. -/
def caretLine (colour : Bool) (width column : Nat) : String :=
  rightAlign (width + 2) "|" ++ " " ++ String.ofList (List.replicate column '-') ++
    paint colour .red "^"

/-- The lines that show an error in a line of a source, under a column. -/
def locatedLines (colour : Bool) (error : Error) (source file : String) (number column : Nat) :
    List String :=
  let texts := shownLines source
  let first := max 1 (number - contextLines)
  let last := max number (min (number + contextLines) texts.length)
  let width := (toString last).length
  let text := fun n => texts[n - 1]?.getD ""
  let context := fun n => contextLine width n (text n)
  paint colour .redBold (header error) :: ("-> " ++ file) :: rightAlign (width + 2) "|" ::
    ((List.range' first (number - first)).map context ++
      markedLine colour width number (text number) :: caretLine colour width column ::
      (List.range' (number + 1) (last - number)).map context)

/-- The shown numbers are those before the line, the line, and those behind it. -/
theorem window_eq {line : Nat} (count : Nat) (h : 1 ≤ line) :
    window line count =
      List.range' (max 1 (line - contextLines)) (line - max 1 (line - contextLines)) ++
        line :: List.range' (line + 1) (max line (min (line + contextLines) count) - line) := by
  have hfirst : max 1 (line - contextLines) ≤ line := by omega
  rw [window, ← List.range'_succ]
  generalize max 1 (line - contextLines) = first at hfirst ⊢
  generalize hlast : max line (min (line + contextLines) count) = last
  have happend := @List.range'_append_1 first (line - first) (last - line + 1)
  rw [Nat.add_sub_cancel' hfirst] at happend
  rw [happend]
  congr 1
  omega

theorem getLast?_window {line : Nat} (count : Nat) (h : 1 ≤ line) :
    (window line count).getLast? = some (max line (min (line + contextLines) count)) := by
  rw [window, List.getLast?_range', if_neg (by omega)]
  congr 1
  omega

/-- No line but the one of the place is marked. -/
theorem flatMap_excerptLine (colour : Bool) (width : Nat) (place : Text.LinePlace)
    (text : Nat → String) {numbers : List Nat} (h : place.number ∉ numbers) :
    (numbers.flatMap fun n => excerptLine colour width place n (text n)) =
      numbers.map fun n => contextLine width n (text n) := by
  induction numbers with
  | nil => rfl
  | cons n rest ih =>
    rw [List.mem_cons, not_or] at h
    rw [List.flatMap_cons, List.map_cons, ih h.2, excerptLine, if_neg (Ne.symm h.1)]
    rfl

theorem render_located {error : Error} {source : String} {place : Text.LinePlace}
    (hplace : place? error source = some place) (hnumber : 1 ≤ place.number) (colour : Bool)
    (file : String) :
    render colour error source file =
      String.intercalate "\n" (locatedLines colour error source file place.number
        (caretColumn place)) ++ "\n" := by
  have habove : place.number ∉ List.range' (max 1 (place.number - contextLines))
      (place.number - max 1 (place.number - contextLines)) := by
    rw [List.mem_range'_1]
    omega
  have hbelow : ∀ n, place.number ∉ List.range' (place.number + 1) n := by
    intro n
    rw [List.mem_range'_1]
    omega
  simp only [render, hplace, excerpt, getLast?_window _ hnumber, Option.getD_some]
  rw [window_eq _ hnumber, List.flatMap_append, List.flatMap_cons,
    flatMap_excerptLine _ _ _ _ habove, flatMap_excerptLine _ _ _ _ (hbelow _), excerptLine, if_pos rfl]
  rfl

end Diagnostic
end LittleC
