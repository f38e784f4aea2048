import Mathlib
import LittleC.Proofs.LinePlaces

/-! Lines in the bytes of a source. A line break is one byte, and that byte is part of no other
character, so lines can be told from the bytes alone: `LineAround` says by indices where the
line of an offset starts and stops.

`placeAt_finds_line`: the place at an offset is that line, its number is one more than the line
breaks among the bytes before the offset, and only an offset behind the end has none. The
offset may be inside a character. -/
namespace LittleC.Text

/-! ### Bytes -/

/-- The byte of a line break. -/
def newline : UInt8 := 10

/-- The bytes of a text. -/
def bytes (s : String) : List UInt8 :=
  s.toUTF8.data.toList

/-- The bytes of some characters, one after the other. -/
def encode (cs : List Char) : List UInt8 :=
  cs.flatMap String.utf8EncodeChar

theorem bytes_ofList (cs : List Char) : bytes (String.ofList cs) = encode cs := by
  rw [bytes, String.toUTF8_eq_toByteArray, String.toByteArray_ofList, List.utf8Encode,
    List.data_toByteArray]
  rfl

theorem bytes_eq (s : String) : bytes s = encode s.toList := by
  rw [← bytes_ofList, String.ofList_toList]

theorem encode_append (a b : List Char) : encode (a ++ b) = encode a ++ encode b :=
  List.flatMap_append

theorem length_encode (cs : List Char) : (encode cs).length = byteLength cs := by
  induction cs with
  | nil => rfl
  | cons c cs ih =>
    rw [encode, List.flatMap_cons, List.length_append, String.length_utf8EncodeChar, byteLength, ← ih]
    rfl

theorem encode_newline : encode ['\n'] = [newline] := by
  decide

theorem newline_ne_ofNat {n : Nat} (h : n % 256 ≠ 10) : newline ≠ UInt8.ofNat n := by
  intro heq
  apply h
  rw [← UInt8.toNat_ofNat', ← heq]
  rfl

/-- Only a line break has its byte. -/
theorem newline_not_mem_utf8EncodeChar {c : Char} (hc : c ≠ '\n') :
    newline ∉ String.utf8EncodeChar c := by
  have hval : c.val.toNat ≠ 10 := fun h => hc (Char.ext (UInt32.toNat_inj.mp h))
  simp only [String.utf8EncodeChar]
  split
  · rw [List.mem_singleton]
    exact newline_ne_ofNat (by omega)
  -- all bytes of a longer character are 128 or more
  · split
    · simp only [List.mem_cons, List.not_mem_nil, or_false, not_or]
      exact ⟨newline_ne_ofNat (by omega), newline_ne_ofNat (by omega)⟩
    · split
      · simp only [List.mem_cons, List.not_mem_nil, or_false, not_or]
        exact ⟨newline_ne_ofNat (by omega), newline_ne_ofNat (by omega), newline_ne_ofNat (by omega)⟩
      · simp only [List.mem_cons, List.not_mem_nil, or_false, not_or]
        exact ⟨newline_ne_ofNat (by omega), newline_ne_ofNat (by omega), newline_ne_ofNat (by omega),
          newline_ne_ofNat (by omega)⟩

theorem count_newline_encode (cs : List Char) : (encode cs).count newline = cs.count '\n' := by
  induction cs with
  | nil => rfl
  | cons c cs ih =>
    rw [encode, List.flatMap_cons, List.count_append, List.count_cons]
    show _ + (encode cs).count newline = _
    rw [ih]
    by_cases hc : c = '\n'
    · subst hc
      simp [Nat.add_comm]
      decide
    · rw [List.count_eq_zero.mpr (newline_not_mem_utf8EncodeChar hc)]
      simp [hc]

theorem newline_mem_encode {cs : List Char} : newline ∈ encode cs ↔ '\n' ∈ cs := by
  rw [← List.count_pos_iff, count_newline_encode, List.count_pos_iff]

/-! ### The line of an offset -/

/-- The line of an offset starts behind the last line break before it, or at the start of the
bytes, and stops behind the next line break, or at their end. -/
structure LineAround (bs : List UInt8) (offset start stop : Nat) : Prop where
  start_le : start ≤ offset
  behind : start = 0 ∨ 0 < start ∧ bs[start - 1]? = some newline
  unbroken : ∀ k, start ≤ k → k < offset → bs[k]? ≠ some newline
  ended : offset < stop ∧ bs[stop - 1]? = some newline ∧
        (∀ k, offset ≤ k → k < stop - 1 → bs[k]? ≠ some newline) ∨
      stop = bs.length ∧ ∀ k, offset ≤ k → bs[k]? ≠ some newline

section
variable {front body tail back : List UInt8} {column : Nat}

theorem getElem?_body (hbody : newline ∉ body) {k : Nat} (hk : front.length ≤ k)
    (hk' : k < front.length + body.length) :
    (front ++ (body ++ (tail ++ back)))[k]? ≠ some newline := by
  rw [List.getElem?_append_right hk, List.getElem?_append_left (by omega)]
  exact fun h => hbody (List.mem_of_getElem? h)

/-- The line of an offset, where the bytes are cut at the line breaks around it. -/
theorem lineAround_cut (hfront : front = [] ∨ front.getLast? = some newline)
    (hbody : newline ∉ body) (hcolumn : column ≤ body.length)
    (htail : tail = [newline] ∨ tail = [] ∧ back = []) :
    LineAround (front ++ (body ++ (tail ++ back))) (front.length + column) front.length
      (front.length + (body ++ tail).length) where
  start_le := Nat.le_add_right _ _
  behind := by
    rcases hfront with rfl | hlast
    · exact .inl rfl
    · have hpos : 0 < front.length := List.length_pos_of_mem (List.mem_of_getLast? hlast)
      rw [List.getElem?_append_left (by omega), ← List.getLast?_eq_getElem?]
      exact .inr ⟨hpos, hlast⟩
  unbroken := by
    intro k hk hk'
    exact getElem?_body hbody hk (by omega)
  ended := by
    rcases htail with rfl | ⟨rfl, rfl⟩
    · refine .inl ⟨by simp; omega, ?_, fun k hk hk' => ?_⟩
      · have hstop : front.length + (body ++ [newline]).length - 1 = front.length + body.length := by
          simp
        rw [hstop, List.getElem?_append_right (by omega), Nat.add_sub_cancel_left,
          List.getElem?_append_right (Nat.le_refl _), Nat.sub_self]
        rfl
      · rw [List.length_append, List.length_singleton] at hk'
        exact getElem?_body hbody (by omega) (by omega)
    · refine .inr ⟨by simp, fun k hk => ?_⟩
      rcases Nat.lt_or_ge k (front.length + body.length) with hlt | hge
      · exact getElem?_body hbody (by omega) hlt
      · rw [List.getElem?_eq_none (by simpa using hge)]
        simp

theorem count_newline_cut (hbody : newline ∉ body) (hcolumn : column ≤ body.length) :
    ((front ++ (body ++ back)).take (front.length + column)).count newline = front.count newline := by
  have htake : newline ∉ body.take column := fun h => hbody (List.mem_of_mem_take h)
  rw [List.take_length_add_append, List.take_append_of_le_length hcolumn, List.count_append,
    List.count_eq_zero.mpr htake, Nat.add_zero]

end

/-- The place is the line of an offset in the bytes of a source. -/
structure FindsLine (source : String) (offset : Nat) (place : LinePlace) : Prop where
  number : place.number = ((bytes source).take offset).count newline + 1
  line : ∃ start stop, LineAround (bytes source) offset start stop ∧ start + place.offset = offset ∧
    bytes (String.ofList place.line) = ((bytes source).take stop).drop start

/-- A line without its line break, and what the offset leaves of it. -/
theorem Stands.cut {cs : List Char} {number offset : Nat} {place : LinePlace}
    (h : Stands cs number offset place) :
    ∃ before body tail after, cs = before ++ (body ++ (tail ++ after)) ∧ place.line = body ++ tail ∧
      (before = [] ∨ before.getLast? = some '\n') ∧ place.number = number + before.count '\n' ∧
      byteLength before + place.offset = offset ∧ '\n' ∉ body ∧ place.offset ≤ byteLength body ∧
      (tail = ['\n'] ∨ tail = [] ∧ after = []) := by
  obtain ⟨before, after, hcs, hstart, hnumber, hoffset, hends⟩ := h
  rcases hends with ⟨body, hline, hbody, hlt⟩ | ⟨hline, hafter, hle⟩
  · rw [hline, byteLength_append] at hlt
    have hone : byteLength ['\n'] = 1 := rfl
    refine ⟨before, body, ['\n'], after, ?_, hline, hstart, hnumber, hoffset, hbody, by omega,
      .inl rfl⟩
    rw [hcs, hline, List.append_assoc]
  · refine ⟨before, place.line, [], [], ?_, by simp, hstart, hnumber, hoffset, hline, hle,
      .inr ⟨rfl, rfl⟩⟩
    rw [hcs, hafter]
    simp

theorem Stands.findsLine {source : String} {offset : Nat} {place : LinePlace}
    (h : Stands source.toList 1 offset place) : FindsLine source offset place := by
  obtain ⟨before, body, tail, after, hcs, hline, hstart, hnumber, hoffset, hbody, hcolumn, htail⟩ :=
    h.cut
  have hbytes : bytes source =
      encode before ++ (encode body ++ (encode tail ++ encode after)) := by
    rw [bytes_eq, hcs, encode_append, encode_append, encode_append]
  have hbody' : newline ∉ encode body := fun h => hbody (newline_mem_encode.mp h)
  have hfront : encode before = [] ∨ (encode before).getLast? = some newline := by
    rcases hstart with rfl | hlast
    · exact .inl rfl
    · obtain ⟨init, rfl⟩ := List.getLast?_eq_some_iff.mp hlast
      rw [encode_append, encode_newline, List.getLast?_concat]
      exact .inr rfl
  have htail' : encode tail = [newline] ∨ encode tail = [] ∧ encode after = [] := by
    rcases htail with rfl | ⟨rfl, rfl⟩
    · exact .inl encode_newline
    · exact .inr ⟨rfl, rfl⟩
  rw [← length_encode] at hoffset hcolumn
  subst hoffset
  constructor
  · rw [hbytes, count_newline_cut hbody' hcolumn, count_newline_encode, hnumber, Nat.add_comm]
  · refine ⟨_, _, hbytes ▸ lineAround_cut hfront hbody' hcolumn htail', rfl, ?_⟩
    rw [bytes_ofList, hline, encode_append, hbytes, ← List.append_assoc (encode body),
      List.take_length_add_append, List.take_left, List.drop_left]

/-- **The place at an offset is its line.** Only an offset behind the end of the source has none.
The number of the line is one more than the line breaks before the offset, and the line is
the text from behind the last of these through the next one, or to the end of the source. -/
theorem placeAt_finds_line (source : String) (offset : Nat) :
    (placeAt source.toList offset = none ↔ source.utf8ByteSize < offset) ∧
    ∀ place, placeAt source.toList offset = some place → FindsLine source offset place := by
  by_cases h : offset ≤ byteLength source.toList
  · obtain ⟨place, hplace, hstands⟩ := placeAt_stands h
    rw [byteLength_toList] at h
    refine ⟨by simp [hplace, h], fun other hother => ?_⟩
    rw [hplace] at hother
    cases hother
    exact hstands.findsLine
  · rw [byteLength_toList] at h
    have hnone : placeAt source.toList offset = none := by
      rw [placeAt, byteLength_toList, if_neg h]
    simp [hnone, Nat.lt_of_not_le h]

/-- An offset inside the character of the second line, which ends the source. -/
theorem placeAt_finds_line_inside :
    placeAt "a\r\né".toList 4 = some ⟨2, ['é'], 1⟩ ∧ FindsLine "a\r\né" 4 ⟨2, ['é'], 1⟩ ∧
      placeAt "a\r\né".toList 6 = none ∧ "a\r\né".utf8ByteSize < 6 := by
  have hplace : placeAt "a\r\né".toList 4 = some ⟨2, ['é'], 1⟩ := by rfl
  have hnone : placeAt "a\r\né".toList 6 = none := by rfl
  exact ⟨hplace, (placeAt_finds_line "a\r\né" 4).2 _ hplace, hnone,
    (placeAt_finds_line "a\r\né" 6).1.mp hnone⟩

end LittleC.Text
