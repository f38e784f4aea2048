import LittleC.Json.NumberReader
import LittleC.Text.Lines

/-! Reading JSON. `read` takes a whole text and gives its value, or the first fault
with its place. Arrays and objects may nest 127 deep, and a reader for one level is
a function of the reader for the values inside, so reading is recursive in that
depth; the loops over elements and members end because a value is never empty. -/
namespace LittleC.Json

/-! ### Strings -/

def hexValue? (c : Char) : Option Nat :=
  if '0' ≤ c ∧ c ≤ '9' then some (c.toNat - '0'.toNat)
  else if 'a' ≤ c ∧ c ≤ 'f' then some (c.toNat - 'a'.toNat + 10)
  else if 'A' ≤ c ∧ c ≤ 'F' then some (c.toNat - 'A'.toNat + 10)
  else none

/-- Four hexadecimal digits. They are taken as four bytes before they are looked at,
which is where the error is placed. -/
def hexFour (i : Input) : Parsed Nat i :=
  let fault : Fault :=
    if Text.byteLength i.rest < 4 then .stringEnds else .invalidEscape
  let place := i.mark.afterBytes 4 i.rest
  match i with
  | ⟨a :: b :: c :: d :: r, m⟩ =>
    have hr : r.length < r.length + 1 + 1 + 1 + 1 := Nat.lt_add_of_pos_right (Nat.succ_pos 3)
    match hexValue? a, hexValue? b, hexValue? c, hexValue? d with
    | some a, some b, some c, some d =>
      .ok (((a * 16 + b) * 16 + c) * 16 + d, ⟨⟨r, m.shift 4⟩, hr⟩)
    | _, _, _, _ => .fail fault place
  | _ => .fail fault place

/-- One character that must stand between the two halves of a surrogate pair. -/
def pairMark (expected : Char) (i : Input) : Parsed Unit i :=
  match i with
  | ⟨[], m⟩ => .fail .stringEnds m
  | ⟨c :: r, m⟩ =>
    if c = expected then .ok ((), ⟨⟨r, m.shift 1⟩, Input.size_tail_lt ..⟩)
    else .fail .pairUnfinished (m.afterByte c)

/-- The character of a numeric escape, after its letter. Characters outside the
basic plane are written as two halves, and no half stands alone. -/
def unicodeEscape (i : Input) : Parsed Char i :=
  (hexFour i).andThen fun n j hj =>
    if 0xDC00 ≤ n ∧ n ≤ 0xDFFF then .fail .unpairedSurrogate j.mark
    else if 0xD800 ≤ n ∧ n ≤ 0xDBFF then
      ((pairMark '\\' j).widen (Nat.le_of_lt hj)).andThen fun _ k hk =>
      ((pairMark 'u' k).widen (Nat.le_of_lt hk)).andThen fun _ l hl =>
      ((hexFour l).widen (Nat.le_of_lt hl)).andThen fun n' k' hk' =>
        if 0xDC00 ≤ n' ∧ n' ≤ 0xDFFF then
          .ok (Char.ofNat (0x10000 + (n - 0xD800) * 0x400 + (n' - 0xDC00)), ⟨k', hk'⟩)
        else .fail .unpairedSurrogate k'.mark
    else .ok (Char.ofNat n, ⟨j, hj⟩)

/-- The character that a letter after a backslash stands for. -/
def simpleEscape? (c : Char) : Option Char :=
  if c = '"' ∨ c = '\\' ∨ c = '/' then some c
  else if c = 'b' then some '\x08'
  else if c = 'f' then some '\x0c'
  else if c = 'n' then some '\n'
  else if c = 'r' then some '\r'
  else if c = 't' then some '\t'
  else none

/-- An escape, after its backslash. -/
def escapeFrom (i : Input) : Parsed Char i :=
  match i with
  | ⟨[], m⟩ => .fail .stringEnds m
  | ⟨c :: r, m⟩ =>
    if c = 'u' then (unicodeEscape ⟨r, m.shift 1⟩).widen (Nat.le_of_lt (Input.size_tail_lt ..))
    else
      match simpleEscape? c with
      | some x => .ok (x, ⟨⟨r, m.shift 1⟩, Input.size_tail_lt ..⟩)
      | none => .fail .invalidEscape (m.afterByte c)

/-- The characters of a string, after its opening quote and through its closing one. -/
def charsFrom (i : Input) : Parsed (List Char) i :=
  match i with
  | ⟨[], m⟩ => .fail .stringEnds m
  | ⟨c :: r, m⟩ =>
    if c = '"' then .ok ([], ⟨⟨r, m.after c⟩, Input.size_tail_lt ..⟩)
    else if c = '\\' then
      ((escapeFrom ⟨r, m.after c⟩).widen (Nat.le_of_lt (Input.size_tail_lt ..))).andThen fun x j hj =>
        ((charsFrom j).map (x :: ·)).widen (Nat.le_of_lt hj)
    else if c.toNat < 0x20 then .fail .controlCharacter (m.after c)
    else ((charsFrom ⟨r, m.after c⟩).map (c :: ·)).widen (Nat.le_of_lt (Input.size_tail_lt ..))
termination_by i.size
decreasing_by
  · exact hj
  · exact Input.size_tail_lt ..

def stringFrom (i : Input) : Parsed String i :=
  (charsFrom i).map String.ofList

/-! ### Values -/

/-- The rest of a keyword, letter by letter. -/
def keywordFrom {i : Input} (value : Json) (letters : List Char) (j : Input)
    (h : j.size < i.size) : Parsed Json i :=
  match letters, j with
  | [], j => .ok (value, ⟨j, h⟩)
  | _ :: _, ⟨[], m⟩ => .fail .valueEnds m
  | l :: letters, ⟨c :: r, m⟩ =>
    if c = l then
      keywordFrom value letters ⟨r, m.shift 1⟩ (Nat.lt_trans (Input.size_tail_lt ..) h)
    else .fail .keywordExpected (m.afterByte c)

/-- A reader of values. -/
abbrev ValueReader :=
  (i : Input) → Parsed Json i

/-- The elements of an array after one of them, through the closing bracket. -/
def elementsFrom (value : ValueReader) (i : Input) : Parsed (List Json) i :=
  match h : i.trim with
  | ⟨[], _⟩ => .fail .arrayEnds i.trim.next
  | ⟨c :: r, m⟩ =>
    have hr : r.length < i.size := Input.length_lt_of_trim h
    if c = ']' then .ok ([], ⟨⟨r, m.shift 1⟩, hr⟩)
    else if c = ',' then
      let j := (Input.mk r (m.shift 1)).trim
      have hj : j.size ≤ r.length := Input.size_trim_le _
      if j.rest.isEmpty then .fail .valueEnds j.next
      else if j.rest.head? = some ']' then .fail .trailingComma j.next
      else
        ((value j).widen (Nat.le_trans hj (Nat.le_of_lt hr))).andThen fun v k hk =>
          ((elementsFrom value k).map (v :: ·)).widen (Nat.le_of_lt hk)
    else .fail .commaOrBracketExpected i.trim.next
termination_by i.size
decreasing_by exact hk

/-- An array, after its opening bracket. -/
def arrayFrom (value : ValueReader) (i : Input) : Parsed Json i :=
  match h : i.trim with
  | ⟨[], _⟩ => .fail .arrayEnds i.trim.next
  | ⟨c :: r, m⟩ =>
    if c = ']' then
      .ok (.array [], ⟨⟨r, m.shift 1⟩, Input.length_lt_of_trim h⟩)
    else
      ((value i.trim).widen i.size_trim_le).andThen fun v j hj =>
        ((elementsFrom value j).map fun vs => .array (v :: vs)).widen (Nat.le_of_lt hj)

/-- A member of an object, from its key on. -/
def memberFrom (value : ValueReader) (i : Input) : Parsed (String × Json) i :=
  match i with
  | ⟨[], m⟩ => .fail .objectEnds m
  | ⟨c :: r, m⟩ =>
    if c = '"' then
      ((stringFrom ⟨r, m.shift 1⟩).widen (Nat.le_of_lt (Input.size_tail_lt ..))).andThen fun key j hj =>
        match h : j.trim with
        | ⟨[], _⟩ => .fail .objectEnds j.trim.next
        | ⟨c :: r, m⟩ =>
          if c = ':' then
            ((value ⟨r, m.shift 1⟩).map (Prod.mk key)).widen
              (Nat.le_of_lt (Nat.lt_trans (Input.length_lt_of_trim h) hj))
          else .fail .colonExpected j.trim.next
    else .fail .keyNotString (m.afterByte c)

/-- The members of an object after one of them, through the closing brace. -/
def membersFrom (value : ValueReader) (i : Input) : Parsed (List (String × Json)) i :=
  match h : i.trim with
  | ⟨[], _⟩ => .fail .objectEnds i.trim.next
  | ⟨c :: r, m⟩ =>
    have hr : r.length < i.size := Input.length_lt_of_trim h
    if c = '\x7d' then .ok ([], ⟨⟨r, m.shift 1⟩, hr⟩)
    else if c = ',' then
      let j := (Input.mk r (m.shift 1)).trim
      have hj : j.size ≤ r.length := Input.size_trim_le _
      if j.rest.isEmpty then .fail .valueEnds j.next
      else if j.rest.head? = some '\x7d' then .fail .trailingComma j.next
      else
        ((memberFrom value j).widen (Nat.le_trans hj (Nat.le_of_lt hr))).andThen fun v k hk =>
          ((membersFrom value k).map (v :: ·)).widen (Nat.le_of_lt hk)
    else .fail .commaOrBraceExpected i.trim.next
termination_by i.size
decreasing_by exact hk

/-- An object, after its opening brace. -/
def objectFrom (value : ValueReader) (i : Input) : Parsed Json i :=
  match h : i.trim with
  | ⟨[], _⟩ => .fail .objectEnds i.trim.next
  | ⟨c :: r, m⟩ =>
    if c = '\x7d' then
      .ok (.object [], ⟨⟨r, m.shift 1⟩, Input.length_lt_of_trim h⟩)
    else
      ((memberFrom value i.trim).widen i.size_trim_le).andThen fun v j hj =>
        ((membersFrom value j).map fun vs => .object (Assoc.ofPairs (v :: vs))).widen
          (Nat.le_of_lt hj)

/-- A value whose first character is the next one, with a reader for the values
inside it. Without such a reader no array or object may open here. -/
def bareValue (inner : Option ValueReader) (i : Input) : Parsed Json i :=
  match i with
  | ⟨[], m⟩ => .fail .valueEnds m
  | ⟨c :: r, m⟩ =>
    let rest : Input := ⟨r, m.shift 1⟩
    have hrest : rest.size < (Input.mk (c :: r) m).size :=
      Input.size_tail_lt ..
    if c = 'n' then keywordFrom .null ['u', 'l', 'l'] rest hrest
    else if c = 't' then keywordFrom (.bool true) ['r', 'u', 'e'] rest hrest
    else if c = 'f' then keywordFrom (.bool false) ['a', 'l', 's', 'e'] rest hrest
    else if c = '-' then ((numberFrom true rest).map .number).widen (Nat.le_of_lt hrest)
    else if c.isDigit then (numberFrom false ⟨c :: r, m⟩).map .number
    else if c = '"' then ((stringFrom rest).map .string).widen (Nat.le_of_lt hrest)
    else if c = '[' then
      match inner with
      | some value => (arrayFrom value rest).widen (Nat.le_of_lt hrest)
      | none => .fail .tooDeep (m.afterByte c)
    else if c = '\x7b' then
      match inner with
      | some value => (objectFrom value rest).widen (Nat.le_of_lt hrest)
      | none => .fail .tooDeep (m.afterByte c)
    else .fail .valueExpected (m.afterByte c)

/-- A value with at most `depth` levels of arrays and objects, after any blanks. -/
def valueFrom : (depth : Nat) → ValueReader
  | 0, i => (bareValue none i.trim).widen i.size_trim_le
  | depth + 1, i => (bareValue (some (valueFrom depth)) i.trim).widen i.size_trim_le

/-- How deep arrays and objects may nest. -/
def depthLimit : Nat := 127

/-- The value that a whole text holds. -/
def read (text : String) : Except ReadError Json :=
  match valueFrom depthLimit (Input.ofString text) with
  | .error e => .error e
  | .ok (v, ⟨j, _⟩) =>
    if j.trim.rest.isEmpty then .ok v else .error ⟨.trailingText, j.trim.next⟩

end LittleC.Json
