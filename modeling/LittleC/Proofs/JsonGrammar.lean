import LittleC.Json.Reader
import LittleC.Json.Text

/-! The grammar of JSON texts, and that reading accepts them. `Spells n v text` says that
the text is JSON for the value `v`, with blanks between its parts where they may stand and
arrays and objects at most `n` deep. Numbers are left out: the values of the trees written
here have none.

`Spells.reads`: a reader for `n` levels takes exactly such a text, whatever follows it. -/
namespace LittleC.Json

/-! ### What a step of reading yields -/

namespace Parsed
variable {α β : Type} {i : Input}

/-- The step succeeds with this value in front of this text. -/
def Yields (x : Parsed α i) (a : α) (rest : List Char) : Prop :=
  ∃ m h, x = .ok (a, ⟨⟨rest, m⟩, h⟩)

theorem yields_ok {a : α} {rest : List Char} {m : Mark} {h : (Input.mk rest m).size < i.size} :
    Yields (i := i) (.ok (a, ⟨⟨rest, m⟩, h⟩)) a rest :=
  ⟨m, h, rfl⟩

theorem Yields.map {x : Parsed α i} {a : α} {rest : List Char} (h : x.Yields a rest) (g : α → β) :
    (x.map g).Yields (g a) rest := by
  obtain ⟨m, hm, rfl⟩ := h
  exact yields_ok

theorem Yields.widen {j : Input} {x : Parsed α j} {a : α} {rest : List Char} (h : x.Yields a rest)
    (hji : j.size ≤ i.size) : (x.widen hji : Parsed α i).Yields a rest := by
  obtain ⟨m, hm, rfl⟩ := h
  exact yields_ok

/-- A second step yields its value if it does so from wherever the first one may end. -/
theorem Yields.andThen {x : Parsed α i} {a : α} {b : β} {rest rest' : List Char}
    {f : α → (j : Input) → j.size < i.size → Parsed β i} (h : x.Yields a rest)
    (hf : ∀ m hm, (f a ⟨rest, m⟩ hm).Yields b rest') : (x.andThen f).Yields b rest' := by
  obtain ⟨m, hm, rfl⟩ := h
  exact hf m hm

end Parsed

/-! ### Blanks -/

def IsGap (cs : List Char) : Prop :=
  ∀ c ∈ cs, Input.isGap c = true

theorem isGap_nil : IsGap [] :=
  List.forall_mem_nil _

/-- The text does not begin with a blank. -/
def Bare (cs : List Char) : Prop :=
  ∀ c ∈ cs.head?, Input.isGap c = false

theorem bare_cons {c : Char} {cs : List Char} (h : Input.isGap c = false) : Bare (c :: cs) := by
  simpa [Bare] using h

theorem Input.trim_gap {gap cs : List Char} (hgap : IsGap gap) (hcs : Bare cs) (m : Mark) :
    ∃ m', (Input.mk (gap ++ cs) m).trim = ⟨cs, m'⟩ := by
  unfold Input.trim
  induction gap generalizing m with
  | nil =>
    cases cs with
    | nil => exact ⟨m, rfl⟩
    | cons c rest =>
      have hc := hcs c rfl
      exact ⟨m, by simp [trimFrom, hc]⟩
  | cons c gap ih =>
    obtain ⟨hc, hrest⟩ := List.forall_mem_cons.mp hgap
    obtain ⟨m', hm'⟩ := ih hrest (m.after c)
    exact ⟨m', by simpa [trimFrom, hc] using hm'⟩

theorem Input.trim_gap_cons {gap : List Char} (hgap : IsGap gap) {c : Char}
    (hc : Input.isGap c = false) (cs : List Char) (m : Mark) :
    ∃ m', (Input.mk (gap ++ c :: cs) m).trim = ⟨c :: cs, m'⟩ :=
  Input.trim_gap hgap (bare_cons hc) m

/-! ### Strings -/

theorem hexValue?_hexDigit (n : Nat) : hexValue? (hexDigit n) = some (n % 16) := by
  have hall : ∀ k < 16, hexValue? (Nat.digitChar k) = some k := by decide
  exact hall (n % 16) (Nat.mod_lt n (by decide))

section
variable {rest cs tail : List Char}

theorem charsFrom_quote (m : Mark) : (charsFrom ⟨'"' :: rest, m⟩).Yields [] rest := by
  rw [charsFrom]
  exact Parsed.yields_ok

/-- A character that stands for itself. -/
theorem charsFrom_plain {c : Char} (hq : c ≠ '"') (hs : c ≠ '\\') (hc : ¬ c.toNat < 0x20)
    (h : ∀ m, (charsFrom ⟨tail, m⟩).Yields cs rest) (m : Mark) :
    (charsFrom ⟨c :: tail, m⟩).Yields (c :: cs) rest := by
  rw [charsFrom]
  simp only [hq, hs, hc, if_false]
  exact ((h _).map _).widen _

/-- A character behind a backslash. -/
theorem charsFrom_escape {text : List Char} {c : Char}
    (hc : ∀ m, (escapeFrom ⟨text ++ tail, m⟩).Yields c tail)
    (h : ∀ m, (charsFrom ⟨tail, m⟩).Yields cs rest) (m : Mark) :
    (charsFrom ⟨'\\' :: (text ++ tail), m⟩).Yields (c :: cs) rest := by
  rw [charsFrom]
  simp only [Char.reduceEq, if_false, if_true]
  exact ((hc _).widen _).andThen fun m' hm' => ((h m').map _).widen _

theorem escapeFrom_letter {letter c : Char} (hl : letter ≠ 'u') (h : simpleEscape? letter = some c)
    (m : Mark) : (escapeFrom ⟨[letter] ++ tail, m⟩).Yields c tail := by
  simp only [escapeFrom, List.cons_append, List.nil_append, hl, if_false, h]
  exact Parsed.yields_ok

theorem hexFour_digits {a b n : Nat} (h : a % 16 * 16 + b % 16 = n) (m : Mark) :
    (hexFour ⟨'0' :: '0' :: hexDigit a :: hexDigit b :: tail, m⟩).Yields n tail := by
  have hzero : hexValue? '0' = some 0 := by decide
  simp only [hexFour, hzero, hexValue?_hexDigit]
  refine ⟨m.shift 4, ?_, ?_⟩
  · simp only [Input.size, List.length_cons]
    omega
  · simp [h]

/-- A control character by its number. -/
theorem escapeFrom_control {c : Char} (hc : c.toNat < 0x20) (m : Mark) :
    (escapeFrom ⟨['u', '0', '0', hexDigit (c.toNat / 16), hexDigit c.toNat] ++ tail, m⟩).Yields
      c tail := by
  have hnumber : c.toNat / 16 % 16 * 16 + c.toNat % 16 = c.toNat := by omega
  have hlow : ¬ (0xDC00 ≤ c.toNat ∧ c.toNat ≤ 0xDFFF) := by omega
  have hhigh : ¬ (0xD800 ≤ c.toNat ∧ c.toNat ≤ 0xDBFF) := by omega
  simp only [escapeFrom, List.cons_append, List.nil_append, if_true]
  refine ((hexFour_digits hnumber _).andThen fun m' hm' => ?_).widen _
  simp only [hlow, hhigh, if_false, Char.ofNat_toNat]
  exact Parsed.yields_ok

/-- The three ways to write a character. -/
theorem escapeChar_cases (c : Char) :
    (∃ letter, letter ≠ 'u' ∧ simpleEscape? letter = some c ∧ escapeChar c = ['\\', letter]) ∨
    (c.toNat < 0x20 ∧
      escapeChar c = ['\\', 'u', '0', '0', hexDigit (c.toNat / 16), hexDigit c.toNat]) ∨
    (c ≠ '"' ∧ c ≠ '\\' ∧ ¬ c.toNat < 0x20 ∧ escapeChar c = [c]) := by
  unfold escapeChar
  split
  next hc => exact .inl ⟨'"', by decide, by rw [hc]; decide, rfl⟩
  split
  next hc => exact .inl ⟨'\\', by decide, by rw [hc]; decide, rfl⟩
  split
  next hc => exact .inl ⟨'b', by decide, by rw [hc]; decide, rfl⟩
  split
  next hc => exact .inl ⟨'f', by decide, by rw [hc]; decide, rfl⟩
  split
  next hc => exact .inl ⟨'n', by decide, by rw [hc]; decide, rfl⟩
  split
  next hc => exact .inl ⟨'r', by decide, by rw [hc]; decide, rfl⟩
  split
  next hc => exact .inl ⟨'t', by decide, by rw [hc]; decide, rfl⟩
  split
  next hc => exact .inr (.inl ⟨hc, rfl⟩)
  next hq hs _ _ _ _ _ hc => exact .inr (.inr ⟨hq, hs, hc, rfl⟩)

theorem charsFrom_escapeChar (c : Char) (h : ∀ m, (charsFrom ⟨tail, m⟩).Yields cs rest) (m : Mark) :
    (charsFrom ⟨escapeChar c ++ tail, m⟩).Yields (c :: cs) rest := by
  rcases escapeChar_cases c with ⟨letter, hl, hs, heq⟩ | ⟨hc, heq⟩ | ⟨hq, hs, hc, heq⟩
  · rw [heq]
    exact charsFrom_escape (escapeFrom_letter hl hs) h m
  · rw [heq]
    exact charsFrom_escape (escapeFrom_control hc) h m
  · rw [heq]
    exact charsFrom_plain hq hs hc h m

end

theorem charsFrom_escaped (cs rest : List Char) (m : Mark) :
    (charsFrom ⟨cs.flatMap escapeChar ++ '"' :: rest, m⟩).Yields cs rest := by
  induction cs generalizing m with
  | nil => exact charsFrom_quote m
  | cons c cs ih =>
    rw [List.flatMap_cons, List.append_assoc]
    exact charsFrom_escapeChar c ih m

/-- The text of a string, after its opening quote, is read as the string. -/
theorem stringFrom_escaped (s : String) (rest : List Char) (m : Mark) :
    (stringFrom ⟨s.toList.flatMap escapeChar ++ '"' :: rest, m⟩).Yields s rest := by
  have h := (charsFrom_escaped s.toList rest m).map String.ofList
  rwa [String.ofList_toList] at h

/-! ### The grammar -/

/-- A string with its quotes. -/
def quoted (s : String) : List Char :=
  '"' :: (s.toList.flatMap escapeChar ++ ['"'])

mutual
/-- The text is JSON for the value, with at most `n` levels of arrays and objects. -/
inductive Spells : Nat → Json → List Char → Prop where
  | null {n : Nat} : Spells n .null ['n', 'u', 'l', 'l']
  | isTrue {n : Nat} : Spells n (.bool true) ['t', 'r', 'u', 'e']
  | isFalse {n : Nat} : Spells n (.bool false) ['f', 'a', 'l', 's', 'e']
  | string {n : Nat} (s : String) : Spells n (.string s) (quoted s)
  | emptyArray {n : Nat} {gap : List Char} : IsGap gap →
      Spells (n + 1) (.array []) ('[' :: (gap ++ [']']))
  | array {n : Nat} {gap text tail : List Char} {v : Json} {vs : List Json} : IsGap gap →
      Spells n v text → Elements n vs tail →
      Spells (n + 1) (.array (v :: vs)) ('[' :: (gap ++ (text ++ tail)))
  | emptyObject {n : Nat} {gap : List Char} : IsGap gap →
      Spells (n + 1) (.object []) ('\x7b' :: (gap ++ ['\x7d']))
  | object {n : Nat} {gap text tail : List Char} {v : String × Json} {vs : List (String × Json)} :
      IsGap gap → Member n v text → Members n vs tail →
      Spells (n + 1) (.object (Assoc.ofPairs (v :: vs))) ('\x7b' :: (gap ++ (text ++ tail)))

/-- What stands behind an element of an array, through the closing bracket. -/
inductive Elements : Nat → List Json → List Char → Prop where
  | close {n : Nat} {gap : List Char} : IsGap gap → Elements n [] (gap ++ [']'])
  | more {n : Nat} {gap gap' text tail : List Char} {v : Json} {vs : List Json} : IsGap gap →
      IsGap gap' → Spells n v text → Elements n vs tail →
      Elements n (v :: vs) (gap ++ ',' :: (gap' ++ (text ++ tail)))

/-- A member of an object: its key, a colon and its value. -/
inductive Member : Nat → String × Json → List Char → Prop where
  | intro {n : Nat} {gap gap' text : List Char} {v : Json} (key : String) : IsGap gap →
      IsGap gap' → Spells n v text →
      Member n (key, v) (quoted key ++ (gap ++ ':' :: (gap' ++ text)))

/-- What stands behind a member of an object, through the closing brace. -/
inductive Members : Nat → List (String × Json) → List Char → Prop where
  | close {n : Nat} {gap : List Char} : IsGap gap → Members n [] (gap ++ ['\x7d'])
  | more {n : Nat} {gap gap' text tail : List Char} {v : String × Json}
      {vs : List (String × Json)} : IsGap gap → IsGap gap' → Member n v text →
      Members n vs tail → Members n (v :: vs) (gap ++ ',' :: (gap' ++ (text ++ tail)))
end

/-- A value begins with neither a blank nor a closing bracket. -/
theorem Spells.head {n : Nat} {v : Json} {text : List Char} (h : Spells n v text) :
    ∃ c cs, text = c :: cs ∧ Input.isGap c = false ∧ c ≠ ']' := by
  cases h with
  | null => exact ⟨_, _, rfl, by decide, by decide⟩
  | isTrue | isFalse | string => exact ⟨_, _, rfl, by decide, by decide⟩
  | emptyArray | array | emptyObject | object => exact ⟨_, _, rfl, by decide, by decide⟩

theorem Spells.bare {n : Nat} {v : Json} {text : List Char} (h : Spells n v text)
    (rest : List Char) : Bare (text ++ rest) := by
  obtain ⟨c, cs, rfl, hc, _⟩ := h.head
  exact bare_cons hc

theorem Member.head {n : Nat} {v : String × Json} {text : List Char} (h : Member n v text) :
    ∃ cs, text = '"' :: cs := by
  cases h with
  | intro key => exact ⟨_, rfl⟩

theorem Member.bare {n : Nat} {v : String × Json} {text : List Char} (h : Member n v text)
    (rest : List Char) : Bare (text ++ rest) := by
  obtain ⟨cs, rfl⟩ := h.head
  exact bare_cons (by decide)

/-! ### The loops over elements and members -/

section
variable {value : ValueReader} {i : Input} {r rest rest' : List Char} {m m' : Mark} {c : Char}

theorem elementsFrom_close (h : i.trim = ⟨']' :: r, m⟩) : (elementsFrom value i).Yields [] r := by
  rw [elementsFrom]
  split
  next h' => rw [h] at h'; cases h'
  next h' =>
    rw [h] at h'
    cases h'
    exact Parsed.yields_ok

theorem elementsFrom_more {v : Json} {vs : List Json} (h : i.trim = ⟨',' :: r, m⟩)
    (hnext : (Input.mk r (m.shift 1)).trim = ⟨c :: rest, m'⟩) (hc : c ≠ ']')
    (hv : (value ⟨c :: rest, m'⟩).Yields v rest') {tail : List Char}
    (hvs : ∀ m, (elementsFrom value ⟨rest', m⟩).Yields vs tail) :
    (elementsFrom value i).Yields (v :: vs) tail := by
  have hsome : ¬ (Input.mk r (m.shift 1)).trim.rest.isEmpty = true := by simp [hnext]
  have hgoes : ¬ (Input.mk r (m.shift 1)).trim.rest.head? = some ']' := by simpa [hnext] using hc
  rw [← hnext] at hv
  rw [elementsFrom]
  split
  next h' => rw [h] at h'; cases h'
  next h' =>
    rw [h] at h'
    cases h'
    simp only [Char.reduceEq, if_true, if_neg hsome, if_neg hgoes, if_false]
    exact (hv.widen _).andThen fun m hm => ((hvs m).map _).widen _

theorem arrayFrom_close (h : i.trim = ⟨']' :: r, m⟩) : (arrayFrom value i).Yields (.array []) r := by
  unfold arrayFrom
  split
  next h' => rw [h] at h'; cases h'
  next h' =>
    rw [h] at h'
    cases h'
    exact Parsed.yields_ok

theorem arrayFrom_more {v : Json} {vs : List Json} (h : i.trim = ⟨c :: r, m⟩) (hc : c ≠ ']')
    (hv : (value ⟨c :: r, m⟩).Yields v rest) {tail : List Char}
    (hvs : ∀ m, (elementsFrom value ⟨rest, m⟩).Yields vs tail) :
    (arrayFrom value i).Yields (.array (v :: vs)) tail := by
  rw [← h] at hv
  unfold arrayFrom
  split
  next h' => rw [h] at h'; cases h'
  next h' =>
    rw [h] at h'
    cases h'
    rw [if_neg hc]
    exact (hv.widen _).andThen fun m hm => ((hvs m).map _).widen _

theorem memberFrom_key {key : String} {v : Json}
    (hkey : (stringFrom ⟨r, m.shift 1⟩).Yields key rest)
    (hcolon : ∀ m, ∃ m', (Input.mk rest m).trim = ⟨':' :: rest', m'⟩) {tail : List Char}
    (hv : ∀ m, (value ⟨rest', m⟩).Yields v tail) :
    (memberFrom value ⟨'"' :: r, m⟩).Yields (key, v) tail := by
  unfold memberFrom
  simp only [if_true]
  refine (hkey.widen _).andThen fun m₁ hm₁ => ?_
  obtain ⟨m₂, htrim⟩ := hcolon m₁
  split
  next h' => rw [htrim] at h'; cases h'
  next h' =>
    rw [htrim] at h'
    cases h'
    simp only [if_true]
    exact ((hv _).map _).widen _

theorem membersFrom_close (h : i.trim = ⟨'\x7d' :: r, m⟩) : (membersFrom value i).Yields [] r := by
  rw [membersFrom]
  split
  next h' => rw [h] at h'; cases h'
  next h' =>
    rw [h] at h'
    cases h'
    exact Parsed.yields_ok

theorem membersFrom_more {v : String × Json} {vs : List (String × Json)}
    (h : i.trim = ⟨',' :: r, m⟩) (hnext : (Input.mk r (m.shift 1)).trim = ⟨c :: rest, m'⟩)
    (hc : c ≠ '\x7d') (hv : (memberFrom value ⟨c :: rest, m'⟩).Yields v rest') {tail : List Char}
    (hvs : ∀ m, (membersFrom value ⟨rest', m⟩).Yields vs tail) :
    (membersFrom value i).Yields (v :: vs) tail := by
  have hsome : ¬ (Input.mk r (m.shift 1)).trim.rest.isEmpty = true := by simp [hnext]
  have hgoes : ¬ (Input.mk r (m.shift 1)).trim.rest.head? = some '\x7d' := by
    simpa [hnext] using hc
  rw [← hnext] at hv
  rw [membersFrom]
  split
  next h' => rw [h] at h'; cases h'
  next h' =>
    rw [h] at h'
    cases h'
    simp only [Char.reduceEq, if_true, if_neg hsome, if_neg hgoes, if_false]
    exact (hv.widen _).andThen fun m hm => ((hvs m).map _).widen _

theorem objectFrom_close (h : i.trim = ⟨'\x7d' :: r, m⟩) :
    (objectFrom value i).Yields (.object []) r := by
  unfold objectFrom
  split
  next h' => rw [h] at h'; cases h'
  next h' =>
    rw [h] at h'
    cases h'
    exact Parsed.yields_ok

theorem objectFrom_more {v : String × Json} {vs : List (String × Json)} (h : i.trim = ⟨c :: r, m⟩)
    (hc : c ≠ '\x7d') (hv : (memberFrom value ⟨c :: r, m⟩).Yields v rest) {tail : List Char}
    (hvs : ∀ m, (membersFrom value ⟨rest, m⟩).Yields vs tail) :
    (objectFrom value i).Yields (.object (Assoc.ofPairs (v :: vs))) tail := by
  rw [← h] at hv
  unfold objectFrom
  split
  next h' => rw [h] at h'; cases h'
  next h' =>
    rw [h] at h'
    cases h'
    rw [if_neg hc]
    exact (hv.widen _).andThen fun m hm => ((hvs m).map _).widen _

end

/-! ### Values -/

theorem keywordFrom_append {i : Input} (v : Json) (letters rest : List Char) (m : Mark)
    (h : (Input.mk (letters ++ rest) m).size < i.size) :
    (keywordFrom v letters ⟨letters ++ rest, m⟩ h).Yields v rest := by
  induction letters generalizing m with
  | nil => exact Parsed.yields_ok
  | cons l letters ih =>
    simp only [keywordFrom, List.cons_append, if_true]
    exact ih _ _

section
variable (inner : Option ValueReader) (rest : List Char) (m : Mark)

theorem bareValue_null : (bareValue inner ⟨['n', 'u', 'l', 'l'] ++ rest, m⟩).Yields .null rest :=
  keywordFrom_append .null ['u', 'l', 'l'] rest _ (Input.size_tail_lt ..)

theorem bareValue_true :
    (bareValue inner ⟨['t', 'r', 'u', 'e'] ++ rest, m⟩).Yields (.bool true) rest :=
  keywordFrom_append (.bool true) ['r', 'u', 'e'] rest _ (Input.size_tail_lt ..)

theorem bareValue_false :
    (bareValue inner ⟨['f', 'a', 'l', 's', 'e'] ++ rest, m⟩).Yields (.bool false) rest :=
  keywordFrom_append (.bool false) ['a', 'l', 's', 'e'] rest _ (Input.size_tail_lt ..)

theorem bareValue_string (s : String) :
    (bareValue inner ⟨quoted s ++ rest, m⟩).Yields (.string s) rest := by
  rw [quoted, List.cons_append, List.append_assoc]
  exact ((stringFrom_escaped s rest _).map _).widen (Nat.le_of_lt (Input.size_tail_lt ..))

end

theorem bareValue_array {value : ValueReader} {v : Json} {r rest : List Char}
    (h : ∀ m, (arrayFrom value ⟨r, m⟩).Yields v rest) (m : Mark) :
    (bareValue (some value) ⟨'[' :: r, m⟩).Yields v rest :=
  (h _).widen (Nat.le_of_lt (Input.size_tail_lt ..))

theorem bareValue_object {value : ValueReader} {v : Json} {r rest : List Char}
    (h : ∀ m, (objectFrom value ⟨r, m⟩).Yields v rest) (m : Mark) :
    (bareValue (some value) ⟨'\x7b' :: r, m⟩).Yields v rest :=
  (h _).widen (Nat.le_of_lt (Input.size_tail_lt ..))

theorem valueFrom_bare {n : Nat} {gap cs rest : List Char} {v : Json} (hgap : IsGap gap)
    (hcs : Bare cs) (h : ∀ inner m, (bareValue inner ⟨cs, m⟩).Yields v rest) (m : Mark) :
    (valueFrom n ⟨gap ++ cs, m⟩).Yields v rest := by
  obtain ⟨m', htrim⟩ := Input.trim_gap hgap hcs m
  have hbare : ∀ inner, (bareValue inner (Input.mk (gap ++ cs) m).trim).Yields v rest := by
    rw [htrim]
    exact fun inner => h inner m'
  cases n with
  | zero => exact (hbare _).widen _
  | succ n => exact (hbare _).widen _

theorem valueFrom_nested {n : Nat} {gap cs rest : List Char} {v : Json} (hgap : IsGap gap)
    (hcs : Bare cs) (h : ∀ m, (bareValue (some (valueFrom n)) ⟨cs, m⟩).Yields v rest) (m : Mark) :
    (valueFrom (n + 1) ⟨gap ++ cs, m⟩).Yields v rest := by
  obtain ⟨m', htrim⟩ := Input.trim_gap hgap hcs m
  have hbare := h m'
  rw [← htrim] at hbare
  exact hbare.widen _

mutual
/-- **A text is read as the value that it spells**, from any blanks in front of it up to
whatever follows it. -/
theorem Spells.reads {n : Nat} {v : Json} {text gap : List Char} (hgap : IsGap gap)
    (rest : List Char) (m : Mark) : Spells n v text →
    (valueFrom n ⟨gap ++ (text ++ rest), m⟩).Yields v rest
  | .null => valueFrom_bare hgap (bare_cons (by decide)) (fun _ _ => bareValue_null ..) m
  | .isTrue => valueFrom_bare hgap (bare_cons (by decide)) (fun _ _ => bareValue_true ..) m
  | .isFalse => valueFrom_bare hgap (bare_cons (by decide)) (fun _ _ => bareValue_false ..) m
  | .string _ => valueFrom_bare hgap (bare_cons (by decide)) (fun _ _ => bareValue_string ..) m
  | .emptyArray h => by
    rw [List.cons_append, List.append_assoc]
    refine valueFrom_nested hgap (bare_cons (by decide)) (bareValue_array fun m => ?_) m
    obtain ⟨m', htrim⟩ := Input.trim_gap_cons h (by decide : Input.isGap ']' = false) rest m
    exact arrayFrom_close htrim
  | @Spells.array n gap' text tail v vs h hv hvs => by
    rw [List.cons_append, List.append_assoc, List.append_assoc]
    refine valueFrom_nested hgap (bare_cons (by decide)) (bareValue_array fun m => ?_) m
    obtain ⟨m', htrim⟩ := Input.trim_gap h (hv.bare (tail ++ rest)) m
    have hfirst := hv.reads isGap_nil (tail ++ rest) m'
    obtain ⟨c, cs, htext, _, hc⟩ := hv.head
    rw [htext, List.cons_append] at htrim hfirst ⊢
    exact arrayFrom_more htrim hc hfirst fun m => hvs.reads rest m
  | .emptyObject h => by
    rw [List.cons_append, List.append_assoc]
    refine valueFrom_nested hgap (bare_cons (by decide)) (bareValue_object fun m => ?_) m
    obtain ⟨m', htrim⟩ := Input.trim_gap_cons h (by decide : Input.isGap '\x7d' = false) rest m
    exact objectFrom_close htrim
  | @Spells.object n gap' text tail v vs h hv hvs => by
    rw [List.cons_append, List.append_assoc, List.append_assoc]
    refine valueFrom_nested hgap (bare_cons (by decide)) (bareValue_object fun m => ?_) m
    obtain ⟨m', htrim⟩ := Input.trim_gap h (hv.bare (tail ++ rest)) m
    have hfirst := hv.reads (tail ++ rest) m'
    obtain ⟨cs, htext⟩ := hv.head
    rw [htext, List.cons_append] at htrim hfirst ⊢
    exact objectFrom_more htrim (by decide) hfirst fun m => hvs.reads rest m

theorem Elements.reads {n : Nat} {vs : List Json} {tail : List Char} (rest : List Char) (m : Mark) :
    Elements n vs tail → (elementsFrom (valueFrom n) ⟨tail ++ rest, m⟩).Yields vs rest
  | .close h => by
    rw [List.append_assoc]
    obtain ⟨m', htrim⟩ := Input.trim_gap_cons h (by decide : Input.isGap ']' = false) rest m
    exact elementsFrom_close htrim
  | @Elements.more n gap gap' text tail v vs h h' hv hvs => by
    rw [List.append_assoc, List.cons_append, List.append_assoc, List.append_assoc]
    obtain ⟨m₁, hcomma⟩ := Input.trim_gap_cons h (by decide : Input.isGap ',' = false)
      (gap' ++ (text ++ (tail ++ rest))) m
    obtain ⟨m₂, htrim⟩ := Input.trim_gap h' (hv.bare (tail ++ rest)) (m₁.shift 1)
    have hfirst := hv.reads isGap_nil (tail ++ rest) m₂
    obtain ⟨c, cs, htext, _, hc⟩ := hv.head
    rw [htext, List.cons_append] at hcomma htrim hfirst ⊢
    exact elementsFrom_more hcomma htrim hc hfirst fun m => hvs.reads rest m

theorem Member.reads {n : Nat} {v : String × Json} {text : List Char} (rest : List Char) (m : Mark) :
    Member n v text → (memberFrom (valueFrom n) ⟨text ++ rest, m⟩).Yields v rest
  | @Member.intro n gap gap' text v key h h' hv => by
    have hcolon := Input.trim_gap_cons h (by decide : Input.isGap ':' = false)
      (gap' ++ (text ++ rest))
    have hkey := stringFrom_escaped key (gap ++ ':' :: (gap' ++ (text ++ rest))) (m.shift 1)
    have htext : quoted key ++ (gap ++ ':' :: (gap' ++ text)) ++ rest =
        '"' :: (key.toList.flatMap escapeChar ++ '"' :: (gap ++ ':' :: (gap' ++ (text ++ rest)))) := by
      simp [quoted]
    rw [htext]
    exact memberFrom_key hkey hcolon fun m => hv.reads h' rest m

theorem Members.reads {n : Nat} {vs : List (String × Json)} {tail : List Char} (rest : List Char)
    (m : Mark) : Members n vs tail → (membersFrom (valueFrom n) ⟨tail ++ rest, m⟩).Yields vs rest
  | .close h => by
    rw [List.append_assoc]
    obtain ⟨m', htrim⟩ := Input.trim_gap_cons h (by decide : Input.isGap '\x7d' = false) rest m
    exact membersFrom_close htrim
  | @Members.more n gap gap' text tail v vs h h' hv hvs => by
    rw [List.append_assoc, List.cons_append, List.append_assoc, List.append_assoc]
    obtain ⟨m₁, hcomma⟩ := Input.trim_gap_cons h (by decide : Input.isGap ',' = false)
      (gap' ++ (text ++ (tail ++ rest))) m
    obtain ⟨m₂, htrim⟩ := Input.trim_gap h' (hv.bare (tail ++ rest)) (m₁.shift 1)
    have hfirst := hv.reads (tail ++ rest) m₂
    obtain ⟨cs, htext⟩ := hv.head
    rw [htext, List.cons_append] at hcomma htrim hfirst ⊢
    exact membersFrom_more hcomma htrim (by decide) hfirst fun m => hvs.reads rest m
end

/-- A whole text is read as the value that it spells within the limit. -/
theorem read_spells {v : Json} {text : String} (h : Spells depthLimit v text.toList) :
    read text = .ok v := by
  have htext : Input.ofString text = ⟨[] ++ (text.toList ++ []), .start⟩ := by
    simp [Input.ofString]
  have hvalue : (valueFrom depthLimit (Input.ofString text)).Yields v [] := by
    rw [htext]
    exact h.reads isGap_nil [] .start
  obtain ⟨m, hm, hread⟩ := hvalue
  rw [read, hread]
  rfl

end LittleC.Json
