import LittleC.Proofs.Holes
import LittleC.Proofs.Leaves
import LittleC.Proofs.Scanning

/-! The characters of compact JSON texts. Outside the strings of a value they are brackets,
commas, colons and the characters of numbers and words; inside, what would break a line is
escaped and almost everything else is written as it is.

So a compact text has no control character (`Json.compact_printable`), and it has the sequence
that closes a comment of C exactly where one of its strings has it (`Json.closes_compact_iff`). -/
namespace LittleC

theorem Made.mono {Q R : Char → Prop} {s : String} (h : Made Q s) (hQR : ∀ c, Q c → R c) :
    Made R s :=
  fun c hc => hQR c (h c hc)

/-! ### Texts inside a comment -/

/-- The text has the sequence that closes a comment of C. -/
def Closes (cs : List Char) : Prop :=
  ['*', '/'] <:+: cs

instance : DecidablePred Closes :=
  fun _ => inferInstanceAs (Decidable (_ <:+: _))

/-- The text can stand in a comment, whatever comes behind it: it has no closing sequence, and
does not end with the first half of one. -/
structure Inside (cs : List Char) : Prop where
  not_closes : ¬ Closes cs
  last : cs.getLast? ≠ some '*'

theorem closes_cons_iff {c : Char} {cs : List Char} :
    Closes (c :: cs) ↔ (c = '*' ∧ cs.head? = some '/') ∨ Closes cs := by
  have hprefix : ['*', '/'] <+: c :: cs ↔ c = '*' ∧ cs.head? = some '/' := by
    cases cs <;> simp [eq_comm]
  rw [Closes, List.infix_cons_iff, hprefix]
  rfl

namespace Inside

variable {a b cs : List Char}

theorem of_not_mem (h : '*' ∉ cs) : Inside cs := by
  refine ⟨fun hcloses => h (hcloses.mem (List.mem_cons_self ..)), fun hlast => h ?_⟩
  exact List.mem_of_getLast? hlast

theorem not_closes_append (ha : Inside a) (hb : ¬ Closes b) : ¬ Closes (a ++ b) := by
  induction a with
  | nil => exact hb
  | cons c rest ih =>
    rw [List.cons_append, closes_cons_iff]
    rintro (⟨rfl, hslash⟩ | hrest)
    · cases rest with
      | nil => exact ha.last rfl
      | cons d rest =>
        exact ha.not_closes (closes_cons_iff.mpr (.inl ⟨rfl, hslash⟩))
    · refine ih ⟨fun h => ha.not_closes (closes_cons_iff.mpr (.inr h)), fun hlast => ha.last ?_⟩ hrest
      rw [List.getLast?_cons, hlast]
      rfl

/-- A character that has no part in the closing sequence keeps what is behind it apart. -/
theorem concat {c : Char} (ha : ¬ Closes a) (hstar : c ≠ '*') (hslash : c ≠ '/') :
    Inside (a ++ [c]) := by
  refine ⟨?_, by simpa using hstar⟩
  induction a with
  | nil =>
    intro h
    exact hstar (List.mem_singleton.mp (h.mem (List.mem_cons_self ..))).symm
  | cons d rest ih =>
    rw [closes_cons_iff, not_or] at ha
    rw [List.cons_append, closes_cons_iff]
    rintro (⟨hd, hhead⟩ | h)
    · cases rest with
      | nil => exact hslash (Option.some.inj hhead)
      | cons e others => exact ha.1 ⟨hd, hhead⟩
    · exact ih ha.2 h

theorem append (ha : Inside a) (hb : Inside b) : Inside (a ++ b) := by
  refine ⟨ha.not_closes_append hb.not_closes, ?_⟩
  rw [List.getLast?_append]
  cases hlast : b.getLast? with
  | none => exact ha.last
  | some c => exact fun h => hb.last (hlast.trans h)

theorem intercalate {sep : String} {parts : List String} (hsep : Inside sep.toList)
    (hparts : ∀ part ∈ parts, Inside part.toList) : Inside (sep.intercalate parts).toList := by
  induction parts with
  | nil => exact of_not_mem (by simp)
  | cons first rest ih =>
    obtain ⟨hfirst, hrest⟩ := List.forall_mem_cons.mp hparts
    cases rest with
    | nil => simpa using hfirst
    | cons second others =>
      rw [String.intercalate_cons_cons, String.toList_append, String.toList_append]
      exact (hfirst.append hsep).append (ih hrest)

end Inside

namespace Json

/-! ### Numbers -/

/-- A digit, a sign, the point or the mark of an exponent. -/
def IsNumeral (c : Char) : Prop :=
  c.isDigit = true ∨ c ∈ ['-', '+', '.', 'e']

theorem isNumeral_toDigits {n : Nat} : ∀ c ∈ Nat.toDigits 10 n, IsNumeral c :=
  fun _ hc => .inl (Nat.isDigit_of_mem_toDigits (by decide) (by decide) hc)

theorem isNumeral_zeros {n : Nat} : ∀ c ∈ List.replicate n '0', IsNumeral c :=
  fun _ hc => List.eq_of_mem_replicate hc ▸ .inl rfl

theorem made_toString (n : Int) : Made IsNumeral (toString n) := by
  have hnat : ∀ m : Nat, Made IsNumeral m.repr := by
    intro m
    rw [Nat.repr_eq_ofList_toDigits, Made, String.toList_ofList]
    exact isNumeral_toDigits
  rw [Int.toString_eq_repr, Int.repr_eq_if]
  split
  · exact hnat _
  · refine .append ?_ (hnat _)
    simp [Made, IsNumeral]

theorem Double.made_text (x : Double) : Made IsNumeral x.text := by
  have hsign : Made IsNumeral (if x.negative then "-" else "") := by
    split <;> simp [Made, IsNumeral]
  unfold Double.text
  extract_lets sign d digits point e fraction mark body
  have hdigits : ∀ c ∈ digits, IsNumeral c := isNumeral_toDigits
  have htake : ∀ n, ∀ c ∈ digits.take n, IsNumeral c := fun n c hc =>
    hdigits c (List.mem_of_mem_take hc)
  have hdrop : ∀ n, ∀ c ∈ digits.drop n, IsNumeral c := fun n c hc =>
    hdigits c (List.mem_of_mem_drop hc)
  have hpoint : IsNumeral '.' := .inr (by decide)
  have hzero : IsNumeral '0' := .inl rfl
  have hbody : ∀ c ∈ body, IsNumeral c := by
    simp only [body]
    split
    · split
      · simp only [List.forall_mem_append]
        exact ⟨⟨hdigits, isNumeral_zeros⟩, by simp [hpoint, hzero]⟩
      split
      · exact List.forall_mem_append.mpr ⟨htake _, List.forall_mem_cons.mpr ⟨hpoint, hdrop _⟩⟩
      · refine List.forall_mem_append.mpr ⟨?_, hdigits⟩
        exact List.forall_mem_cons.mpr ⟨hzero, List.forall_mem_cons.mpr ⟨hpoint, isNumeral_zeros⟩⟩
    · have hfraction : ∀ c ∈ fraction, IsNumeral c := by
        simp only [fraction]
        split
        · exact List.forall_mem_nil _
        · exact List.forall_mem_cons.mpr ⟨hpoint, hdrop 1⟩
      have hmark : IsNumeral mark := by
        simp only [mark]
        split
        · exact .inr (by decide)
        · exact .inr (by decide)
      have hletter : IsNumeral 'e' := .inr (by decide)
      simp only [List.forall_mem_append, List.forall_mem_cons]
      exact ⟨⟨htake 1, hfraction⟩, hletter, hmark, isNumeral_toDigits⟩
  split
  · refine hsign.append ?_
    simp [Made, IsNumeral]
  · refine hsign.append ?_
    rwa [Made, String.toList_ofList]

theorem Number.made_text : (n : Number) → Made IsNumeral n.text
  | .whole n => made_toString n
  | .double x => x.made_text

theorem IsNumeral.printable {c : Char} (h : IsNumeral c) : 0x20 ≤ c.toNat := by
  rcases h with h | h
  · have := isWordPart_bounds (c := c) (by simp [ScanRule.isWordPart, Char.isAlphanum, h])
    omega
  · simp only [List.mem_cons, List.not_mem_nil, or_false] at h
    rcases h with rfl | rfl | rfl | rfl <;> decide

theorem IsNumeral.ne_star {c : Char} (h : IsNumeral c) : c ≠ '*' := by
  rintro rfl
  rcases h with h | h
  · exact absurd h (by decide)
  · exact absurd h (by decide)

/-! ### Strings -/

theorem hexDigit_cases {P : Char → Prop} (h : ∀ m : Fin 16, P (Nat.digitChar m)) (n : Nat) :
    P (hexDigit n) :=
  h ⟨n % 16, Nat.mod_lt n (by decide)⟩

theorem escapeChar_printable (c : Char) : ∀ d ∈ escapeChar c, 0x20 ≤ d.toNat := by
  have hhex : ∀ n, 0x20 ≤ (hexDigit n).toNat :=
    hexDigit_cases (P := fun d => 0x20 ≤ d.toNat) (by decide)
  unfold escapeChar
  repeat' split
  all_goals simp [hhex]
  omega

/-- A star is written for a star only. -/
theorem star_mem_escapeChar {c : Char} (h : '*' ∈ escapeChar c) : c = '*' := by
  have hhex : ∀ n, '*' ≠ hexDigit n := hexDigit_cases (P := fun d => '*' ≠ d) (by decide)
  revert h
  unfold escapeChar
  repeat' split
  all_goals simp [hhex, eq_comm]

/-- A slash is written first for a slash only. -/
theorem slash_head_escapeChar {c : Char} (h : (escapeChar c).head? = some '/') : c = '/' := by
  revert h
  unfold escapeChar
  repeat' split
  all_goals simp

theorem escapeChar_ne_nil (c : Char) : escapeChar c ≠ [] := by
  unfold escapeChar
  repeat' split
  all_goals simp

theorem closes_escaped_iff {cs : List Char} : Closes (cs.flatMap escapeChar) ↔ Closes cs := by
  induction cs with
  | nil => rfl
  | cons c rest ih =>
    rw [List.flatMap_cons]
    by_cases hc : c = '*'
    · subst hc
      -- Behind a star a slash is written where the next character is one.
      have hhead : (rest.flatMap escapeChar).head? = some '/' ↔ rest.head? = some '/' := by
        cases rest with
        | nil => simp
        | cons d others =>
          have hfirst : (escapeChar d ++ others.flatMap escapeChar).head? = (escapeChar d).head? := by
            rw [List.head?_append, Option.or_of_isSome]
            simpa using escapeChar_ne_nil d
          rw [List.flatMap_cons, hfirst]
          constructor
          · intro h
            rw [slash_head_escapeChar h]
            rfl
          · intro h
            rw [Option.some.inj h]
            rfl
      show Closes ('*' :: rest.flatMap escapeChar) ↔ _
      rw [closes_cons_iff, closes_cons_iff, ih, hhead]
    · have hinside : Inside (escapeChar c) := .of_not_mem fun h => hc (star_mem_escapeChar h)
      rw [closes_cons_iff, ← ih]
      constructor
      · intro h
        refine .inr (Decidable.byContradiction fun hrest => ?_)
        exact hinside.not_closes_append hrest h
      · rintro (⟨rfl, _⟩ | h)
        · exact absurd rfl hc
        · exact h.trans (List.suffix_append _ _).isInfix

/-! ### Values -/

/-- An item between brackets, or the like. -/
theorem infix_items {opening closing item : String} {items : List String} (h : item ∈ items) :
    item.toList <:+: (opening ++ String.intercalate "," items ++ closing).toList := by
  rw [String.toList_append, String.toList_append]
  exact (Layout.infix_intercalate h).trans (List.infix_append _ _ _)

mutual
/-- The strings in a value, keys among them. -/
def strings : Json → List String
  | string s => [s]
  | array elements => stringsAll elements
  | object members => stringsMembers members
  | null | bool _ | number _ => []

def stringsAll : List Json → List String
  | [] => []
  | v :: rest => strings v ++ stringsAll rest

def stringsMembers : List (String × Json) → List String
  | [] => []
  | (k, v) :: rest => k :: (strings v ++ stringsMembers rest)
end

/-- A printable character: none of those that are escaped as control characters. -/
def Printable (c : Char) : Prop :=
  0x20 ≤ c.toNat

instance : DecidablePred Printable :=
  fun _ => inferInstanceAs (Decidable (_ ≤ _))

theorem stringText_printable (s : String) : Made Printable (stringText s) := by
  have hquote : Made Printable "\"" := .of_all (by decide)
  have hinner : Made Printable (String.ofList (s.toList.flatMap escapeChar)) := by
    intro c hc
    rw [String.toList_ofList, List.mem_flatMap] at hc
    obtain ⟨d, _, hc⟩ := hc
    exact escapeChar_printable d c hc
  exact (hquote.append hinner).append hquote

theorem boolText_printable (b : Bool) : Made Printable (boolText b) := by
  cases b <;> exact .of_all (by decide)

mutual
/-- Control characters are escaped. -/
theorem compact_printable : (v : Json) → Made Printable v.compact
  | null => .of_all (by decide)
  | bool b => boolText_printable b
  | number n => n.made_text.mono fun _ => IsNumeral.printable
  | string s => stringText_printable s
  | array elements => by
    have hitems : Made Printable (String.intercalate "," (compactAll elements)) :=
      .intercalate (.of_all (by decide)) (compactAll_printable elements)
    exact (Made.append (.of_all (by decide)) hitems).append (.of_all (by decide))
  | object members => by
    have hitems : Made Printable (String.intercalate "," (compactMembers members)) :=
      .intercalate (.of_all (by decide)) (compactMembers_printable members)
    exact (Made.append (.of_all (by decide)) hitems).append (.of_all (by decide))

theorem compactAll_printable : (vs : List Json) → ∀ text ∈ compactAll vs, Made Printable text
  | [] => List.forall_mem_nil _
  | v :: rest => List.forall_mem_cons.mpr ⟨v.compact_printable, compactAll_printable rest⟩

theorem compactMembers_printable : (members : List (String × Json)) →
    ∀ text ∈ compactMembers members, Made Printable text
  | [] => List.forall_mem_nil _
  | (k, v) :: rest => by
    refine List.forall_mem_cons.mpr ⟨?_, compactMembers_printable rest⟩
    exact ((stringText_printable k).append (.of_all (by decide))).append v.compact_printable
end

theorem toList_stringText_eq (s : String) :
    (stringText s).toList = ['"'] ++ (s.toList.flatMap escapeChar ++ ['"']) := by
  simp [stringText]

theorem inside_stringText {s : String} (h : ¬ Closes s.toList) : Inside (stringText s).toList := by
  have hinner : Inside (s.toList.flatMap escapeChar ++ ['"']) :=
    .concat (fun hc => h (closes_escaped_iff.mp hc)) (by decide) (by decide)
  rw [toList_stringText_eq]
  exact (Inside.of_not_mem (by decide)).append hinner

/-- Items between brackets, or the like. -/
theorem inside_items {opening closing : String} {items : List String}
    (hopening : '*' ∉ opening.toList) (hclosing : '*' ∉ closing.toList)
    (hitems : ∀ item ∈ items, Inside item.toList) :
    Inside (opening ++ String.intercalate "," items ++ closing).toList := by
  rw [String.toList_append, String.toList_append]
  have hinner : Inside (String.intercalate "," items).toList :=
    .intercalate (.of_not_mem (by decide)) hitems
  exact ((Inside.of_not_mem hopening).append hinner).append (.of_not_mem hclosing)

mutual
theorem inside_compact : (v : Json) → (∀ s ∈ v.strings, ¬ Closes s.toList) →
    Inside v.compact.toList
  | null, _ => .of_not_mem (by decide)
  | bool b, _ => by cases b <;> exact .of_not_mem (by decide)
  | number n, _ => .of_not_mem fun h => (n.made_text _ h).ne_star rfl
  | string s, h => inside_stringText (h s (List.mem_singleton_self s))
  | array elements, h => inside_items (by decide) (by decide) (inside_compactAll elements h)
  | object members, h => inside_items (by decide) (by decide) (inside_compactMembers members h)

theorem inside_compactAll : (vs : List Json) → (∀ s ∈ stringsAll vs, ¬ Closes s.toList) →
    ∀ text ∈ compactAll vs, Inside text.toList
  | [], _ => List.forall_mem_nil _
  | v :: rest, h => by
    obtain ⟨hv, hrest⟩ := List.forall_mem_append.mp h
    exact List.forall_mem_cons.mpr ⟨inside_compact v hv, inside_compactAll rest hrest⟩

theorem inside_compactMembers : (members : List (String × Json)) →
    (∀ s ∈ stringsMembers members, ¬ Closes s.toList) →
    ∀ text ∈ compactMembers members, Inside text.toList
  | [], _ => List.forall_mem_nil _
  | (k, v) :: rest, h => by
    obtain ⟨hk, hmore⟩ := List.forall_mem_cons.mp h
    obtain ⟨hv, hrest⟩ := List.forall_mem_append.mp hmore
    refine List.forall_mem_cons.mpr ⟨?_, inside_compactMembers rest hrest⟩
    rw [String.toList_append, String.toList_append]
    exact ((inside_stringText hk).append (.of_not_mem (by decide))).append (inside_compact v hv)
end

mutual
/-- Every string of a value stands in its compact text. -/
theorem stringText_stands : (v : Json) → ∀ s ∈ v.strings,
    (stringText s).toList <:+: v.compact.toList
  | null, _, hs | bool _, _, hs | number _, _, hs => absurd hs List.not_mem_nil
  | string t, s, hs => by
    rw [List.mem_singleton.mp hs]
    exact List.infix_refl _
  | array elements, s, hs => by
    obtain ⟨text, htext, hinfix⟩ := stringText_stands_all elements s hs
    exact hinfix.trans (infix_items htext)
  | object members, s, hs => by
    obtain ⟨text, htext, hinfix⟩ := stringText_stands_members members s hs
    exact hinfix.trans (infix_items htext)

theorem stringText_stands_all : (vs : List Json) → ∀ s ∈ stringsAll vs,
    ∃ text ∈ compactAll vs, (stringText s).toList <:+: text.toList
  | [], _, hs => absurd hs List.not_mem_nil
  | v :: rest, s, hs => by
    rcases List.mem_append.mp hs with hs | hs
    · exact ⟨v.compact, List.mem_cons_self .., stringText_stands v s hs⟩
    · obtain ⟨text, htext, hinfix⟩ := stringText_stands_all rest s hs
      exact ⟨text, List.mem_cons_of_mem _ htext, hinfix⟩

theorem stringText_stands_members : (members : List (String × Json)) → ∀ s ∈ stringsMembers members,
    ∃ text ∈ compactMembers members, (stringText s).toList <:+: text.toList
  | [], _, hs => absurd hs List.not_mem_nil
  | (k, v) :: rest, s, hs => by
    rcases List.mem_cons.mp hs with rfl | hs
    · refine ⟨_, List.mem_cons_self .., ?_⟩
      rw [String.toList_append, String.toList_append, List.append_assoc]
      exact (List.prefix_append _ _).isInfix
    rcases List.mem_append.mp hs with hs | hs
    · refine ⟨_, List.mem_cons_self .., (stringText_stands v s hs).trans ?_⟩
      rw [String.toList_append]
      exact (List.suffix_append _ _).isInfix
    · obtain ⟨text, htext, hinfix⟩ := stringText_stands_members rest s hs
      exact ⟨text, List.mem_cons_of_mem _ htext, hinfix⟩
end

/-- A compact text closes a comment exactly where a string of the value does. -/
theorem closes_compact_iff (v : Json) :
    Closes v.compact.toList ↔ ∃ s ∈ v.strings, Closes s.toList := by
  constructor
  · intro h
    refine Decidable.byContradiction fun hnone => ?_
    exact (inside_compact v fun s hs hc => hnone ⟨s, hs, hc⟩).not_closes h
  · rintro ⟨s, hs, hc⟩
    have htext : Closes (stringText s).toList := by
      rw [toList_stringText_eq]
      exact (closes_escaped_iff.mpr hc).trans (List.infix_append' _ _ _)
    exact htext.trans (stringText_stands v s hs)

end Json
end LittleC
