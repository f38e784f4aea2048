import LittleC.Proofs.JsonGrammar

/-! JSON texts are read back. Both layouts of a value spell it (`spells_compact`,
`spells_prettyAt`), so that reading either gives the value, as long as it nests no deeper
than reading goes. A value may hold no numbers here, and an object has its members in key
order, which is the order in which reading puts them. -/
namespace LittleC

namespace Assoc

variable {α : Type}

theorem insert_last {key : String} {value : α} {entries : List (String × α)}
    (h : ∀ e ∈ entries, e.1 < key) : insert key value entries = entries ++ [(key, value)] := by
  induction entries with
  | nil => rfl
  | cons entry rest ih =>
    obtain ⟨hfirst, hrest⟩ := List.forall_mem_cons.mp h
    obtain ⟨k, v⟩ := entry
    have hne : key ≠ k := (String.ne_of_lt hfirst).symm
    rw [insert, if_neg hne, if_neg (String.lt_asymm hfirst), ih hrest, List.cons_append]

theorem insertAll_sorted {entries pairs : List (String × α)}
    (h : (entries ++ pairs).Pairwise fun a b => a.1 < b.1) :
    insertAll entries pairs = entries ++ pairs := by
  induction pairs generalizing entries with
  | nil => rw [List.append_nil]; rfl
  | cons p rest ih =>
    have hbefore : ∀ e ∈ entries, e.1 < p.1 := fun e he =>
      (List.pairwise_append.mp h).2.2 e he p (List.mem_cons_self ..)
    have hsplit : entries ++ p :: rest = entries ++ [p] ++ rest := by simp
    rw [hsplit] at h ⊢
    show insertAll (insert p.1 p.2 entries) rest = _
    rw [insert_last hbefore]
    exact ih h

/-- Entries in the order of their keys stay as they are. -/
theorem ofPairs_sorted {pairs : List (String × α)} (h : pairs.Pairwise fun a b => a.1 < b.1) :
    ofPairs pairs = pairs := by
  have hall : insertAll [] pairs = [] ++ pairs := insertAll_sorted h
  exact hall

end Assoc

namespace Json

/-! ### Values and their depth -/

mutual
/-- A value without numbers whose objects have their members in key order. -/
def Plain : Json → Prop
  | null | bool _ | string _ => True
  | number _ => False
  | array elements => PlainAll elements
  | object members => (members.Pairwise fun a b => a.1 < b.1) ∧ PlainMembers members

def PlainAll : List Json → Prop
  | [] => True
  | v :: rest => v.Plain ∧ PlainAll rest

def PlainMembers : List (String × Json) → Prop
  | [] => True
  | (_, v) :: rest => v.Plain ∧ PlainMembers rest
end

mutual
/-- How deep arrays and objects nest in a value, and so in its texts. -/
def nesting : Json → Nat
  | null | bool _ | number _ | string _ => 0
  | array elements => nestingAll elements + 1
  | object members => nestingMembers members + 1

def nestingAll : List Json → Nat
  | [] => 0
  | v :: rest => max v.nesting (nestingAll rest)

def nestingMembers : List (String × Json) → Nat
  | [] => 0
  | (_, v) :: rest => max v.nesting (nestingMembers rest)
end

/-! ### Items between brackets -/

/-- Items with commas between them. One gap stands in front of every item, the other one
behind the last. -/
def enclosed (opening closing : Char) (gap gap' : List Char) : List (List Char) → List Char
  | [] => [opening, closing]
  | t :: ts =>
    opening :: (gap ++ (t ++ (ts.flatMap (fun u => ',' :: (gap ++ u)) ++ (gap' ++ [closing]))))

theorem toList_intercalate_cons (sep first : String) (items : List String) :
    (String.intercalate sep (first :: items)).toList =
      first.toList ++ items.flatMap fun t => sep.toList ++ t.toList := by
  induction items generalizing first with
  | nil => simp
  | cons t items ih =>
    rw [String.intercalate_cons_cons, String.toList_append, String.toList_append, ih]
    simp

section
variable {n : Nat} {gap gap' : List Char}

theorem elements_enclosed {text : Json → List Char} (hgap : IsGap gap) (hgap' : IsGap gap')
    {vs : List Json} (h : ∀ v ∈ vs, Spells n v (text v)) :
    Elements n vs ((vs.map text).flatMap (fun u => ',' :: (gap ++ u)) ++ (gap' ++ [']'])) := by
  induction vs with
  | nil => exact .close hgap'
  | cons v vs ih =>
    obtain ⟨hv, hvs⟩ := List.forall_mem_cons.mp h
    have hmore := Elements.more isGap_nil hgap hv (ih hvs)
    simpa using hmore

theorem spells_array {text : Json → List Char} (hgap : IsGap gap) (hgap' : IsGap gap')
    {vs : List Json} (h : ∀ v ∈ vs, Spells n v (text v)) :
    Spells (n + 1) (.array vs) (enclosed '[' ']' gap gap' (vs.map text)) := by
  cases vs with
  | nil => exact .emptyArray isGap_nil
  | cons v vs =>
    obtain ⟨hv, hvs⟩ := List.forall_mem_cons.mp h
    exact .array hgap hv (elements_enclosed hgap hgap' hvs)

theorem members_enclosed {text : String × Json → List Char} (hgap : IsGap gap) (hgap' : IsGap gap')
    {vs : List (String × Json)} (h : ∀ v ∈ vs, Member n v (text v)) :
    Members n vs ((vs.map text).flatMap (fun u => ',' :: (gap ++ u)) ++ (gap' ++ ['\x7d'])) := by
  induction vs with
  | nil => exact .close hgap'
  | cons v vs ih =>
    obtain ⟨hv, hvs⟩ := List.forall_mem_cons.mp h
    have hmore := Members.more isGap_nil hgap hv (ih hvs)
    simpa using hmore

theorem spells_object {text : String × Json → List Char} (hgap : IsGap gap) (hgap' : IsGap gap')
    {vs : List (String × Json)} (hsorted : vs.Pairwise fun a b => a.1 < b.1)
    (h : ∀ v ∈ vs, Member n v (text v)) :
    Spells (n + 1) (.object vs) (enclosed '\x7b' '\x7d' gap gap' (vs.map text)) := by
  cases vs with
  | nil => exact .emptyObject isGap_nil
  | cons v vs =>
    obtain ⟨hv, hvs⟩ := List.forall_mem_cons.mp h
    have hspells := Spells.object hgap hv (members_enclosed hgap hgap' hvs)
    rwa [Assoc.ofPairs_sorted hsorted] at hspells

end

/-! ### Scalars -/

theorem toList_stringText (s : String) : (stringText s).toList = quoted s := by
  simp [stringText, quoted]

theorem spells_boolText (n : Nat) (b : Bool) : Spells n (.bool b) (boolText b).toList := by
  cases b with
  | true => exact .isTrue
  | false => exact .isFalse

theorem spells_stringText (n : Nat) (s : String) : Spells n (.string s) (stringText s).toList := by
  rw [toList_stringText]
  exact .string s

/-! ### The compact text -/

theorem compactAll_eq_map (vs : List Json) : compactAll vs = vs.map compact := by
  induction vs with
  | nil => rfl
  | cons v rest ih => rw [compactAll, ih, List.map_cons]

theorem compactMembers_eq_map (vs : List (String × Json)) :
    compactMembers vs = vs.map fun v => stringText v.1 ++ ":" ++ compact v.2 := by
  induction vs with
  | nil => rfl
  | cons v rest ih => rw [compactMembers, ih, List.map_cons]

theorem enclosed_compact (opening closing : Char) (items : List String) :
    opening :: ((String.intercalate "," items).toList ++ [closing]) =
      enclosed opening closing [] [] (items.map String.toList) := by
  cases items with
  | nil => simp [enclosed]
  | cons t ts =>
    rw [toList_intercalate_cons]
    simp [enclosed, List.flatMap_map]

theorem toList_compact_array (vs : List Json) : (compact (.array vs)).toList =
    enclosed '[' ']' [] [] (vs.map fun v => (compact v).toList) := by
  have h := enclosed_compact '[' ']' (vs.map compact)
  rw [List.map_map] at h
  rw [compact, compactAll_eq_map]
  simpa [Function.comp_def] using h

theorem toList_compact_object (vs : List (String × Json)) : (compact (.object vs)).toList =
    enclosed '\x7b' '\x7d' [] []
      (vs.map fun v => quoted v.1 ++ ':' :: (compact v.2).toList) := by
  have h := enclosed_compact '\x7b' '\x7d' (vs.map fun v => stringText v.1 ++ ":" ++ compact v.2)
  rw [List.map_map] at h
  rw [compact, compactMembers_eq_map]
  simpa [Function.comp_def, toList_stringText] using h

mutual
/-- **The compact text spells the value.** -/
theorem spells_compact : (v : Json) → v.Plain → {n : Nat} → v.nesting ≤ n →
    Spells n v (compact v).toList
  | null, _, _, _ => .null
  | bool b, _, n, _ => spells_boolText n b
  | string s, _, n, _ => spells_stringText n s
  | array vs, h, n + 1, hn => by
    rw [toList_compact_array]
    exact spells_array isGap_nil isGap_nil (spells_compactAll vs h (Nat.le_of_succ_le_succ hn))
  | object vs, h, n + 1, hn => by
    rw [toList_compact_object]
    exact spells_object isGap_nil isGap_nil h.1
      (spells_compactMembers vs h.2 (Nat.le_of_succ_le_succ hn))

theorem spells_compactAll : (vs : List Json) → PlainAll vs → {n : Nat} → nestingAll vs ≤ n →
    ∀ v ∈ vs, Spells n v (compact v).toList
  | [], _, _, _ => List.forall_mem_nil _
  | v :: rest, h, n, hn => by
    obtain ⟨hv, hrest⟩ := Nat.max_le.mp hn
    exact List.forall_mem_cons.mpr
      ⟨spells_compact v h.1 hv, spells_compactAll rest h.2 hrest⟩

theorem spells_compactMembers : (vs : List (String × Json)) → PlainMembers vs → {n : Nat} →
    nestingMembers vs ≤ n → ∀ v ∈ vs, Member n v (quoted v.1 ++ ':' :: (compact v.2).toList)
  | [], _, _, _ => List.forall_mem_nil _
  | (key, v) :: rest, h, n, hn => by
    obtain ⟨hv, hrest⟩ := Nat.max_le.mp hn
    exact List.forall_mem_cons.mpr
      ⟨.intro key isGap_nil isGap_nil (spells_compact v h.1 hv),
        spells_compactMembers rest h.2 hrest⟩
end

/-! ### The pretty text -/

section
variable (indent : String)

theorem prettyAll_eq_map (vs : List Json) : prettyAll indent vs = vs.map (prettyAt indent) := by
  induction vs with
  | nil => rfl
  | cons v rest ih => rw [prettyAll, ih, List.map_cons]

theorem prettyMembers_eq_map (vs : List (String × Json)) :
    prettyMembers indent vs = vs.map fun v => stringText v.1 ++ ": " ++ prettyAt indent v.2 := by
  induction vs with
  | nil => rfl
  | cons v rest ih => rw [prettyMembers, ih, List.map_cons]

/-- The gap in front of a line. -/
def newline : List Char :=
  '\n' :: indent.toList

theorem toList_spread (opening closing : Char) (items : List String) :
    (spread (String.singleton opening) (String.singleton closing) indent items).toList =
      enclosed opening closing (newline (indent ++ "  ")) (newline indent)
        (items.map String.toList) := by
  cases items with
  | nil => simp [spread, enclosed]
  | cons t ts =>
    simp only [spread, List.isEmpty_cons, Bool.false_eq_true, if_false, String.toList_append,
      toList_intercalate_cons]
    simp [enclosed, newline, List.flatMap_map]

theorem toList_pretty_array (vs : List Json) : (prettyAt indent (.array vs)).toList =
    enclosed '[' ']' (newline (indent ++ "  ")) (newline indent)
      (vs.map fun v => (prettyAt (indent ++ "  ") v).toList) := by
  have h := toList_spread indent '[' ']' (vs.map (prettyAt (indent ++ "  ")))
  rw [List.map_map] at h
  rw [prettyAt, prettyAll_eq_map]
  exact h

theorem toList_pretty_object (vs : List (String × Json)) : (prettyAt indent (.object vs)).toList =
    enclosed '\x7b' '\x7d' (newline (indent ++ "  ")) (newline indent)
      (vs.map fun v => quoted v.1 ++ ':' :: ' ' :: (prettyAt (indent ++ "  ") v.2).toList) := by
  have h := toList_spread indent '\x7b' '\x7d'
    (vs.map fun v => stringText v.1 ++ ": " ++ prettyAt (indent ++ "  ") v.2)
  rw [List.map_map] at h
  rw [prettyAt, prettyMembers_eq_map]
  simpa [Function.comp_def, toList_stringText] using h

end

theorem isGap_space : IsGap [' '] :=
  List.forall_mem_singleton.mpr rfl

theorem isGap_newline {indent : String} (h : IsGap indent.toList) : IsGap (newline indent) :=
  List.forall_mem_cons.mpr ⟨by decide, h⟩

theorem isGap_indent {indent : String} (h : IsGap indent.toList) :
    IsGap (indent ++ "  ").toList := by
  have hspaces : IsGap "  ".toList := by simp [IsGap, Input.isGap]
  rw [String.toList_append]
  exact List.forall_mem_append.mpr ⟨h, hspaces⟩

mutual
/-- **The pretty text spells the value**, wherever its lines begin. -/
theorem spells_prettyAt : (v : Json) → v.Plain → {n : Nat} → v.nesting ≤ n → {indent : String} →
    IsGap indent.toList → Spells n v (prettyAt indent v).toList
  | null, _, _, _, _, _ => by
    rw [prettyAt]
    exact .null
  | bool b, _, n, _, _, _ => spells_boolText n b
  | string s, _, n, _, _, _ => spells_stringText n s
  | array vs, h, n + 1, hn, indent, hi => by
    rw [toList_pretty_array]
    exact spells_array (isGap_newline (isGap_indent hi)) (isGap_newline hi)
      (spells_prettyAll vs h (Nat.le_of_succ_le_succ hn) (isGap_indent hi))
  | object vs, h, n + 1, hn, indent, hi => by
    rw [toList_pretty_object]
    exact spells_object (isGap_newline (isGap_indent hi)) (isGap_newline hi) h.1
      (spells_prettyMembers vs h.2 (Nat.le_of_succ_le_succ hn) (isGap_indent hi))

theorem spells_prettyAll : (vs : List Json) → PlainAll vs → {n : Nat} → nestingAll vs ≤ n →
    {indent : String} → IsGap indent.toList → ∀ v ∈ vs, Spells n v (prettyAt indent v).toList
  | [], _, _, _, _, _ => List.forall_mem_nil _
  | v :: rest, h, n, hn, indent, hi => by
    obtain ⟨hv, hrest⟩ := Nat.max_le.mp hn
    exact List.forall_mem_cons.mpr
      ⟨spells_prettyAt v h.1 hv hi, spells_prettyAll rest h.2 hrest hi⟩

theorem spells_prettyMembers : (vs : List (String × Json)) → PlainMembers vs → {n : Nat} →
    nestingMembers vs ≤ n → {indent : String} → IsGap indent.toList →
    ∀ v ∈ vs, Member n v (quoted v.1 ++ ':' :: ' ' :: (prettyAt indent v.2).toList)
  | [], _, _, _, _, _ => List.forall_mem_nil _
  | (key, v) :: rest, h, n, hn, indent, hi => by
    obtain ⟨hv, hrest⟩ := Nat.max_le.mp hn
    exact List.forall_mem_cons.mpr
      ⟨.intro key isGap_nil isGap_space (spells_prettyAt v h.1 hv hi),
        spells_prettyMembers rest h.2 hrest hi⟩
end

/-! ### Reading texts -/

theorem read_compact {v : Json} (h : v.Plain) (hn : v.nesting ≤ depthLimit) :
    read v.compact = .ok v :=
  read_spells (spells_compact v h hn)

theorem read_pretty {v : Json} (h : v.Plain) (hn : v.nesting ≤ depthLimit) :
    read v.pretty = .ok v :=
  read_spells (spells_prettyAt v h hn (List.forall_mem_nil _))

end Json
end LittleC
